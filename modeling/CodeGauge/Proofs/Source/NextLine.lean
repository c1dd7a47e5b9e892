import CodeGauge.Proofs.Source.LineBreaks
import CodeGauge.Proofs.Source.WholeLines

/-!
# A source that goes on in the next line

At the end of a line all comments and literals end but block comments and text blocks. So a source
that ends outside those, be it in the middle of a line, can be read apart from what follows in the
next line: the lines of both together are the lines of the one and those of the other, with an empty
line between them at most (`trimmedLines_nextLine`).
-/

namespace CodeGauge

namespace Text

theorem trimEnd_concat {c : Char} (blank : isBlank c = true) (t : Text) :
    trimEnd (t ++ [c]) = trimEnd t := by
  simp [trimEnd, blank]

theorem trim_concat {c : Char} (blank : isBlank c = true) (t : Text) :
    trim (t ++ [c]) = trim t := by
  by_cases empty : trimStart t = []
  · have blanks : ∀ d ∈ t ++ [c], isBlank d = true := by
      simpa [or_imp, forall_and, blank] using trimStart_eq_nil_iff.1 empty
    rw [trim, trim, empty, trimStart_eq_nil_iff.2 blanks]
  · rw [trim, trimStart_append empty, trimEnd_concat blank, trim]

/-- A carriage return at the end of a line is white space. -/
theorem trim_dropReturn (line : Text) : trim (dropReturn line) = trim line := by
  unfold dropReturn
  split
  · rename_i last
    obtain ⟨front, rfl⟩ := List.getLast?_eq_some_iff.1 last
    rw [List.dropLast_concat, trim_concat (by decide)]
  · rfl

/-- Whether a text is ended by a line end or not, its lines are the same but for an empty one. -/
theorem trimmedLines_concat (t : Text) :
    trimmedLines (t ++ ['\n']) = trimmedLines t ∨
      trimmedLines (t ++ ['\n']) = trimmedLines t ++ [[]] := by
  have ended : lines (t ++ ['\n']) = (splitWhere (· == '\n') t).map dropReturn := by
    rw [lines, splitWhere_append_sep rfl, closeLines_append _ (splitWhere_ne_nil _ _)]
    simp [splitWhere, closeLines]
  obtain ⟨pieces, last, split⟩ :=
    (List.eq_nil_or_concat' _).resolve_left (splitWhere_ne_nil (· == '\n') t)
  have whole : lines t = pieces.map dropReturn ++ closeLines [last] := by
    rw [lines, split, closeLines_append _ (by simp)]
  rw [trimmedLines, trimmedLines, ended, whole, split]
  by_cases empty : last = []
  · right
    simp [empty, closeLines, dropReturn, trim, trimStart, trimEnd]
  · left
    simp [empty, closeLines, trim_dropReturn]

end Text

namespace Source

/-- Whether a region goes on behind a line end. -/
def Region.spansLines : Region → Bool
  | .blockComment _ | .textBlock _ _ => true
  | .code | .lineComment | .literal _ _ => false

/-- A line end does not complete an opening. -/
theorem concat_ne (opening : Text) {rest : Text} (oneLine : '\n' ∉ opening)
    (other : ∀ more, rest ≠ opening ++ more) : ∀ more, rest ++ ['\n'] ≠ opening ++ more := by
  intro more same
  rcases List.prefix_concat_iff.1 ⟨more, same.symm⟩ with whole | ⟨more', start⟩
  · exact oneLine (by simp [whole])
  · exact other more' start.symm

theorem slash_concat_ne {c d : Char} {rest : Text} (visible : d ≠ '\n')
    (other : ∀ more, c = '/' → rest ≠ d :: more) : ∀ more, c = '/' → rest ++ ['\n'] ≠ d :: more :=
  fun more slash => concat_ne [d] (by simpa using visible.symm) (fun rest => other rest slash) more

/-- A line end is left in place. -/
theorem strip_concat (region : Region) (p : Text) :
    strip region (p ++ ['\n']) = strip region p ++ ['\n'] := by
  fun_induction regionAfter region p with
  | case1 region => cases region <;> simp [strip]
  -- These two read on because no opening stands here; a line end behind the text must not complete
  -- one.
  | case5 rest other ih =>
    rw [List.cons_append, strip_quote (concat_ne ['"', '"'] (by decide) other),
      strip_quote other, ih]
    rfl
  | case7 c rest slash star _ quote apostrophe ih =>
    have slash' := slash_concat_ne (by decide) slash
    have star' := slash_concat_ne (by decide) star
    rw [List.cons_append, strip_plain slash' star' quote apostrophe,
      strip_plain slash star quote apostrophe, ih]
    rfl
  | case12 star c rest goesOn inside ih =>
    simp only [List.cons_append, strip, goesOn, inside, Bool.false_eq_true, if_false]
    exact ih
  | _ => simp_all [strip]

/-- Behind a line end there is code, if no region is open that goes on. -/
theorem regionAfter_concat {region : Region} {p : Text}
    (ends : (regionAfter region p).spansLines = false) :
    regionAfter region (p ++ ['\n']) = .code := by
  fun_induction regionAfter region p with
  | case1 region => cases region <;> simp_all [regionAfter, Region.spansLines]
  | case5 rest other ih =>
    rw [List.cons_append, regionAfter]
    · exact ih ends
    · exact concat_ne ['"', '"'] (by decide) other
  | case7 c rest slash star _ quote apostrophe ih =>
    rw [List.cons_append, regionAfter]
    · exact ih ends
    · exact slash_concat_ne (by decide) slash
    · exact slash_concat_ne (by decide) star
    · exact fun _ same => absurd same quote
    · exact quote
    · exact apostrophe
  | _ => simp_all [regionAfter]

/-- What is left of a source and of what follows in the next line can be read line by line apart, if
the source ends outside block comments and text blocks. -/
theorem trimmedLines_nextLine {a : Text} (ends : (regionAfter .code a).spansLines = false)
    (b : Text) :
    ∃ gap, (gap = [] ∨ gap = [[]]) ∧ Text.trimmedLines (stripped (a ++ '\n' :: b)) =
      Text.trimmedLines (stripped a) ++ (gap ++ Text.trimmedLines (stripped b)) := by
  have whole : WholeLines (a ++ ['\n']) := ⟨regionAfter_concat ends, by simp [Text.Ended]⟩
  have apart := whole.trimmedLines_append b
  rw [List.append_assoc, List.singleton_append] at apart
  have line : stripped (a ++ ['\n']) = stripped a ++ ['\n'] := strip_concat .code a
  rw [apart, line]
  rcases Text.trimmedLines_concat (stripped a) with same | empty
  · exact ⟨[], .inl rfl, by rw [same, List.nil_append]⟩
  · exact ⟨[[]], .inr rfl, by rw [empty, List.append_assoc]⟩

end Source

end CodeGauge
