import CodeGauge.Proofs.Source.Clean

/-!
# Plain lines

A source in which no line holds a quote or the start of a comment has nothing to strip
(`stripped_of_plain`): neither can arise where a line ends.
-/

namespace CodeGauge

namespace Source

/-- A line without quotes and without the start of a comment. -/
structure Plain (line : Text) : Prop where
  noQuote : ∀ c ∈ line, isQuote c = false
  noLineComment : ¬ ['/', '/'] <:+: line
  noBlockComment : ¬ ['/', '*'] <:+: line

instance (line : Text) : Decidable (Plain line) :=
  decidable_of_iff (line.any isQuote = false ∧ ¬ ['/', '/'] <:+: line ∧ ¬ ['/', '*'] <:+: line)
    ⟨fun h => ⟨by simpa using h.1, h.2.1, h.2.2⟩,
      fun h => ⟨by simpa using h.noQuote, h.noLineComment, h.noBlockComment⟩⟩

theorem Plain.tail {c : Char} {line : Text} (h : Plain (c :: line)) : Plain line where
  noQuote d there := h.noQuote d (List.mem_cons_of_mem _ there)
  noLineComment there := h.noLineComment (List.infix_cons there)
  noBlockComment there := h.noBlockComment (List.infix_cons there)

/-- After a plain line a clean text goes on, if it does not complete the start of a comment. -/
theorem Plain.clean_append {line rest : Text} (h : Plain line) (clean : Clean rest)
    (slash : rest.head? ≠ some '/') (star : rest.head? ≠ some '*') : Clean (line ++ rest) := by
  induction line with
  | nil => exact clean
  | cons c line ih =>
    have apart {d : Char} (first : rest.head? ≠ some d) (no : ¬ ['/', d] <:+: c :: line) :
        c = '/' → (line ++ rest).head? ≠ some d := by
      rintro rfl
      cases line with
      | nil => exact first
      | cons e line =>
        intro same
        obtain rfl : e = d := by simpa using same
        exact no (List.prefix_append ['/', e] line).isInfix
    exact (ih h.tail).plain (h.noQuote c List.mem_cons_self) (apart slash h.noLineComment)
      (apart star h.noBlockComment)

theorem Plain.append_return {line : Text} (h : Plain line) : Plain (line ++ ['\r']) := by
  have clean : Clean ['\r'] := Clean.nil.plain rfl (by simp) (by simp)
  have both := h.clean_append clean (by decide) (by decide)
  refine ⟨fun c there => ?_, both.noLineComment, both.noBlockComment⟩
  rcases List.mem_append.1 there with there | there
  · exact h.noQuote c there
  · rw [List.mem_singleton.1 there]
    rfl

theorem plain_of_closeLines {pieces : List Text}
    (plain : ∀ line ∈ Text.closeLines pieces, Plain line) :
    ∀ piece ∈ pieces, Plain piece := by
  fun_induction Text.closeLines pieces with
  | case1 => simp
  | case2 last empty =>
    intro piece there
    obtain rfl : last = [] := by simpa using empty
    rw [List.mem_singleton.1 there]
    exact ⟨by simp, by simp, by simp⟩
  | case3 last _ => exact plain
  | case4 piece pieces _ ih =>
    intro other there
    rcases List.mem_cons.1 there with rfl | there
    · have closed := plain _ List.mem_cons_self
      unfold Text.dropReturn at closed
      split at closed
      · rename_i carriage
        obtain ⟨front, rfl⟩ := List.getLast?_eq_some_iff.1 carriage
        rw [List.dropLast_concat] at closed
        exact closed.append_return
      · exact closed
    · exact ih (fun line listed => plain line (List.mem_cons_of_mem _ listed)) other there

theorem clean_join {pieces : List Text} (plain : ∀ piece ∈ pieces, Plain piece) :
    Clean (Text.join ['\n'] pieces) := by
  induction pieces with
  | nil => exact .nil
  | cons piece pieces ih =>
    have first := plain piece List.mem_cons_self
    cases pieces with
    | nil =>
      have alone := first.clean_append .nil (by simp) (by simp)
      simpa [Text.join] using alone
    | cons next pieces =>
      have rest := ih fun other there => plain other (List.mem_cons_of_mem _ there)
      rw [Text.join_cons_cons]
      exact first.clean_append rest.newline (by simp) (by simp)

theorem join_linesOf (t : Text) : Text.join ['\n'] (linesOf t) = t := by
  induction t with
  | nil => rfl
  | cons c t ih =>
    obtain ⟨line, more, split, cons⟩ := linesOf_cons t
    by_cases newline : c = '\n'
    · have empty : linesOf (c :: t) = [] :: line :: more :=
        (Text.splitWhere_sep (by simp [newline]) t).trans (congrArg _ split)
      rw [empty, Text.join_cons_cons, ← split, ih, newline]
      rfl
    · rw [split] at ih
      rw [cons c newline, ← ih]
      cases more with
      | nil => simp [Text.join]
      | cons next more => rw [Text.join_cons_cons, Text.join_cons_cons, List.cons_append]

/-- A source with plain lines has nothing to strip. -/
theorem stripped_of_plain {s : Text} (plain : ∀ line ∈ Text.lines s, Plain line) :
    stripped s = s := by
  have pieces : ∀ piece ∈ linesOf s, Plain piece := plain_of_closeLines plain
  have clean := clean_join pieces
  have noQuote : '"' ∉ s := by
    intro there
    rw [← join_linesOf s] at there
    rcases Text.mem_join there with newline | ⟨piece, member, there⟩
    · simp at newline
    · exact absurd ((pieces piece member).noQuote _ there) (by decide)
  rw [join_linesOf] at clean
  exact clean.stripped_eq fun opens => noQuote (opens.subset (by simp [tripleQuote]))

end Source

end CodeGauge
