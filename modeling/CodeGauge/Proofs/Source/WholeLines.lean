import CodeGauge.Proofs.Source.Contents
import CodeGauge.Proofs.Source.Plain

/-!
# Sources made of whole lines

A source whose last line is ended, and which ends outside comments and literals, can be read apart
from what follows it: its lines and those that follow are the lines of both together
(`WholeLines.trimmedLines_append`).
-/

namespace CodeGauge

namespace Text

/-- Whether the last line of a text is ended. -/
def Ended (t : Text) : Prop := ∀ c ∈ t.getLast?, c = '\n'

instance (t : Text) : Decidable (Ended t) :=
  decidable_of_iff (t.getLast?.all (· = '\n') = true) (by simp [Ended, Option.all_eq_true])

theorem Ended.eq_nil_or_concat {t : Text} (h : Ended t) :
    t = [] ∨ ∃ front, t = front ++ ['\n'] := by
  obtain rfl | ⟨front, c, rfl⟩ := List.eq_nil_or_concat' t
  · exact .inl rfl
  · exact .inr ⟨front, by rw [h c (by simp)]⟩

theorem closeLines_append (pieces : List Text) {more : List Text} (some_piece : more ≠ []) :
    closeLines (pieces ++ more) = pieces.map dropReturn ++ closeLines more := by
  induction pieces with
  | nil => rfl
  | cons piece pieces ih =>
    obtain ⟨next, others, same⟩ : ∃ next others, pieces ++ more = next :: others :=
      List.exists_cons_of_ne_nil (by simp [some_piece])
    rw [List.cons_append, same, closeLines, ← same, ih, List.map_cons, List.cons_append]
    simp

theorem lines_append {t : Text} (ended : Ended t) (u : Text) :
    lines (t ++ u) = lines t ++ lines u := by
  rcases ended.eq_nil_or_concat with rfl | ⟨front, rfl⟩
  · rfl
  · have split (v : Text) : lines (front ++ '\n' :: v) =
        (splitWhere (· == '\n') front).map dropReturn ++ lines v := by
      rw [lines, splitWhere_append_sep rfl, closeLines_append _ (splitWhere_ne_nil _ _), lines]
    have alone := split []
    rw [List.append_assoc, List.singleton_append, split, alone]
    simp [lines, splitWhere, closeLines]

end Text

namespace Source

theorem getLast?_strip (region : Region) {p : Text} (h : p.getLast? = some '\n') :
    (strip region p).getLast? = some '\n' := by
  -- What is left of a text is read last, or the character before it was the newline, which stays.
  have rest_or {c : Char} {t : Text} (last : (c :: t).getLast? = some '\n') :
      t = [] ∧ c = '\n' ∨ t.getLast? = some '\n' := by
    cases t with
    | nil => exact .inl ⟨rfl, by simpa using last⟩
    | cons d t => exact .inr (by simpa [List.getLast?_cons_cons] using last)
  fun_induction strip region p with
  | case1 => exact h
  | _ => grind [List.getLast?_cons, strip]

/-- A source whose last line is ended and which ends outside comments and literals. -/
structure WholeLines (p : Text) : Prop where
  region : regionAfter .code p = .code
  ended : Text.Ended p

instance (p : Text) : Decidable (WholeLines p) :=
  decidable_of_iff (regionAfter .code p = .code ∧ Text.Ended p)
    ⟨fun h => ⟨h.1, h.2⟩, fun h => ⟨h.1, h.2⟩⟩

theorem WholeLines.outside {p : Text} (h : WholeLines p) : Outside p where
  region := h.region
  blank c last := by rw [h.ended c last]; rfl

/-- What is left of whole lines, and of what follows them, can be read line by line apart. -/
theorem WholeLines.trimmedLines_append {p : Text} (h : WholeLines p) (q : Text) :
    Text.trimmedLines (stripped (p ++ q)) =
      Text.trimmedLines (stripped p) ++ Text.trimmedLines (stripped q) := by
  have ended : Text.Ended (stripped p) := by
    rcases h.ended.eq_nil_or_concat with rfl | ⟨front, rfl⟩
    · simp [Text.Ended, stripped, strip]
    · have last := getLast?_strip .code (p := front ++ ['\n']) (by simp)
      simp [Text.Ended, stripped, last]
  rw [h.outside.stripped_append, Text.trimmedLines, Text.lines_append ended, List.map_append]
  rfl

theorem WholeLines.append {p q : Text} (h : WholeLines p) (h' : WholeLines q) :
    WholeLines (p ++ q) where
  region := by rw [regionAfter_append h.outside.isSeam, h.region, h'.region]
  ended := by
    obtain rfl | some_char := eq_or_ne q []
    · simpa using h.ended
    · rw [Text.Ended, List.getLast?_append_of_ne_nil _ some_char]
      exact h'.ended

theorem WholeLines.replicate {p : Text} (h : WholeLines p) (n : Nat) :
    WholeLines (List.replicate n p).flatten := by
  induction n with
  | zero => exact ⟨rfl, by simp [Text.Ended]⟩
  | succ n ih =>
    rw [List.replicate_succ, List.flatten_cons]
    exact h.append ih

theorem Plain.stripped_eq {t : Text} (h : Plain t) : stripped t = t := by
  have clean : Clean t := by simpa using h.clean_append .nil (by simp) (by simp)
  refine clean.stripped_eq fun opens => ?_
  have quote := h.noQuote '"' (opens.subset (by simp [tripleQuote]))
  simp [isQuote] at quote

theorem Plain.regionAfter_eq {t : Text} (h : Plain t) : regionAfter .code t = .code := by
  induction t with
  | nil => rfl
  | cons c t ih =>
    have quote : c ≠ '"' ∧ c ≠ '\'' := by simpa [isQuote] using h.noQuote c List.mem_cons_self
    have opens {d : Char} (no : ¬ ['/', d] <:+: c :: t) : ∀ more, c = '/' → t ≠ d :: more := by
      rintro more rfl rfl
      exact no (List.prefix_append ['/', d] more).isInfix
    rw [regionAfter, ih h.tail]
    · exact opens h.noLineComment
    · exact opens h.noBlockComment
    · exact fun _ same => absurd same quote.1
    · exact quote.1
    · exact quote.2

theorem Plain.wholeLines {t : Text} (h : Plain t) (ended : Text.Ended t) : WholeLines t :=
  ⟨h.regionAfter_eq, ended⟩

end Source

end CodeGauge
