import Mathlib.Data.List.Infix
import CodeGauge.Proofs.Source.Lines
import CodeGauge.Proofs.Source.Regions

/-!
# Stripped sources are clean

When comments and the contents of literals are left out, what stood apart comes together. Yet no new
comment opens there, and quotes stand in pairs (`strip_clean`). A clean text is stripped already
(`Clean.stripped_eq`), with one exception: two empty literals side by side look like the opening of
a text block.
-/

namespace CodeGauge

namespace Source

/-- Quotes stand in pairs of the same kind, side by side, between other characters. -/
inductive Paired : Text → Prop where
  | nil : Paired []
  | plain {c : Char} {rest : Text} (other : isQuote c = false) : Paired rest → Paired (c :: rest)
  | pair {q : Char} {rest : Text} (quotes : isQuote q = true) : Paired rest →
    Paired (q :: q :: rest)

/-- A text whose quotes stand in pairs and in which no comment opens. -/
structure Clean (t : Text) : Prop where
  paired : Paired t
  noLineComment : ¬ ['/', '/'] <:+: t
  noBlockComment : ¬ ['/', '*'] <:+: t

/-- The opening of a text block. -/
def tripleQuote : Text := ['"', '"', '"']

theorem Clean.nil : Clean [] := ⟨.nil, by simp, by simp⟩

/-- A character before a text makes no opening with it, unless it is a slash. -/
theorem not_infix_cons {c d : Char} {t : Text} (apart : c = '/' → t.head? ≠ some d)
    (h : ¬ ['/', d] <:+: t) : ¬ ['/', d] <:+: c :: t := by
  rw [List.infix_cons_iff]
  rintro (opens | later)
  · obtain ⟨rfl, rest, rfl⟩ := List.cons_prefix_cons.1 opens
    exact apart rfl rfl
  · exact h later

theorem Clean.plain {c : Char} {t : Text} (other : isQuote c = false)
    (slash : c = '/' → t.head? ≠ some '/') (star : c = '/' → t.head? ≠ some '*') (h : Clean t) :
    Clean (c :: t) :=
  ⟨.plain other h.paired, not_infix_cons slash h.noLineComment,
    not_infix_cons star h.noBlockComment⟩

theorem Clean.pair {q : Char} {t : Text} (quotes : isQuote q = true) (h : Clean t) :
    Clean (q :: q :: t) := by
  have slash : q ≠ '/' := by rintro rfl; simp [isQuote] at quotes
  have apart {t : Text} {d : Char} (h : ¬ ['/', d] <:+: t) : ¬ ['/', d] <:+: q :: q :: t :=
    not_infix_cons (absurd · slash) (not_infix_cons (absurd · slash) h)
  exact ⟨.pair quotes h.paired, apart h.noLineComment, apart h.noBlockComment⟩

theorem Clean.newline {t : Text} (h : Clean t) : Clean ('\n' :: t) :=
  h.plain rfl (by simp) (by simp)

/-- A text that does not start with a slash does not start with a comment, and so its first
character stays. -/
theorem head?_strip_code {t : Text} (noSlash : t.head? ≠ some '/') :
    (strip .code t).head? = t.head? := by
  cases t with
  | nil => simp [strip]
  | cons c t => unfold strip; split <;> simp_all

theorem strip_clean (region : Region) (s : Text) : Clean (strip region s) := by
  fun_induction strip region s with
  | case1 => exact .nil
  | case4 rest ih | case5 rest _ ih | case6 rest ih => exact ih.pair rfl
  | case7 c rest slash star _ quote apostrophe ih =>
    have noSlash (same : c = '/') : rest.head? ≠ some '/' := by
      intro head
      obtain ⟨more, rfl⟩ := List.head?_eq_some_iff.1 head
      exact slash more same rfl
    have noStar (same : c = '/') : rest.head? ≠ some '*' := by
      intro head
      obtain ⟨more, rfl⟩ := List.head?_eq_some_iff.1 head
      exact star more same rfl
    refine ih.plain (by simp_all [isQuote]) ?_ ?_
    · intro same
      rw [head?_strip_code (noSlash same)]
      exact noSlash same
    · intro same
      rw [head?_strip_code (noSlash same)]
      exact noStar same
  | case8 | case11 | case13 | case18 =>
    rename_i ih
    exact ih.newline
  | _ => assumption

/-- A clean text without three double quotes in a row has nothing to strip. -/
theorem Clean.stripped_eq {t : Text} (h : Clean t) (apart : ¬ tripleQuote <:+: t) :
    stripped t = t := by
  obtain ⟨paired, noLine, noBlock⟩ := h
  unfold stripped
  induction paired with
  | nil => simp [strip]
  | @plain c rest other _ ih =>
    have quote : c ≠ '"' ∧ c ≠ '\'' := by simpa [isQuote] using other
    have opens {d : Char} (no : ¬ ['/', d] <:+: c :: rest) :
        ∀ more, c = '/' → rest ≠ d :: more := by
      rintro more rfl rfl
      exact no (List.prefix_append ['/', d] more).isInfix
    rw [strip_plain (opens noLine) (opens noBlock) quote.1 quote.2]
    rw [ih (fun there => apart (List.infix_cons there))
      (fun there => noLine (List.infix_cons there))
      (fun there => noBlock (List.infix_cons there))]
  | @pair q rest quotes _ ih =>
    have further {part : Text} (no : ¬ part <:+: q :: q :: rest) : ¬ part <:+: rest :=
      fun there => no (List.infix_cons (List.infix_cons there))
    have same := ih (further apart) (further noLine) (further noBlock)
    obtain rfl | rfl : q = '"' ∨ q = '\'' := by simpa [isQuote] using quotes
    · have literal : ∀ more, '"' :: rest ≠ '"' :: '"' :: more := by
        intro more opens
        rw [(List.cons.inj opens).2] at apart
        exact apart (List.prefix_append tripleQuote more).isInfix
      rw [strip_quote literal]
      simp [strip, same]
    · simp [strip, same]

/-- What is left of a source is clean. A clean text, in which no two empty literals come together,
stays as it is, so stripping a source a second time does nothing to it. -/
theorem stripped_is_clean_and_stable :
    (∀ s, Clean (stripped s)) ∧
    (∀ t, Clean t → ¬ tripleQuote <:+: t → stripped t = t) ∧
    ∀ s, ¬ tripleQuote <:+: stripped s → stripped (stripped s) = stripped s :=
  ⟨strip_clean .code, fun _ clean apart => clean.stripped_eq apart,
    fun s apart => (strip_clean .code s).stripped_eq apart⟩

/-- A slash before a comment that is left out, a comment between a slash and a star, and literals
next to each other; and two empty literals that come together, where it is not stable. -/
theorem glued_source_is_stable :
    let s := "a / /* b */ * c /\n'x'\"y\" // d\n\"\\\"\"".toList
    let t := "\"a\"\"b\";".toList
    stripped s = "a /  * c /\n''\"\" \n\"\"".toList ∧ ¬ tripleQuote <:+: stripped s ∧
      Clean (stripped s) ∧ stripped (stripped s) = stripped s ∧
      Clean (stripped t) ∧ tripleQuote <:+: stripped t ∧ stripped (stripped t) ≠ stripped t := by
  intro s t
  have apart : ¬ tripleQuote <:+: stripped s := by decide
  have together : tripleQuote <:+: stripped t := by decide
  refine ⟨by decide, apart, stripped_is_clean_and_stable.1 s,
    stripped_is_clean_and_stable.2.2 s apart, stripped_is_clean_and_stable.1 t, together, by decide⟩

end Source

end CodeGauge
