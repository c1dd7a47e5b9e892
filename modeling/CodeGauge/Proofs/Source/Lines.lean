import Mathlib.Data.List.Forall2
import CodeGauge.Proofs.Text
import CodeGauge.Source.Stripped

/-!
# Stripping keeps lines apart

Nothing that is left of a source moves to another line, whatever comments and literals are open at
the end of a line or of the text.

* `Thins` says how a text may change: characters other than newlines go, quotes may come, and all
  else stays in order;
* `strip_thins`: stripping does no more than that, from whatever region it starts;
* `Thins.count_newline` and `Thins.lines`: such a change keeps the newlines and acts line by line.
-/

namespace CodeGauge

namespace Source

/-- The delimiters of literals. -/
def isQuote (c : Char) : Bool := c = '"' || c = '\''

/-- The pieces of a text between its newlines. -/
def linesOf (t : Text) : List Text := Text.splitWhere (· == '\n') t

/-- A character other than a newline belongs to the first line. -/
theorem linesOf_cons (t : Text) : ∃ line more, linesOf t = line :: more ∧
    ∀ c, c ≠ '\n' → linesOf (c :: t) = (c :: line) :: more := by
  obtain ⟨line, more, split⟩ := List.exists_cons_of_ne_nil (Text.splitWhere_ne_nil (· == '\n') t)
  refine ⟨line, more, split, ?_⟩
  intro c inLine
  unfold linesOf
  rw [Text.splitWhere_other (by simpa using inLine), split]
  rfl

/-- How a text may come from another one, from left to right: characters other than newlines are
left out, quotes are put in, and what is kept stays in order. -/
inductive Thins : Text → Text → Prop where
  | nil : Thins [] []
  | keep (c : Char) {out s : Text} : Thins out s → Thins (c :: out) (c :: s)
  | drop {c : Char} (inLine : c ≠ '\n') {out s : Text} : Thins out s → Thins out (c :: s)
  | quote {q : Char} (quotes : isQuote q = true) {out s : Text} : Thins out s → Thins (q :: out) s

theorem Thins.count_newline {out s : Text} (h : Thins out s) : out.count '\n' = s.count '\n' := by
  induction h with
  | nil => rfl
  | keep c _ ih => simp [List.count_cons, ih]
  | drop inLine _ ih => simp [inLine, ih]
  | @quote q quotes _ _ _ ih =>
    have inLine : q ≠ '\n' := by rintro rfl; simp [isQuote] at quotes
    simp [inLine, ih]

/-- Whether a line is left of another one: without its quotes it is a part of it. -/
def LeftOf (out line : Text) : Prop := (out.filter (!isQuote ·)).Sublist line

theorem Thins.lines {out s : Text} (h : Thins out s) :
    List.Forall₂ LeftOf (linesOf out) (linesOf s) := by
  induction h with
  | nil => exact .cons (List.Sublist.refl []) .nil
  | @keep c out s _ ih =>
    by_cases newline : c = '\n'
    · subst newline
      exact .cons (List.Sublist.refl []) ih
    · obtain ⟨first, more, eq, cons⟩ := linesOf_cons out
      obtain ⟨first', more', eq', cons'⟩ := linesOf_cons s
      rw [eq, eq'] at ih
      rw [cons c newline, cons' c newline]
      obtain ⟨left, rest⟩ := List.forall₂_cons.1 ih
      refine .cons ?_ rest
      unfold LeftOf
      rw [List.filter_cons]
      split
      · exact left.cons_cons c
      · exact left.cons c
  | @drop c inLine out s _ ih =>
    obtain ⟨first', more', eq', cons'⟩ := linesOf_cons s
    rw [eq'] at ih
    rw [cons' c inLine]
    obtain ⟨first, more, left, rest, eq⟩ := List.forall₂_cons_right_iff.1 ih
    rw [eq]
    exact .cons (left.cons c) rest
  | @quote q quotes out s _ ih =>
    have inLine : q ≠ '\n' := by rintro rfl; simp [isQuote] at quotes
    obtain ⟨first, more, eq, cons⟩ := linesOf_cons out
    rw [eq] at ih
    rw [cons q inLine]
    obtain ⟨first', more', left, rest, eq'⟩ := List.forall₂_cons_left_iff.1 ih
    rw [eq']
    refine .cons ?_ rest
    unfold LeftOf
    rw [List.filter_cons_of_neg (by simp [quotes])]
    exact left

/-- Stripping leaves out characters and doubles quotes, and no more. -/
theorem strip_thins (region : Region) (s : Text) : Thins (strip region s) s := by
  fun_induction strip region s with
  | case1 => exact .nil
  | case2 rest ih => exact .drop (by decide) (.drop (by decide) ih)
  | case3 rest ih => exact .drop (by decide) (.drop (by decide) ih)
  | case4 rest ih => exact .keep _ (.keep _ (.drop (by decide) ih))
  | case5 rest _ ih => exact .keep _ (.quote rfl ih)
  | case6 rest ih => exact .keep _ (.quote rfl ih)
  | case7 c rest _ _ _ _ _ ih => exact .keep c ih
  | case8 | case11 | case13 | case18 =>
    -- A newline is kept in every region.
    rename_i ih
    exact .keep _ ih
  | case10 star c rest closes ih =>
    obtain ⟨_, rfl⟩ : star = true ∧ c = '/' := by simpa using closes
    exact .drop (by decide) ih
  | _ =>
    -- Inside comments and literals nothing else is.
    rename_i ih
    exact .drop (by assumption) ih

/-- A source has as many newlines when it is stripped as before, and each of its lines, quotes
aside, is a part of the line in the same place. -/
theorem stripped_keeps_lines (s : Text) :
    (stripped s).count '\n' = s.count '\n' ∧
      List.Forall₂ (fun out line => (out.filter (!isQuote ·)).Sublist line)
        (linesOf (stripped s)) (linesOf s) :=
  ⟨(strip_thins .code s).count_newline, (strip_thins .code s).lines⟩

/-- Line ends in a line comment, in a block comment, after a backslash in an open literal, and in a
text block that is open at the end of the text. -/
example :
    let s := "a // b\n/* c\n*/ d 'e\\\nf \"\"\" g\nh".toList
    linesOf (stripped s) = ["a ", "", " d ''", "f \"\"", ""].map String.toList := by
  decide

end Source

end CodeGauge
