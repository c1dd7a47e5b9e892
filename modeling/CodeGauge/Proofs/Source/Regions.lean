import Mathlib.Tactic.Common
import CodeGauge.Source.Stripped

/-!
# Where a text leads

Stripping reads a text from left to right and is always in some region. `Source.regionAfter` is the
region at the end of a text, and stripping a text in two parts is stripping the second part from
there (`Source.strip_append`). This needs a seam: an opening may be up to three characters long, so
the first part must not end in the middle of one.
-/

namespace CodeGauge

namespace Source

/-- The region at the end of a text whose first character stands in the given region. -/
def regionAfter : Region → Text → Region
  | region, [] => region
  | .code, '/' :: '/' :: rest => regionAfter .lineComment rest
  | .code, '/' :: '*' :: rest => regionAfter (.blockComment false) rest
  | .code, '"' :: '"' :: '"' :: rest => regionAfter (.textBlock 0 false) rest
  | .code, '"' :: rest => regionAfter (.literal '"' false) rest
  | .code, '\'' :: rest => regionAfter (.literal '\'' false) rest
  | .code, _ :: rest => regionAfter .code rest
  | .lineComment, c :: rest =>
    if c = '\n' then regionAfter .code rest else regionAfter .lineComment rest
  | .blockComment star, c :: rest =>
    if star && c = '/' then regionAfter .code rest
    else if c = '\n' then regionAfter (.blockComment false) rest
    else regionAfter (.blockComment (c = '*')) rest
  | .literal delimiter escaped, c :: rest =>
    if c = '\n' then regionAfter .code rest
    else if escaped then regionAfter (.literal delimiter false) rest
    else if c = '\\' then regionAfter (.literal delimiter true) rest
    else if c = delimiter then regionAfter .code rest
    else regionAfter (.literal delimiter false) rest
  | .textBlock quotes escaped, c :: rest =>
    if c = '\n' then regionAfter (.textBlock 0 false) rest
    else if escaped then regionAfter (.textBlock 0 false) rest
    else if c = '\\' then regionAfter (.textBlock 0 true) rest
    else if c = '"' then
      if quotes = 2 then regionAfter .code rest
        else regionAfter (.textBlock (quotes + 1) false) rest
    else regionAfter (.textBlock 0 false) rest

/-- A text that does not end in what may be the first part of an opening. -/
def IsSeam (t : Text) : Prop := ∀ c ∈ t.getLast?, c ≠ '/' ∧ c ≠ '"'

theorem IsSeam.tail {c : Char} {t : Text} (h : IsSeam (c :: t)) : IsSeam t := by
  cases t with
  | nil => simp [IsSeam]
  | cons d t => simpa [IsSeam] using h

/-- What follows a seam cannot make a text block of a literal. -/
theorem IsSeam.no_textBlock {rest : Text} (seam : IsSeam ('"' :: rest))
    (other : ∀ more, rest ≠ '"' :: '"' :: more) (q : Text) :
    ∀ more, rest ++ q ≠ '"' :: '"' :: more := by
  intro more same
  rcases rest with _ | ⟨c, _ | ⟨d, rest⟩⟩
  · simp [IsSeam] at seam
  · simp_all [IsSeam]
  · simp_all

/-- What follows a seam cannot make a comment of a slash. -/
theorem IsSeam.no_comment {c d : Char} {rest : Text} (seam : IsSeam (c :: rest))
    (other : ∀ more, c = '/' → rest ≠ d :: more) (q : Text) :
    ∀ more, c = '/' → rest ++ q ≠ d :: more := by
  intro more isSlash same
  cases rest with
  | nil => simp [IsSeam, isSlash] at seam
  | cons e rest =>
    simp only [List.cons_append, List.cons.injEq] at same
    exact other rest isSlash (by rw [same.1])

theorem strip_quote {rest : Text} (h : ∀ more, rest ≠ '"' :: '"' :: more) :
    strip .code ('"' :: rest) = '"' :: '"' :: strip (.literal '"' false) rest := by
  rw [strip]
  exact h

theorem strip_plain {c : Char} {rest : Text} (slash : ∀ more, c = '/' → rest ≠ '/' :: more)
    (star : ∀ more, c = '/' → rest ≠ '*' :: more) (quote : c ≠ '"') (apostrophe : c ≠ '\'') :
    strip .code (c :: rest) = c :: strip .code rest := by
  rw [strip]
  · exact slash
  · exact star
  · exact fun _ same => absurd same quote
  · exact quote
  · exact apostrophe

/-- A text that ends at a seam can be stripped apart from what follows. -/
theorem strip_append {p : Text} (seam : IsSeam p) (region : Region) (q : Text) :
    strip region (p ++ q) = strip region p ++ strip (regionAfter region p) q := by
  fun_induction regionAfter region p with
  | case1 region => simp [strip]
  | case2 rest ih => simpa [strip] using ih seam.tail.tail
  | case3 rest ih => simpa [strip] using ih seam.tail.tail
  | case4 rest ih => simpa [strip] using ih seam.tail.tail.tail
  | case5 rest other ih =>
    rw [List.cons_append, strip_quote (seam.no_textBlock other q), strip_quote other, ih seam.tail]
    rfl
  | case6 rest ih => simpa [strip] using ih seam.tail
  | case7 c rest slash star _ quote apostrophe ih =>
    rw [List.cons_append,
      strip_plain (seam.no_comment slash q) (seam.no_comment star q) quote apostrophe,
      strip_plain slash star quote apostrophe, ih seam.tail]
    rfl
  | case12 star c rest goesOn inside ih =>
    simp only [List.cons_append, strip, goesOn, inside, Bool.false_eq_true, if_false]
    exact ih seam.tail
  | _ =>
    -- Inside comments and literals one character at a time is read.
    rename_i ih
    have further := ih seam.tail
    simp_all [strip]

theorem regionAfter_append {p : Text} (seam : IsSeam p) (region : Region) (q : Text) :
    regionAfter region (p ++ q) = regionAfter (regionAfter region p) q := by
  fun_induction regionAfter region p with
  | case1 region => rfl
  | case2 rest ih | case3 rest ih => exact ih seam.tail.tail
  | case4 rest ih => exact ih seam.tail.tail.tail
  | case5 rest other ih =>
    rw [List.cons_append, regionAfter, ih seam.tail]
    exact seam.no_textBlock other q
  | case7 c rest slash star _ quote apostrophe ih =>
    rw [List.cons_append, regionAfter, ih seam.tail]
    · exact seam.no_comment slash q
    · exact seam.no_comment star q
    · exact fun _ same => absurd same quote
    · exact quote
    · exact apostrophe
  | _ =>
    rename_i ih
    have further := ih seam.tail
    simp_all [regionAfter]

end Source

end CodeGauge
