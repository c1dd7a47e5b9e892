import Mathlib.Data.List.Basic
import Mathlib.Data.List.Induction
import Mathlib.Data.List.TakeDrop
import CodeGauge.Number.Reading
import CodeGauge.Number.Shortest

/-!
# Decimal digits

A number is read back from its digits (`readDigits_digitsText`), zeros before them change nothing,
and a run of digits ends where something else begins (`spanDigits_append`).
-/

namespace CodeGauge

variable {n : Nat} {ds rest : Text}

theorem readDigits_concat (ds : Text) (c : Char) :
    readDigits (ds ++ [c]) = readDigits ds * 10 + digitValue c := by
  simp [readDigits]

theorem digitValue_digitChar (small : n < 10) : digitValue n.digitChar = n := by
  have all : ∀ n < 10, digitValue n.digitChar = n := by decide
  exact all n small

theorem readDigits_digitsText (n : Nat) : readDigits (digitsText n) = n := by
  unfold digitsText
  induction n using Nat.strongRecOn with
  | ind n ih =>
    rw [Nat.toDigits_eq_if (by decide)]
    split
    · rename_i small
      simp [readDigits, digitValue_digitChar small]
    · rename_i large
      rw [readDigits_concat, ih (n / 10) (by omega), digitValue_digitChar (by omega)]
      omega

theorem isDigit_of_mem_digitsText {c : Char} (there : c ∈ digitsText n) : c.isDigit = true :=
  Nat.isDigit_of_mem_toDigits (by decide) (by decide) there

theorem digitsText_ne_nil (n : Nat) : digitsText n ≠ [] := by
  unfold digitsText
  rw [Nat.toDigits_eq_if (by decide)]
  split <;> simp

/-- Only zero starts with the digit zero. -/
theorem head?_digitsText (positive : 0 < n) : (digitsText n).head? ≠ some '0' := by
  unfold digitsText
  induction n using Nat.strongRecOn with
  | ind n ih =>
    rw [Nat.toDigits_eq_if (by decide)]
    split
    · rename_i small
      have all : ∀ n < 10, 0 < n → n.digitChar ≠ '0' := by decide
      simpa using all n small positive
    · rename_i large
      have first := ih (n / 10) (by omega) (by omega)
      have some_digit : Nat.toDigits 10 (n / 10) ≠ [] := digitsText_ne_nil (n / 10)
      rwa [List.head?_append_of_ne_nil _ some_digit]

theorem readDigits_zeros (k : Nat) (ds : Text) :
    readDigits (List.replicate k '0' ++ ds) = readDigits ds := by
  induction k with
  | zero => rfl
  | succ k ih => simpa [readDigits, List.replicate_succ, digitValue] using ih

theorem length_digitsText_le {w : Nat} (positive : 0 < w) (small : n < Nat.pow 10 w) :
    (digitsText n).length ≤ w :=
  (Nat.length_toDigits_le_iff (by decide) positive).2 small

/-- A run of digits stands for a number of at most so many digits. -/
theorem readDigits_lt (digits : ∀ c ∈ ds, c.isDigit = true) :
    readDigits ds < Nat.pow 10 ds.length := by
  induction ds using List.reverseRecOn with
  | nil => decide
  | append_singleton ds c ih =>
    have before := ih fun d there => digits d (List.mem_append_left _ there)
    have last : digitValue c < 10 := by
      have digit := digits c (by simp)
      simp only [Char.isDigit, Bool.and_eq_true, decide_eq_true_eq] at digit
      have top : c.toNat ≤ 57 := digit.2
      simp only [digitValue, show '0'.toNat = 48 from rfl]
      omega
    have power : Nat.pow 10 (ds ++ [c]).length = Nat.pow 10 ds.length * 10 := by
      rw [List.length_append]
      rfl
    rw [readDigits_concat, power]
    omega

theorem spanDigits_eq (t : Text) :
    spanDigits t = (t.takeWhile Char.isDigit, t.dropWhile Char.isDigit) :=
  List.span_eq_takeWhile_dropWhile ..

/-- A run of digits ends where something else begins. -/
theorem spanDigits_append (digits : ∀ c ∈ ds, c.isDigit = true)
    (stops : ∀ c ∈ rest.head?, c.isDigit = false) : spanDigits (ds ++ rest) = (ds, rest) := by
  rw [spanDigits_eq, List.takeWhile_append_of_pos digits, List.dropWhile_append_of_pos digits]
  cases rest with
  | nil => simp
  | cons c rest => simp [stops c rfl]

end CodeGauge
