import Mathlib.Data.List.TakeWhile
import CodeGauge.Proofs.Number.Digits
import CodeGauge.Time.Reader

/-!
# Instants read back

An instant of the years 0 to 9999 is read back from its text form to the nanosecond, leap seconds
included (`parse?_text`). Whatever the text, the instant read from it is a valid one, and its
fraction is less than a second (`bounds_of_parse?`).
-/

namespace CodeGauge

namespace Instant

variable {w n : Nat} {t : Instant} {rest : Text}

/-! ## Numbers of a fixed width -/

theorem isDigit_of_mem_padded {c : Char} (there : c ∈ padded w n) : c.isDigit = true := by
  rcases List.mem_append.1 there with zero | digit
  · rw [List.eq_of_mem_replicate zero]
    rfl
  · exact isDigit_of_mem_digitsText digit

theorem readDigits_padded (w n : Nat) : readDigits (padded w n) = n := by
  rw [padded, readDigits_zeros, readDigits_digitsText]

theorem length_padded (positive : 0 < w) (small : n < Nat.pow 10 w) : (padded w n).length = w := by
  have short := length_digitsText_le positive small
  simp only [padded, List.length_append, List.length_replicate]
  omega

theorem trimStart_cons {c : Char} (visible : isBlank c = false) (t : Text) :
    Text.trimStart (c :: t) = c :: t := by
  simp [Text.trimStart, visible]

theorem isBlank_of_isDigit {c : Char} (digit : c.isDigit = true) : isBlank c = false := by
  simp only [Char.isDigit, Bool.and_eq_true, decide_eq_true_eq] at digit
  have least : 48 ≤ c.toNat := digit.1
  have most : c.toNat ≤ 57 := digit.2
  have other : c ≠ ' ' := by
    rintro rfl
    exact absurd least (by decide)
  simp only [isBlank, Bool.or_eq_false_iff, Bool.and_eq_false_iff, beq_eq_false_iff_ne,
    decide_eq_false_iff_not, other, ne_eq, not_false_eq_true, true_and]
  omega

theorem padded_eq_cons (positive : 0 < w) (small : n < Nat.pow 10 w) :
    ∃ c more, padded w n = c :: more ∧ c.isDigit = true := by
  have some_digit : padded w n ≠ [] := List.length_pos_iff.1 (by rwa [length_padded positive small])
  obtain ⟨c, more, written⟩ := List.exists_cons_of_ne_nil some_digit
  exact ⟨c, more, written, isDigit_of_mem_padded (show c ∈ padded w n by simp [written])⟩

theorem trimStart_padded (positive : 0 < w) (small : n < Nat.pow 10 w) (rest : Text) :
    Text.trimStart (padded w n ++ rest) = padded w n ++ rest := by
  obtain ⟨c, more, written, digit⟩ := padded_eq_cons positive small
  rw [written]
  exact trimStart_cons (isBlank_of_isDigit digit) _

theorem readPart_padded (positive : 0 < w) (small : n < Nat.pow 10 w) (rest : Text) :
    readPart w (padded w n ++ rest) = some (n, rest) := by
  obtain ⟨c, more, written, -⟩ := padded_eq_cons positive small
  have digits : ∀ c ∈ padded w n, c.isDigit = true := fun _ => isDigit_of_mem_padded
  have taken : ((padded w n ++ rest).takeWhile Char.isDigit).take w = padded w n := by
    rw [List.takeWhile_append_of_pos digits, List.take_left' (length_padded positive small)]
  simp only [readPart, trimStart_padded positive small, taken, readDigits_padded, List.drop_left]
  simp [written]

/-! ## The parts of an instant -/

theorem readYear_yearText {year : Int} (least : 0 ≤ year) (most : year ≤ 9999) (rest : Text) :
    readYear (yearText year ++ rest) = some (year, rest) := by
  have small : year.toNat < Nat.pow 10 4 := by
    change year.toNat < 10000
    omega
  have value : (year.toNat : Int) = year := by omega
  have read := readPart_padded (by decide) small rest
  have skipped := trimStart_padded (by decide) small rest
  obtain ⟨c, more, written, digit⟩ := padded_eq_cons (by decide) small
  have minus : c ≠ '-' := by
    rintro rfl
    simp at digit
  have plus : c ≠ '+' := by
    rintro rfl
    simp at digit
  rw [yearText, if_pos ⟨least, most⟩]
  rw [written, List.cons_append] at read skipped ⊢
  simp [readYear, skipped, minus, plus, read, value]

theorem readMark_cons {c : Char} (visible : isBlank c = false) (rest : Text) :
    readMark c (c :: rest) = some rest := by
  simp [readMark, trimStart_cons visible]

theorem readNanos_digits {ds : Text} (digits : ∀ c ∈ ds, c.isDigit = true) (some_digit : ds ≠ [])
    (short : ds.length ≤ 9) (stops : ∀ c ∈ rest.head?, c.isDigit = false) :
    readNanos ('.' :: (ds ++ rest)) = some (readDigits ds * Nat.pow 10 (9 - ds.length), rest) := by
  have span := spanDigits_append digits stops
  have kept : ds.take 9 = ds := List.take_of_length_le short
  cases ds with
  | nil => exact absurd rfl some_digit
  | cons c ds => simp only [readNanos, span, kept]

theorem readNanos_padded (positive : 0 < w) (short : w ≤ 9) (small : n < Nat.pow 10 w)
    (stops : ∀ c ∈ rest.head?, c.isDigit = false) :
    readNanos ('.' :: (padded w n ++ rest)) = some (n * Nat.pow 10 (9 - w), rest) := by
  have length := length_padded positive small
  have digits : ∀ c ∈ padded w n, c.isDigit = true := fun _ => isDigit_of_mem_padded
  have some_digit : padded w n ≠ [] := List.length_pos_iff.1 (by omega)
  rw [readNanos_digits digits some_digit (by omega) stops, readDigits_padded, length]

theorem readNanos_fractionText {nanos : Nat} (small : nanos < 1000000000) (rest : Text) :
    readNanos (fractionText nanos ++ 'Z' :: rest) = some (nanos, 'Z' :: rest) := by
  have stops : ∀ c ∈ ('Z' :: rest).head?, c.isDigit = false := by simp
  unfold fractionText
  split
  · subst_vars
    rfl
  split
  · have fits : nanos / 1000000 < Nat.pow 10 3 := by
      change _ < 1000
      omega
    have value : nanos / 1000000 * Nat.pow 10 (9 - 3) = nanos := by
      change _ * 1000000 = _
      omega
    rw [List.cons_append, readNanos_padded (by decide) (by decide) fits stops, value]
  split
  · have fits : nanos / 1000 < Nat.pow 10 6 := by
      change _ < 1000000
      omega
    have value : nanos / 1000 * Nat.pow 10 (9 - 6) = nanos := by
      change _ * 1000 = _
      omega
    rw [List.cons_append, readNanos_padded (by decide) (by decide) fits stops, value]
  · rw [List.cons_append, readNanos_padded (by decide) (by decide) small stops]
    simp

/-- The bounds that the parts of a valid instant keep. -/
theorem bounds_of_isValid (valid : t.isValid = true) :
    t.month ≤ 12 ∧ t.day ≤ 31 ∧ t.hour < 24 ∧ t.minute < 60 ∧ t.second ≤ 60 := by
  have days : monthLength t.year t.month ≤ 31 := by
    unfold monthLength
    split
    · split <;> omega
    · split <;> omega
  simp only [isValid, Bool.and_eq_true, decide_eq_true_eq] at valid
  omega

theorem shiftMinutes_zero (valid : t.isValid = true) : t.shiftMinutes 0 = t := by
  obtain ⟨-, -, hour, minute, -⟩ := bounds_of_isValid valid
  have later : ¬((t.hour : Int) * 60 + t.minute + 0 < 0) := by omega
  have earlier : ¬(1440 ≤ (t.hour : Int) * 60 + t.minute + 0) := by omega
  have hours : (((t.hour : Int) * 60 + t.minute + 0) % 1440).toNat / 60 = t.hour := by omega
  have minutes : (((t.hour : Int) * 60 + t.minute + 0) % 1440).toNat % 60 = t.minute := by omega
  simp only [shiftMinutes, later, earlier, hours, minutes, if_false]

/-- An instant of the years 0 to 9999 is read back from its text form. -/
theorem parse?_text (valid : t.isValid = true) (least : 0 ≤ t.year) (most : t.year ≤ 9999)
    (fraction : t.nanos < 1000000000) : parse? t.text = some t := by
  obtain ⟨month, day, hour, minute, second⟩ := bounds_of_isValid valid
  have part : ∀ n rest, n < 100 → readPart 2 (padded 2 n ++ rest) = some (n, rest) :=
    fun n rest small => readPart_padded (by decide) small rest
  have dash : isBlank '-' = false := by decide
  have colon : isBlank ':' = false := by decide
  have zone : readOffset ['Z'] = some (0, []) := by decide
  have written : t.text =
      yearText t.year ++ '-' ::
        (padded 2 t.month ++ '-' :: (padded 2 t.day ++ 'T' :: (padded 2 t.hour
        ++ ':' :: (padded 2 t.minute ++ ':' ::
          (padded 2 t.second ++ (fractionText t.nanos ++ ['Z'])))))) := by
    simp [text]
  rw [written]
  refine Option.bind_eq_some_iff.2 ⟨_, readYear_yearText least most _, ?_⟩
  refine Option.bind_eq_some_iff.2 ⟨_, readMark_cons dash _, ?_⟩
  refine Option.bind_eq_some_iff.2 ⟨_, part t.month _ (by omega), ?_⟩
  refine Option.bind_eq_some_iff.2 ⟨_, readMark_cons dash _, ?_⟩
  refine Option.bind_eq_some_iff.2 ⟨_, part t.day _ (by omega), ?_⟩
  refine Option.bind_eq_some_iff.2 ⟨_, part t.hour _ (by omega), ?_⟩
  refine Option.bind_eq_some_iff.2 ⟨_, readMark_cons colon _, ?_⟩
  refine Option.bind_eq_some_iff.2 ⟨_, part t.minute _ (by omega), ?_⟩
  refine Option.bind_eq_some_iff.2 ⟨_, readMark_cons colon _, ?_⟩
  refine Option.bind_eq_some_iff.2 ⟨_, part t.second _ (by omega), ?_⟩
  refine Option.bind_eq_some_iff.2 ⟨_, readNanos_fractionText fraction _, ?_⟩
  refine Option.bind_eq_some_iff.2 ⟨_, zone, ?_⟩
  simp [shiftMinutes_zero valid, valid, Text.trimStart]

/-! ## What is read is valid -/

theorem nanos_nextDay (t : Instant) : t.nextDay.nanos = t.nanos := by
  unfold nextDay
  split
  · rfl
  split <;> rfl

theorem nanos_previousDay (t : Instant) : t.previousDay.nanos = t.nanos := by
  unfold previousDay
  split
  · rfl
  split <;> rfl

theorem nanos_shiftMinutes (t : Instant) (minutes : Int) :
    (t.shiftMinutes minutes).nanos = t.nanos := by
  simp only [shiftMinutes]
  split
  · rw [nanos_previousDay]
  split
  · rw [nanos_nextDay]
  · rfl

/-- Of a fraction at most nine digits count. -/
theorem readNanos_lt {s more : Text} (read : readNanos s = some (n, more)) : n < 1000000000 := by
  unfold readNanos at read
  split at read
  · rename_i digits
    rw [spanDigits_eq] at read
    split at read
    · cases read
    · rename_i ds _ _ span
      obtain ⟨rfl, -⟩ := Prod.mk.inj (Option.some.inj read)
      obtain ⟨rfl, -⟩ := Prod.mk.inj span
      have bound : readDigits ((digits.takeWhile Char.isDigit).take 9) <
          Nat.pow 10 ((digits.takeWhile Char.isDigit).take 9).length :=
        readDigits_lt fun c there => List.mem_takeWhile_imp (List.mem_of_mem_take there)
      have short : ((digits.takeWhile Char.isDigit).take 9).length ≤ 9 := List.length_take_le 9 _
      generalize (digits.takeWhile Char.isDigit).take 9 = ds at bound short ⊢
      calc readDigits ds * Nat.pow 10 (9 - ds.length)
          < Nat.pow 10 ds.length * Nat.pow 10 (9 - ds.length) :=
            Nat.mul_lt_mul_of_pos_right bound (Nat.pow_pos (by decide))
        _ = Nat.pow 10 (ds.length + (9 - ds.length)) := (Nat.pow_add 10 _ _).symm
        _ = 1000000000 := by rw [Nat.add_sub_cancel' short]
  · obtain ⟨rfl, -⟩ := Prod.mk.inj (Option.some.inj read)
    decide

/-- Whatever instant is read, it is a valid one and its fraction is less than a second. -/
theorem bounds_of_parse? {s : Text} (read : parse? s = some t) :
    t.isValid = true ∧ t.nanos < 1000000000 := by
  -- The date, then the letter behind it, the time, and two checks at the end.
  iterate 5 obtain ⟨_, -, read⟩ := Option.bind_eq_some_iff.1 read
  dsimp only at read
  split at read
  · split at read
    · iterate 6 obtain ⟨_, -, read⟩ := Option.bind_eq_some_iff.1 read
      obtain ⟨⟨nanos, _⟩, fraction, read⟩ := Option.bind_eq_some_iff.1 read
      obtain ⟨_, -, read⟩ := Option.bind_eq_some_iff.1 read
      dsimp only at read
      split at read
      · split at read
        · rename_i valid
          obtain rfl := Option.some.inj read
          rw [nanos_shiftMinutes]
          exact ⟨valid, readNanos_lt fraction⟩
        · cases read
      · cases read
    · cases read
  · cases read

end Instant

end CodeGauge
