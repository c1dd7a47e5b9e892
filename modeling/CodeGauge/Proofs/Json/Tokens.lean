import CodeGauge.Json.Printer
import CodeGauge.Json.Reader
import CodeGauge.Proofs.Number.Digits

/-!
# JSON tokens read back

A string is read back from its escaped form, whatever characters it holds (`readString_escape`). A
number is read to its end and no further, so that what follows it makes no difference as long as it
is no part of a number (`readNumber_append`), and whole numbers are read back from their digits
(`readNumber_intText`). White space before a value makes no difference (`readValue_skip`).
-/

namespace CodeGauge

namespace Json

/-! ## Strings -/

theorem hexUnit?_hexDigit {n : Nat} (small : n < 32) :
    hexUnit? '0' '0' (hexDigit (n / 16)) (hexDigit (n % 16)) = some n := by
  have all : ∀ n < 32, hexUnit? '0' '0' (hexDigit (n / 16)) (hexDigit (n % 16)) = some n := by
    decide
  exact all n small

/-- The three ways a character is written: after a backslash as a letter, after a backslash by its
number, or as it is. -/
theorem escape_cases (c : Char) :
    (∃ x, escape c = ['\\', x] ∧ unescape? x = some c) ∨
    (c.toNat < 32 ∧
      escape c = ['\\', 'u', '0', '0', hexDigit (c.toNat / 16), hexDigit (c.toNat % 16)]) ∨
    (escape c = [c] ∧ c ≠ '"' ∧ c ≠ '\\' ∧ 32 ≤ c.toNat) := by
  by_cases quote : c = '"'
  · subst quote
    exact .inl ⟨'"', rfl, rfl⟩
  by_cases backslash : c = '\\'
  · subst backslash
    exact .inl ⟨'\\', rfl, rfl⟩
  by_cases newline : c = '\n'
  · subst newline
    exact .inl ⟨'n', rfl, rfl⟩
  by_cases back : c = '\r'
  · subst back
    exact .inl ⟨'r', rfl, rfl⟩
  by_cases tab : c = '\t'
  · subst tab
    exact .inl ⟨'t', rfl, rfl⟩
  by_cases erase : c.toNat = 8
  · obtain rfl : c = Char.ofNat 8 := by rw [← erase, Char.ofNat_toNat]
    exact .inl ⟨'b', rfl, rfl⟩
  by_cases feed : c.toNat = 12
  · obtain rfl : c = Char.ofNat 12 := by rw [← feed, Char.ofNat_toNat]
    exact .inl ⟨'f', rfl, rfl⟩
  have written : escape c = if c.toNat < 32 then
      ['\\', 'u', '0', '0', hexDigit (c.toNat / 16), hexDigit (c.toNat % 16)] else [c] := by
    rw [escape, if_neg quote, if_neg backslash, if_neg newline, if_neg back, if_neg tab,
      if_neg erase, if_neg feed]
    rfl
  by_cases control : c.toNat < 32
  · exact .inr (.inl ⟨control, written.trans (if_pos control)⟩)
  · exact .inr (.inr ⟨written.trans (if_neg control), quote, backslash, Nat.not_lt.1 control⟩)

/-- An escaped character is read as the character. -/
theorem readString_escape_append (c : Char) (t : Text) :
    readString (escape c ++ t) = (readString t).map fun (s, more) => (c :: s, more) := by
  rcases escape_cases c with
    ⟨x, written, letter⟩ | ⟨control, written⟩ | ⟨written, quote, backslash, visible⟩
  · have other : x ≠ 'u' := by
      rintro rfl
      simp [unescape?] at letter
    rw [written, List.cons_append, List.cons_append, List.nil_append]
    simp [readString, letter, other]
  · have noSurrogate : ¬(0xd800 ≤ c.toNat ∧ c.toNat < 0xdc00) := by omega
    have noLow : ¬(0xdc00 ≤ c.toNat ∧ c.toNat < 0xe000) := by omega
    rw [written]
    simp only [List.cons_append, List.nil_append]
    rw [readString.eq_def]
    simp [hexUnit?_hexDigit control, noSurrogate, noLow, Char.ofNat_toNat]
  · rw [written, List.singleton_append]
    rw [readString.eq_def]
    simp [backslash, Nat.not_lt.2 visible]

theorem readString_escape (s rest : Text) :
    readString (s.flatMap escape ++ '"' :: rest) = some (s, rest) := by
  induction s with
  | nil => simp [readString]
  | cons c s ih =>
    rw [List.flatMap_cons, List.append_assoc, readString_escape_append, ih]
    rfl

/-! ## Numbers -/

/-- What follows a value inside a block: nothing, a comma or the end of the line. -/
def Delimits (rest : Text) : Prop := ∀ c ∈ rest.head?, c = ',' ∨ c = '\n'

variable {t rest : Text}

theorem Delimits.nil : Delimits [] := by simp [Delimits]

theorem Delimits.cases (ends : Delimits rest) :
    rest = [] ∨ (∃ more, rest = ',' :: more) ∨ ∃ more, rest = '\n' :: more := by
  cases rest with
  | nil => exact .inl rfl
  | cons c more =>
    rcases ends c rfl with rfl | rfl
    · exact .inr (.inl ⟨more, rfl⟩)
    · exact .inr (.inr ⟨more, rfl⟩)

/-- What was read, with a further text left after it. -/
def followedBy {α : Type} (rest : Text) (r : α × Text) : α × Text := (r.1, r.2 ++ rest)

@[simp] theorem followedBy_mk {α : Type} (x : α) (more rest : Text) :
    followedBy rest (x, more) = (x, more ++ rest) :=
  rfl

theorem spanDigits_followed (ends : Delimits rest) (t : Text) :
    spanDigits (t ++ rest) = followedBy rest (spanDigits t) := by
  simp only [spanDigits_eq, followedBy_mk, Prod.mk.injEq]
  induction t with
  | nil => rcases ends.cases with rfl | ⟨more, rfl⟩ | ⟨more, rfl⟩ <;> simp
  | cons c t ih =>
    by_cases digit : c.isDigit
    · simp [digit, ih]
    · simp [digit]

theorem readWhole_followed (ends : Delimits rest) (t : Text) :
    readWhole (t ++ rest) = (readWhole t).map (followedBy rest) := by
  unfold readWhole
  rw [spanDigits_followed ends]
  obtain ⟨ds, more⟩ := spanDigits t
  rw [followedBy_mk]
  split <;> simp_all

theorem readFraction_followed (ends : Delimits rest) (t : Text) :
    readFraction (t ++ rest) = (readFraction t).map (followedBy rest) := by
  cases t with
  | nil => rcases ends.cases with rfl | ⟨more, rfl⟩ | ⟨more, rfl⟩ <;> simp [readFraction]
  | cons c t =>
    by_cases point : c = '.'
    · subst point
      simp only [List.cons_append, readFraction, spanDigits_followed ends]
      obtain ⟨ds, more⟩ := spanDigits t
      cases ds <;> simp
    · simp [readFraction, point]

/-- Reads an exponent after its sign. -/
def readPower (negative : Bool) (body : Text) : Option (Option Int × Text) :=
  match spanDigits body with
  | ([], _) => none
  | (ds, more) => some (some (if negative then -(readDigits ds : Int) else readDigits ds), more)

theorem readExponent_mark {c : Char} (mark : c = 'e' ∨ c = 'E') (t : Text) :
    readExponent (c :: t) = readPower (readSign t).1 (readSign t).2 := by
  simp only [readExponent, mark, if_true]
  rfl

theorem readSign_followed (ends : Delimits rest) (t : Text) :
    readSign (t ++ rest) = followedBy rest (readSign t) := by
  cases t with
  | nil => rcases ends.cases with rfl | ⟨more, rfl⟩ | ⟨more, rfl⟩ <;> rfl
  | cons c t =>
    rw [List.cons_append]
    unfold readSign
    split <;> simp_all

theorem readPower_followed (ends : Delimits rest) (negative : Bool) (body : Text) :
    readPower negative (body ++ rest) = (readPower negative body).map (followedBy rest) := by
  unfold readPower
  rw [spanDigits_followed ends]
  obtain ⟨ds, more⟩ := spanDigits body
  cases ds <;> simp

theorem readExponent_followed (ends : Delimits rest) (t : Text) :
    readExponent (t ++ rest) = (readExponent t).map (followedBy rest) := by
  cases t with
  | nil => rcases ends.cases with rfl | ⟨more, rfl⟩ | ⟨more, rfl⟩ <;> simp [readExponent]
  | cons c t =>
    by_cases mark : c = 'e' ∨ c = 'E'
    · rw [List.cons_append, readExponent_mark mark, readExponent_mark mark, readSign_followed ends]
      exact readPower_followed ends ..
    · simp [readExponent, mark]

/-- Reads a number after its sign. -/
def readUnsigned (negative : Bool) (body : Text) : Option (Json × Text) :=
  (readWhole body).bind fun (whole, afterWhole) =>
  (readFraction afterWhole).bind fun (fraction, afterFraction) =>
  (readExponent afterFraction).bind fun (exponent, rest) =>
    (ofDigits? negative whole fraction exponent).map fun j => (j, rest)

theorem readNumber_minus (body : Text) : readNumber ('-' :: body) = readUnsigned true body := rfl

theorem readNumber_of_head (plain : t.head? ≠ some '-') : readNumber t = readUnsigned false t := by
  cases t with
  | nil => rfl
  | cons c t =>
    have other : c ≠ '-' := by simpa using plain
    simp [readNumber, readUnsigned, other]

theorem readUnsigned_followed (ends : Delimits rest) (negative : Bool) (body : Text) :
    readUnsigned negative (body ++ rest) = (readUnsigned negative body).map (followedBy rest) := by
  unfold readUnsigned
  rw [readWhole_followed ends]
  cases readWhole body with
  | none => rfl
  | some r =>
    obtain ⟨whole, afterWhole⟩ := r
    simp only [Option.map_some, Option.bind_some, followedBy_mk]
    rw [readFraction_followed ends]
    cases readFraction afterWhole with
    | none => rfl
    | some r =>
      obtain ⟨fraction, afterFraction⟩ := r
      simp only [Option.map_some, Option.bind_some, followedBy_mk]
      rw [readExponent_followed ends]
      cases readExponent afterFraction <;> simp [Function.comp_def, followedBy]

/-- A number is read to its end, whatever follows. -/
theorem readNumber_followed (ends : Delimits rest) (t : Text) :
    readNumber (t ++ rest) = (readNumber t).map (followedBy rest) := by
  cases t with
  | nil =>
    have plain : ([] ++ rest).head? ≠ some '-' := by
      rcases ends.cases with rfl | ⟨more, rfl⟩ | ⟨more, rfl⟩ <;> simp
    rw [readNumber_of_head plain, readNumber_of_head (by simp), readUnsigned_followed ends]
  | cons c t =>
    by_cases minus : c = '-'
    · rw [minus, List.cons_append, readNumber_minus, readNumber_minus, readUnsigned_followed ends]
    · rw [readNumber_of_head (by simpa), readNumber_of_head (by simpa), readUnsigned_followed ends]

theorem readNumber_append {j : Json} (whole : readNumber t = some (j, [])) (ends : Delimits rest) :
    readNumber (t ++ rest) = some (j, rest) := by
  rw [readNumber_followed ends, whole]
  rfl

theorem readWhole_digitsText (n : Nat) : readWhole (digitsText n) = some (digitsText n, []) := by
  have span : spanDigits (digitsText n) = (digitsText n, []) := by
    have digits : ∀ c ∈ digitsText n, c.isDigit = true := fun _ => isDigit_of_mem_digitsText
    have read := spanDigits_append digits (show ∀ c ∈ ([] : Text).head?, c.isDigit = false by simp)
    rwa [List.append_nil] at read
  unfold readWhole
  rw [span]
  split
  · rename_i empty
    exact absurd (congrArg Prod.fst empty) (digitsText_ne_nil n)
  · rename_i zeroFirst
    have written := congrArg Prod.fst zeroFirst
    rcases Nat.eq_zero_or_pos n with rfl | positive
    · simp [digitsText] at written
    · exact absurd (congrArg List.head? written) (head?_digitsText positive)
  · simp_all

theorem readUnsigned_digitsText (negative : Bool) (n : Nat) :
    readUnsigned negative (digitsText n) =
      (ofDigits? negative (digitsText n) [] none).map fun j => (j, []) := by
  simp [readUnsigned, readWhole_digitsText, readFraction, readExponent]

theorem ofDigits?_negative {k : Nat} (positive : 0 < k) (small : k ≤ Nat.pow 2 63) :
    ofDigits? true (digitsText k) [] none = some (.int (-(k : Int))) := by
  simp [ofDigits?, readDigits_digitsText, positive, small]

theorem ofDigits?_plain {k : Nat} (small : k < Nat.pow 2 64) :
    ofDigits? false (digitsText k) [] none = some (.int k) := by
  simp [ofDigits?, readDigits_digitsText, small]

/-- A whole number fits in 64 bits, with or without sign. -/
def FitsWhole (n : Int) : Prop := -(Nat.pow 2 63 : Int) ≤ n ∧ n < Nat.pow 2 64

theorem fitsWhole_of_lt {n : Nat} (small : n < Nat.pow 2 64) : FitsWhole n := by
  have positive : 0 < Nat.pow 2 63 := Nat.pow_pos (by decide)
  exact ⟨by omega, by omega⟩

theorem readNumber_intText {n : Int} (fits : FitsWhole n) :
    readNumber (intText n) = some (.int n, []) := by
  obtain ⟨least, most⟩ := fits
  unfold intText
  split
  · rename_i negative
    have value : -(n.natAbs : Int) = n := by omega
    rw [List.singleton_append, readNumber_minus, readUnsigned_digitsText,
      ofDigits?_negative (by omega) (by omega), value]
    rfl
  · have plain : (digitsText n.natAbs).head? ≠ some '-' := by
      intro minus
      have digit := isDigit_of_mem_digitsText (List.mem_of_mem_head? minus)
      exact absurd digit (by decide)
    have value : (n.natAbs : Int) = n := by omega
    rw [List.nil_append, readNumber_of_head plain, readUnsigned_digitsText,
      ofDigits?_plain (by omega), value]
    rfl

/-! ## White space -/

/-- White space before a value makes no difference. -/
theorem readValue_skip {fuel depth : Nat} {s t : Text} (same : skipSpace s = skipSpace t) :
    readValue fuel depth s = readValue fuel depth t := by
  cases fuel with
  | zero => simp [readValue]
  | succ fuel => simp only [readValue, same]

end Json

end CodeGauge
