import Mathlib.Data.List.Nodup
import CodeGauge.Text.Utf8

/-!
# Texts and their bytes

The bytes of a text are shown as that text (`shown_utf8`), so no two texts have the same bytes
(`utf8_inj`), and a text is found in its bytes and in no others (`text?_eq_some_iff`). Bytes are in
the lexicographic order of their values (`Before`), and what is sorted that way is determined by its
elements (`eq_of_before`).
-/

namespace CodeGauge

namespace Bytes

/-! ## What is shown of texts -/

/-- A byte in the expected range goes on with the character. -/
theorem next_byte {p : Pending} {n : Nat} (least : p.least ≤ n) (most : n ≤ p.most)
    (small : n < 256) :
    p.next (UInt8.ofNat n) =
      if p.missing ≤ 1 then ([Char.ofNat (p.code * 64 + (n - 128))], none)
      else ([], some ⟨p.code * 64 + (n - 128), p.missing - 1, 0x80, 0xbf⟩) := by
  simp only [Pending.next, UInt8.toNat_ofNat_of_lt' small]
  rw [if_pos ⟨least, most⟩]

theorem shownFrom_two {n m : Nat} (hn : 194 ≤ n ∧ n < 224) (hm : 128 ≤ m ∧ m < 192) (rest : Bytes) :
    shownFrom none (UInt8.ofNat n :: UInt8.ofNat m :: rest) =
      Char.ofNat ((n - 192) * 64 + (m - 128)) :: shownFrom none rest := by
  have start : first (UInt8.ofNat n) = ([], some ⟨n - 192, 1, 0x80, 0xbf⟩) := by
    simp only [first, UInt8.toNat_ofNat_of_lt' (show n < 256 by omega)]
    rw [if_neg (by omega), if_neg (by omega), if_pos hn.2]
  rw [shownFrom, start, shownFrom, next_byte hm.1 (Nat.le_of_lt_succ hm.2) (by omega)]
  rfl

theorem shownFrom_three {n m k : Nat} (hn : 224 ≤ n ∧ n < 240) (hm : 128 ≤ m ∧ m < 192)
    (hk : 128 ≤ k ∧ k < 192) (low : n = 224 → 160 ≤ m) (surrogate : n = 237 → m < 160)
    (rest : Bytes) :
    shownFrom none (UInt8.ofNat n :: UInt8.ofNat m :: UInt8.ofNat k :: rest) =
      Char.ofNat (((n - 224) * 64 + (m - 128)) * 64 + (k - 128)) :: shownFrom none rest := by
  have start : first (UInt8.ofNat n) = ([], some ⟨n - 224, 2, if n = 0xe0 then 0xa0 else 0x80,
      if n = 0xed then 0x9f else 0xbf⟩) := by
    simp only [first, UInt8.toNat_ofNat_of_lt' (show n < 256 by omega)]
    rw [if_neg (by omega), if_neg (by omega), if_neg (by omega), if_pos hn.2]
  have least : (if n = 0xe0 then 0xa0 else 0x80) ≤ m := by split <;> omega
  have most : m ≤ if n = 0xed then 0x9f else 0xbf := by split <;> omega
  rw [shownFrom, start, shownFrom, next_byte least most (by omega)]
  show shownFrom (some ⟨(n - 224) * 64 + (m - 128), 1, 0x80, 0xbf⟩) _ = _
  rw [shownFrom, next_byte hk.1 (Nat.le_of_lt_succ hk.2) (by omega)]
  rfl

theorem shownFrom_four {n m k l : Nat} (hn : 240 ≤ n ∧ n < 245) (hm : 128 ≤ m ∧ m < 192)
    (hk : 128 ≤ k ∧ k < 192) (hl : 128 ≤ l ∧ l < 192) (low : n = 240 → 144 ≤ m)
    (high : n = 244 → m < 144) (rest : Bytes) :
    shownFrom none (UInt8.ofNat n :: UInt8.ofNat m :: UInt8.ofNat k :: UInt8.ofNat l :: rest) =
      Char.ofNat ((((n - 240) * 64 + (m - 128)) * 64 + (k - 128)) * 64 + (l - 128)) ::
        shownFrom none rest := by
  have start : first (UInt8.ofNat n) = ([], some ⟨n - 240, 3, if n = 0xf0 then 0x90 else 0x80,
      if n = 0xf4 then 0x8f else 0xbf⟩) := by
    simp only [first, UInt8.toNat_ofNat_of_lt' (show n < 256 by omega)]
    rw [if_neg (by omega), if_neg (by omega), if_neg (by omega), if_neg (by omega), if_pos hn.2]
  have least : (if n = 0xf0 then 0x90 else 0x80) ≤ m := by split <;> omega
  have most : m ≤ if n = 0xf4 then 0x8f else 0xbf := by split <;> omega
  rw [shownFrom, start, shownFrom, next_byte least most (by omega)]
  show shownFrom (some ⟨(n - 240) * 64 + (m - 128), 2, 0x80, 0xbf⟩) _ = _
  rw [shownFrom, next_byte hk.1 (Nat.le_of_lt_succ hk.2) (by omega)]
  show shownFrom (some ⟨((n - 240) * 64 + (m - 128)) * 64 + (k - 128), 1, 0x80, 0xbf⟩) _ = _
  rw [shownFrom, next_byte hl.1 (Nat.le_of_lt_succ hl.2) (by omega)]
  rfl

/-- The bytes of a character are shown as that character. -/
theorem shownFrom_utf8EncodeChar (c : Char) (rest : Bytes) :
    shownFrom none (String.utf8EncodeChar c ++ rest) = c :: shownFrom none rest := by
  have same : Char.ofNat c.val.toNat = c := Char.ofNat_toNat c
  have valid : c.val.toNat < 0xd800 ∨ 0xdfff < c.val.toNat ∧ c.val.toNat < 0x110000 := c.valid
  unfold String.utf8EncodeChar
  generalize c.val.toNat = v at same valid
  simp only
  split
  · have start : first (UInt8.ofNat v) = ([Char.ofNat v], none) := by
      simp only [first, UInt8.toNat_ofNat_of_lt' (show v < 256 by omega)]
      rw [if_pos (by omega)]
    rw [List.singleton_append, shownFrom, start, same]
    rfl
  · split
    · have code : (v / 64 % 32 + 192 - 192) * 64 + (v % 64 + 128 - 128) = v := by omega
      rw [List.cons_append, List.singleton_append, shownFrom_two (by omega) (by omega), code, same]
    · split
      · have code : ((v / 4096 % 16 + 224 - 224) * 64 + (v / 64 % 64 + 128 - 128)) * 64 +
            (v % 64 + 128 - 128) = v := by omega
        rw [List.cons_append, List.cons_append, List.singleton_append,
          shownFrom_three (by omega) (by omega) (by omega) (by omega) (by omega), code, same]
      · have code : (((v / 262144 % 8 + 240 - 240) * 64 + (v / 4096 % 64 + 128 - 128)) * 64 +
            (v / 64 % 64 + 128 - 128)) * 64 + (v % 64 + 128 - 128) = v := by omega
        rw [List.cons_append, List.cons_append, List.cons_append, List.singleton_append,
          shownFrom_four (by omega) (by omega) (by omega) (by omega) (by omega) (by omega), code,
          same]

/-- The bytes of a text are shown as that text. -/
theorem shown_utf8 (t : Text) : t.utf8.shown = t := by
  induction t with
  | nil => rfl
  | cons c t ih => exact (shownFrom_utf8EncodeChar c _).trans (congrArg _ ih)

theorem utf8_inj {t u : Text} : t.utf8 = u.utf8 ↔ t = u := by
  refine ⟨fun same => ?_, fun same => same ▸ rfl⟩
  rw [← shown_utf8 t, same, shown_utf8]

theorem text?_eq_some_iff {b : Bytes} {t : Text} : b.text? = some t ↔ t.utf8 = b := by
  rw [text?, Option.ite_none_right_eq_some, Option.some_inj]
  constructor
  · rintro ⟨same, rfl⟩
    exact same
  · rintro rfl
    rw [shown_utf8]
    exact ⟨rfl, rfl⟩

/-! ## The order of bytes -/

variable {a b c : Bytes}

theorem le_trans (h : le a b = true) (g : le b c = true) : le a c = true := by
  induction a generalizing b c with
  | nil => rfl
  | cons x a ih =>
    cases b with
    | nil => contradiction
    | cons y b =>
      cases c with
      | nil => contradiction
      | cons z c =>
        simp only [le, Bool.or_eq_true, decide_eq_true_eq, Bool.and_eq_true, beq_iff_eq] at h g ⊢
        rcases h with less | ⟨rfl, h⟩ <;> rcases g with less' | ⟨rfl, g⟩
        · exact .inl (Nat.lt_trans less less')
        · exact .inl less
        · exact .inl less'
        · exact .inr ⟨rfl, ih h g⟩

theorem le_total (a b : Bytes) : (le a b || le b a) = true := by
  induction a generalizing b with
  | nil => rfl
  | cons x a ih =>
    cases b with
    | nil => rfl
    | cons y b =>
      have either := ih b
      simp only [le, Bool.or_eq_true, decide_eq_true_eq, Bool.and_eq_true, beq_iff_eq] at either ⊢
      rcases Nat.lt_trichotomy x.toNat y.toNat with less | same | more
      · exact .inl (.inl less)
      · obtain rfl : x = y := UInt8.toNat_inj.1 same
        exact either.imp (fun h => .inr ⟨rfl, h⟩) fun h => .inr ⟨rfl, h⟩
      · exact .inr (.inl more)

/-- Some bytes come before others in lexicographic order. -/
def Before : Bytes → Bytes → Prop := List.Lex fun x y => x.toNat < y.toNat

theorem before_of_le (h : le a b = true) (apart : a ≠ b) : Before a b := by
  induction a generalizing b with
  | nil =>
    cases b with
    | nil => contradiction
    | cons y b => exact .nil
  | cons x a ih =>
    cases b with
    | nil => contradiction
    | cons y b =>
      simp only [le, Bool.or_eq_true, decide_eq_true_eq, Bool.and_eq_true, beq_iff_eq] at h
      rcases h with less | ⟨rfl, h⟩
      · exact .rel less
      · exact .cons (ih h fun same => apart (congrArg _ same))

theorem Before.asymm (h : Before a b) : ¬ Before b a := by
  induction h with
  | nil => exact fun g => nomatch g
  | rel less =>
    intro g
    cases g with
    | rel less' => exact Nat.lt_asymm less less'
    | cons => exact Nat.lt_irrefl _ less
  | cons _ ih =>
    intro g
    cases g with
    | rel less => exact Nat.lt_irrefl _ less
    | cons g => exact ih g

/-- Entries in the order of their names are determined by which ones there are. -/
theorem eq_of_before {α : Type} {entries entries' : List (Bytes × α)}
    (sorted : entries.Pairwise fun e f => Before e.1 f.1)
    (sorted' : entries'.Pairwise fun e f => Before e.1 f.1)
    (same : ∀ e, e ∈ entries ↔ e ∈ entries') : entries = entries' := by
  have once {es : List (Bytes × α)} (sorted : es.Pairwise fun e f => Before e.1 f.1) :
      es.Nodup := by
    refine sorted.imp fun {e f} before same => ?_
    subst same
    exact before.asymm before
  refine List.Perm.eq_of_pairwise (fun e f _ _ before after => absurd after before.asymm)
    sorted sorted' ?_
  exact (List.perm_ext_iff_of_nodup (once sorted) (once sorted')).2 same

end Bytes

end CodeGauge
