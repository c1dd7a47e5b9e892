import Mathlib.Data.List.Forall2
import Mathlib.Data.Nat.Choose.Basic
import CodeGauge.Metric.Cohesion

/-!
# Counts of pairs

`sharingCount` is the exact number of pairs of methods that share a field. It does not depend on the
order of the methods (`sharingCount_perm`) and grows with the uses (`sharingCount_le_of_subset`).
What is counted in 32 bits is what is left of the exact numbers (`Pairs.ofUsage_eq`), and these are
kept if the number of all pairs fits (`Pairs.toNat_sharing`, `Pairs.toNat_disjoint`).
-/

namespace CodeGauge

namespace Cohesion

variable {usages others : List (List Text)} {left left' right right' : List Text}

/-! ## Exact counts -/

/-- The number of pairs that share a field, each method taken with every later one. -/
def sharingCount : List (List Text) → Nat
  | [] => 0
  | left :: rest => rest.countP (shares left) + sharingCount rest

theorem shares_comm (left right : List Text) : shares left right = shares right left := by
  rw [Bool.eq_iff_iff]
  simp only [shares, List.any_eq_true, List.contains_iff_mem]
  exact ⟨fun ⟨x, hl, hr⟩ => ⟨x, hr, hl⟩, fun ⟨x, hr, hl⟩ => ⟨x, hl, hr⟩⟩

theorem sharingCount_perm (perm : usages.Perm others) :
    sharingCount usages = sharingCount others := by
  induction perm with
  | nil => rfl
  | cons left perm ih => rw [sharingCount, sharingCount, ih, perm.countP_eq]
  | swap left right rest =>
    simp only [sharingCount, List.countP_cons, shares_comm left right]
    omega
  | trans _ _ first second => exact first.trans second

theorem shares_mono (h : left ⊆ left') (g : right ⊆ right') (common : shares left right = true) :
    shares left' right' = true := by
  simp only [shares, List.any_eq_true, List.contains_iff_mem] at common ⊢
  obtain ⟨field, used, used'⟩ := common
  exact ⟨field, h used, g used'⟩

theorem countP_shares_le (h : left ⊆ left') (more : List.Forall₂ (· ⊆ ·) usages others) :
    usages.countP (shares left) ≤ others.countP (shares left') := by
  induction more with
  | nil => exact Nat.le_refl 0
  | @cons right right' _ _ g _ ih =>
    rw [List.countP_cons, List.countP_cons]
    by_cases common : shares left right = true
    · rw [if_pos common, if_pos (shares_mono h g common)]
      omega
    · rw [if_neg common]
      omega

/-- With more uses more pairs share a field. -/
theorem sharingCount_le_of_subset (more : List.Forall₂ (· ⊆ ·) usages others) :
    sharingCount usages ≤ sharingCount others := by
  induction more with
  | nil => exact Nat.le_refl 0
  | cons h rest ih => exact Nat.add_le_add (countP_shares_le h rest) ih

theorem choose_two_succ (n : Nat) : (n + 1).choose 2 = n + n.choose 2 := by
  rw [Nat.choose_succ_succ, Nat.choose_one_right]

/-- There are no more such pairs than pairs. -/
theorem sharingCount_le (usages : List (List Text)) :
    sharingCount usages ≤ usages.length.choose 2 := by
  induction usages with
  | nil => exact Nat.zero_le _
  | cons left rest ih =>
    have each : rest.countP (shares left) ≤ rest.length := List.countP_le_length
    rw [sharingCount, List.length_cons, choose_two_succ]
    omega

theorem sharingCount_of_unused (unused : ∀ left ∈ usages, left = []) : sharingCount usages = 0 := by
  induction usages with
  | nil => rfl
  | cons left rest ih =>
    obtain ⟨rfl, others⟩ := List.forall_mem_cons.1 unused
    have none : rest.countP (shares []) = 0 := List.countP_eq_zero.2 fun right _ => by simp [shares]
    rw [sharingCount, none, ih others]

/-! ## Counts in 32 bits -/

/-- A method that uses no field shares none. -/
theorem partners_eq (left : List Text) (others : List (List Text)) :
    partners left others = others.countP (shares left) := by
  unfold partners
  split
  · next empty =>
    rw [List.isEmpty_iff.1 empty]
    exact (List.countP_eq_zero.2 fun right _ => by simp [shares]).symm
  · rfl

namespace Pairs

theorem count_eq (usages : List (List Text)) :
    count usages = (usages.length, ⟨.ofNat (sharingCount usages),
      .ofNat (usages.length.choose 2 - sharingCount usages)⟩) := by
  induction usages with
  | nil => rfl
  | cons left rest ih =>
    have each : rest.countP (shares left) ≤ rest.length := List.countP_le_length
    have later := sharingCount_le rest
    have apart :
        rest.length - rest.countP (shares left) + (rest.length.choose 2 - sharingCount rest) =
          rest.length + rest.length.choose 2 - (rest.countP (shares left) + sharingCount rest) := by
      omega
    simp only [count, ih, partners_eq, ← UInt32.ofNat_add, apart, sharingCount, List.length_cons,
      choose_two_succ]

theorem ofUsage_eq (usages : List (List Text)) :
    ofUsage usages = ⟨.ofNat (sharingCount usages),
      .ofNat (usages.length.choose 2 - sharingCount usages)⟩ := by
  rw [ofUsage, count_eq]

/-- The pairs do not depend on the order of the methods. -/
theorem ofUsage_perm (perm : usages.Perm others) : ofUsage usages = ofUsage others := by
  rw [ofUsage_eq, ofUsage_eq, sharingCount_perm perm, perm.length_eq]

theorem toNat_le (usages : List (List Text)) :
    (ofUsage usages).sharing.toNat ≤ sharingCount usages ∧
      (ofUsage usages).disjoint.toNat ≤ usages.length.choose 2 - sharingCount usages := by
  rw [ofUsage_eq]
  exact ⟨Nat.mod_le _ _, Nat.mod_le _ _⟩

variable (few : usages.length.choose 2 < UInt32.size)
include few

theorem toNat_sharing : (ofUsage usages).sharing.toNat = sharingCount usages := by
  rw [ofUsage_eq]
  exact UInt32.toNat_ofNat_of_lt' (Nat.lt_of_le_of_lt (sharingCount_le usages) few)

theorem toNat_disjoint :
    (ofUsage usages).disjoint.toNat = usages.length.choose 2 - sharingCount usages := by
  rw [ofUsage_eq]
  exact UInt32.toNat_ofNat_of_lt' (Nat.lt_of_le_of_lt (Nat.sub_le _ _) few)

end Pairs

theorem length_usage (shape : ClassShape) (use : Text → Pattern) :
    (usage shape use).length = shape.methods.length := by
  rw [usage, List.length_map]

end Cohesion

end CodeGauge
