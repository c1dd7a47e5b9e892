import Mathlib.Algebra.Order.Field.Basic
import Mathlib.Algebra.Order.Ring.Rat
import Mathlib.Data.Finset.Powerset
import Mathlib.Data.Fintype.Fin
import CodeGauge.Proofs.Metric.FieldUses

/-!
# Pairs of methods

Two methods of a class are a pair of places in its list of methods, in no order. Going through the
list and taking each method with every later one counts each such pair once (`sharingCount_eq`), so
that both measures of cohesion are exact as long as the number of all pairs fits into 32 bits
(`pair_counts_are_exact`).
-/

namespace CodeGauge

namespace Cohesion

/-- Whether two of these methods use a common field. -/
def Connects (usages : List (List Text)) (pair : Finset (Fin usages.length)) : Prop :=
  ∃ i ∈ pair, ∃ j ∈ pair, i ≠ j ∧ ∃ field ∈ usages.get i, field ∈ usages.get j

instance (usages : List (List Text)) : DecidablePred (Connects usages) := fun pair =>
  inferInstanceAs (Decidable (∃ i ∈ pair, _))

/-- The pairs of methods that use a common field: sets of two places. -/
def sharingPairs (usages : List (List Text)) : Finset (Finset (Fin usages.length)) :=
  (Finset.univ.powersetCard 2).filter (Connects usages)

theorem shares_iff {left right : List Text} :
    shares left right = true ↔ ∃ field ∈ left, field ∈ right := by
  simp [shares]

theorem connects_pair {usages : List (List Text)} {i j : Fin usages.length} (apart : i ≠ j) :
    Connects usages {i, j} ↔ shares (usages.get i) (usages.get j) = true := by
  have swap := shares_comm (usages.get i) (usages.get j)
  constructor
  · rintro ⟨a, first, b, second, differ, common⟩
    rw [← shares_iff] at common
    rw [Finset.mem_insert, Finset.mem_singleton] at first second
    rcases first with rfl | rfl <;> rcases second with rfl | rfl
    · exact absurd rfl differ
    · exact common
    · exact swap.trans common
    · exact absurd rfl differ
  · intro common
    exact ⟨i, by simp, j, by simp, apart, shares_iff.1 common⟩

/-! ## The first method and the others -/

/-- The pairs of the first place with a later one. -/
def firstPairs (n : Nat) : Finset (Finset (Fin (n + 1))) :=
  Finset.univ.image fun j : Fin n => {0, j.succ}

/-- The pairs of later places. -/
def laterPairs (n : Nat) : Finset (Finset (Fin (n + 1))) :=
  (Finset.univ.powersetCard 2).map (Finset.mapEmbedding (Fin.succEmb n)).toEmbedding

theorem pairs_succ (n : Nat) :
    (Finset.univ : Finset (Fin (n + 1))).powersetCard 2 = laterPairs n ∪ firstPairs n := by
  have first : (0 : Fin (n + 1)) ∉ Finset.univ.map (Fin.succEmb n) := by simp
  have places : (Finset.univ : Finset (Fin (n + 1))) =
      insert 0 (Finset.univ.map (Fin.succEmb n)) := by
    ext i
    cases i using Fin.cases <;> simp
  rw [places, Finset.powersetCard_succ_insert first, Finset.powersetCard_map,
    Finset.powersetCard_one]
  congr 1
  ext pair
  simp [firstPairs, Fin.exists_fin_succ]

theorem disjoint_pairs (n : Nat) : Disjoint (laterPairs n) (firstPairs n) := by
  rw [Finset.disjoint_left]
  intro pair inLater inFirst
  obtain ⟨j, -, rfl⟩ := Finset.mem_image.1 inFirst
  obtain ⟨others, -, same⟩ := Finset.mem_map.1 inLater
  have there : (0 : Fin (n + 1)) ∈ others.map (Fin.succEmb n) :=
    (Finset.ext_iff.1 same 0).2 (by simp)
  simp at there

variable (left : List Text) (rest : List (List Text))

theorem card_shares :
    (Finset.univ.filter fun j : Fin rest.length => shares left (rest.get j) = true).card =
      rest.countP (shares left) := by
  induction rest with
  | nil => rfl
  | cons right rest ih =>
    rw [List.countP_cons, ← ih, Nat.add_comm]
    exact Fin.card_filter_univ_succ' _

theorem card_firstPairs :
    ((firstPairs rest.length).filter (Connects (left :: rest))).card =
      rest.countP (shares left) := by
  have distinct : Function.Injective fun j : Fin rest.length =>
      ({0, j.succ} : Finset (Fin (rest.length + 1))) := by
    intro i j same
    have there : i.succ ∈ ({0, j.succ} : Finset (Fin (rest.length + 1))) :=
      (Finset.ext_iff.1 same i.succ).1 (by simp)
    simpa using there
  rw [firstPairs, Finset.filter_image, Finset.card_image_of_injective _ distinct, ← card_shares]
  congr 1
  exact Finset.filter_congr fun j _ => connects_pair (Fin.succ_ne_zero j).symm

theorem card_laterPairs :
    ((laterPairs rest.length).filter (Connects (left :: rest))).card =
      (sharingPairs rest).card := by
  have same (pair : Finset (Fin rest.length)) :
      Connects (left :: rest) (pair.map (Fin.succEmb rest.length)) ↔ Connects rest pair := by
        simp [Connects]
  rw [laterPairs, Finset.filter_map, Finset.card_map, sharingPairs]
  congr 1
  exact Finset.filter_congr fun pair _ => same pair

/-- Each pair of methods that use a common field is counted once. -/
theorem sharingCount_eq (usages : List (List Text)) :
    sharingCount usages = (sharingPairs usages).card := by
  induction usages with
  | nil => rfl
  | cons left rest ih =>
    have split : (Finset.univ : Finset (Fin (left :: rest).length)).powersetCard 2 = _ :=
      pairs_succ rest.length
    rw [sharingPairs, split, Finset.filter_union,
      Finset.card_union_of_disjoint (Finset.disjoint_filter_filter (disjoint_pairs _)),
      card_laterPairs, card_firstPairs, ← ih, sharingCount]
    exact Nat.add_comm _ _

/-! ## Exact counts -/

section Source

variable (source : Text)

/-- The lack of cohesion is at most the number of all pairs. -/
theorem lack_le : lack source ≤ (shapeOf source).methods.length.choose 2 := by
  have most := (Pairs.toNat_le (usage (shapeOf source) namedUse)).2
  rw [length_usage] at most
  rw [lack]
  split
  · exact Nat.zero_le _
  · show (Pairs.ofUsage (usage (shapeOf source) namedUse)).disjoint.toNat - _ ≤ _
    omega

/-- The lack of cohesion, for any number of methods with so few pairs. -/
theorem lack_eq (few : (shapeOf source).methods.length.choose 2 < UInt32.size) :
    lack source = (shapeOf source).methods.length.choose 2 -
      2 * (sharingPairs (usage (shapeOf source) namedUse)).card := by
  have number : (usage (shapeOf source) namedUse).length.choose 2 < UInt32.size := by
    rwa [length_usage]
  have sharing := Pairs.toNat_sharing number
  have disjoint := Pairs.toNat_disjoint number
  rw [length_usage] at disjoint
  rw [← sharingCount_eq, lack]
  split
  · next small =>
    have none : (shapeOf source).methods.length.choose 2 = 0 := Nat.choose_eq_zero_iff.2 small
    omega
  · show (Pairs.ofUsage (usage (shapeOf source) namedUse)).disjoint.toNat -
      (Pairs.ofUsage (usage (shapeOf source) namedUse)).sharing.toNat = _
    omega

/-- The tight cohesion of at least two methods with so few pairs. -/
theorem tight_eq (several : 2 ≤ (shapeOf source).methods.length)
    (few : (shapeOf source).methods.length.choose 2 < UInt32.size) :
    tight source = ⟨(sharingPairs (usage (shapeOf source) looseUse)).card,
      (shapeOf source).methods.length.choose 2⟩ := by
  have number : (usage (shapeOf source) looseUse).length.choose 2 < UInt32.size := by
    rwa [length_usage]
  rw [tight, if_neg (by omega), Pairs.toNat_sharing number, sharingCount_eq, Nat.choose_two_right]

theorem part_le_whole : (tight source).part ≤ (tight source).whole ∧ (tight source).whole ≠ 0 := by
  by_cases several : 2 ≤ (shapeOf source).methods.length
  · have counted := (Pairs.toNat_le (usage (shapeOf source) looseUse)).1
    have most := sharingCount_le (usage (shapeOf source) looseUse)
    have some_pair := Nat.choose_pos several
    rw [length_usage] at most
    rw [tight, if_neg (by omega), ← Nat.choose_two_right]
    exact ⟨counted.trans most, some_pair.ne'⟩
  · rw [tight, if_pos (by omega)]
    decide

end Source

end Cohesion

/-- A share of something is at least none of it and at most all. -/
theorem Share.value_bounds {s : Share} (part : s.part ≤ s.whole) (some_whole : s.whole ≠ 0) :
    0 ≤ s.value ∧ s.value ≤ 1 := by
  have whole : (0 : ℚ) < s.whole := Nat.cast_pos.2 (Nat.pos_of_ne_zero some_whole)
  refine ⟨div_nonneg (Nat.cast_nonneg _) whole.le, (div_le_one whole).2 ?_⟩
  exact Nat.cast_le.2 part

namespace Cohesion

/-- The pairs of methods do not depend on their order, and they are counted exactly if the number of
all pairs fits into 32 bits: those that use a common field, and all of them together. So the tight
cohesion is a share of something, from none to all of it, and the lack of cohesion is at most all
pairs: what is left of them when those that share a field are taken away twice. Fewer than two
methods have neither. -/
theorem pair_counts_are_exact :
    (∀ usages : List (List Text),
      let pairs := usages.length * (usages.length - 1) / 2
      let counted := Pairs.ofUsage usages
      (pairs < UInt32.size → counted.sharing.toNat = (sharingPairs usages).card ∧
        counted.sharing.toNat + counted.disjoint.toNat = pairs) ∧
        ∀ others, usages.Perm others → Pairs.ofUsage others = counted) ∧
    ∀ source : Text,
      let shape := shapeOf source
      let n := shape.methods.length
      let pairs := n * (n - 1) / 2
      ((tight source).whole ≠ 0 ∧ 0 ≤ (tight source).value ∧ (tight source).value ≤ 1 ∧
        lack source ≤ pairs) ∧
      (pairs < UInt32.size →
        (2 ≤ n → tight source = ⟨(sharingPairs (usage shape looseUse)).card, pairs⟩) ∧
        (lack source : Int) =
          max 0 ((pairs : Int) - 2 * (sharingPairs (usage shape namedUse)).card)) ∧
      (n < 2 → lack source = 0 ∧ (tight source).value = 0 ∧ pairs = 0) := by
  simp only [← Nat.choose_two_right]
  refine ⟨fun usages => ⟨fun few => ?_, fun others perm => (Pairs.ofUsage_perm perm).symm⟩,
    fun source => ⟨?_, fun few => ⟨fun several => tight_eq source several few, ?_⟩,
      fun small => ?_⟩⟩
  · have most := sharingCount_le usages
    rw [Pairs.toNat_sharing few, Pairs.toNat_disjoint few, sharingCount_eq]
    rw [sharingCount_eq] at most
    omega
  · obtain ⟨part, some_whole⟩ := part_le_whole source
    obtain ⟨least, most⟩ := Share.value_bounds part some_whole
    exact ⟨some_whole, least, most, lack_le source⟩
  · have left := lack_eq source few
    omega
  · have none : (shapeOf source).methods.length.choose 2 = 0 := Nat.choose_eq_zero_iff.2 small
    have most := lack_le source
    refine ⟨by omega, ?_, none⟩
    rw [tight, if_pos small]
    simp [Share.value, Share.zero]

/-- Four methods of which the third uses no field, in two orders; a class whose two methods share a
field, so that the lack of cohesion is not below zero; and a class with one method. -/
theorem third_method_is_apart :
    let usages := [["a"], ["b", "a"], []].map (·.map String.toList)
    let last := [["c", "b"].map String.toList]
    let double := "class P \x7b\nint a;\nf() \x7ba++;\x7d\ng() \x7bp(a);\x7d".toList
    let single := "class O \x7b\nf() \x7b\x7d".toList
    (Pairs.ofUsage (usages ++ last) = ⟨2, 4⟩ ∧ (sharingPairs (usages ++ last)).card = 2 ∧
      Pairs.ofUsage (last ++ usages) = ⟨2, 4⟩) ∧
    ((shapeOf double).methods.length = 2 ∧ tight double = ⟨1, 1⟩ ∧ (tight double).value ≤ 1 ∧
      (lack double : Int) = max 0 (1 - 2 * 1)) ∧
    (shapeOf single).methods.length = 1 ∧ lack single = 0 ∧ (tight single).value = 0 := by
  intro usages last double single
  have counted : Pairs.ofUsage (usages ++ last) = ⟨2, 4⟩ := by decide +kernel
  have methods : (shapeOf double).methods.length = 2 := by decide +kernel
  have method : (shapeOf single).methods.length = 1 := by decide +kernel
  have connected : sharingCount (usage (shapeOf double) looseUse) = 1 := by decide +kernel
  have sharing : sharingCount (usage (shapeOf double) namedUse) = 1 := by decide +kernel
  obtain ⟨fits, order⟩ := pair_counts_are_exact.1 (usages ++ last)
  obtain ⟨⟨-, -, most, -⟩, exactly, -⟩ := pair_counts_are_exact.2 double
  obtain ⟨-, -, few⟩ := pair_counts_are_exact.2 single
  rw [methods, ← sharingCount_eq, connected, ← sharingCount_eq, sharing] at exactly
  obtain ⟨share, surplus⟩ := exactly (by decide)
  obtain ⟨pairs, -⟩ := fits (by decide)
  rw [counted] at pairs
  obtain ⟨none, zero, -⟩ := few (by omega)
  have reordered := (order (last ++ usages) List.perm_append_comm).trans counted
  have bounded : (lack double : Int) = max 0 (1 - 2 * 1) := surplus.trans (by decide)
  exact ⟨⟨counted, pairs.symm, reordered⟩, ⟨methods, share (by decide), most, bounded⟩,
    method, none, zero⟩

end Cohesion

end CodeGauge
