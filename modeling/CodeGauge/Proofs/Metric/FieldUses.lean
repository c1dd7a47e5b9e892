import Mathlib.Algebra.Field.Rat
import CodeGauge.Proofs.Metric.PairCounts
import CodeGauge.Proofs.Pattern.Leads

/-!
# Uses of fields

The tight cohesion takes more for a use of a field than the lack of cohesion does
(`looseUse_occursIn`). With more uses more pairs of methods share a field
(`sharingCount_le_of_subset`). So the one metric bounds the other, as long as the number of all
pairs fits into 32 bits (`tight_cohesion_bounds_lack`).
-/

namespace CodeGauge

/-- The exact value of a share. -/
def Share.value (s : Share) : ℚ := s.part / s.whole

namespace Cohesion

open Pattern

/-- Where a field is named, it is used in the wider sense. -/
theorem looseUse_occursIn {field body : Text} (named : (namedUse field).occursIn body = true) :
    (looseUse field).occursIn body = true := by
  obtain ⟨s, e, rfl, leads⟩ := occursIn_iff_leads.1 named
  simp only [namedUse, leads_append, leads_optional] at leads
  obtain ⟨m, ⟨n, ⟨k, edge, this | rfl⟩, letters⟩, edge'⟩ := leads
  · have through : (wordEdge ++ word "this." ++ literal field ++ wordEdge).Leads s e := by
      simp only [leads_append]
      exact ⟨m, ⟨n, ⟨k, edge, this⟩, letters⟩, edge'⟩
    exact oneOf_occursIn (by simp) through
  · have bare : (wordEdge ++ literal field ++ wordEdge).Leads s e := by
      simp only [leads_append]
      exact ⟨m, ⟨n, edge, letters⟩, edge'⟩
    exact oneOf_occursIn (by simp) bare

/-- A method uses in the wider sense all fields that it names. -/
theorem usage_subset (shape : ClassShape) :
    List.Forall₂ (· ⊆ ·) (usage shape namedUse) (usage shape looseUse) := by
  unfold usage
  rw [List.forall₂_map_left_iff, List.forall₂_map_right_iff, List.forall₂_same]
  intro method _ field used
  rw [List.mem_filter] at used ⊢
  exact ⟨used.1, looseUse_occursIn used.2⟩

/-- A class of at least two methods: what the lack of cohesion takes for a use, the tight cohesion
does too. If the number of all pairs fits into 32 bits, it connects at least the pairs that share a
field, the lack is at least all pairs less twice the connected ones, and it is all pairs if the
tight cohesion is zero. -/
theorem tight_cohesion_bounds_lack (source : Text) (several : 2 ≤ (shapeOf source).methods.length) :
    let shape := shapeOf source
    let pairs := shape.methods.length.choose 2
    let sharing := (Pairs.ofUsage (usage shape namedUse)).sharing.toNat
    let connected := (Pairs.ofUsage (usage shape looseUse)).sharing.toNat
    (∀ field ∈ shape.fields, ∀ method ∈ shape.methods,
      (namedUse field).occursIn method.2 = true → (looseUse field).occursIn method.2 = true) ∧
    (pairs < UInt32.size →
      (lack source = pairs - 2 * sharing ∧ tight source = ⟨connected, pairs⟩) ∧
      sharing ≤ connected ∧
      (pairs : Int) - 2 * connected ≤ lack source ∧
      ((tight source).value = 0 → lack source = pairs)) := by
  intro shape pairs sharing connected
  refine ⟨fun field _ method _ => looseUse_occursIn, fun few => ?_⟩
  have number (use : Text → Pattern) : (usage shape use).length.choose 2 < UInt32.size := by
    rw [length_usage]
    exact few
  have exact_sharing : sharing = sharingCount (usage shape namedUse) :=
    Pairs.toNat_sharing (number _)
  have exact_connected : connected = sharingCount (usage shape looseUse) :=
    Pairs.toNat_sharing (number _)
  have disjoint := Pairs.toNat_disjoint (number namedUse)
  rw [length_usage, ← exact_sharing] at disjoint
  have wider : sharing ≤ connected := by
    rw [exact_sharing, exact_connected]
    exact sharingCount_le_of_subset (usage_subset shape)
  have lack_eq : lack source = pairs - 2 * sharing := by
    rw [lack, if_neg (by omega)]
    show (Pairs.ofUsage (usage shape namedUse)).disjoint.toNat - sharing = _
    omega
  have tight_eq : tight source = ⟨connected, pairs⟩ := by
    rw [tight, if_neg (by omega), ← Nat.choose_two_right]
  have some_pair : 0 < pairs := Nat.choose_pos several
  refine ⟨⟨lack_eq, tight_eq⟩, wider, by omega, fun zero => ?_⟩
  have none : connected = 0 := by
    rw [tight_eq, Share.value, div_eq_zero_iff] at zero
    rcases zero with part | whole
    · exact Rat.natCast_eq_zero_iff.1 part
    · have empty : pairs = 0 := Rat.natCast_eq_zero_iff.1 whole
      omega
  omega

/-- In the first class a longer name connects two methods that share no field in the narrow sense;
in the second no pair is connected, so the lack is the one pair that there is. -/
theorem longer_name_connects :
    let wide :=
      "class S \x7b\n int a;\n void f() \x7b a++; \x7d\n void g() \x7b ba.run(); \x7d\n\x7d\n".toList
    let apart :=
      "class D \x7b\n int a;\n int b;\n void f() \x7b a++; \x7d\n void g() \x7b b++; \x7d\n\x7d\n".toList
    (lack wide = 1 ∧ tight wide = ⟨1, 1⟩ ∧ (1 : Int) - 2 * 1 ≤ lack wide) ∧
      (tight apart).value = 0 ∧ lack apart = 1 := by
  intro wide apart
  have methods : (shapeOf wide).methods.length = 2 := by decide +kernel
  have methods' : (shapeOf apart).methods.length = 2 := by decide +kernel
  have connected : (Pairs.ofUsage (usage (shapeOf wide) looseUse)).sharing.toNat = 1 := by
    decide +kernel
  have connected' : (Pairs.ofUsage (usage (shapeOf apart) looseUse)).sharing.toNat = 0 := by
    decide +kernel
  have few : (2 : Nat).choose 2 < UInt32.size := by decide
  obtain ⟨-, counted⟩ := tight_cohesion_bounds_lack wide (by omega)
  obtain ⟨-, counted'⟩ := tight_cohesion_bounds_lack apart (by omega)
  rw [methods] at counted
  rw [methods'] at counted'
  obtain ⟨⟨-, tight_eq⟩, -, least, -⟩ := counted few
  obtain ⟨⟨-, tight_eq'⟩, -, -, zero⟩ := counted' few
  rw [connected] at tight_eq least
  rw [connected'] at tight_eq'
  have value : (tight apart).value = 0 := by rw [tight_eq', Share.value]; simp
  exact ⟨⟨by decide +kernel, tight_eq, least⟩, value, zero value⟩

end Cohesion

end CodeGauge
