import CodeGauge.Pattern.Basic

/-!
# What every match holds

Some literals are part of every way to match. A text without one of them need not be searched.
Main statement: `ways_eq_nil_of_canOccur`, such a text has no match at any of its places.
-/

namespace CodeGauge

namespace Pattern

/-- Literals that every way to match holds. -/
def needs : Pattern → List Text
  | literal chars => [chars]
  | seq p q => p.needs ++ q.needs
  | alt p q => p.needs.filter q.needs.contains
  | slot _ p => p.needs
  | _ => []

/-- Whether a text holds all that a match needs. -/
def canOccur (p : Pattern) (t : Text) : Bool := p.needs.all (Text.occursIn · t)

/-- What a pattern needs stands after every place where it matches. -/
theorem infix_of_mem_needs {p : Pattern} {s : Spot} {w : Match × Spot} {part : Text}
    (hw : w ∈ p.ways s) (hp : part ∈ p.needs) : part <:+: s.after := by
  induction p generalizing s w with
  | literal chars =>
    obtain rfl := List.mem_singleton.1 hp
    simp only [ways] at hw
    split at hw
    · exact (List.isPrefixOf_iff_prefix.1 ‹_›).isInfix
    · simp at hw
  | seq p q ihp ihq =>
    simp only [ways, List.mem_flatMap, List.mem_map] at hw
    obtain ⟨u, hu, v, hv, rfl⟩ := hw
    obtain hp | hp := List.mem_append.1 hp
    · exact ihp hu hp
    · exact (ihq hv hp).trans (takes_of_mem_ways hu).suffix.isInfix
  | alt p q ihp ihq =>
    obtain ⟨left, right⟩ := List.mem_filter.1 hp
    obtain hw | hw := List.mem_append.1 hw
    · exact ihp hw left
    · exact ihq hw (by simpa using right)
  | slot label p ih =>
    obtain ⟨v, hv, rfl⟩ := List.mem_map.1 hw
    exact ih hv hp
  | empty | one accepts | span greed accepts | star p | wordEdge | textStart | textEnd =>
    simp [needs] at hp

theorem suffix_of_mem_placesFrom {before after : Text} {s : Spot}
    (h : s ∈ placesFrom before after) : s.after <:+ after := by
  induction after generalizing before with
  | nil =>
    obtain rfl := List.mem_singleton.1 h
    exact List.suffix_refl _
  | cons c rest ih =>
    obtain rfl | h := List.mem_cons.1 h
    · exact List.suffix_refl _
    · exact (ih h).trans (List.suffix_cons c rest)

/-- A text that lacks something a match needs has no match. -/
theorem ways_eq_nil_of_canOccur {p : Pattern} {t : Text} (h : p.canOccur t = false) {s : Spot}
    (hs : s ∈ places t) : p.ways s = [] := by
  rw [List.eq_nil_iff_forall_not_mem]
  intro w hw
  obtain ⟨part, hp, hpart⟩ := List.all_eq_false.1 h
  refine hpart (Text.occursIn_iff.2 ?_)
  exact (infix_of_mem_needs hw hp).trans (suffix_of_mem_placesFrom hs).isInfix

end Pattern

end CodeGauge
