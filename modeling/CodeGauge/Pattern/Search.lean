import CodeGauge.Pattern.FirstWay
import CodeGauge.Pattern.Needs

/-!
# Searching a text for a pattern

A search takes the first place of a text, from left to right, at which the pattern matches. Going
through all matches, the next search starts where the last match ended; the character before that
place still counts for word edges.
-/

namespace CodeGauge

namespace Pattern

/-- The first way to match at every place of a text, or nothing if the text lacks what a match
needs. -/
def found (p : Pattern) (t : Text) : List (Option Match) :=
  if p.canOccur t then p.outcomes t else []

/-- The first match in a text. -/
def find? (p : Pattern) (t : Text) : Option Match :=
  (p.found t).findSome? id

/-- Whether a pattern matches somewhere in a text. -/
def occursIn (p : Pattern) (t : Text) : Bool :=
  (p.find? t).isSome

/-- The matches that do not overlap, out of the first ones at every place, leaving out the next
`skip` places: those that the match before them covers. -/
def select : Nat → List (Option Match) → List Match
  | _, [] => []
  | skip + 1, _ :: rest => select skip rest
  | 0, none :: rest => select 0 rest
  | 0, some m :: rest => m :: select (m.text.length - 1) rest

/-- All matches in a text that do not overlap, from left to right. -/
def findAll (p : Pattern) (t : Text) : List Match :=
  select 0 (p.found t)

/-- The number of matches in a text that do not overlap. -/
def count (p : Pattern) (t : Text) : Nat :=
  (p.findAll t).length

theorem matchAt_eq_none {p : Pattern} {t : Text} (h : p.canOccur t = false) {s : Spot}
    (hs : s ∈ places t) : p.matchAt s = none := by
  simp [matchAt, ways_eq_nil_of_canOccur h hs]

/-- The first match is the first way at the first place that has one. -/
theorem find?_eq (p : Pattern) (t : Text) : p.find? t = (places t).findSome? p.matchAt := by
  rw [find?, found]
  split
  · rw [outcomes_eq, List.findSome?_map]
    rfl
  · refine Eq.symm (List.findSome?_eq_none_iff.2 fun s hs => ?_)
    exact matchAt_eq_none (Bool.not_eq_true _ ▸ ‹_›) hs

/-- A pattern occurs in a text if it can match at one of its places. -/
theorem occursIn_iff (p : Pattern) (t : Text) :
    p.occursIn t = true ↔ ∃ s ∈ places t, p.ways s ≠ [] := by
  rw [occursIn, find?_eq, List.findSome?_isSome_iff]
  simp [matchAt]

theorem select_eq_nil {found : List (Option Match)} (h : ∀ m ∈ found, m = none) (skip : Nat) :
    select skip found = [] := by
  induction found generalizing skip with
  | nil => cases skip <;> rfl
  | cons m rest ih =>
    obtain rfl := h m (by simp)
    cases skip <;> exact ih (fun n hn => h n (by simp [hn])) _

/-- All matches are selected from the first ways at the places of the text. -/
theorem findAll_eq (p : Pattern) (t : Text) :
    p.findAll t = select 0 ((places t).map p.matchAt) := by
  rw [findAll, found]
  split
  · rw [outcomes_eq]
  · refine Eq.symm (select_eq_nil (fun m hm => ?_) 0)
    obtain ⟨s, hs, rfl⟩ := List.mem_map.1 hm
    exact matchAt_eq_none (Bool.not_eq_true _ ▸ ‹_›) hs

end Pattern

end CodeGauge
