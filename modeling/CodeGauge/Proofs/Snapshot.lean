import Mathlib.Tactic.Common
import CodeGauge.Bundle.Report

/-!
# Snapshots by path

Having the same components is an equivalence of paths, and a snapshot is a map on its classes: a
store is seen at every spelling of its path (`Snapshot.lookup?_store_of_same`) and nowhere else
(`Snapshot.lookup?_store_of_not_same`).
-/

namespace CodeGauge

namespace Path

theorem same_iff {p q : Path} : p.same q = true ↔ p.components = q.components := by
  simp [same]

@[simp] theorem same_self (p : Path) : p.same p = true := same_iff.2 rfl

theorem same_comm (p q : Path) : p.same q = q.same p := by
  rw [Bool.eq_iff_iff, same_iff, same_iff]
  exact eq_comm

theorem same_symm {p q : Path} (h : p.same q = true) : q.same p = true := by
  rwa [same_comm]

theorem same_trans {p q r : Path} (h : p.same q = true) (h' : q.same r = true) : p.same r = true :=
  same_iff.2 ((same_iff.1 h).trans (same_iff.1 h'))

/-- A path has the components of one spelling exactly if it has those of another. -/
theorem same_congr {p q : Path} (h : p.same q = true) (r : Path) : r.same p = r.same q := by
  unfold same
  rw [same_iff.1 h]

end Path

namespace Snapshot

variable {s : Snapshot} {key path : Path} {bundle : Bundle}

theorem find?_map_of_same (h : path.same key = true) (there : s.any (·.1.same key) = true) :
    ((s.map fun e => if e.1.same key then (e.1, bundle) else e).find? (·.1.same path)).map (·.2) =
      some bundle := by
  induction s with
  | nil => simp at there
  | cons e rest ih =>
    by_cases he : e.1.same key = true
    · have found : e.1.same path = true := Path.same_trans he (Path.same_symm h)
      simp [he, found]
    · have passed : e.1.same path = false := by
        rw [Path.same_congr h]
        simpa using he
      simp only [List.any_cons, he, Bool.false_or] at there
      simpa [he, passed] using ih there

theorem find?_map_of_not_same (h : path.same key = false) :
    ((s.map fun e => if e.1.same key then (e.1, bundle) else e).find? (·.1.same path)) =
      s.find? (·.1.same path) := by
  induction s with
  | nil => rfl
  | cons e rest ih =>
    by_cases he : e.1.same key = true
    · have passed : e.1.same path = false := by
        rw [Path.same_comm, Path.same_congr he]
        exact h
      simp [he, passed, ih]
    · by_cases found : e.1.same path = true <;> simp [he, found, ih]

/-- A stored bundle is found under every spelling of its path. -/
theorem lookup?_store_of_same (h : path.same key = true) :
    lookup? (store s key bundle) path = some bundle := by
  unfold lookup? store
  split_ifs with there
  · exact find?_map_of_same h there
  · have before : s.find? (·.1.same path) = none := by
      rw [List.find?_eq_none]
      intro e he found
      apply there
      rw [List.any_eq_true]
      exact ⟨e, he, by rwa [Path.same_congr h] at found⟩
    have found : key.same path = true := Path.same_symm h
    simp [List.find?_append, before, found]

/-- A store leaves the bundles of other paths alone. -/
theorem lookup?_store_of_not_same (h : path.same key = false) :
    lookup? (store s key bundle) path = lookup? s path := by
  unfold lookup? store
  split_ifs with there
  · rw [find?_map_of_not_same h]
  · have passed : key.same path = false := by rwa [Path.same_comm]
    simp [List.find?_append, passed]

theorem lookup?_congr {p q : Path} (h : p.same q = true) : lookup? s p = lookup? s q := by
  unfold lookup?
  simp only [Path.same_congr h]

theorem any_store (s : Snapshot) (key : Path) (bundle : Bundle) (path : Path) :
    (store s key bundle).any (·.1.same path) = (s.any (·.1.same path) || key.same path) := by
  unfold store
  split_ifs with there
  · have keys : (fun e : Path × Bundle => e.1.same path) ∘
        (fun e : Path × Bundle => if e.1.same key then (e.1, bundle) else e) =
          fun e => e.1.same path := by
      funext e
      simp only [Function.comp_apply]
      split_ifs <;> rfl
    rw [List.any_map, keys]
    cases same : key.same path with
    | false => rw [Bool.or_false]
    | true =>
      obtain ⟨e, he, found⟩ := List.any_eq_true.1 there
      rw [Bool.or_true, List.any_eq_true]
      exact ⟨e, he, Path.same_trans found same⟩
  · simp

end Snapshot

end CodeGauge
