import Mathlib.Data.List.Infix
import Mathlib.Data.List.TakeWhile
import CodeGauge.Pattern.Build
import CodeGauge.Pattern.Search

/-!
# Reading a text piece by piece

When it is known of what pieces a text is made, the first way to match it can be followed from left
to right. `Gives k t o` says what going on at a text comes to, wherever the text stands; there is
one rule for each kind of pattern, and where a repetition has a choice, the rule asks for what
happens at the ends that come before the right one.

All matches of a pattern in a text are found in the same way (`findFrom_match`, `findFrom_skip`).
-/

namespace CodeGauge

namespace Pattern

/-- Wherever a text stands, one goes on there with this match, or not at all. -/
def Gives (k : Spot → Option Match) (t : Text) (o : Option Match) : Prop :=
  ∀ before, k ⟨before, t⟩ = o

section Rules

variable {p q : Pattern} {k : Spot → Option Match} {t u : Text} {o : Option Match} {m : Match}
variable {accepts : Char → Bool}

theorem firstThen_append (p q : Pattern) (k : Spot → Option Match) :
    (p ++ q).firstThen k = p.firstThen (q.firstThen k) :=
  funext (firstThen_seq p q k)

theorem firstThen_wordEdge (k : Spot → Option Match) (s : Spot) :
    wordEdge.firstThen k s = if s.onWordEdge then k s else none := by
  by_cases edge : s.onWordEdge <;> simp [firstThen, ways, edge]

theorem Gives.one {c : Char} (fits : accepts c = true) (h : Gives k t o) :
    Gives ((one accepts).firstThen k) (c :: t) (o.map (.char c :: ·)) := by
  intro before
  simp [firstThen_one, fits, Spot.next?, h (c :: before)]

theorem gives_one_none (misfits : t.head?.any accepts = false) :
    Gives ((one accepts).firstThen k) t none := by
  intro before
  cases t with
  | nil => rfl
  | cons c t =>
    rw [firstThen_one]
    simpa using fun fits => absurd misfits (by simp [fits])

theorem Gives.literal (w : Text) (h : Gives k t o) :
    Gives ((literal w).firstThen k) (w ++ t) (o.map (w.map .char ++ ·)) := by
  intro before
  have here : w <+: (Spot.mk before (w ++ t)).after := List.prefix_append w t
  rw [firstThen_literal, if_pos (List.isPrefixOf_iff_prefix.2 here), skip?_eq here]
  simp [h (w.reverse ++ before)]

theorem gives_literal_none {w : Text} (misfits : ¬ w <+: t) :
    Gives ((literal w).firstThen k) t none := by
  intro before
  rw [firstThen_literal, if_neg fun fits => misfits (List.isPrefixOf_iff_prefix.1 fits)]

/-- As many characters as possible are taken, and from there one can go on. -/
theorem Gives.many (run : ∀ c ∈ u, accepts c = true) (ends : t.head?.any accepts = false)
    (h : Gives k t (some m)) :
    Gives ((many accepts).firstThen k) (u ++ t) (some (u.map .char ++ m)) := by
  unfold Pattern.many
  induction u with
  | nil =>
    intro before
    rw [firstThen_span]
    cases t with
    | nil => exact h before
    | cons c t =>
      have stops : accepts c = false := by simpa using ends
      simpa [stops] using h before
  | cons c u ih =>
    intro before
    have further := ih (fun d hd => run d (by simp [hd])) (c :: before)
    rw [firstThen_span]
    simp [run c (by simp), Spot.next?, further]

/-- As few characters as possible are taken: one cannot go on earlier. -/
theorem Gives.few (run : ∀ c ∈ u, accepts c = true)
    (early : ∀ a v, u = a ++ v → v ≠ [] → Gives k (v ++ t) none) (h : Gives k t (some m)) :
    Gives ((few accepts).firstThen k) (u ++ t) (some (u.map .char ++ m)) := by
  unfold Pattern.few
  induction u with
  | nil =>
    intro before
    rw [firstThen_span]
    cases t with
    | nil => exact h before
    | cons c t =>
      by_cases goesOn : accepts c
      · simp [goesOn, h before]
      · simpa [goesOn] using h before
  | cons c u ih =>
    intro before
    have notYet : k ⟨before, c :: (u ++ t)⟩ = none := early [] (c :: u) rfl (by simp) before
    have later (a v : Text) (split : u = a ++ v) : v ≠ [] → Gives k (v ++ t) none :=
      early (c :: a) v (by rw [split]; rfl)
    have further := ih (fun d hd => run d (by simp [hd])) later (c :: before)
    rw [firstThen_span]
    simp [run c (by simp), Spot.next?, notYet, further]

/-- A repetition leads nowhere if none of its ends does. -/
theorem gives_span_none {greed : Greed}
    (h : ∀ u v, t = u ++ v → (∀ c ∈ u, accepts c = true) → Gives k v none) :
    Gives ((span greed accepts).firstThen k) t none := by
  induction t with
  | nil =>
    intro before
    rw [firstThen_span]
    exact h [] [] rfl (by simp) before
  | cons c t ih =>
    intro before
    have here : k ⟨before, c :: t⟩ = none := h [] (c :: t) rfl (by simp) before
    rw [firstThen_span]
    by_cases goesOn : accepts c
    · have further : (span greed accepts).firstThen k ⟨c :: before, t⟩ = none := by
        refine ih (fun u v split run => h (c :: u) v (by rw [split]; rfl) ?_) (c :: before)
        simpa [goesOn] using run
      cases greed <;> simp [goesOn, Spot.next?, here, further]
    · simp [goesOn, here]

theorem Gives.slot {label : Slot}
    (h : Gives (p.firstThen fun s => (k s).map (.closing label :: ·)) t o) :
    Gives ((slot label p).firstThen k) t (o.map (.opening label :: ·)) := by
  intro before
  rw [firstThen_slot, h before]

theorem Gives.map (f : Match → Match) (h : Gives k t o) :
    Gives (fun s => (k s).map f) t (o.map f) :=
  fun before => congrArg (Option.map f) (h before)

theorem Gives.left (h : Gives (p.firstThen k) t (some m)) :
    Gives ((alt p q).firstThen k) t (some m) := by
  intro before
  rw [firstThen_alt, h before, Option.some_or]

theorem Gives.right (h : Gives (p.firstThen k) t none) (g : Gives (q.firstThen k) t o) :
    Gives ((alt p q).firstThen k) t o := by
  intro before
  rw [firstThen_alt, h before, Option.none_or, g before]

theorem Gives.optional (h : Gives (p.firstThen k) t (some m)) :
    Gives ((Pattern.optional p).firstThen k) t (some m) :=
  h.left

theorem Gives.skip (h : Gives (p.firstThen k) t none) (g : Gives k t o) :
    Gives ((Pattern.optional p).firstThen k) t o :=
  h.right fun before => by rw [firstThen_empty, g before]

end Rules

/-! ## All matches -/

/-- The matches that do not overlap in a text, given what stands before it. -/
def findFrom (p : Pattern) (before t : Text) : List Match :=
  select 0 ((placesFrom before t).map p.matchAt)

theorem findAll_eq_findFrom (p : Pattern) (t : Text) : p.findAll t = p.findFrom [] t :=
  findAll_eq p t

/-- The places in a match are left out. -/
theorem select_length (f : Spot → Option Match) (u before t : Text) :
    select u.length ((placesFrom before (u ++ t)).map f) =
      select 0 ((placesFrom (u.reverse ++ before) t).map f) := by
  induction u generalizing before with
  | nil => rfl
  | cons c u ih => simpa [placesFrom, select] using ih (c :: before)

/-- After a match the search goes on behind it. -/
theorem findFrom_match {p : Pattern} {before u t : Text} {m : Match} (found : u ≠ [])
    (taken : m.text = u) (h : p.matchAt ⟨before, u ++ t⟩ = some m) :
    p.findFrom before (u ++ t) = m :: p.findFrom (u.reverse ++ before) t := by
  obtain ⟨c, u, rfl⟩ := List.exists_cons_of_ne_nil found
  have rest := select_length p.matchAt u (c :: before) t
  rw [List.cons_append] at h
  simp only [findFrom, List.cons_append, placesFrom, List.map_cons, h, select, taken,
    List.length_cons, Nat.add_sub_cancel, rest]
  simp

/-- Without a match the search goes on at the next place. -/
theorem findFrom_skip {p : Pattern} {before t : Text} {c : Char}
    (h : p.matchAt ⟨before, c :: t⟩ = none) :
    p.findFrom before (c :: t) = p.findFrom (c :: before) t := by
  simp [findFrom, placesFrom, select, h]

end Pattern

/-! ## The parts of a match -/

namespace Match

theorem ne_closing_of_not_mem {label : Slot} {m : Match} (absent : .closing label ∉ m) :
    ∀ piece ∈ m.reverse, decide (piece ≠ .closing label) = true := by
  rintro piece there
  refine decide_eq_true ?_
  rintro rfl
  exact absent (List.mem_reverse.1 there)

theorem part?_absent {label : Slot} {m : Match} (absent : .closing label ∉ m) :
    part? m label = none := by
  rw [part?, List.dropWhile_eq_nil_iff.2 (ne_closing_of_not_mem absent)]

theorem part_absent {label : Slot} {m : Match} (absent : .closing label ∉ m) :
    part m label = [] := by
  rw [part, part?_absent absent]
  rfl

/-- What follows a part, and has no part of this name, does not change it. -/
theorem part?_append_left {label : Slot} {m n : Match} (later : .closing label ∉ n) :
    part? (m ++ n) label = part? m label := by
  rw [part?, part?, List.reverse_append, List.dropWhile_append_of_pos (ne_closing_of_not_mem later)]

theorem part_append_left {label : Slot} {m n : Match} (later : .closing label ∉ n) :
    part (m ++ n) label = part m label := by
  rw [part, part, part?_append_left later]

/-- A part is what stands between its marks. -/
theorem part?_marked {label : Slot} (m : Match) (u : Text) {n : Match} (last : .closing label ∉ n) :
    part? (m ++ .opening label :: (u.map .char ++ .closing label :: n)) label = some u := by
  have inside : ∀ piece ∈ (u.map Piece.char).reverse, decide (piece ≠ .opening label) = true := by
    simp
  have order :
      (m ++ Piece.opening label :: (u.map Piece.char ++ Piece.closing label :: n)).reverse =
        n.reverse ++ .closing label :: ((u.map .char).reverse ++ .opening label :: m.reverse) := by
    simp
  rw [part?, order, List.dropWhile_append_of_pos (ne_closing_of_not_mem last),
    List.dropWhile_cons_of_neg (by simp)]
  simp only [List.takeWhile_append_of_pos inside]
  simp [← List.map_reverse]

theorem part_marked {label : Slot} (m : Match) (u : Text) {n : Match} (last : .closing label ∉ n) :
    part (m ++ .opening label :: (u.map .char ++ .closing label :: n)) label = u := by
  rw [part, part?_marked m u last]
  rfl

end Match

end CodeGauge
