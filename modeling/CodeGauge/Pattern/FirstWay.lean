import CodeGauge.Pattern.Pass

/-!
# The pass finds the first way

`Pattern.firstThen` is the first way to match at a place after which one can go on as told. It
follows the structure of patterns, and so does the pass: its outlook always holds the part of
`firstThen` that belongs to the next place.

* `step_eq`: a step finds the first way to match and go on, and keeps the outlook right;
* `outcomes_eq`: the pass finds the first way to match at every place of a text.
-/

namespace CodeGauge

namespace Pattern

/-! ## The first way to match and go on -/

/-- The first way to match at a place after which one can go on. -/
def firstThen (p : Pattern) (k : Spot → Option Match) (s : Spot) : Option Match :=
  (p.ways s).findSome? fun w => (k w.2).map (w.1 ++ ·)

theorem findSome?_congr {α β : Type} {l : List α} {f g : α → Option β}
    (h : ∀ a ∈ l, f a = g a) : l.findSome? f = l.findSome? g := by
  induction l with
  | nil => rfl
  | cons a l ih =>
    rw [List.findSome?_cons, List.findSome?_cons, h a (by simp), ih fun b hb => h b (by simp [hb])]

theorem findSome?_flatMap {α β γ : Type} (l : List α) (f : α → List β) (g : β → Option γ) :
    (l.flatMap f).findSome? g = l.findSome? fun a => (f a).findSome? g := by
  induction l with
  | nil => rfl
  | cons a l ih =>
    rw [List.flatMap_cons, List.findSome?_append, ih, List.findSome?_cons]
    cases (f a).findSome? g <;> rfl

theorem findSome?_map_ways (l : List (Match × Spot)) (m : Match) (k : Spot → Option Match) :
    (l.map fun v => (m ++ v.1, v.2)).findSome? (fun w => (k w.2).map (w.1 ++ ·)) =
      (l.findSome? fun w => (k w.2).map (w.1 ++ ·)).map (m ++ ·) := by
  rw [List.findSome?_map, List.map_findSome?]
  exact findSome?_congr fun v _ => by simp [Function.comp_def]

/-- Only the places from here on matter. -/
theorem firstThen_congr {p : Pattern} {k l : Spot → Option Match} {s : Spot}
    (h : ∀ t : Spot, t.after.length ≤ s.after.length → k t = l t) :
    p.firstThen k s = p.firstThen l s :=
  findSome?_congr fun w hw => by rw [h w.2 (takes_of_mem_ways hw).length_le]

@[simp] theorem firstThen_empty (k : Spot → Option Match) (s : Spot) :
    empty.firstThen k s = k s := by
  simp [firstThen, ways]

theorem firstThen_one (accepts : Char → Bool) (k : Spot → Option Match) (s : Spot) :
    (one accepts).firstThen k s =
      match s.after with
      | [] => none
      | c :: _ => if accepts c then (s.next?.bind k).map (.char c :: ·) else none := by
  obtain ⟨before, after⟩ := s
  cases after with
  | nil => simp [firstThen, ways]
  | cons c rest => by_cases h : accepts c <;> simp [firstThen, ways, Spot.next?, h]

theorem skip?_eq {s : Spot} {chars : Text} (h : chars <+: s.after) :
    s.skip? chars.length = some ⟨chars.reverse ++ s.before, s.after.drop chars.length⟩ := by
  induction chars generalizing s with
  | nil => rfl
  | cons c chars ih =>
    obtain ⟨before, after⟩ := s
    cases after with
    | nil => simp at h
    | cons d rest =>
      obtain ⟨rfl, further⟩ := List.cons_prefix_cons.1 h
      simp [Spot.skip?, Spot.next?, ih (s := ⟨c :: before, rest⟩) further]

theorem firstThen_literal (chars : Text) (k : Spot → Option Match) (s : Spot) :
    (literal chars).firstThen k s =
      if chars.isPrefixOf s.after then
        ((s.skip? chars.length).bind k).map (chars.map .char ++ ·)
      else none := by
  by_cases h : chars.isPrefixOf s.after
  · simp [firstThen, ways, h, skip?_eq (List.isPrefixOf_iff_prefix.1 h)]
  · simp [firstThen, ways, h]

theorem firstThen_span (greed : Greed) (accepts : Char → Bool) (k : Spot → Option Match)
    (s : Spot) :
    (span greed accepts).firstThen k s =
      match s.after with
      | [] => k s
      | c :: _ =>
        if accepts c then
          match greed with
          | .greedy =>
            ((s.next?.bind ((span greed accepts).firstThen k)).map (.char c :: ·)).or (k s)
          | .lazy => (k s).or ((s.next?.bind ((span greed accepts).firstThen k)).map (.char c :: ·))
        else k s := by
  obtain ⟨before, after⟩ := s
  cases after with
  | nil => simp [firstThen, ways, waysSpan]
  | cons c rest =>
    have longer := findSome?_map_ways (waysSpan greed accepts (c :: before) rest) [.char c] k
    simp only [List.singleton_append] at longer
    by_cases h : accepts c
    · cases greed <;>
        simp [firstThen, ways, waysSpan, Spot.next?, h, List.findSome?_append, longer,
          List.findSome?_cons] <;>
        cases k ⟨before, c :: rest⟩ <;> simp
    · simp [firstThen, ways, waysSpan, h]

theorem firstThen_seq (p q : Pattern) (k : Spot → Option Match) (s : Spot) :
    (seq p q).firstThen k s = p.firstThen (q.firstThen k) s := by
  simp only [firstThen, ways, findSome?_flatMap]
  exact findSome?_congr fun w _ => findSome?_map_ways _ _ _

theorem firstThen_alt (p q : Pattern) (k : Spot → Option Match) (s : Spot) :
    (alt p q).firstThen k s = (p.firstThen k s).or (q.firstThen k s) := by
  simp [firstThen, ways, List.findSome?_append]

theorem firstThen_star (p : Pattern) (k : Spot → Option Match) (s : Spot) :
    (star p).firstThen k s =
      (p.firstThen (fun t =>
        if t.after.length < s.after.length then (star p).firstThen k t else none) s).or (k s) := by
  rw [firstThen, ways_star, List.findSome?_append, findSome?_flatMap]
  congr 1
  · refine findSome?_congr fun w _ => ?_
    by_cases h : w.2.after.length < s.after.length
    · simp only [h, if_true]
      exact findSome?_map_ways _ _ _
    · simp [h]
  · simp

theorem firstThen_slot (label : Slot) (p : Pattern) (k : Spot → Option Match) (s : Spot) :
    (slot label p).firstThen k s =
      (p.firstThen (fun t => (k t).map (.closing label :: ·)) s).map (.opening label :: ·) := by
  simp only [firstThen, ways, List.findSome?_map, List.map_findSome?]
  exact findSome?_congr fun w _ => by simp [Function.comp_def]

/-! ## Outlooks -/

/-- An outlook is right for a place: it holds what the pattern has to know of the place after it, if
one goes on from there as `k` says. -/
def Knows : Pattern → Outlook → (Spot → Option Match) → Spot → Prop
  | one _, o, k, s => o.match? = s.next?.bind k
  | literal chars, o, k, s =>
    ∀ i < chars.length, o.matches?[i]?.join = (s.skip? (i + 1)).bind k
  | span greed accepts, o, k, s => o.match? = s.next?.bind ((span greed accepts).firstThen k)
  | seq p q, o, k, s => p.Knows o.left (q.firstThen k) s ∧ q.Knows o.right k s
  | alt p q, o, k, s => p.Knows o.left k s ∧ q.Knows o.right k s
  | star p, o, k, s => p.Knows o ((star p).firstThen k) s
  | slot label p, o, k, s => p.Knows o (fun t => (k t).map (.closing label :: ·)) s
  | _, _, _, _ => True

theorem length_after_of_next? {s t : Spot} (h : s.next? = some t) :
    t.after.length < s.after.length := by
  obtain ⟨before, after⟩ := s
  cases after with
  | nil => simp [Spot.next?] at h
  | cons c rest =>
    obtain rfl : Spot.mk (c :: before) rest = t := by simpa [Spot.next?] using h
    simp

theorem bind_next?_congr {k l : Spot → Option Match} {s : Spot}
    (h : ∀ t : Spot, t.after.length < s.after.length → k t = l t) :
    s.next?.bind k = s.next?.bind l := by
  cases ht : s.next? with
  | none => rfl
  | some t => exact h t (length_after_of_next? ht)

theorem bind_skip?_congr {k l : Spot → Option Match} {s : Spot}
    (h : ∀ t : Spot, t.after.length < s.after.length → k t = l t) (n : Nat) :
    (s.skip? (n + 1)).bind k = (s.skip? (n + 1)).bind l := by
  induction n generalizing s with
  | zero => simpa [Spot.skip?] using bind_next?_congr h
  | succ n ih =>
    simp only [Spot.skip?] at ih ⊢
    cases ht : s.next? with
    | none => rfl
    | some t =>
      have shorter := length_after_of_next? ht
      simpa using ih fun u hu => h u (Nat.lt_trans hu shorter)

theorem firstThen_congr_later {p : Pattern} {k l : Spot → Option Match} {s : Spot}
    (h : ∀ t : Spot, t.after.length < s.after.length → k t = l t) :
    ∀ t : Spot, t.after.length < s.after.length → p.firstThen k t = p.firstThen l t :=
  fun _ ht => firstThen_congr fun u hu => h u (Nat.lt_of_le_of_lt hu ht)

/-- Only the places further on matter. -/
theorem Knows.congr {p : Pattern} {o : Outlook} {k l : Spot → Option Match} {s : Spot}
    (h : ∀ t : Spot, t.after.length < s.after.length → k t = l t) (hp : p.Knows o k s) :
    p.Knows o l s := by
  induction p generalizing o k l with
  | one accepts => exact hp.trans (bind_next?_congr h)
  | literal chars => exact fun i hi => (hp i hi).trans (bind_skip?_congr h i)
  | span greed accepts => exact hp.trans (bind_next?_congr (firstThen_congr_later h))
  | seq p q ihp ihq => exact ⟨ihp (firstThen_congr_later h) hp.1, ihq h hp.2⟩
  | alt p q ihp ihq => exact ⟨ihp h hp.1, ihq h hp.2⟩
  | star p ih => exact ih (l := (star p).firstThen l) (firstThen_congr_later h) hp
  | slot label p ih =>
    exact ih (l := fun t => (l t).map (.closing label :: ·)) (fun t ht => by rw [h t ht]) hp
  | empty | wordEdge | textStart | textEnd => trivial

/-- At the end of the text there is nothing to know. -/
theorem knows_bare (p : Pattern) (k : Spot → Option Match) (before : Text) :
    p.Knows .bare k ⟨before, []⟩ := by
  induction p generalizing k with
  | one accepts | span greed accepts => rfl
  | literal chars => exact fun i _ => rfl
  | seq p q ihp ihq => exact ⟨ihp _, ihq _⟩
  | alt p q ihp ihq => exact ⟨ihp _, ihq _⟩
  | star p ih | slot label p ih => exact ih _
  | empty | wordEdge | textStart | textEnd => trivial

/-- A pattern that keeps nothing and cannot end here stays so. -/
theorem step_bare_none (p : Pattern) (s : Spot) : p.step .bare s none = (none, .bare) := by
  cases p <;> exact if_pos rfl

theorem eq_bare_none {o : Outlook} {k : Option Match} (h : (o.isBare && k.isNone) = true) :
    o = .bare ∧ k = none := by
  cases o <;> cases k <;> simp_all [Outlook.isBare]

theorem step_one (accepts : Char → Bool) (o : Outlook) (s : Spot) (k : Option Match) :
    (one accepts).step o s k =
      (match s.after with
        | [] => none
        | c :: _ => if accepts c then o.match?.map (.char c :: ·) else none,
      .ofMatch k) := by
  by_cases nothing : (o.isBare && k.isNone) = true
  · obtain ⟨rfl, rfl⟩ := eq_bare_none nothing
    rw [step_bare_none]
    cases s.after <;> simp [Outlook.match?, Outlook.ofMatch]
  · exact if_neg nothing

theorem step_literal (chars : Text) (o : Outlook) (s : Spot) (k : Option Match) :
    (literal chars).step o s k =
      let ms := k :: o.matches?
      (if chars.isPrefixOf s.after then ms[chars.length]?.join.map (chars.map .char ++ ·) else none,
      .ofAhead chars.length ms) := by
  by_cases nothing : (o.isBare && k.isNone) = true
  · obtain ⟨rfl, rfl⟩ := eq_bare_none nothing
    rw [step_bare_none]
    cases chars <;> simp [Outlook.matches?, Outlook.ofAhead, Outlook.allNone]
  · exact if_neg nothing

theorem step_span (greed : Greed) (accepts : Char → Bool) (o : Outlook) (s : Spot)
    (k : Option Match) :
    (span greed accepts).step o s k =
      let m := match s.after with
        | [] => k
        | c :: _ =>
          if accepts c then
            match greed with
            | .greedy => (o.match?.map (.char c :: ·)).or k
            | .lazy => k.or (o.match?.map (.char c :: ·))
          else k
      (m, .ofMatch m) := by
  by_cases nothing : (o.isBare && k.isNone) = true
  · obtain ⟨rfl, rfl⟩ := eq_bare_none nothing
    rw [step_bare_none]
    cases s.after <;> cases greed <;> simp [Outlook.match?, Outlook.ofMatch]
  · exact if_neg nothing

theorem step_seq (p q : Pattern) (o : Outlook) (s : Spot) (k : Option Match) :
    (seq p q).step o s k =
      let second := q.step o.right s k
      let first := p.step o.left s second.1
      (first.1, .join first.2 second.2) := by
  by_cases nothing : (o.isBare && k.isNone) = true
  · obtain ⟨rfl, rfl⟩ := eq_bare_none nothing
    rw [step_bare_none]
    simp [Outlook.left, Outlook.right, step_bare_none, Outlook.join]
  · exact if_neg nothing

theorem step_alt (p q : Pattern) (o : Outlook) (s : Spot) (k : Option Match) :
    (alt p q).step o s k =
      let one := p.step o.left s k
      let other := q.step o.right s k
      (one.1.or other.1, .join one.2 other.2) := by
  by_cases nothing : (o.isBare && k.isNone) = true
  · obtain ⟨rfl, rfl⟩ := eq_bare_none nothing
    rw [step_bare_none]
    simp [Outlook.left, Outlook.right, step_bare_none, Outlook.join]
  · exact if_neg nothing

theorem step_star (p : Pattern) (o : Outlook) (s : Spot) (k : Option Match) :
    (star p).step o s k =
      let m := (p.step o s none).1.or k
      (m, (p.step o s m).2) := by
  by_cases nothing : (o.isBare && k.isNone) = true
  · obtain ⟨rfl, rfl⟩ := eq_bare_none nothing
    rw [step_bare_none]
    simp [step_bare_none]
  · exact if_neg nothing

theorem step_slot (label : Slot) (p : Pattern) (o : Outlook) (s : Spot) (k : Option Match) :
    (slot label p).step o s k =
      let inner := p.step o s (k.map (.closing label :: ·))
      (inner.1.map (.opening label :: ·), inner.2) := by
  by_cases nothing : (o.isBare && k.isNone) = true
  · obtain ⟨rfl, rfl⟩ := eq_bare_none nothing
    rw [step_bare_none]
    simp [step_bare_none]
  · exact if_neg nothing

/-- A step finds the first way to match and go on, and keeps the outlook right. -/
theorem step_eq {p : Pattern} {o : Outlook} {k : Spot → Option Match} {s : Spot}
    (h : p.Knows o k s) :
    (p.step o s (k s)).1 = p.firstThen k s ∧
      ∀ t : Spot, t.next? = some s → p.Knows (p.step o s (k s)).2 k t := by
  induction p generalizing o k with
  | empty =>
    refine ⟨?_, fun _ _ => trivial⟩
    rw [step, firstThen_empty]
    split <;> simp_all
  | one accepts =>
    rw [step_one, firstThen_one, ← h]
    exact ⟨rfl, fun t ht => by simp [Knows, ht]⟩
  | literal chars =>
    have ahead (n : Nat) (hn : n ≤ chars.length) :
        (k s :: o.matches?)[n]?.join = (s.skip? n).bind k := by
      cases n with
      | zero => rfl
      | succ n => simpa using h n hn
    rw [step_literal, firstThen_literal]
    refine ⟨by simp [ahead], fun t ht i hi => ?_⟩
    rw [Outlook.join_getElem?_ofAhead _ hi, ahead i (Nat.le_of_lt hi), Spot.skip?, ht]
    rfl
  | span greed accepts =>
    have value : ((span greed accepts).step o s (k s)).1 = (span greed accepts).firstThen k s := by
      rw [step_span, firstThen_span, ← h]
    refine ⟨value, fun t ht => ?_⟩
    rw [Knows, ht, Option.bind_some, ← value, step_span]
    simp
  | seq p q ihp ihq =>
    obtain ⟨second, laterSecond⟩ := ihq h.2
    obtain ⟨first, laterFirst⟩ := ihp h.1
    rw [step_seq, firstThen_seq]
    simp only [second]
    exact ⟨first, fun t ht => ⟨by simpa using laterFirst t ht, by simpa using laterSecond t ht⟩⟩
  | alt p q ihp ihq =>
    obtain ⟨first, laterFirst⟩ := ihp h.1
    obtain ⟨second, laterSecond⟩ := ihq h.2
    rw [step_alt, firstThen_alt, ← first, ← second]
    exact ⟨rfl, fun t ht => ⟨by simpa using laterFirst t ht, by simpa using laterSecond t ht⟩⟩
  | star p ih =>
    let l : Spot → Option Match := fun t =>
      if t.after.length < s.after.length then (star p).firstThen k t else none
    have forward : p.Knows o l s := Knows.congr (fun t ht => by simp [l, ht]) h
    have round : (p.step o s none).1 = p.firstThen l s := by
      have := (ih forward).1
      simpa [l] using this
    have value : (p.step o s none).1.or (k s) = (star p).firstThen k s := by
      rw [round, firstThen_star]
    rw [step_star, value]
    exact ⟨rfl, (ih h).2⟩
  | slot label p ih =>
    obtain ⟨value, later⟩ := ih h
    rw [step_slot, firstThen_slot, ← value]
    exact ⟨rfl, later⟩
  | wordEdge | textStart | textEnd =>
    refine ⟨?_, fun _ _ => trivial⟩
    rw [step]
    split <;> simp_all [firstThen, ways] <;> split <;> simp_all

theorem firstThen_some (p : Pattern) (s : Spot) :
    p.firstThen (fun _ => some []) s = p.matchAt s := by
  simp only [firstThen, matchAt, Option.map_some, List.append_nil]
  cases p.ways s <;> rfl

theorem placesFrom_eq_cons (before after : Text) :
    placesFrom before after = ⟨before, after⟩ :: (placesFrom before after).drop 1 := by
  cases after <;> rfl

theorem outcomesFrom_eq {p : Pattern} {o : Outlook} {before after : Text}
    (h : p.Knows o (fun _ => some []) ⟨before, after⟩) :
    p.outcomesFrom o before after (((placesFrom before after).drop 1).map p.matchAt) =
      (places (before.reverse ++ after)).map p.matchAt := by
  obtain ⟨here, later⟩ := step_eq h
  rw [firstThen_some] at here
  induction before generalizing o after with
  | nil =>
    rw [outcomesFrom, here, ← List.map_cons, ← placesFrom_eq_cons]
    rfl
  | cons c before ih =>
    have known := later ⟨before, c :: after⟩ rfl
    obtain ⟨next, further⟩ := step_eq known
    rw [firstThen_some] at next
    have := ih known next further
    rw [outcomesFrom, here, ← List.map_cons, ← placesFrom_eq_cons]
    simpa [placesFrom] using this

/-- The pass finds the first way to match at every place. -/
theorem outcomes_eq (p : Pattern) (t : Text) : p.outcomes t = (places t).map p.matchAt := by
  have := outcomesFrom_eq (knows_bare p (fun _ => some []) t.reverse)
  simpa [outcomes, placesFrom] using this

end Pattern

end CodeGauge
