import CodeGauge.Proofs.Pattern.Leads

/-!
# Patterns that ask nothing of the place

A pattern without word edges, and without the start and the end of the text, asks nothing of the
place where it is tried. So it can take every text of its language (`leads_of_mem_language`), and
how one goes on behind it does not depend on what stands before the text (`Blind.firstThen`). This
tells that a text can be read (`Readable.firstThen`) where it would be tedious to say how. What the
first way takes is then found from the other side, by taking the match apart (`exists_of_plain`,
`exists_of_slot`).
-/

namespace CodeGauge

namespace Pattern

/-- Whether a pattern asks nothing of the place. -/
def isFree : Pattern → Bool
  | wordEdge | textStart | textEnd => false
  | seq p q | alt p q => p.isFree && q.isFree
  | star p | slot _ p => p.isFree
  | empty | one _ | literal _ | span _ _ => true

variable {p q : Pattern} {s e : Spot} {t u : Text} {k : Spot → Option Match}

/-! ## Taking a text of the language -/

theorem leads_slot {label : Slot} : (slot label p).Leads s e ↔ p.Leads s e := by
  constructor
  · rintro ⟨_, way⟩
    obtain ⟨⟨m, _⟩, inside, same⟩ := List.mem_map.1 way
    obtain ⟨-, rfl⟩ := Prod.mk.inj same
    exact ⟨m, inside⟩
  · rintro ⟨m, way⟩
    exact ⟨_, List.mem_map.2 ⟨(m, e), way, rfl⟩⟩

theorem leads_star_stop (p : Pattern) (s : Spot) : (star p).Leads s s := by
  refine ⟨[], ?_⟩
  rw [ways_star]
  exact List.mem_append_right _ (List.mem_singleton_self _)

/-- A round that moves forward, and all further rounds. -/
theorem Leads.star {m : Spot} (round : p.Leads s m) (moves : m.after.length < s.after.length)
    (further : (star p).Leads m e) : (star p).Leads s e := by
  obtain ⟨first, way⟩ := round
  obtain ⟨rest, later⟩ := further
  refine ⟨first ++ rest, ?_⟩
  rw [ways_star]
  refine List.mem_append_left _ (List.mem_flatMap.2 ⟨(first, m), way, ?_⟩)
  rw [if_pos moves]
  exact List.mem_map.2 ⟨(rest, e), later, rfl⟩

/-- Where a text of its language stands, a pattern that asks nothing of the place can take it. -/
theorem leads_of_mem_language (free : p.isFree = true) (h : u ∈ p.language) (takes : s.Takes u e) :
    p.Leads s e := by
  induction p generalizing s e u with
  | empty =>
    obtain rfl : u = [] := h
    exact leads_empty.2 takes.eq_of_nil
  | one accepts =>
    obtain ⟨c, fits, rfl⟩ := h
    exact leads_one.2 ⟨c, fits, takes⟩
  | literal chars =>
    obtain rfl : u = chars := h
    exact leads_literal.2 takes
  | span greed accepts => exact leads_span.2 ⟨u, h, takes⟩
  | seq p q ihp ihq =>
    obtain ⟨first, second⟩ : p.isFree = true ∧ q.isFree = true := by simpa [isFree] using free
    obtain ⟨v, hv, w, hw, rfl⟩ := Language.mem_mul.1 h
    obtain ⟨m, begins, ends⟩ := takes.split
    exact leads_append.2 ⟨m, ihp first hv begins, ihq second hw ends⟩
  | alt p q ihp ihq =>
    obtain ⟨first, second⟩ : p.isFree = true ∧ q.isFree = true := by simpa [isFree] using free
    rcases h with left | right
    · exact leads_alt.2 (.inl (ihp first left takes))
    · exact leads_alt.2 (.inr (ihq second right takes))
  | star p ih =>
    -- Rounds that take nothing are left out, so every round moves forward.
    obtain ⟨rounds, rfl, each⟩ := Language.mem_kstar_iff_exists_nonempty.1 h
    clear h
    induction rounds generalizing s with
    | nil =>
      obtain rfl := takes.eq_of_nil
      exact leads_star_stop p e
    | cons round rounds rest =>
      obtain ⟨taken, some_char⟩ := each round (by simp)
      rw [List.flatten_cons] at takes
      obtain ⟨m, begins, ends⟩ := takes.split
      have moves : m.after.length < s.after.length := by
        have size := congrArg List.length begins.1
        have := List.length_pos_of_ne_nil some_char
        rw [List.length_append] at size
        omega
      have further := rest (fun v there => each v (by simp [there])) ends
      exact (ih free taken begins).star moves further
  | slot label p ih => exact leads_slot.2 (ih free h takes)
  | wordEdge | textStart | textEnd => simp [isFree] at free

/-! ## What stands before -/

/-- How one goes on does not depend on what stands before the text. -/
def Blind (k : Spot → Option Match) : Prop := ∀ t, ∃ o, Gives k t o

theorem Blind.map (h : Blind k) (f : Match → Match) : Blind fun s => (k s).map f := by
  intro t
  obtain ⟨o, gives⟩ := h t
  exact ⟨_, gives.map f⟩

theorem Blind.one (h : Blind k) (accepts : Char → Bool) : Blind ((one accepts).firstThen k) := by
  intro t
  cases t with
  | nil => exact ⟨_, gives_one_none rfl⟩
  | cons c t =>
    obtain ⟨o, gives⟩ := h t
    by_cases fits : accepts c
    · exact ⟨_, gives.one fits⟩
    · exact ⟨_, gives_one_none (by simpa using fits)⟩

theorem Blind.literal (h : Blind k) (w : Text) : Blind ((literal w).firstThen k) := by
  intro t
  by_cases here : w <+: t
  · obtain ⟨rest, rfl⟩ := here
    obtain ⟨o, gives⟩ := h rest
    exact ⟨_, gives.literal w⟩
  · exact ⟨_, gives_literal_none here⟩

theorem Blind.span (h : Blind k) (greed : Greed) (accepts : Char → Bool) :
    Blind ((span greed accepts).firstThen k) := by
  intro t
  induction t with
  | nil =>
    obtain ⟨o, here⟩ := h []
    refine ⟨o, fun before => ?_⟩
    rw [firstThen_span]
    exact here before
  | cons c t ih =>
    obtain ⟨o, here⟩ := h (c :: t)
    obtain ⟨o', further⟩ := ih
    by_cases fits : accepts c
    · cases greed with
      | greedy =>
        refine ⟨(o'.map (.char c :: ·)).or o, fun before => ?_⟩
        rw [firstThen_span]
        simp [fits, Spot.next?, further (c :: before), here before]
      | lazy =>
        refine ⟨o.or (o'.map (.char c :: ·)), fun before => ?_⟩
        rw [firstThen_span]
        simp [fits, Spot.next?, further (c :: before), here before]
    · refine ⟨o, fun before => ?_⟩
      rw [firstThen_span]
      simpa [fits] using here before

/-- A pattern that asks nothing of the place does not look back. -/
theorem Blind.firstThen (free : p.isFree = true) (h : Blind k) : Blind (p.firstThen k) := by
  induction p generalizing k with
  | empty =>
    intro t
    obtain ⟨o, gives⟩ := h t
    exact ⟨o, fun before => by rw [firstThen_empty, gives before]⟩
  | one accepts => exact h.one accepts
  | literal w => exact h.literal w
  | span greed accepts => exact h.span greed accepts
  | seq p q ihp ihq =>
    obtain ⟨first, second⟩ : p.isFree = true ∧ q.isFree = true := by simpa [isFree] using free
    intro t
    obtain ⟨o, gives⟩ := ihp first (ihq second h) t
    exact ⟨o, fun before => by rw [firstThen_seq, gives before]⟩
  | alt p q ihp ihq =>
    obtain ⟨first, second⟩ : p.isFree = true ∧ q.isFree = true := by simpa [isFree] using free
    intro t
    obtain ⟨o, left⟩ := ihp first h t
    obtain ⟨o', right⟩ := ihq second h t
    exact ⟨o.or o', fun before => by rw [firstThen_alt, left before, right before]⟩
  | star p ih =>
    intro t
    obtain ⟨n, size⟩ : ∃ n, t.length = n := ⟨_, rfl⟩
    induction n using Nat.strongRecOn generalizing t with
    | _ n rounds =>
      have later : Blind fun e : Spot =>
          if e.after.length < t.length then (Pattern.star p).firstThen k e else none := by
        intro v
        by_cases shorter : v.length < t.length
        · obtain ⟨o, gives⟩ := rounds _ (size ▸ shorter) v rfl
          exact ⟨o, fun before => by simp [shorter, gives before]⟩
        · exact ⟨none, fun before => by simp [shorter]⟩
      obtain ⟨o, round⟩ := ih free later t
      obtain ⟨o', here⟩ := h t
      exact ⟨o.or o', fun before => by rw [firstThen_star, round before, here before]⟩
  | slot label p ih =>
    intro t
    obtain ⟨o, gives⟩ := ih free (h.map (.closing label :: ·)) t
    exact ⟨_, gives.slot⟩
  | wordEdge | textStart | textEnd => simp [isFree] at free

/-! ## Texts that can be read -/

/-- Wherever a text stands, one can go on there, always with the same match. -/
def Readable (k : Spot → Option Match) (t : Text) : Prop := ∃ m, Gives k t (some m)

theorem isSome_firstThen (h : p.Leads s e) (goes : (k e).isSome = true) :
    (p.firstThen k s).isSome = true := by
  obtain ⟨m, way⟩ := h
  refine List.findSome?_isSome_iff.2 ⟨(m, e), way, ?_⟩
  simpa using goes

/-- What is in the language can be read, if one can go on behind it. -/
theorem Readable.firstThen (free : p.isFree = true) (blind : Blind k) (taken : u ∈ p.language)
    (h : Readable k t) : Readable (p.firstThen k) (u ++ t) := by
  obtain ⟨m, further⟩ := h
  obtain ⟨o, gives⟩ := blind.firstThen free (u ++ t)
  have leads : p.Leads ⟨[], u ++ t⟩ ⟨u.reverse ++ [], t⟩ :=
    leads_of_mem_language free taken ⟨rfl, rfl⟩
  have some_way := isSome_firstThen (k := k) leads (by rw [further]; rfl)
  rw [gives []] at some_way
  obtain ⟨n, rfl⟩ := Option.isSome_iff_exists.1 some_way
  exact ⟨n, gives⟩

/-! ## Taking a match apart -/

/-- A match that was found is a way to match and what one goes on with. -/
theorem exists_of_firstThen {m : Match} (h : p.firstThen k s = some m) :
    ∃ w ∈ p.ways s, ∃ n, k w.2 = some n ∧ m = w.1 ++ n := by
  obtain ⟨w, way, found⟩ := List.exists_of_findSome?_eq_some h
  obtain ⟨n, further, rfl⟩ := Option.map_eq_some_iff.1 found
  exact ⟨w, way, n, further, rfl⟩

/-- A pattern without parts adds the text that it takes. -/
theorem exists_of_plain {m : Match} (plain : p.labels = []) (h : p.firstThen k s = some m) :
    ∃ u ∈ p.language, ∃ e, s.Takes u e ∧ ∃ n, k e = some n ∧ m = u.map .char ++ n := by
  obtain ⟨w, way, n, further, rfl⟩ := exists_of_firstThen h
  have chars := eq_map_char_of_mem_ways plain way
  exact ⟨w.1.text, text_mem_language way, w.2, takes_of_mem_ways way, n, further, by rw [← chars]⟩

/-- A part that has no parts itself adds the text that it takes between two marks. -/
theorem exists_of_slot {m : Match} {label : Slot} (plain : p.labels = [])
    (h : (slot label p).firstThen k s = some m) :
    ∃ u ∈ p.language, ∃ e, s.Takes u e ∧
      ∃ n, k e = some n ∧ m = .opening label :: (u.map .char ++ .closing label :: n) := by
  rw [firstThen_slot] at h
  obtain ⟨inside, found, rfl⟩ := Option.map_eq_some_iff.1 h
  obtain ⟨u, taken, e, takes, closed, marked, rfl⟩ := exists_of_plain plain found
  obtain ⟨n, further, rfl⟩ := Option.map_eq_some_iff.1 marked
  exact ⟨u, taken, e, takes, n, further, rfl⟩

theorem eq_some_of_optional {m : Match} (h : (optional p).firstThen k s = some m) :
    p.firstThen k s = some m ∨ k s = some m := by
  rw [optional, firstThen_alt, firstThen_empty, Option.or_eq_some_iff] at h
  exact h.imp_right And.right

end Pattern

end CodeGauge
