import CodeGauge.Proofs.Pattern.Language

/-!
# Where a pattern leads

Whether a pattern occurs in a text does not depend on the order of its ways. `Pattern.Leads` keeps
only where the ways begin and end. There is one rule for each kind of pattern, an equivalence, so
that a shape can be taken apart into the texts that it takes and put together from them again, and a
pattern occurs in a text if it leads from one of its places to another (`occursIn_iff_leads`).

The parts of a match are found in the same way: what follows a part does not change it
(`exists_part_eq`), and a part is in the language of the pattern that it is a part for
(`part_mem_language`).
-/

namespace CodeGauge

namespace Spot

variable {s e : Spot} {t u : Text} {c : Char}

/-- The text that a place belongs to. -/
def whole (s : Spot) : Text := s.before.reverse ++ s.after

theorem Takes.whole_eq (h : s.Takes t e) : e.whole = s.whole := by
  simp [whole, h.1, h.2]

/-- What is taken can be taken in two parts. -/
theorem Takes.split (h : s.Takes (t ++ u) e) : ∃ m, s.Takes t m ∧ m.Takes u e := by
  refine ⟨⟨t.reverse ++ s.before, u ++ e.after⟩, ⟨?_, rfl⟩, rfl, ?_⟩
  · rw [h.1, List.append_assoc]
  · rw [h.2, List.reverse_append, List.append_assoc]

theorem Takes.eq_of_nil (h : s.Takes [] e) : e = s := by
  obtain ⟨before, after⟩ := s
  obtain ⟨before', after'⟩ := e
  obtain ⟨rfl, rfl⟩ : after = after' ∧ before' = before := h
  rfl

theorem Takes.head?_after (h : s.Takes t e) (first : t.head? = some c) :
    s.after.head? = some c := by
  simp [h.1, first]

theorem Takes.head?_before (h : s.Takes t e) (last : t.getLast? = some c) :
    e.before.head? = some c := by
  simp [h.2, last]

/-- Every part of a text can be taken. -/
theorem exists_takes (a t b : Text) :
    ∃ s e : Spot, s.Takes t e ∧ s.before = a.reverse ∧ e.after = b ∧ s.whole = a ++ (t ++ b) :=
  ⟨⟨a.reverse, t ++ b⟩, ⟨t.reverse ++ a.reverse, b⟩, ⟨rfl, rfl⟩, rfl, rfl, by simp [whole]⟩

/-- No word character stands right before a place. -/
def ClearBefore (s : Spot) : Prop := s.before.head?.any isWordChar = false

/-- No word character stands right after a place. -/
def ClearAfter (s : Spot) : Prop := s.after.head?.any isWordChar = false

theorem Takes.clearBefore (h : s.Takes t e) (last : t.getLast? = some c)
    (other : isWordChar c = false) :
    e.ClearBefore := by
  simp [ClearBefore, h.head?_before last, other]

theorem Takes.clearAfter (h : s.Takes t e) (first : t.head? = some c)
    (other : isWordChar c = false) :
    s.ClearAfter := by
  simp [ClearAfter, h.head?_after first, other]

/-- Before a word character, the edges of words are the places with no word character before
them. -/
theorem Takes.onWordEdge_iff (h : s.Takes t e) (first : t.head? = some c)
    (inWord : isWordChar c = true) :
    s.onWordEdge = true ↔ s.ClearBefore := by
  simp [onWordEdge, ClearBefore, h.head?_after first, inWord]

/-- After a word character, the edges of words are the places with no word character after them. -/
theorem Takes.onWordEdge_end_iff (h : s.Takes t e) (last : t.getLast? = some c)
    (inWord : isWordChar c = true) : e.onWordEdge = true ↔ e.ClearAfter := by
  simp [onWordEdge, ClearAfter, h.head?_before last, inWord]

end Spot

/-- The label of a mark. -/
def Piece.label? : Piece → Option Slot
  | .char _ => none
  | .opening label | .closing label => some label

namespace Match

/-- A match without marks is its text. -/
theorem eq_map_char {m : Match} (plain : ∀ piece ∈ m, piece.label? = none) :
    m = m.text.map .char := by
  induction m with
  | nil => rfl
  | cons piece m ih =>
    obtain ⟨first, others⟩ := List.forall_mem_cons.1 plain
    cases piece with
    | char c => rw [text_char, List.map_cons, ← ih others]
    | opening label | closing label => simp [Piece.label?] at first

end Match

namespace Pattern

variable {p q : Pattern} {s e : Spot} {u w : Text} {accepts : Char → Bool}

theorem mem_placesFrom_iff {before t : Text} :
    s ∈ placesFrom before t ↔ ∃ u, t = u ++ s.after ∧ s.before = u.reverse ++ before := by
  constructor
  · intro there
    induction t generalizing before with
    | nil =>
      obtain rfl := List.mem_singleton.1 there
      exact ⟨[], rfl, rfl⟩
    | cons c t ih =>
      obtain rfl | later := List.mem_cons.1 there
      · exact ⟨[], rfl, rfl⟩
      · obtain ⟨u, rfl, same⟩ := ih later
        exact ⟨c :: u, rfl, by simp [same]⟩
  · rintro ⟨u, rfl, same⟩
    have place := mem_placesFrom before u s.after
    rwa [← same] at place

theorem mem_places_iff {t : Text} : s ∈ places t ↔ s.whole = t := by
  rw [places, mem_placesFrom_iff]
  constructor
  · rintro ⟨u, rfl, same⟩
    simp [Spot.whole, same]
  · rintro rfl
    exact ⟨s.before.reverse, rfl, by simp⟩

/-- A pattern can lead from one place to another. -/
def Leads (p : Pattern) (s e : Spot) : Prop := ∃ m, (m, e) ∈ p.ways s

/-- A pattern occurs in a text if it leads from one of its places to another. -/
theorem occursIn_iff_leads {t : Text} : p.occursIn t = true ↔ ∃ s e, s.whole = t ∧ p.Leads s e := by
  rw [occursIn_iff]
  constructor
  · rintro ⟨s, place, some_way⟩
    obtain ⟨⟨m, e⟩, others, same⟩ := List.exists_cons_of_ne_nil some_way
    exact ⟨s, e, mem_places_iff.1 place, m, same ▸ List.mem_cons_self⟩
  · rintro ⟨s, e, place, m, way⟩
    exact ⟨s, mem_places_iff.2 place, List.ne_nil_of_mem way⟩

/-! ## Rules -/

theorem Leads.takes (h : p.Leads s e) : ∃ u ∈ p.language, s.Takes u e := by
  obtain ⟨m, way⟩ := h
  exact ⟨m.text, text_mem_language way, takes_of_mem_ways way⟩

theorem leads_empty : empty.Leads s e ↔ e = s := by
  simp [Leads, ways]

theorem leads_wordEdge : wordEdge.Leads s e ↔ s.onWordEdge = true ∧ e = s := by
  by_cases edge : s.onWordEdge <;> simp [Leads, ways, edge]

theorem leads_append : (p ++ q).Leads s e ↔ ∃ m, p.Leads s m ∧ q.Leads m e := by
  show (∃ m, (m, e) ∈ (p.ways s).flatMap _) ↔ _
  simp only [List.mem_flatMap, List.mem_map]
  constructor
  · rintro ⟨_, ⟨m, mid⟩, first, ⟨n, _⟩, second, same⟩
    obtain ⟨rfl, rfl⟩ := Prod.mk.inj same
    exact ⟨mid, ⟨m, first⟩, n, second⟩
  · rintro ⟨mid, ⟨m, first⟩, n, second⟩
    exact ⟨m ++ n, (m, mid), first, (n, e), second, rfl⟩

theorem leads_assoc {r : Pattern} : (p ++ q ++ r).Leads s e ↔ (p ++ (q ++ r)).Leads s e := by
  simp only [leads_append]
  constructor
  · rintro ⟨n, ⟨m, first, second⟩, third⟩
    exact ⟨m, first, n, second, third⟩
  · rintro ⟨m, first, n, second, third⟩
    exact ⟨n, ⟨m, first, second⟩, third⟩

theorem leads_alt : (alt p q).Leads s e ↔ p.Leads s e ∨ q.Leads s e := by
  simp only [Leads, ways, List.mem_append, exists_or]

theorem leads_optional : (optional p).Leads s e ↔ p.Leads s e ∨ e = s := by
  rw [optional, leads_alt, leads_empty]

theorem leads_one : (one accepts).Leads s e ↔ ∃ c, accepts c = true ∧ s.Takes [c] e := by
  constructor
  · intro h
    obtain ⟨_, ⟨c, fits, rfl⟩, takes⟩ := h.takes
    exact ⟨c, fits, takes⟩
  · rintro ⟨c, fits, takes⟩
    obtain ⟨before, after⟩ := s
    obtain ⟨before', after'⟩ := e
    obtain ⟨rfl, rfl⟩ : after = c :: after' ∧ before' = c :: before := takes
    exact ⟨[.char c], by simp [ways, fits]⟩

theorem leads_char {c : Char} : (char c).Leads s e ↔ s.Takes [c] e := by
  rw [char, leads_one]
  simp

theorem leads_literal : (literal w).Leads s e ↔ s.Takes w e := by
  constructor
  · intro h
    obtain ⟨_, rfl, takes⟩ := h.takes
    exact takes
  · intro takes
    obtain ⟨before, after⟩ := s
    obtain ⟨before', after'⟩ := e
    obtain ⟨rfl, rfl⟩ : after = w ++ after' ∧ before' = w.reverse ++ before := takes
    exact ⟨w.map .char, by simp [ways]⟩

theorem leads_span {greed : Greed} :
    (span greed accepts).Leads s e ↔ ∃ u, (∀ c ∈ u, accepts c = true) ∧ s.Takes u e := by
  constructor
  · exact Leads.takes
  · rintro ⟨u, run, takes⟩
    induction u generalizing s with
    | nil =>
      -- Nothing is taken: of the ways of a repetition, the one that stops at once.
      obtain rfl := takes.eq_of_nil
      obtain ⟨before, after⟩ := e
      refine ⟨[], ?_⟩
      cases after with
      | nil => simp [ways, waysSpan]
      | cons c after => cases greed <;> by_cases fits : accepts c <;> simp [ways, waysSpan, fits]
    | cons c u ih =>
      obtain ⟨before, after⟩ := s
      obtain ⟨rfl, behind⟩ : after = c :: (u ++ e.after) ∧
          e.before = u.reverse ++ (c :: before) := by
        simpa [Spot.Takes] using takes
      obtain ⟨m, further⟩ := ih (s := ⟨c :: before, u ++ e.after⟩)
        (fun d there => run d (List.mem_cons_of_mem _ there)) ⟨rfl, behind⟩
      refine ⟨.char c :: m, ?_⟩
      have longer : (Piece.char c :: m, e) ∈
          (waysSpan greed accepts (c :: before) (u ++ e.after)).map fun w =>
            (.char c :: w.1, w.2) :=
        List.mem_map.2 ⟨(m, e), further, rfl⟩
      cases greed <;> simp [ways, waysSpan, run c List.mem_cons_self] <;> simpa using longer

theorem leads_many : (many accepts).Leads s e ↔ ∃ u, (∀ c ∈ u, accepts c = true) ∧ s.Takes u e :=
  leads_span

theorem leads_many1 :
    (many1 accepts).Leads s e ↔ ∃ u, u ≠ [] ∧ (∀ c ∈ u, accepts c = true) ∧ s.Takes u e := by
  show (one accepts ++ many accepts).Leads s e ↔ _
  simp only [leads_append, leads_one, leads_many]
  constructor
  · rintro ⟨m, ⟨c, fits, first⟩, u, run, rest⟩
    exact ⟨c :: u, by simp, List.forall_mem_cons.2 ⟨fits, run⟩, first.trans rest⟩
  · rintro ⟨u, some_char, run, takes⟩
    obtain ⟨c, u, rfl⟩ := List.exists_cons_of_ne_nil some_char
    obtain ⟨fits, others⟩ := List.forall_mem_cons.1 run
    obtain ⟨m, first, rest⟩ := Spot.Takes.split (t := [c]) takes
    exact ⟨m, ⟨c, fits, first⟩, u, others, rest⟩

theorem leads_oneOf {ps : List Pattern} : (oneOf ps).Leads s e ↔ ∃ p ∈ ps, p.Leads s e := by
  fun_induction oneOf ps with
  | case1 => simp [leads_one]
  | case2 p => simp
  | case3 p ps _ ih => simp [leads_alt, ih]

/-- One of several patterns occurs in a text if one of them leads on somewhere. -/
theorem oneOf_occursIn {ps : List Pattern} (listed : p ∈ ps) (leads : p.Leads s e) :
    (oneOf ps).occursIn s.whole = true :=
  occursIn_iff_leads.2 ⟨s, e, rfl, leads_oneOf.2 ⟨p, listed, leads⟩⟩

/-! ## Parts -/

/-- The labels of the parts of a pattern. -/
def labels : Pattern → List Slot
  | seq p q | alt p q => p.labels ++ q.labels
  | star p => p.labels
  | slot label p => label :: p.labels
  | empty | one _ | literal _ | span _ _ | wordEdge | textStart | textEnd => []

theorem label?_of_mem_waysSpan {greed : Greed} {before after : Text} {w : Match × Spot}
    (h : w ∈ waysSpan greed accepts before after) : ∀ piece ∈ w.1, piece.label? = none := by
  induction after generalizing before w with
  | nil =>
    obtain rfl : w = ([], ⟨before, []⟩) := by simpa [waysSpan] using h
    simp
  | cons c rest ih =>
    have either : (∃ v ∈ waysSpan greed accepts (c :: before) rest, (.char c :: v.1, v.2) = w) ∨
        w = ([], ⟨before, c :: rest⟩) := by
      unfold waysSpan at h
      split at h
      · cases greed with
        | greedy => simpa using h
        | lazy => simpa [or_comm] using h
      · exact .inr (by simpa using h)
    obtain ⟨v, further, rfl⟩ | rfl := either
    · exact List.forall_mem_cons.2 ⟨rfl, ih further⟩
    · simp

theorem label_of_mem_waysStar {round : Spot → List (Match × Spot)} {labels : List Slot}
    (each : ∀ s, ∀ w ∈ round s, ∀ piece ∈ w.1, ∀ label ∈ piece.label?, label ∈ labels) {n : Nat}
    {w : Match × Spot} (h : w ∈ waysStar round n s) :
    ∀ piece ∈ w.1, ∀ label ∈ piece.label?, label ∈ labels := by
  induction n generalizing s w with
  | zero =>
    obtain rfl : w = ([], s) := by simpa [waysStar] using h
    simp
  | succ n ih =>
    simp only [waysStar, List.mem_append, List.mem_flatMap, List.mem_singleton] at h
    obtain ⟨v, first, rest⟩ | rfl := h
    · split at rest
      · obtain ⟨u, further, rfl⟩ := List.mem_map.1 rest
        exact List.forall_mem_append.2 ⟨each s v first, ih further⟩
      · simp at rest
    · simp

/-- The marks of a way carry labels of the pattern. -/
theorem label_mem_labels {w : Match × Spot} (h : w ∈ p.ways s) :
    ∀ piece ∈ w.1, ∀ label ∈ piece.label?, label ∈ p.labels := by
  induction p generalizing s w with
  | empty =>
    obtain rfl : w = ([], s) := by simpa [ways] using h
    simp
  | one accepts =>
    simp only [ways] at h
    split at h
    · simp at h
    · split at h
      · obtain rfl := List.mem_singleton.1 h
        simp [Piece.label?]
      · simp at h
  | literal chars =>
    simp only [ways] at h
    split at h
    · obtain rfl := List.mem_singleton.1 h
      simp [Piece.label?]
    · simp at h
  | span greed accepts =>
    intro piece there label marked
    simp [label?_of_mem_waysSpan h piece there] at marked
  | seq p q ihp ihq =>
    simp only [ways, List.mem_flatMap, List.mem_map] at h
    obtain ⟨u, first, v, second, rfl⟩ := h
    refine List.forall_mem_append.2 ⟨fun piece there label marked => ?_,
      fun piece there label marked => ?_⟩
    · exact List.mem_append_left _ (ihp first piece there label marked)
    · exact List.mem_append_right _ (ihq second piece there label marked)
  | alt p q ihp ihq =>
    intro piece there label marked
    obtain left | right := List.mem_append.1 h
    · exact List.mem_append_left _ (ihp left piece there label marked)
    · exact List.mem_append_right _ (ihq right piece there label marked)
  | star p ih => exact label_of_mem_waysStar (fun _ _ there => ih there) h
  | slot label p ih =>
    obtain ⟨v, inside, rfl⟩ := List.mem_map.1 h
    have own : ∀ l ∈ some label, l ∈ (slot label p).labels := by simp [labels]
    have inner : ∀ piece ∈ v.1, ∀ l ∈ piece.label?, l ∈ (slot label p).labels :=
      fun piece there l mark =>
      List.mem_cons_of_mem _ (ih inside piece there l mark)
    refine List.forall_mem_append.2 ⟨List.forall_mem_cons.2 ⟨own, inner⟩, ?_⟩
    exact List.forall_mem_singleton.2 own
  | wordEdge | textStart | textEnd =>
    simp only [ways] at h
    split at h
    · obtain rfl := List.mem_singleton.1 h
      simp
    · simp at h

theorem mem_of_mem_select {n : Nat} {found : List (Option Match)} {m : Match}
    (h : m ∈ select n found) :
    some m ∈ found := by
  fun_induction select n found with
  | case1 => simp at h
  | case2 _ _ _ ih | case3 _ ih => exact List.mem_cons_of_mem _ (ih h)
  | case4 first _ ih =>
    obtain rfl | later := List.mem_cons.1 h
    · exact List.mem_cons_self
    · exact List.mem_cons_of_mem _ (ih later)

/-- Whatever is found in a text is a way to match at some place. -/
theorem exists_way_of_mem_findAll {t : Text} {m : Match} (h : m ∈ p.findAll t) :
    ∃ s, ∃ w ∈ p.ways s, w.1 = m := by
  rw [findAll_eq] at h
  obtain ⟨s, -, first⟩ := List.mem_map.1 (mem_of_mem_select h)
  obtain ⟨w, head, same⟩ := Option.map_eq_some_iff.1 first
  exact ⟨s, w, List.mem_of_mem_head? head, same⟩

/-- What follows a part, and has no part of this name, does not change it. -/
theorem exists_part_eq (label : Slot) (other : label ∉ q.labels) {w : Match × Spot}
    (h : w ∈ (p ++ q).ways s) : ∃ v ∈ p.ways s, w.1.part label = v.1.part label := by
  obtain ⟨u, first, behind⟩ := List.mem_flatMap.1 h
  obtain ⟨v, second, rfl⟩ := List.mem_map.1 behind
  refine ⟨u, first, Match.part_append_left fun closes => ?_⟩
  exact other (label_mem_labels second _ closes label rfl)

/-- A way of a pattern without parts is its text. -/
theorem eq_map_char_of_mem_ways (plain : p.labels = []) {w : Match × Spot} (h : w ∈ p.ways s) :
    w.1 = w.1.text.map .char := by
  refine Match.eq_map_char fun piece there => Option.eq_none_iff_forall_not_mem.2 fun l mark => ?_
  simpa [plain] using label_mem_labels h piece there l mark

/-- A part is in the language of its pattern, if that has no parts itself. -/
theorem part_mem_language {label : Slot} (plain : q.labels = []) {w : Match × Spot}
    (h : w ∈ (p ++ slot label q).ways s) : w.1.part label ∈ q.language := by
  obtain ⟨u, -, behind⟩ := List.mem_flatMap.1 h
  obtain ⟨_, marked, rfl⟩ := List.mem_map.1 behind
  obtain ⟨v, inside, rfl⟩ := List.mem_map.1 marked
  have chars := eq_map_char_of_mem_ways plain inside
  have taken := Match.part_marked u.1 v.1.text (List.not_mem_nil (a := Piece.closing label))
  rw [← chars] at taken
  exact taken ▸ text_mem_language inside

end Pattern

end CodeGauge
