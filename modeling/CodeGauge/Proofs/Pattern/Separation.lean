import CodeGauge.Proofs.Pattern.Language
import CodeGauge.Proofs.Text

/-!
# Texts with a separator between them

A pattern looks no further than its match, word edges apart, and there white space and punctuation
are as good as the end of the text. So what it finds at a place of a text it finds at the same place
of a longer text, as long as no match leads out of the shorter one (`matchAt_within`). If no match
meets a separator (`Apart`), the matches in two texts with the separator between them are those in
the one and those in the other (`findAll_separated`), and so on for any number of texts
(`count_join`).
-/

namespace CodeGauge

/-- What adds up over a separator adds up over all texts of a list. -/
theorem Text.foldr_join {measure : Text → Nat} {separator : Text} (none : measure [] = 0)
    (adds : ∀ t u, measure (t ++ (separator ++ u)) = measure t + measure u) (texts : List Text) :
    measure (join separator texts) = texts.foldr (fun t n => measure t + n) 0 := by
  induction texts with
  | nil => exact none
  | cons t texts ih =>
    cases texts with
    | nil => simp [join]
    | cons u texts =>
      rw [join_cons_cons, adds, ih]
      rfl

namespace Spot

/-- A place of a text as a place of a longer one, given what stands before the text, nearest first,
and after it. -/
def within (left right : Text) (s : Spot) : Spot := ⟨s.before ++ left, s.after ++ right⟩

variable {left right : Text}

theorem onWordEdge_within (hl : left.head?.any isWordChar = false)
    (hr : right.head?.any isWordChar = false)
    (s : Spot) : (s.within left right).onWordEdge = s.onWordEdge := by
  have same {near far : Text} (h : far.head?.any isWordChar = false) :
      (near ++ far).head?.any isWordChar = near.head?.any isWordChar := by
    cases near with
    | nil => exact h
    | cons c near => rfl
  rw [onWordEdge, onWordEdge, within, same hl, same hr]

end Spot

namespace Pattern

/-- Whether a pattern asks for the start or the end of the text. -/
def isAnchored : Pattern → Bool
  | textStart | textEnd => true
  | seq p q | alt p q => p.isAnchored || q.isAnchored
  | star p | slot _ p => p.isAnchored
  | empty | one _ | literal _ | span _ _ | wordEdge => false

variable {p : Pattern} {left right : Text} {k k' : Spot → Option Match}

/-! ## Longer texts -/

/-- Where nothing leads on from here on, no pattern does. -/
theorem firstThen_eq_none {n : Nat} (stuck : ∀ e : Spot, e.after.length < n → k e = none) {s : Spot}
    (h : s.after.length < n) : p.firstThen k s = none := by
  refine List.findSome?_eq_none_iff.2 fun w way => ?_
  have := (takes_of_mem_ways way).length_le
  rw [stuck w.2 (by omega)]
  rfl

/-- How one goes on in a longer text: inside as in the shorter one, and outside not at all. -/
structure GoesOnWithin (left right : Text) (k' k : Spot → Option Match) : Prop where
  inside : ∀ e : Spot, k' (e.within left right) = k e
  outside : ∀ e : Spot, e.after.length < right.length → k' e = none

namespace GoesOnWithin

theorem one (h : GoesOnWithin left right k' k) (accepts : Char → Bool) (s : Spot) :
    (Pattern.one accepts).firstThen k' (s.within left right) =
      (Pattern.one accepts).firstThen k s := by
  obtain ⟨before, after⟩ := s
  rw [firstThen_one, firstThen_one]
  cases after with
  | nil =>
    -- The only character to take is outside.
    cases right with
    | nil => rfl
    | cons c right =>
      simp [Spot.within, Spot.next?, h.outside ⟨c :: (before ++ left), right⟩ (by simp)]
  | cons c after =>
    have next := h.inside ⟨c :: before, after⟩
    simp only [Spot.within, List.cons_append] at next
    simp [Spot.within, Spot.next?, next]

theorem literal (h : GoesOnWithin left right k' k) (w : Text) (s : Spot) :
    (Pattern.literal w).firstThen k' (s.within left right) = (Pattern.literal w).firstThen k s := by
  obtain ⟨before, after⟩ := s
  by_cases here : w <+: after
  · obtain ⟨rest, rfl⟩ := here
    have next := h.inside ⟨w.reverse ++ before, rest⟩
    simp only [Spot.within, List.append_assoc] at next
    simp [firstThen, ways, Spot.within, next]
  · have none : (Pattern.literal w).firstThen k ⟨before, after⟩ = none := by
      rw [firstThen_literal, if_neg fun fits => here (List.isPrefixOf_iff_prefix.1 fits)]
    rw [none]
    refine List.findSome?_eq_none_iff.2 fun e way => ?_
    obtain ⟨taken, -⟩ := takes_of_mem_ways way
    have text : e.1.text = w := text_mem_language way
    -- A literal that is longer than the shorter text leads out of it.
    have far : e.2.after.length < right.length := by
      by_contra near
      have short : w.length ≤ after.length := by
        have := congrArg List.length taken
        simp only [Spot.within, List.length_append, text] at this
        omega
      have start : w <+: after ++ right := ⟨e.2.after, by rw [← text]; exact taken.symm⟩
      exact here (List.prefix_of_prefix_length_le start (List.prefix_append after right) short)
    rw [h.outside e.2 far]
    rfl

theorem span (h : GoesOnWithin left right k' k) (greed : Greed) (accepts : Char → Bool) (s : Spot) :
    (Pattern.span greed accepts).firstThen k' (s.within left right) =
      (Pattern.span greed accepts).firstThen k s := by
  obtain ⟨before, after⟩ := s
  induction after generalizing before with
  | nil =>
    have here := h.inside ⟨before, []⟩
    rw [firstThen_span, firstThen_span]
    cases right with
    | nil => exact here
    | cons c right =>
      have later :
          (Pattern.span greed accepts).firstThen k' ⟨c :: (before ++ left), right⟩ = none :=
        firstThen_eq_none h.outside (by simp)
      simp only [Spot.within, List.nil_append] at here
      cases greed <;> simp [Spot.within, Spot.next?, later, here]
  | cons c after ih =>
    have here := h.inside ⟨before, c :: after⟩
    have later := ih (c :: before)
    simp only [Spot.within, List.cons_append] at here later
    rw [firstThen_span, firstThen_span]
    simp [Spot.within, Spot.next?, here, later]

end GoesOnWithin

/-- The first way to match and go on is the same in a longer text, if one cannot go on outside. -/
theorem GoesOnWithin.firstThen (free : p.isAnchored = false)
    (hl : left.head?.any isWordChar = false) (hr : right.head?.any isWordChar = false)
    (h : GoesOnWithin left right k' k) :
    GoesOnWithin left right (p.firstThen k') (p.firstThen k) := by
  refine ⟨fun s => ?_, fun s => firstThen_eq_none h.outside⟩
  induction p generalizing k k' s with
  | empty => simpa using h.inside s
  | one accepts => exact h.one accepts s
  | literal w => exact h.literal w s
  | span greed accepts => exact h.span greed accepts s
  | seq p q ihp ihq =>
    obtain ⟨first, second⟩ : p.isAnchored = false ∧ q.isAnchored = false := by
      simpa [isAnchored] using free
    rw [firstThen_seq, firstThen_seq]
    exact ihp first ⟨ihq second h, fun _ => firstThen_eq_none h.outside⟩ s
  | alt p q ihp ihq =>
    obtain ⟨first, second⟩ : p.isAnchored = false ∧ q.isAnchored = false := by
      simpa [isAnchored] using free
    rw [firstThen_alt, firstThen_alt, ihp first h, ihq second h]
  | star p ih =>
    -- A round leads to a place with less after it, in both texts.
    obtain ⟨n, size⟩ : ∃ n, s.after.length = n := ⟨_, rfl⟩
    induction n using Nat.strongRecOn generalizing s with
    | _ n rounds =>
      rw [firstThen_star, firstThen_star, h.inside s]
      congr 1
      refine ih free ⟨fun e => ?_, fun e far => ?_⟩ s
      · have shorter : (e.within left right).after.length < (s.within left right).after.length ↔
            e.after.length < s.after.length := by simp [Spot.within]
        by_cases moves : e.after.length < s.after.length
        · rw [if_pos (shorter.2 moves), if_pos moves, rounds _ (size ▸ moves) e rfl]
        · rw [if_neg (mt shorter.1 moves), if_neg moves]
      · split
        · exact firstThen_eq_none h.outside far
        · rfl
  | slot label p ih =>
    rw [firstThen_slot, firstThen_slot]
    congr 1
    refine ih free ⟨fun e => ?_, fun e far => ?_⟩ s
    · rw [h.inside e]
    · rw [h.outside e far]
      rfl
  | wordEdge =>
    rw [firstThen_wordEdge, firstThen_wordEdge, Spot.onWordEdge_within hl hr, h.inside s]
  | textStart | textEnd => simp [isAnchored] at free

/-- At a place of a longer text the first way is the same, if no way leads out of the shorter
text. -/
theorem matchAt_within (free : p.isAnchored = false) (hl : left.head?.any isWordChar = false)
    (hr : right.head?.any isWordChar = false) {s : Spot}
    (inside : ∀ w ∈ p.ways (s.within left right), right.length ≤ w.2.after.length) :
    p.matchAt (s.within left right) = p.matchAt s := by
  have goesOn : GoesOnWithin left right (fun e => if right.length ≤ e.after.length then some []
      else none)
      fun _ => some [] :=
    ⟨fun e => if_pos (by simp [Spot.within]), fun e far => if_neg (by omega)⟩
  rw [← firstThen_some, ← firstThen_some, ← (goesOn.firstThen free hl hr).inside s]
  exact findSome?_congr fun w way => by simp only [if_pos (inside w way)]

/-- What stands before a text does not matter, if no word ends there. -/
theorem findFrom_eq_findAll (free : p.isAnchored = false) (hl : left.head?.any isWordChar = false)
    (t : Text) :
    p.findFrom left t = p.findAll t := by
  have places (before : Text) :
      placesFrom (before ++ left) t = (placesFrom before t).map (Spot.within left []) := by
    induction t generalizing before with
    | nil => simp [placesFrom, Spot.within]
    | cons c t ih => simpa [placesFrom, Spot.within] using ih (c :: before)
  have whole := places []
  rw [List.nil_append] at whole
  rw [findAll_eq_findFrom, findFrom, findFrom, whole, List.map_map]
  congr 1
  refine List.map_congr_left fun s _ => ?_
  exact matchAt_within free hl rfl fun w _ => Nat.zero_le _

/-! ## Separators -/

/-- Where no text of its language stands, a pattern has no match. -/
theorem matchAt_eq_none_of_language {t : Text} (h : ∀ u ∈ p.language, ¬ u <+: t) (before : Text) :
    p.matchAt ⟨before, t⟩ = none := by
  rw [matchAt, List.head?_eq_none_iff.2, Option.map_none]
  refine List.eq_nil_iff_forall_not_mem.2 fun w way => ?_
  exact h _ (text_mem_language way) ⟨_, (takes_of_mem_ways way).1.symm⟩

/-- A text in which no match begins is passed over. -/
theorem findFrom_pass {u rest : Text}
    (none : ∀ v, v ≠ [] → v <:+ u → ∀ before, p.matchAt ⟨before, v ++ rest⟩ = none)
    (before : Text) :
    p.findFrom before (u ++ rest) = p.findFrom (u.reverse ++ before) rest := by
  induction u generalizing before with
  | nil => rfl
  | cons c u ih =>
    have here := none (c :: u) (by simp) (List.suffix_refl _) before
    have later := ih (fun v some_char ends => none v some_char (ends.trans (List.suffix_cons c u)))
      (c :: before)
    rw [List.cons_append] at here
    rw [List.cons_append, findFrom_skip here, later]
    simp

/-- No match meets a separator: it neither ends in it, nor holds it, nor begins in it. -/
structure Apart (p : Pattern) (separator : Text) : Prop where
  moves : [] ∉ p.language
  end_apart : ∀ u ∈ p.language, ∀ v, v ≠ [] → v <:+ u → ¬ v <+: separator ∧ ¬ separator <+: v
  start_apart : ∀ u ∈ p.language, ∀ v, v ≠ [] → v <:+ separator → ¬ u <+: v ∧ ¬ v <+: u

/-- Of two texts that begin differently neither begins with the other. -/
theorem not_prefix_of_ne {c d : Char} (other : c ≠ d) (t u : Text) :
    ¬ c :: t <+: d :: u ∧ ¬ d :: u <+: c :: t :=
  ⟨fun start => other (List.cons_prefix_cons.1 start).1,
    fun start => other (List.cons_prefix_cons.1 start).1.symm⟩

/-- A pattern that never takes the first character of a separator, nor begins with one of the
others. -/
theorem apart_of_not_mem {c : Char} {rest : Text}
    (h : ∀ u ∈ p.language, u ≠ [] ∧ c ∉ u ∧ ∀ d ∈ u.head?, d ∉ rest) : p.Apart (c :: rest) := by
  refine ⟨fun none => (h _ none).1 rfl, fun u taken v some_char ends => ?_,
    fun u taken v some_char ends => ?_⟩
  · obtain ⟨-, other, -⟩ := h u taken
    obtain ⟨d, v, rfl⟩ := List.exists_cons_of_ne_nil some_char
    have differ : d ≠ c := fun same => other (same ▸ ends.subset List.mem_cons_self)
    exact not_prefix_of_ne differ v rest
  · obtain ⟨some_text, other, begins⟩ := h u taken
    obtain ⟨d, v, rfl⟩ := List.exists_cons_of_ne_nil some_char
    obtain ⟨e, u, rfl⟩ := List.exists_cons_of_ne_nil some_text
    have differ : e ≠ d := by
      rintro rfl
      rcases List.mem_cons.1 (ends.subset List.mem_cons_self) with rfl | later
      · exact other List.mem_cons_self
      · exact begins e rfl later
    exact not_prefix_of_ne differ u v

namespace Apart

variable {separator : Text}

/-- A match before a separator ends before it. -/
theorem ends_before (h : p.Apart separator) {before t rest : Text} {w : Match × Spot}
    (way : w ∈ p.ways ⟨before, t ++ (separator ++ rest)⟩) :
    (separator ++ rest).length ≤ w.2.after.length := by
  obtain ⟨taken, -⟩ := takes_of_mem_ways way
  by_contra far
  rcases List.append_eq_append_iff.1 taken with ⟨v, text, split⟩ | ⟨v, rfl, split⟩
  · have some_char : v ≠ [] := by
      rintro rfl
      exact far (by simp [split])
    obtain ⟨noStart, noWhole⟩ := h.end_apart _ (text_mem_language way) v some_char ⟨t, text.symm⟩
    rcases List.prefix_or_prefix_of_prefix (List.prefix_append separator rest)
      ⟨w.2.after, split.symm⟩ with
      short | long
    · exact noWhole short
    · exact noStart long
  · exact far (by simp [split])

/-- No match begins in a separator. -/
theorem matchAt_eq_none (h : p.Apart separator) {v : Text} (some_char : v ≠ [])
    (ends : v <:+ separator) (before rest : Text) : p.matchAt ⟨before, v ++ rest⟩ = none := by
  refine matchAt_eq_none_of_language (fun u taken start => ?_) before
  obtain ⟨noStart, noWhole⟩ := h.start_apart u taken v some_char ends
  rcases List.prefix_or_prefix_of_prefix start (List.prefix_append v rest) with short | long
  · exact noStart short
  · exact noWhole long

/-- A separator is passed over. -/
theorem findFrom_separator (h : p.Apart separator) (before rest : Text) :
    p.findFrom before (separator ++ rest) = p.findFrom (separator.reverse ++ before) rest :=
  findFrom_pass (fun _ some_char ends before => h.matchAt_eq_none some_char ends before rest) before

theorem findFrom_nil (h : p.Apart separator) (before : Text) : p.findFrom before [] = [] := by
  have none : p.matchAt ⟨before, []⟩ = none :=
    matchAt_eq_none_of_language (fun _ taken start => h.moves (List.prefix_nil.1 start ▸ taken))
      before
  simp [findFrom, placesFrom, none, select]

/-- Up to a separator the same is found as if nothing followed. -/
theorem findFrom_append (h : p.Apart separator) (free : p.isAnchored = false)
    (edge : separator.head?.any isWordChar = false) (some_char : separator ≠ [])
    (before t rest : Text) :
    p.findFrom before (t ++ (separator ++ rest)) =
      p.findFrom before t ++ p.findFrom (separator.reverse ++ (t.reverse ++ before)) rest := by
  obtain ⟨n, size⟩ : ∃ n, t.length = n := ⟨_, rfl⟩
  induction n using Nat.strongRecOn generalizing before t with
  | _ n ih =>
    -- The first place tells the same with and without what follows, and then the search goes on
    -- behind it.
    have same : p.matchAt ⟨before, t ++ (separator ++ rest)⟩ = p.matchAt ⟨before, t⟩ := by
      have clear : (separator ++ rest).head?.any isWordChar = false := by
        rwa [List.head?_append_of_ne_nil _ some_char]
      have inside := @matchAt_within p [] (separator ++ rest) free rfl clear ⟨before, t⟩
      simp only [Spot.within, List.append_nil] at inside
      exact inside fun w way => h.ends_before way
    cases found : p.matchAt ⟨before, t⟩ with
    | none =>
      cases t with
      | nil =>
        rw [h.findFrom_nil, List.nil_append, h.findFrom_separator]
        rfl
      | cons c t =>
        rw [found, List.cons_append] at same
        rw [List.cons_append, findFrom_skip same, findFrom_skip found,
          ih t.length (by simp [← size]) (c :: before) t rfl]
        simp
    | some m =>
      obtain ⟨w, head, rfl⟩ := Option.map_eq_some_iff.1 found
      have way := List.mem_of_mem_head? head
      obtain ⟨taken, -⟩ := takes_of_mem_ways way
      have moved : w.1.text ≠ [] := fun none => h.moves (none ▸ text_mem_language way)
      obtain rfl : t = w.1.text ++ w.2.after := taken
      rw [found, List.append_assoc] at same
      have shorter : w.2.after.length < n := by
        have := List.length_pos_of_ne_nil moved
        simp only [List.length_append] at size
        omega
      rw [List.append_assoc, findFrom_match moved rfl same, findFrom_match moved rfl found,
        ih _ shorter _ _ rfl]
      simp

/-- Of two texts with a separator between them the matches in the one and in the other are found. -/
theorem findAll_separated (h : p.Apart separator) (free : p.isAnchored = false)
    (edges : separator.any isWordChar = false) (some_char : separator ≠ []) (t rest : Text) :
    p.findAll (t ++ (separator ++ rest)) = p.findAll t ++ p.findAll rest := by
  have plain : ∀ c ∈ separator, isWordChar c = false := by simpa using edges
  have first : separator.head?.any isWordChar = false :=
    (Option.any_eq_false ..).2 fun c head => plain c (List.mem_of_mem_head? head)
  have last : (separator.reverse ++ (t.reverse ++ [])).head?.any isWordChar = false := by
    rw [List.head?_append_of_ne_nil _ (by simpa using some_char), List.head?_reverse]
    exact (Option.any_eq_false ..).2 fun c final => plain c (List.mem_of_getLast? final)
  rw [findAll_eq_findFrom, h.findFrom_append free first some_char, ← findAll_eq_findFrom,
    findFrom_eq_findAll free last]

/-- In texts with a separator between them there are as many matches as in all of them together. -/
theorem count_join (h : p.Apart separator) (free : p.isAnchored = false)
    (edges : separator.any isWordChar = false) (some_char : separator ≠ []) (texts : List Text) :
    p.count (Text.join separator texts) = texts.foldr (fun t n => p.count t + n) 0 := by
  refine Text.foldr_join ?_ (fun t u => ?_) texts
  · rw [count, findAll_eq_findFrom, h.findFrom_nil, List.length_nil]
  · rw [count, h.findAll_separated free edges some_char, List.length_append]
    rfl

end Apart

end Pattern

end CodeGauge
