import Mathlib.Computability.Language
import CodeGauge.Proofs.Pattern.Reading

/-!
# The language of a pattern

`Pattern.language` holds the texts that a pattern can take, wherever it is tried: what a way takes
is in the language (`text_mem_language`). So a pattern leads nowhere at a text if no start of the
text that is in the language does (`gives_none`), and a repetition of something that is never empty
goes on round by round (`Gives.rounds`, `Gives.stop`).
-/

namespace CodeGauge

namespace Pattern

open Computability

/-- The texts that a pattern can take. Conditions on the place do not count. -/
def language : Pattern → Language Char
  | empty | wordEdge | textStart | textEnd => 1
  | one accepts => {u | ∃ c, accepts c = true ∧ u = [c]}
  | literal chars => {chars}
  | span _ accepts => {u | ∀ c ∈ u, accepts c = true}
  | seq p q => p.language * q.language
  | alt p q => p.language + q.language
  | star p => p.language∗
  | slot _ p => p.language

section Members

variable {p q : Pattern} {u : Text} {accepts : Char → Bool}

theorem mem_language_one : u ∈ (one accepts).language ↔ ∃ c, accepts c = true ∧ u = [c] := Iff.rfl

theorem mem_language_char {c : Char} : u ∈ (char c).language ↔ u = [c] := by
  simp [char, mem_language_one]

theorem char_mem_language (c : Char) : [c] ∈ (char c).language := mem_language_char.2 rfl

theorem mem_language_many : u ∈ (many accepts).language ↔ ∀ c ∈ u, accepts c = true := Iff.rfl

theorem mem_language_append :
    u ∈ (p ++ q).language ↔ ∃ v ∈ p.language, ∃ w ∈ q.language, v ++ w = u :=
  Language.mem_mul

theorem append_mem_language {v : Text} (hu : u ∈ p.language) (hv : v ∈ q.language) :
    u ++ v ∈ (p ++ q).language :=
  mem_language_append.2 ⟨u, hu, v, hv, rfl⟩

theorem nil_mem_blanks : [] ∈ blanks.language := fun _ there => absurd there List.not_mem_nil

theorem mem_language_many1 :
    u ∈ (many1 accepts).language ↔ u ≠ [] ∧ ∀ c ∈ u, accepts c = true := by
  show u ∈ (one accepts ++ many accepts).language ↔ _
  simp only [mem_language_append, mem_language_one, mem_language_many]
  constructor
  · rintro ⟨_, ⟨c, fits, rfl⟩, rest, run, rfl⟩
    exact ⟨by simp, by simpa [fits] using run⟩
  · rintro ⟨some_char, run⟩
    obtain ⟨c, rest, rfl⟩ := List.exists_cons_of_ne_nil some_char
    exact ⟨[c], ⟨c, run c (by simp), rfl⟩, rest, fun d there => run d (by simp [there]), rfl⟩

theorem mem_language_optional : u ∈ (optional p).language ↔ u ∈ p.language ∨ u = [] := Iff.rfl

theorem mem_language_star :
    u ∈ (star p).language ↔ ∃ rounds : List Text, u = rounds.flatten ∧
      ∀ v ∈ rounds, v ∈ p.language :=
  Language.mem_kstar

theorem mem_language_anyWord {ws : List String} (h : u ∈ (anyWord ws).language) :
    ∃ w ∈ ws, u = w.toList := by
  induction ws with
  | nil =>
    obtain ⟨c, never, -⟩ := h
    contradiction
  | cons w ws ih =>
    cases ws with
    | nil => exact ⟨w, by simp, h⟩
    | cons w' ws =>
      rcases h with first | later
      · exact ⟨w, by simp, first⟩
      · obtain ⟨v, there, same⟩ := ih later
        exact ⟨v, by simp [there], same⟩

end Members

/-! ## What a way takes -/

theorem mem_of_mem_waysSpan {greed : Greed} {accepts : Char → Bool} {before after : Text}
    {w : Match × Spot} (h : w ∈ waysSpan greed accepts before after) :
    ∀ c ∈ w.1.text, accepts c = true := by
  induction after generalizing before w with
  | nil =>
    obtain rfl : w = ([], ⟨before, []⟩) := by simpa [waysSpan] using h
    simp
  | cons c rest ih =>
    unfold waysSpan at h
    split at h
    next fits =>
      have either : (∃ v ∈ waysSpan greed accepts (c :: before) rest, (.char c :: v.1, v.2) = w) ∨
          w = ([], ⟨before, c :: rest⟩) := by
        cases greed with
        | greedy => simpa using h
        | lazy => simpa [or_comm] using h
      obtain ⟨v, further, rfl⟩ | rfl := either
      · simpa [fits] using ih further
      · simp
    next =>
      obtain rfl : w = ([], ⟨before, c :: rest⟩) := by simpa using h
      simp

theorem mem_of_mem_waysStar {round : Spot → List (Match × Spot)} {l : Language Char}
    (each : ∀ s, ∀ w ∈ round s, w.1.text ∈ l) {n : Nat} {s : Spot} {w : Match × Spot}
    (h : w ∈ waysStar round n s) : w.1.text ∈ l∗ := by
  induction n generalizing s w with
  | zero =>
    obtain rfl : w = ([], s) := by simpa [waysStar] using h
    exact Language.nil_mem_kstar l
  | succ n ih =>
    simp only [waysStar, List.mem_append, List.mem_flatMap, List.mem_singleton] at h
    obtain ⟨v, first, rest⟩ | rfl := h
    · split at rest
      · obtain ⟨u, further, rfl⟩ := List.mem_map.1 rest
        obtain ⟨rounds, same, all⟩ := Language.mem_kstar.1 (ih further)
        refine Language.mem_kstar.2 ⟨v.1.text :: rounds, by simp [same], ?_⟩
        exact List.forall_mem_cons.2 ⟨each s v first, all⟩
      · simp at rest
    · exact Language.nil_mem_kstar l

/-- What a way takes is in the language. -/
theorem text_mem_language {p : Pattern} {s : Spot} {w : Match × Spot} (h : w ∈ p.ways s) :
    w.1.text ∈ p.language := by
  induction p generalizing s w with
  | empty =>
    obtain rfl : w = ([], s) := by simpa [ways] using h
    exact Language.nil_mem_one
  | one accepts =>
    simp only [ways] at h
    split at h
    · simp at h
    next c rest _ =>
      split at h
      next fits =>
        obtain rfl := List.mem_singleton.1 h
        exact ⟨c, fits, rfl⟩
      next => simp at h
  | literal chars =>
    simp only [ways] at h
    split at h
    · obtain rfl := List.mem_singleton.1 h
      exact Match.text_map_char chars
    · simp at h
  | span greed accepts => exact mem_of_mem_waysSpan h
  | seq p q ihp ihq =>
    simp only [ways, List.mem_flatMap, List.mem_map] at h
    obtain ⟨u, first, v, second, rfl⟩ := h
    exact Match.text_append .. ▸ Language.append_mem_mul (ihp first) (ihq second)
  | alt p q ihp ihq => exact (List.mem_append.1 h).imp ihp ihq
  | star p ih => exact mem_of_mem_waysStar (fun _ _ there => ih there) h
  | slot label p ih =>
    obtain ⟨v, there, rfl⟩ := List.mem_map.1 h
    simpa [language] using ih there
  | wordEdge | textStart | textEnd =>
    simp only [ways] at h
    split at h
    · obtain rfl := List.mem_singleton.1 h
      exact Language.nil_mem_one
    · simp at h

/-! ## Rules -/

section Rules

variable {p : Pattern} {k : Spot → Option Match} {t : Text} {o : Option Match} {m : Match}

/-- A pattern leads nowhere if none of the texts that it can take does. -/
theorem gives_none (h : ∀ u v, t = u ++ v → u ∈ p.language → Gives k v none) :
    Gives (p.firstThen k) t none := by
  intro before
  refine List.findSome?_eq_none_iff.2 fun w there => ?_
  have takes := takes_of_mem_ways there
  have stuck := h w.1.text w.2.after takes.1 (text_mem_language there) w.2.before
  simpa using stuck

/-- A repetition of something that is never empty: a round and all that follows, or else nothing. -/
theorem firstThen_star_of_moves (moves : [] ∉ p.language) (k : Spot → Option Match) (s : Spot) :
    (star p).firstThen k s = (p.firstThen ((star p).firstThen k) s).or (k s) := by
  rw [firstThen_star]
  congr 1
  refine findSome?_congr fun w there => ?_
  have taken := congrArg List.length (takes_of_mem_ways there).1
  have some_char : w.1.text ≠ [] := fun none => moves (none ▸ text_mem_language there)
  have := List.length_pos_of_ne_nil some_char
  rw [List.length_append] at taken
  have shorter : w.2.after.length < s.after.length := by omega
  simp only [shorter, if_true]

/-- A repetition goes on with a round. -/
theorem Gives.round (moves : [] ∉ p.language)
    (h : Gives (p.firstThen ((star p).firstThen k)) t (some m)) :
    Gives ((star p).firstThen k) t (some m) := by
  intro before
  rw [firstThen_star_of_moves moves, h before, Option.some_or]

/-- A repetition goes through rounds that are read as they are written. -/
theorem Gives.rounds (moves : [] ∉ p.language) {rounds : List Text}
    (each : ∀ u ∈ rounds, ∀ (k : Spot → Option Match) (t : Text) (m : Match), Gives k t (some m) →
      Gives (p.firstThen k) (u ++ t) (some (u.map .char ++ m)))
    (h : Gives ((star p).firstThen k) t (some m)) :
    Gives ((star p).firstThen k) (rounds.flatten ++ t) (some (rounds.flatten.map .char ++ m)) := by
  induction rounds with
  | nil => exact h
  | cons u rounds ih =>
    have further := ih fun v there => each v (by simp [there])
    have first := (each u (by simp) _ _ _ further).round moves
    simpa using first

/-- A repetition stops where no further round starts. -/
theorem Gives.stop (moves : [] ∉ p.language) (ends : ∀ u v, t = u ++ v → u ∉ p.language)
    (h : Gives k t o) : Gives ((star p).firstThen k) t o := by
  intro before
  have stuck : Gives (p.firstThen ((star p).firstThen k)) t none :=
    gives_none fun u v split taken => absurd taken (ends u v split)
  rw [firstThen_star_of_moves moves, stuck before, Option.none_or, h before]

theorem Gives.char (c : Char) (h : Gives k t o) :
    Gives ((Pattern.char c).firstThen k) (c :: t) (o.map (.char c :: ·)) :=
  Gives.one (by simp) h

theorem Gives.many1 {accepts : Char → Bool} {u : Text} (some_char : u ≠ [])
    (run : ∀ c ∈ u, accepts c = true) (ends : t.head?.any accepts = false)
    (h : Gives k t (some m)) :
    Gives ((Pattern.many1 accepts).firstThen k) (u ++ t) (some (u.map .char ++ m)) := by
  obtain ⟨c, u, rfl⟩ := List.exists_cons_of_ne_nil some_char
  show Gives ((Pattern.one accepts ++ Pattern.many accepts).firstThen k) _ _
  rw [firstThen_append]
  exact (Gives.many (fun d there => run d (by simp [there])) ends h).one (run c (by simp))

/-- A greedy repetition ends at the last place from which one can go on. -/
theorem Gives.manyLast {accepts : Char → Bool} {u : Text} (run : ∀ c ∈ u, accepts c = true)
    (later : ∀ a v, t = a ++ v → a ≠ [] → Gives k v none) (h : Gives k t (some m)) :
    Gives ((Pattern.many accepts).firstThen k) (u ++ t) (some (u.map .char ++ m)) := by
  unfold Pattern.many
  induction u with
  | nil =>
    intro before
    rw [firstThen_span]
    cases t with
    | nil => exact h before
    | cons c t =>
      have stuck : Gives ((span .greedy accepts).firstThen k) t none :=
        gives_span_none fun a v split _ =>
        later (c :: a) v (by rw [split]; rfl) (by simp)
      have here : k ⟨before, c :: t⟩ = some m := h before
      simp [Spot.next?, stuck (c :: before), here]
  | cons c u ih =>
    intro before
    have further := ih (fun d there => run d (by simp [there])) (c :: before)
    rw [firstThen_span]
    simp [run c (by simp), Spot.next?, further]

/-- One of several words is read, if none of them is the start of another. -/
theorem gives_anyWord {ws : List String}
    (apart : ∀ v ∈ ws, ∀ w ∈ ws, v.toList <+: w.toList → v = w) {w : String} (listed : w ∈ ws)
    (h : Gives k t (some m)) :
    Gives ((anyWord ws).firstThen k) (w.toList ++ t) (some (w.toList.map .char ++ m)) := by
  have here : Gives ((word w).firstThen k) (w.toList ++ t) (some (w.toList.map .char ++ m)) :=
    Gives.literal _ h
  induction ws with
  | nil => simp at listed
  | cons v ws ih =>
    have further (there : w ∈ ws) :=
      ih (fun a ha b hb => apart a (by simp [ha]) b (by simp [hb])) there
    cases ws with
    | nil =>
      obtain rfl : w = v := by simpa using listed
      exact here
    | cons v' ws =>
      show Gives ((alt (word v) (anyWord (v' :: ws))).firstThen k) _ _
      by_cases same : w = v
      · exact same ▸ here.left
      · refine Gives.right (gives_literal_none fun start => same ?_) (further (by simp_all))
        rcases List.prefix_or_prefix_of_prefix start
          (List.prefix_append w.toList t) with short | long
        · exact (apart v (by simp) w listed short).symm
        · exact apart w listed v (by simp) long

theorem firstThen_textStart (k : Spot → Option Match) (s : Spot) :
    textStart.firstThen k s = if s.before.isEmpty then k s else none := by
  by_cases start : s.before.isEmpty <;> simp [firstThen, ways, start]

end Rules

/-! ## Occurrences -/

section Occurrences

variable {p : Pattern} {t : Text} {m : Match}

/-- A match at the start of a text is the first one in it. -/
theorem find?_of_matchAt (h : p.matchAt ⟨[], t⟩ = some m) : p.find? t = some m := by
  rw [find?_eq, places, placesFrom_eq_cons, List.findSome?_cons, h]

theorem mem_placesFrom (before u after : Text) :
    ⟨u.reverse ++ before, after⟩ ∈ placesFrom before (u ++ after) := by
  induction u generalizing before with
  | nil =>
    rw [List.nil_append, placesFrom_eq_cons]
    exact List.mem_cons_self
  | cons c u ih =>
    have further := ih (c :: before)
    simp only [List.cons_append, placesFrom, List.reverse_cons, List.append_assoc]
    exact List.mem_cons_of_mem _ further

/-- A pattern occurs in a text if it is matched behind some part of it. -/
theorem occursIn_of_matchAt {u : Text} (h : p.matchAt ⟨u.reverse, t⟩ = some m) :
    p.occursIn (u ++ t) = true := by
  refine (occursIn_iff p _).2 ⟨⟨u.reverse, t⟩,
    by simpa [places] using mem_placesFrom [] u t, fun none => ?_⟩
  simp [matchAt, none] at h

/-- What occurs in a text takes a part of it. -/
theorem infix_of_occursIn (h : p.occursIn t = true) : ∃ u ∈ p.language, u <:+: t := by
  obtain ⟨s, place, some_way⟩ := (occursIn_iff p t).1 h
  obtain ⟨w, ways, same⟩ := List.exists_cons_of_ne_nil some_way
  have there : w ∈ p.ways s := same ▸ List.mem_cons_self
  refine ⟨w.1.text, text_mem_language there, ?_⟩
  have first : w.1.text <+: s.after := ⟨_, (takes_of_mem_ways there).1.symm⟩
  exact first.isInfix.trans (suffix_of_mem_placesFrom place).isInfix

end Occurrences

end Pattern

end CodeGauge
