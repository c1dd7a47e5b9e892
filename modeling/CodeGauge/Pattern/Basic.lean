import CodeGauge.Text.Basic
import CodeGauge.Text.WordChar

/-!
# Patterns

A pattern describes stretches of a text. It can match at a place in several ways, and the ways are
ordered: an alternative tries its left side first, a greedy repetition goes on before it stops, a
lazy one stops before it goes on. `Pattern.ways` lists them in that order.

* `Spot` is a place in a text, with what stands before and after it;
* `Match` is one way to match: the characters that it takes, and marks around its named parts;
* `Pattern.ways` lists the ways to match at a place, first choice first, each with its end.
-/

namespace CodeGauge

/-- A place in a text: the characters before it, nearest first, and those after it. -/
structure Spot where
  before : Text
  after : Text

namespace Spot

/-- Whether exactly one of the two neighbours is a word character. -/
def onWordEdge (s : Spot) : Bool :=
  s.before.head?.any isWordChar != s.after.head?.any isWordChar

/-- The place one character further on. -/
def next? (s : Spot) : Option Spot :=
  match s.after with
  | [] => none
  | c :: rest => some ⟨c :: s.before, rest⟩

/-- The place the given number of characters further on. -/
def skip? (s : Spot) : Nat → Option Spot
  | 0 => some s
  | n + 1 => s.next?.bind fun t => t.skip? n

/-- One comes from a place to another by taking a text. -/
def Takes (s : Spot) (t : Text) (e : Spot) : Prop :=
  s.after = t ++ e.after ∧ e.before = t.reverse ++ s.before

theorem Takes.refl (s : Spot) : s.Takes [] s := ⟨rfl, rfl⟩

theorem Takes.trans {s e f : Spot} {t u : Text} (h : s.Takes t e) (g : e.Takes u f) :
    s.Takes (t ++ u) f := by
  simp [Takes, h.1, g.1, g.2, h.2]

theorem Takes.suffix {s e : Spot} {t : Text} (h : s.Takes t e) : e.after <:+ s.after :=
  ⟨t, h.1.symm⟩

theorem Takes.length_le {s e : Spot} {t : Text} (h : s.Takes t e) :
    e.after.length ≤ s.after.length :=
  h.suffix.length_le

end Spot

/-- The parts of a match that a pattern can give a name to. -/
inductive Slot where
  | kind
  | name
  | extended
  | implemented
  | modifiers
  | type
  | arguments
  | keyword
  | static
  | path
deriving DecidableEq

/-- The two ways to repeat: as often as possible first, or as seldom as possible first. -/
inductive Greed where
  | greedy
  | lazy
deriving DecidableEq

/-- Descriptions of stretches of text. -/
inductive Pattern where
  /-- Matches nothing at all, at every place. -/
  | empty
  /-- One character of a class. -/
  | one (accepts : Char → Bool)
  /-- Exactly the given characters. -/
  | literal (chars : Text)
  /-- Any number of characters of a class. -/
  | span (greed : Greed) (accepts : Char → Bool)
  /-- One pattern, then another. -/
  | seq (first second : Pattern)
  /-- The left pattern, or else the right one. -/
  | alt (left right : Pattern)
  /-- A pattern any number of times, as often as possible first. -/
  | star (body : Pattern)
  /-- A pattern whose stretch is given a name. -/
  | slot (label : Slot) (body : Pattern)
  /-- A place between a word character and something else. -/
  | wordEdge
  /-- The start of the text. -/
  | textStart
  /-- The end of the text. -/
  | textEnd

/-- What a match is made of: the characters that it takes, and the marks where its named parts begin
and end. -/
inductive Piece where
  | char (c : Char)
  | opening (label : Slot)
  | closing (label : Slot)
deriving DecidableEq

/-- One way to match: its pieces from left to right. -/
abbrev Match := List Piece

namespace Match

/-- The character that a piece takes. -/
def taken? : Piece → Option Char
  | .char c => some c
  | _ => none

/-- The matched text. -/
def text (m : Match) : Text := m.filterMap taken?

@[simp] theorem text_nil : text [] = [] := rfl

@[simp] theorem text_append (m n : Match) : text (m ++ n) = m.text ++ n.text :=
  List.filterMap_append ..

@[simp] theorem text_char (c : Char) (m : Match) : text (.char c :: m) = c :: m.text := rfl

@[simp] theorem text_opening (label : Slot) (m : Match) : text (.opening label :: m) = m.text := rfl

@[simp] theorem text_closing (label : Slot) (m : Match) : text (.closing label :: m) = m.text := rfl

@[simp] theorem text_map_char (t : Text) : text (t.map .char) = t := by
  induction t with
  | nil => rfl
  | cons c t ih => simp [ih]

/-- The text of a named part, if it took part in the match; of several the last one. -/
def part? (m : Match) (label : Slot) : Option Text :=
  match m.reverse.dropWhile (· ≠ .closing label) with
  | [] => none
  | _ :: rest => some (text (rest.takeWhile (· ≠ .opening label)).reverse)

/-- The text of a named part, empty if it took no part in the match. -/
def part (m : Match) (label : Slot) : Text :=
  (m.part? label).getD []

end Match

namespace Pattern

/-- The runs of characters of a class from a place on, first choice first. -/
def waysSpan (greed : Greed) (accepts : Char → Bool) : Text → Text → List (Match × Spot)
  | before, [] => [([], ⟨before, []⟩)]
  | before, c :: rest =>
    if accepts c then
      let longer := (waysSpan greed accepts (c :: before) rest).map fun w => (.char c :: w.1, w.2)
      match greed with
      | .greedy => longer ++ [([], ⟨before, c :: rest⟩)]
      | .lazy => ([], ⟨before, c :: rest⟩) :: longer
    else [([], ⟨before, c :: rest⟩)]

/-- The repetitions of at most `n` rounds, each of which moves forward, first choice first. -/
def waysStar (round : Spot → List (Match × Spot)) : Nat → Spot → List (Match × Spot)
  | 0, s => [([], s)]
  | n + 1, s =>
    ((round s).flatMap fun w =>
      if w.2.after.length < s.after.length then
        (waysStar round n w.2).map fun v => (w.1 ++ v.1, v.2)
      else []) ++ [([], s)]

/-- All ways to match at a place, first choice first, each with the place where it ends. -/
def ways : Pattern → Spot → List (Match × Spot)
  | empty, s => [([], s)]
  | one accepts, s =>
    match s.after with
    | [] => []
    | c :: rest => if accepts c then [([.char c], ⟨c :: s.before, rest⟩)] else []
  | literal chars, s =>
    if chars.isPrefixOf s.after then
      [(chars.map .char, ⟨chars.reverse ++ s.before, s.after.drop chars.length⟩)]
    else []
  | span greed accepts, s => waysSpan greed accepts s.before s.after
  | seq p q, s => (p.ways s).flatMap fun w => (q.ways w.2).map fun v => (w.1 ++ v.1, v.2)
  | alt p q, s => p.ways s ++ q.ways s
  | star p, s => waysStar (fun t => p.ways t) s.after.length s
  | slot label p, s => (p.ways s).map fun w => (.opening label :: w.1 ++ [.closing label], w.2)
  | wordEdge, s => if s.onWordEdge then [([], s)] else []
  | textStart, s => if s.before.isEmpty then [([], s)] else []
  | textEnd, s => if s.after.isEmpty then [([], s)] else []

/-- The first way to match at a place. -/
def matchAt (p : Pattern) (s : Spot) : Option Match := (p.ways s).head?.map (·.1)

/-- The places of a text from a given one on. -/
def placesFrom : Text → Text → List Spot
  | before, [] => [⟨before, []⟩]
  | before, c :: rest => ⟨before, c :: rest⟩ :: placesFrom (c :: before) rest

/-- The places of a text, from left to right. -/
def places (t : Text) : List Spot := placesFrom [] t

theorem takes_of_mem_waysSpan {greed : Greed} {accepts : Char → Bool} {before after : Text}
    {w : Match × Spot} (h : w ∈ waysSpan greed accepts before after) :
    Spot.Takes ⟨before, after⟩ w.1.text w.2 := by
  induction after generalizing before w with
  | nil =>
    obtain rfl : w = ([], ⟨before, []⟩) := by simpa [waysSpan] using h
    exact .refl _
  | cons c rest ih =>
    have stop : Spot.Takes ⟨before, c :: rest⟩ [] ⟨before, c :: rest⟩ := .refl _
    have longer (v : Match × Spot) (hv : v ∈ waysSpan greed accepts (c :: before) rest) :
        Spot.Takes ⟨before, c :: rest⟩ (c :: v.1.text) v.2 :=
      Spot.Takes.trans (t := [c]) ⟨rfl, rfl⟩ (ih hv)
    unfold waysSpan at h
    split at h
    · cases greed <;> simp only [List.mem_append, List.mem_cons, List.mem_map] at h <;>
        grind [Match.text_char, Match.text_nil]
    · obtain rfl : w = ([], ⟨before, c :: rest⟩) := by simpa using h
      exact stop

theorem takes_of_mem_waysStar {round : Spot → List (Match × Spot)}
    (hround : ∀ s, ∀ w ∈ round s, Spot.Takes s w.1.text w.2) {n : Nat} {s : Spot}
    {w : Match × Spot} (h : w ∈ waysStar round n s) : s.Takes w.1.text w.2 := by
  induction n generalizing s w with
  | zero =>
    obtain rfl : w = ([], s) := by simpa [waysStar] using h
    exact .refl _
  | succ n ih =>
    simp only [waysStar, List.mem_append, List.mem_flatMap, List.mem_singleton] at h
    obtain ⟨v, hv, hw⟩ | rfl := h
    · split at hw
      · obtain ⟨u, hu, rfl⟩ := List.mem_map.1 hw
        simpa using (hround s v hv).trans (ih hu)
      · simp at hw
    · exact .refl _

/-- A way to match leads over its text to its end. -/
theorem takes_of_mem_ways {p : Pattern} {s : Spot} {w : Match × Spot} (h : w ∈ p.ways s) :
    s.Takes w.1.text w.2 := by
  induction p generalizing s w with
  | empty =>
    obtain rfl : w = ([], s) := by simpa [ways] using h
    exact .refl _
  | one accepts =>
    obtain ⟨before, after⟩ := s
    cases after with
    | nil => simp [ways] at h
    | cons c rest =>
      obtain ⟨_, rfl⟩ : accepts c = true ∧ w = ([.char c], ⟨c :: before, rest⟩) := by
        simpa [ways] using h
      exact ⟨rfl, rfl⟩
  | literal chars =>
    simp only [ways] at h
    split at h
    · obtain rfl := List.mem_singleton.1 h
      refine ⟨?_, by simp⟩
      obtain ⟨rest, hrest⟩ := List.isPrefixOf_iff_prefix.1 ‹_›
      simp [← hrest]
    · simp at h
  | span greed accepts => exact takes_of_mem_waysSpan h
  | seq p q ihp ihq =>
    simp only [ways, List.mem_flatMap, List.mem_map] at h
    obtain ⟨u, hu, v, hv, rfl⟩ := h
    simpa using (ihp hu).trans (ihq hv)
  | alt p q ihp ihq =>
    obtain h | h := List.mem_append.1 h
    · exact ihp h
    · exact ihq h
  | star p ih => exact takes_of_mem_waysStar (fun _ _ hw => ih hw) h
  | slot label p ih =>
    obtain ⟨v, hv, rfl⟩ := List.mem_map.1 h
    simpa using ih hv
  | wordEdge | textStart | textEnd =>
    simp only [ways] at h
    split at h
    · obtain rfl := List.mem_singleton.1 h
      exact .refl _
    · simp at h

/-- The number of rounds does not matter as long as there are enough for every character. -/
theorem waysStar_eq_waysStar (round : Spot → List (Match × Spot)) {n m : Nat} {s : Spot}
    (hn : s.after.length ≤ n) (hm : s.after.length ≤ m) :
    waysStar round n s = waysStar round m s := by
  induction n generalizing m s with
  | zero => cases m <;> simp [waysStar, Nat.le_zero.1 hn]
  | succ n ih =>
    cases m with
    | zero => simp [waysStar, Nat.le_zero.1 hm]
    | succ m =>
      simp only [waysStar]
      congr 2
      funext w
      split
      · rw [ih (m := m) (by omega) (by omega)]
      · rfl

/-- A repetition is a round that moves forward and a repetition after it, or else nothing. -/
theorem ways_star (p : Pattern) (s : Spot) :
    (star p).ways s =
      ((p.ways s).flatMap fun w =>
        if w.2.after.length < s.after.length then
          ((star p).ways w.2).map fun v => (w.1 ++ v.1, v.2)
        else []) ++ [([], s)] := by
  simp only [ways]
  rw [waysStar_eq_waysStar _ (Nat.le_refl _) (Nat.le_succ _)]
  simp only [waysStar]
  congr 2
  funext w
  split
  · rw [waysStar_eq_waysStar _ (by omega) (Nat.le_refl _)]
  · rfl

end Pattern

end CodeGauge
