import CodeGauge.Pattern.Basic

/-!
# One pass over a text

The first way to match is found for all places of a text in one pass from the end of the text to its
start. At every place a pattern is told how the text may go on after it, and it keeps an `Outlook`:
what it has to know of the next place when it comes to the one before. No place is visited twice, so
the time grows with the length of the text and the size of the pattern only.
-/

namespace CodeGauge

/-- What a pattern keeps from the places after the current one: nothing, how to go on at the next
one, how to go on at each of them, nearest first, or what its two sides keep. -/
inductive Outlook where
  | bare
  | goesOn (m : Match)
  | ahead (ms : List (Option Match))
  | both (left right : Outlook)

namespace Outlook

/-- The outlook of a single piece. -/
def ofMatch : Option Match → Outlook
  | none => bare
  | some m => goesOn m

/-- How to go on at the next place. -/
def match? : Outlook → Option Match
  | goesOn m => some m
  | _ => none

/-- Whether one cannot go on at any of the first `n` places. -/
def allNone : Nat → List (Option Match) → Bool
  | _, [] => true
  | 0, _ :: _ => true
  | n + 1, m :: ms => m.isNone && allNone n ms

/-- The outlook on places of which the first `n` matter. -/
def ofAhead (n : Nat) (ms : List (Option Match)) : Outlook :=
  if allNone n ms then bare else ahead ms

/-- How to go on at the places ahead. -/
def matches? : Outlook → List (Option Match)
  | ahead ms => ms
  | _ => []

/-- The outlook of two sides. -/
def join : Outlook → Outlook → Outlook
  | bare, bare => bare
  | a, b => both a b

/-- The outlook of the left side. -/
def left : Outlook → Outlook
  | both a _ => a
  | _ => bare

/-- The outlook of the right side. -/
def right : Outlook → Outlook
  | both _ b => b
  | _ => bare

/-- Whether nothing is kept. -/
def isBare : Outlook → Bool
  | bare => true
  | _ => false

@[simp] theorem match?_ofMatch (m : Option Match) : (ofMatch m).match? = m := by
  cases m <;> rfl

theorem join_getElem?_of_allNone {n i : Nat} {ms : List (Option Match)} (h : allNone n ms = true)
    (hi : i < n) : ms[i]?.join = none := by
  induction n generalizing i ms with
  | zero => omega
  | succ n ih =>
    cases ms with
    | nil => rfl
    | cons m ms =>
      rw [allNone, Bool.and_eq_true, Option.isNone_iff_eq_none] at h
      cases i with
      | zero => simp [h.1]
      | succ i => simpa using ih h.2 (Nat.lt_of_succ_lt_succ hi)

/-- The places that matter are kept. -/
theorem join_getElem?_ofAhead {n i : Nat} (ms : List (Option Match)) (hi : i < n) :
    (ofAhead n ms).matches?[i]?.join = ms[i]?.join := by
  by_cases h : allNone n ms = true
  · simp [ofAhead, h, matches?, join_getElem?_of_allNone h hi]
  · simp [ofAhead, h, matches?]

@[simp] theorem left_join (a b : Outlook) : (join a b).left = a := by
  cases a <;> cases b <;> rfl

@[simp] theorem right_join (a b : Outlook) : (join a b).right = b := by
  cases a <;> cases b <;> rfl

end Outlook

namespace Pattern

/-- Comes to a place from the right. Given are the outlook, and how to go on after the pattern if it
ends here; the result is the first way to match here and go on, and the outlook for the place
before. A pattern that keeps nothing and cannot end here has nothing to do. -/
def step (p : Pattern) (o : Outlook) (s : Spot) (k : Option Match) : Option Match × Outlook :=
  if o.isBare && k.isNone then (none, .bare)
  else match p with
    | empty => (k, .bare)
    | one accepts =>
      (match s.after with
        | [] => none
        | c :: _ => if accepts c then o.match?.map (.char c :: ·) else none,
      .ofMatch k)
    | literal chars =>
      let ms := k :: o.matches?
      (if chars.isPrefixOf s.after then ms[chars.length]?.join.map (chars.map .char ++ ·) else none,
      .ofAhead chars.length ms)
    | span greed accepts =>
      let m := match s.after with
        | [] => k
        | c :: _ =>
          if accepts c then
            match greed with
            | .greedy => (o.match?.map (.char c :: ·)).or k
            | .lazy => k.or (o.match?.map (.char c :: ·))
          else k
      (m, .ofMatch m)
    | seq p q =>
      let second := q.step o.right s k
      let first := p.step o.left s second.1
      (first.1, .join first.2 second.2)
    | alt p q =>
      let one := p.step o.left s k
      let other := q.step o.right s k
      (one.1.or other.1, .join one.2 other.2)
    | star p =>
      let m := (p.step o s none).1.or k
      (m, (p.step o s m).2)
    | slot label p =>
      let inner := p.step o s (k.map (.closing label :: ·))
      (inner.1.map (.opening label :: ·), inner.2)
    | wordEdge => (if s.onWordEdge then k else none, .bare)
    | textStart => (if s.before.isEmpty then k else none, .bare)
    | textEnd => (if s.after.isEmpty then k else none, .bare)

/-- Walks from a place to the start of the text and puts the first way to match at every place in
front of those already found. -/
def outcomesFrom (p : Pattern) : Outlook → Text → Text → List (Option Match) → List (Option Match)
  | o, [], after, found => (p.step o ⟨[], after⟩ (some [])).1 :: found
  | o, c :: before, after, found =>
    let here := p.step o ⟨c :: before, after⟩ (some [])
    p.outcomesFrom here.2 before (c :: after) (here.1 :: found)

/-- The first way to match at every place of a text, from left to right. -/
def outcomes (p : Pattern) (t : Text) : List (Option Match) :=
  p.outcomesFrom .bare t.reverse [] []

end Pattern

end CodeGauge
