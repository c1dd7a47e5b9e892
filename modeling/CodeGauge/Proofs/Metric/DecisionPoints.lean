import CodeGauge.Metric.Cyclomatic
import CodeGauge.Proofs.Pattern.Separation

/-!
# Decision points of fragments

Fragments of code are put one after the other with a semicolon and a line end between them. No
decision point meets this separator: only the label of a `case` may hold a semicolon, and it does
not go on behind a line end (`apart_decision`). So the decision points of the fragments add up
(`points_join`), and the cyclomatic complexity of a source is one more than their number, however
often fragments are repeated and in whatever order they stand (`fragments_add_up`).
-/

namespace CodeGauge

open Pattern

/-- A keyword with its parenthesis holds no semicolon, and begins with the keyword. -/
theorem apart_guardedKeyword {keyword : Pattern}
    (plain : ∀ u ∈ keyword.language, u ≠ [] ∧ ';' ∉ u ∧ ∀ d ∈ u.head?, d ≠ '\n') :
    (guardedKeyword keyword).Apart [';', '\n'] := by
  refine apart_of_not_mem fun u taken => ?_
  simp only [guardedKeyword, mem_language_append, mem_language_char] at taken
  obtain ⟨_, ⟨_, ⟨_, rfl, v, word, rfl⟩, gap, blank, rfl⟩, _, rfl, rfl⟩ := taken
  obtain ⟨some_char, noSemicolon, first⟩ := plain v word
  have noGap : ';' ∉ gap := fun there => absurd (blank _ there) (by decide)
  refine ⟨by simp, by simp [noSemicolon, noGap], fun d head => ?_⟩
  rw [List.nil_append, List.append_assoc, List.head?_append_of_ne_nil _ some_char] at head
  simpa using first d head

theorem apart_logicalOperator (c : Char) (rest : Text)
    (h : c ≠ '&' ∧ c ≠ '|' ∧ '&' ∉ rest ∧ '|' ∉ rest) :
    logicalOperator.Apart (c :: rest) := by
  refine apart_of_not_mem fun u taken => ?_
  rcases taken with rfl | rfl <;> simp [h]

/-- Two characters do not meet where the one is not before and the other not behind. -/
theorem Text.not_infix_append {c d : Char} {front rest : Text} (before : c ∉ front)
    (behind : d ∉ rest) :
    ¬ [c, d] <:+: front ++ rest := by
  rintro ⟨a, b, same⟩
  rw [List.append_assoc, List.cons_append, List.singleton_append] at same
  rcases List.append_eq_append_iff.1 same.symm with ⟨v, rfl, split⟩ | ⟨v, rfl, split⟩
  · exact behind (by simp [split])
  · cases v with
    | nil => exact behind (by simp [← show _ = rest from split])
    | cons e v =>
      obtain ⟨rfl, -⟩ := List.cons.inj split
      exact before (by simp)

namespace Cyclomatic

/-- What stands between two fragments. -/
def separator : Text := [';', '\n']

/-- A label ends with a colon, so it does not end in a separator. Where it holds a line end, there
is nothing but white space before that. -/
theorem apart_case :
    (wordEdge ++ word "case" ++ blanks1 ++ many1 (noneOf [':', '\n']) ++ char ':').Apart
      separator := by
  have shape {u : Text}
      (taken : u ∈ (wordEdge ++ word "case" ++ blanks1 ++ many1 (noneOf [':', '\n']) ++
        char ':').language) :
      ∃ gap label, u = "case".toList ++ gap ++ (label ++ [':']) ∧ ';' ∉ gap ∧ '\n' ∉ label := by
    simp only [blanks1, mem_language_append, mem_language_many1, mem_language_char] at taken
    obtain ⟨_, ⟨_, ⟨_, ⟨_, rfl, _, rfl, rfl⟩, gap, ⟨-, blank⟩, rfl⟩, label, ⟨-, run⟩, rfl⟩,
        _, rfl, rfl⟩ :=
      taken
    refine ⟨gap, label, by simp, fun there => ?_, fun there => ?_⟩
    · exact absurd (blank _ there) (by decide)
    · exact absurd (run _ there) (by decide)
  refine ⟨fun taken => ?_, fun u taken v some_char ends => ?_, fun u taken v some_char ends => ?_⟩
  · obtain ⟨gap, label, same, -⟩ := shape taken
    simp at same
  · obtain ⟨gap, label, rfl, noSemicolon, noNewline⟩ := shape taken
    constructor
    · intro start
      have colon : v.getLast? = some ':' := by
        obtain ⟨w, whole⟩ := ends
        rw [← List.getLast?_append_of_ne_nil w some_char, whole, ← List.append_assoc,
          List.getLast?_concat]
      have there := start.subset (List.mem_of_getLast? colon)
      simp [separator] at there
    · intro start
      refine Text.not_infix_append ?_ ?_ (start.isInfix.trans ends.isInfix)
      · simpa using noSemicolon
      · simpa using noNewline
  · obtain ⟨gap, label, rfl, -⟩ := shape taken
    obtain ⟨d, v, rfl⟩ := List.exists_cons_of_ne_nil some_char
    have other : 'c' ≠ d := by
      rintro rfl
      have there := ends.subset List.mem_cons_self
      simp [separator] at there
    exact not_prefix_of_ne other _ v

/-- No decision point meets the separator. -/
theorem apart_decision : ∀ decision ∈ decisions, decision.Apart separator := by
  have plain (w : String) (h : w.toList ≠ [] ∧ ';' ∉ w.toList ∧ w.toList.head? ≠ some '\n') :
      (guardedKeyword (word w)).Apart separator := by
    refine apart_guardedKeyword ?_
    rintro _ rfl
    exact ⟨h.1, h.2.1, fun d head same => h.2.2 (same ▸ head)⟩
  have elseIf : (guardedKeyword (word "else" ++ blanks1 ++ word "if")).Apart separator := by
    refine apart_guardedKeyword fun u taken => ?_
    simp only [blanks1, mem_language_append, mem_language_many1] at taken
    obtain ⟨_, ⟨_, rfl, gap, ⟨-, blank⟩, rfl⟩, _, rfl, rfl⟩ := taken
    have noGap : ';' ∉ gap := fun there => absurd (blank _ there) (by decide)
    simp [noGap]
  have ternary : (char '?' ++ many1 (noneOf [':', ';', '\n']) ++ char ':').Apart separator := by
    refine apart_of_not_mem fun u taken => ?_
    simp only [mem_language_append, mem_language_many1, mem_language_char] at taken
    obtain ⟨_, ⟨_, rfl, run, ⟨-, inside⟩, rfl⟩, _, rfl, rfl⟩ := taken
    have noRun : ';' ∉ run := fun there => absurd (inside _ there) (by decide)
    simp [noRun]
  simp only [decisions, List.forall_mem_cons]
  exact ⟨plain "if" (by decide), elseIf, plain "while" (by decide),
    plain "for" (by decide), apart_case, plain "catch" (by decide), ternary,
    apart_logicalOperator _ _ (by decide), by simp⟩

theorem isAnchored_decision : ∀ decision ∈ decisions, decision.isAnchored = false := by
  simp only [decisions, List.forall_mem_cons]
  exact ⟨rfl, rfl, rfl, rfl, rfl, rfl, rfl, rfl, by simp⟩

/-! ## Fragments -/

/-- The number of decision points in a source. -/
def points (source : Text) : Nat := decisions.foldr (fun decision n => decision.count source + n) 0

theorem complexity_eq (source : Text) : complexity source = 1 + points source := rfl

theorem points_separated (a b : Text) : points (a ++ (separator ++ b)) = points a + points b := by
  have each : ∀ decision ∈ decisions,
      decision.count (a ++ (separator ++ b)) = decision.count a + decision.count b := by
    intro decision listed
    have apart := apart_decision decision listed
    rw [count, apart.findAll_separated (isAnchored_decision decision listed)
      rfl (by simp [separator]), List.length_append]
    rfl
  unfold points
  generalize decisions = patterns at each
  induction patterns with
  | nil => rfl
  | cons decision rest ih =>
    obtain ⟨first, others⟩ := List.forall_mem_cons.1 each
    simp only [List.foldr_cons, first, ih others]
    omega

theorem points_join (fragments : List Text) :
    points (Text.join separator fragments) =
      fragments.foldr (fun fragment n => points fragment + n) 0 :=
  Text.foldr_join (by decide) points_separated fragments

/-- The decision points of fragments with a separator between them add up, so that a fragment that
is repeated counts as often as it stands there, and the order of fragments does not matter. -/
theorem fragments_add_up :
    (∀ a b, complexity (a ++ (separator ++ b)) = complexity a + complexity b - 1) ∧
    (∀ fragment k n, complexity fragment = 1 + k →
      complexity (Text.join separator (List.replicate n fragment)) = 1 + n * k) ∧
    ∀ fragments others : List Text, fragments.Perm others →
      complexity (Text.join separator fragments) = complexity (Text.join separator others) := by
  refine ⟨fun a b => ?_, fun fragment k n weight => ?_, fun fragments others perm => ?_⟩
  · simp only [complexity_eq, points_separated]
    omega
  · have size : points fragment = k := by simpa [complexity_eq] using weight
    rw [complexity_eq, points_join]
    congr 1
    induction n with
    | zero => simp
    | succ n ih =>
      rw [List.replicate_succ, List.foldr_cons, ih, size, Nat.succ_mul, Nat.add_comm]
  · rw [complexity_eq, complexity_eq, points_join, points_join]
    congr 1
    exact perm.foldr_eq' (fun _ _ _ _ _ => by omega) 0

/-- An open `case` and a colon, an open condition and a parenthesis, and a fragment with every kind
of decision point but a loop. -/
theorem open_fragments_add_up :
    let label := "case a".toList
    let rest := "b: if".toList
    let fragment := "case 'x': else if (a && b) c = d ? 1 : 2; catch(E e)".toList
    (complexity label = 1 ∧ complexity rest = 1 ∧ complexity (label ++ (separator ++ rest)) = 1) ∧
      (complexity fragment = 1 + 6 ∧
        complexity (Text.join separator (List.replicate 3 fragment)) = 1 + 3 * 6) ∧
      complexity (Text.join separator ([rest, label] ++ [fragment])) =
        complexity (Text.join separator ([fragment] ++ [rest, label])) := by
  intro label rest fragment
  have size : complexity fragment = 1 + 6 := by decide +kernel
  have none : complexity label = 1 ∧ complexity rest = 1 := by decide +kernel
  obtain ⟨adds, repeats, order⟩ := fragments_add_up
  refine ⟨⟨none.1, none.2, ?_⟩, ⟨size, repeats fragment 6 3 size⟩, order _ _ List.perm_append_comm⟩
  rw [adds label rest, none.1, none.2]

end Cyclomatic

end CodeGauge
