import Mathlib.Tactic.Ring
import CodeGauge.Proofs.Metric.Nesting
import CodeGauge.Proofs.Source.NextLine

/-!
# Scores from higher levels

The same lines are scored from two numbers of levels. A closing brace is lost where no level is
open, so the two come closer together but never change places: the lines score at least as much from
the higher one, and on a line with a control keyword at most the difference more (`Above.score`). So
a source in two parts scores at least as much as its parts (`complexity_is_superadditive`), unless
the total no longer fits into 32 bits (`nested_conditions_wrap_around`).
-/

namespace CodeGauge

namespace Cognitive

/-- A number of levels is at least another one, and higher by `k` at most. -/
structure Above (k low high : Nat) : Prop where
  least : low ≤ high
  most : high ≤ low + k

namespace Above

variable {k low high : Nat}

theorem levelOn (h : Above k low high) (line : Text) :
    Above k (Cognitive.levelOn low line) (Cognitive.levelOn high line) := by
  obtain ⟨least, most⟩ := h
  unfold Cognitive.levelOn
  split <;> constructor <;> omega

/-- What a line opens and closes keeps the order, and the difference does not grow. -/
theorem levelAfter (h : Above k low high) (line : Text) :
    Above k (Cognitive.levelAfter low line) (Cognitive.levelAfter high line) := by
  obtain ⟨least, most⟩ := h.levelOn line
  simp only [Cognitive.levelAfter]
  by_cases closes : closesLater line = true
  · rw [if_pos closes, if_pos closes]
    constructor <;> omega
  · rw [if_neg closes, if_neg closes]
    constructor <;> omega

theorem lineScore (h : Above k low high) (line : Text) :
    Cognitive.lineScore low line ≤ Cognitive.lineScore high line ∧
      Cognitive.lineScore high line ≤
        Cognitive.lineScore low line + k * (if controlFlow.occursIn line then 1 else 0) := by
  obtain ⟨least, most⟩ := h.levelOn line
  unfold Cognitive.lineScore keywordScore Pattern.occursIn
  cases controlFlow.find? line with
  | none => simp
  | some m =>
    simp only [Option.isSome_some, if_true]
    constructor <;> omega

/-- Lines score at least as much from higher levels, and for each line with a control keyword at
most the difference more. -/
theorem score (h : Above k low high) (lines : List Text) :
    Cognitive.score low lines ≤ Cognitive.score high lines ∧
      Cognitive.score high lines ≤ Cognitive.score low lines +
        k * lines.countP controlFlow.occursIn := by
  induction lines generalizing low high with
  | nil => simp [Cognitive.score]
  | cons line lines ih =>
    have here := h.lineScore line
    have later := ih (h.levelAfter line)
    simp only [Cognitive.score, List.countP_cons, Nat.mul_add]
    omega

end Above

theorem linesOf_nextLine {a : Text} (ends : (Source.regionAfter .code a).spansLines = false)
    (b : Text) :
    linesOf (a ++ '\n' :: b) = linesOf a ++ linesOf b := by
  obtain ⟨gap, blank, lines⟩ := Source.trimmedLines_nextLine ends b
  have nothing : gap.filter (!·.isEmpty) = [] := by rcases blank with rfl | rfl <;> rfl
  rw [linesOf, lines, List.filter_append, List.filter_append, nothing, List.nil_append]
  rfl

theorem total_nextLine {a : Text} (ends : (Source.regionAfter .code a).spansLines = false)
    (b : Text) :
    total (a ++ '\n' :: b) = total a + score (openLevels a) (linesOf b) := by
  rw [total, linesOf_nextLine ends, score_append]
  rfl

/-- A total that fits into 32 bits is the complexity. -/
theorem toNat_complexity {source : Text} (fits : total source < UInt32.size) :
    (complexity source).toNat = total source :=
  UInt32.toNat_ofNat_of_lt' fits

/-- A source whose total fits into 32 bits scores at least as much as two parts of it, of which the
second begins in a new line. What it scores more is at most, for each line of the second part with a
control keyword, the number of levels that the first part leaves open. If that leaves none open, it
scores as much as its parts, whether the total fits or wraps around. -/
theorem complexity_is_superadditive {a : Text}
    (ends : (Source.regionAfter .code a).spansLines = false) (b : Text) :
    (total (a ++ '\n' :: b) < UInt32.size →
      let both := (complexity (a ++ '\n' :: b)).toNat
      let parts := (complexity a).toNat + (complexity b).toNat
      parts ≤ both ∧ both ≤ parts + openLevels a * (linesOf b).countP controlFlow.occursIn ∧
        (openLevels a = 0 → both = parts)) ∧
    (openLevels a = 0 → complexity (a ++ '\n' :: b) = complexity a + complexity b) := by
  have split := total_nextLine ends b
  have above : Above (openLevels a) 0 (openLevels a) := ⟨Nat.zero_le _, by omega⟩
  obtain ⟨least, most⟩ : total b ≤ _ ∧ _ ≤ total b + _ := above.score (linesOf b)
  have alone (none : openLevels a = 0) : total (a ++ '\n' :: b) = total a + total b := by
    rw [split, none]
    rfl
  refine ⟨fun fits => ?_, fun none => ?_⟩
  · intro both parts
    have whole : both = total (a ++ '\n' :: b) := toNat_complexity fits
    have first : (complexity a).toNat = total a := toNat_complexity (by omega)
    have second : (complexity b).toNat = total b := toNat_complexity (by omega)
    refine ⟨by omega, by omega, fun none => ?_⟩
    have := alone none
    omega
  · rw [complexity, alone none, UInt32.ofNat_add]
    rfl

/-- The first source leaves two levels open and ends in a comment, the second leaves none open and
ends in a literal. -/
theorem open_levels_raise_the_score :
    let a := "if (x) \x7b\n for (;;) \x7b // \"/*".toList
    let closed := "if (x) \x7b y(); \x7d '".toList
    let b := "\x7d else if (y) \x7b\nwhile (z) f();\n\x7d\n\x7d\nif (v) g();".toList
    ((Source.regionAfter .code a).spansLines = false ∧ total (a ++ '\n' :: b) < UInt32.size ∧
      openLevels a = 2 ∧ (linesOf b).countP controlFlow.occursIn = 3 ∧
      (complexity a).toNat + (complexity b).toNat = 8 ∧
      8 ≤ (complexity (a ++ '\n' :: b)).toNat ∧ (complexity (a ++ '\n' :: b)).toNat ≤ 8 + 2 * 3) ∧
    (Source.regionAfter .code closed).spansLines = false ∧ openLevels closed = 0 ∧
      complexity (closed ++ '\n' :: b) = complexity closed + complexity b := by
  intro a closed b
  have ends : (Source.regionAfter .code a).spansLines = false := by decide +kernel
  have ends' : (Source.regionAfter .code closed).spansLines = false := by decide +kernel
  have fits : total (a ++ '\n' :: b) < UInt32.size := by decide +kernel
  have levels : openLevels a = 2 := by decide +kernel
  have levels' : openLevels closed = 0 := by decide +kernel
  have keywords : (linesOf b).countP controlFlow.occursIn = 3 := by decide +kernel
  have parts : (complexity a).toNat + (complexity b).toNat = 8 := by decide +kernel
  obtain ⟨least, most, -⟩ := (complexity_is_superadditive ends b).1 fits
  rw [parts] at least most
  rw [levels, keywords] at most
  exact ⟨⟨ends, fits, levels, keywords, parts, least, most⟩, ends', levels',
    (complexity_is_superadditive ends' b).2 levels'⟩

/-! ## Totals that do not fit -/

/-- The header of a condition. -/
def conditionLine : Text := "if(a)\x7b".toList

/-- So many conditions, each inside the one before it. -/
def conditions (n : Nat) : Text := (List.replicate n (conditionLine ++ ['\n'])).flatten

theorem wholeLines_conditions (n : Nat) : Source.WholeLines (conditions n) :=
  .replicate (by decide) n

theorem linesOf_conditions (n : Nat) : linesOf (conditions n) = List.replicate n conditionLine :=
  linesOf_replicate (by decide) (by decide +kernel) n

theorem lineScore_conditionLine (level : Nat) :
    lineScore level conditionLine = level + 1 ∧ levelAfter level conditionLine = level + 1 := by
  have keyword : controlFlow.find? conditionLine =
      some [.opening .keyword, .char 'i', .char 'f', .closing .keyword] := by decide +kernel
  have others : logicalOperator.count conditionLine = 0 ∧ conditional.count conditionLine = 0 := by
    decide +kernel
  have alone : isElseIf
      (Match.part [.opening .keyword, .char 'i', .char 'f', .closing .keyword] .keyword) =
        false := by
    decide
  have opens : opensLevel conditionLine = true := by decide +kernel
  have around : levelOn level conditionLine = level := rfl
  have goesOn : closesLater conditionLine = false := by decide
  constructor
  · simp [lineScore, keywordScore, around, keyword, alone, others, Nat.add_comm]
  · simp [levelAfter, around, opens, goesOn]

/-- The levels around each of these lines are one more than around the one before. -/
theorem score_conditions (level n : Nat) :
    2 * score level (List.replicate n conditionLine) = n * (2 * level + n + 1) ∧
      levelsAfter level (List.replicate n conditionLine) = level + n := by
  induction n generalizing level with
  | zero => exact ⟨by simp [score], rfl⟩
  | succ n ih =>
    obtain ⟨scored, opened⟩ := lineScore_conditionLine level
    obtain ⟨further, deeper⟩ := ih (level + 1)
    rw [List.replicate_succ, score, scored, opened, Nat.mul_add, further, levelsAfter,
      List.foldl_cons, opened, ← levelsAfter, deeper]
    constructor
    · ring
    · omega

/-- One condition inside 92681 others. The total of the others fits into 32 bits. With the one in
the next line it does not, and wraps around to less than what the others score alone. -/
theorem nested_conditions_wrap_around :
    let a := conditions 92681
    (Source.regionAfter .code a).spansLines = false ∧ (complexity a).toNat = 4294930221 ∧
      (complexity conditionLine).toNat = 1 ∧
      (complexity (a ++ '\n' :: conditionLine)).toNat = 55607 := by
  intro a
  have ends : (Source.regionAfter .code a).spansLines = false := by
    rw [(wholeLines_conditions _).region]
    rfl
  obtain ⟨scored, opened⟩ := score_conditions 0 92681
  have first : total a = 4294930221 := by
    rw [total, linesOf_conditions]
    omega
  have last : linesOf conditionLine = [conditionLine] := by decide +kernel
  have both : total (a ++ '\n' :: conditionLine) = 4295022903 := by
    have one : score 92681 [conditionLine] = 92682 := by
      rw [score, (lineScore_conditionLine _).1]
      rfl
    rw [total_nextLine ends, first, openLevels, linesOf_conditions, opened, last, Nat.zero_add, one]
  refine ⟨ends, ?_, by decide +kernel, ?_⟩
  · rw [complexity, first]
    rfl
  · rw [complexity, both]
    rfl

end Cognitive

end CodeGauge
