import CodeGauge.Metric.Cognitive
import CodeGauge.Proofs.Pattern.Language
import CodeGauge.Proofs.Source.WholeLines

/-!
# Levels around statements

`Statements` are control statements as they are written with one block header, one closing brace or
one simple statement on a line. A header opens a level only if it has a keyword with a parenthesis,
but each closing brace at the start of a line closes one. So after finished statements there are
fewer levels than before them: one fewer for each block without a condition (`else`, `do`, `try`,
`finally`), and one for each line that closes a brace behind its start and opens no level for it
(`Statements.unpaired`, `Statements.levelsAfter_lines`). What follows is scored as if that many
closing braces stood in their place (`what_follows_statements_is_scored_outside`).
-/

namespace CodeGauge

namespace Cognitive

open Pattern (Gives)

/-! ## Scores of several lines -/

/-- The number of levels after some lines, given the number before them. -/
def levelsAfter (level : Nat) (lines : List Text) : Nat := lines.foldl levelAfter level

theorem score_append (level : Nat) (lines more : List Text) :
    score level (lines ++ more) = score level lines + score (levelsAfter level lines) more := by
  induction lines generalizing level with
  | nil => simp [score, levelsAfter]
  | cons line lines ih => simp [score, levelsAfter, ih, Nat.add_assoc]

/-- The number of levels that are open at the end of a source. -/
def openLevels (source : Text) : Nat := levelsAfter 0 (linesOf source)

theorem linesOf_append {p : Text} (whole : Source.WholeLines p) (q : Text) :
    linesOf (p ++ q) = linesOf p ++ linesOf q := by
  rw [linesOf, whole.trimmedLines_append, List.filter_append]
  rfl

/-- A line that is written again and again is read again and again. -/
theorem linesOf_replicate {p line : Text} (whole : Source.WholeLines p) (one : linesOf p = [line])
    (n : Nat) : linesOf (List.replicate n p).flatten = List.replicate n line := by
  induction n with
  | zero => rfl
  | succ n ih => rw [List.replicate_succ, List.flatten_cons, linesOf_append whole, one, ih]; rfl

theorem total_append {p : Text} (whole : Source.WholeLines p) (q : Text) :
    total (p ++ q) = total p + score (openLevels p) (linesOf q) := by
  rw [total, linesOf_append whole, score_append]
  rfl

/-- In 32 bits, two sums are the same if the exact ones are. -/
theorem complexity_add_eq {a b c d : Text} (same : total a + total b = total c + total d) :
    complexity a + complexity b = complexity c + complexity d := by
  simp only [complexity, ← UInt32.ofNat_add, same]

/-! ## Statements -/

/-- Whether braces are paired in a text that starts `depth` braces deep. -/
def paired : Nat → Text → Bool
  | depth, [] => depth = 0
  | depth, c :: rest =>
    if c = '{' then paired (depth + 1) rest
    else if c = '}' then 0 < depth && paired (depth - 1) rest
    else paired depth rest

/-- Code on a line, whose braces are paired. -/
structure Code where
  text : Text
  braces : paired 0 text = true

/-- White space on a line. -/
structure Gap where
  text : Text
  blank : ∀ c ∈ text, isBlank c = true

/-- The keywords that a condition follows. -/
def guards : List String := ["if", "for", "while", "switch", "try", "catch"]

/-- The header of a block. -/
inductive Head where
  /-- A keyword and a condition, as `if (a)` or `catch (E e)`. Before the keyword there may be
  others, as in `else if (a)`. -/
  | guarded (lead : Text) (keyword : String) (gap : Gap) (condition : Code) (last : Gap)
    (apart : ∀ c ∈ lead.getLast?, isWordChar c = false) (noBrace : '{' ∉ lead ∧ '}' ∉ lead)
    (listed : keyword ∈ guards)
  /-- Words alone: `else`, `do`, `try`, `finally`. -/
  | bare (words : Text) (noBracket : '(' ∉ words ∧ '{' ∉ words ∧ '}' ∉ words)

/-- How a header is written. -/
def Head.line : Head → Text
  | .guarded lead keyword gap condition last .. =>
    lead ++ (keyword.toList ++ (gap.text ++ '(' :: (condition.text ++ ')' :: (last.text ++ ['{']))))
  | .bare words _ => words ++ ['{']

mutual

/-- Statements that are written one after the other. -/
inductive Statements where
  | nil
  | simple (code : Code) (more : Statements)
  | control (head : Head) (body : Statements) (rest : Rest) (more : Statements)

/-- How a block ends: with a brace that something may follow, as in `} while (a);`, or with another
block, as in `} else {`. -/
inductive Rest where
  | close (tail : Code)
  | next (gap : Gap) (head : Head) (body : Statements) (rest : Rest)

end

mutual

/-- The lines that statements are written on. -/
def Statements.lines : Statements → List Text
  | .nil => []
  | .simple code more => code.text :: more.lines
  | .control head body rest more => head.line :: (body.lines ++ (rest.lines ++ more.lines))

/-- The lines from the end of a block on. -/
def Rest.lines : Rest → List Text
  | .close tail => ['}' :: tail.text]
  | .next gap head body rest => ('}' :: (gap.text ++ head.line)) :: (body.lines ++ rest.lines)

end

/-- Whether a brace is closed in a text, as a number. -/
def closings (t : Text) : Nat := if '}' ∈ t then 1 else 0

/-- How many levels a header closes that it does not open. -/
def Head.unpaired : Head → Nat
  | .guarded _ _ _ condition .. => closings condition.text
  | .bare .. => 1

mutual

/-- How many more levels statements close than they open. -/
def Statements.unpaired : Statements → Nat
  | .nil => 0
  | .simple code more =>
    (if opener.occursIn code.text then 0 else closings code.text) + more.unpaired
  | .control head body rest more => head.unpaired + body.unpaired + rest.unpaired + more.unpaired

/-- How many more levels than that of the block are closed from its end on. -/
def Rest.unpaired : Rest → Nat
  | .close tail => if opener.occursIn ('}' :: tail.text) then 0 else closings tail.text
  | .next _ head body rest => head.unpaired + body.unpaired + rest.unpaired

end

/-! ## What a line does to the level -/

section Lines

variable {line : Text} (level : Nat)

theorem levelAfter_of_head? (first : line.head? ≠ some '}') :
    levelAfter level line = level + (if opensLevel line then 1 else 0) - closings line := by
  have goesOn : closesFirst line = false := by simpa [closesFirst] using first
  by_cases closing : '}' ∈ line <;> simp [levelAfter, levelOn, closesLater, closings,
    goesOn, closing]

theorem levelAfter_closing (rest : Text) :
    levelAfter level ('}' :: rest) =
      level - 1 + (if opensLevel ('}' :: rest) then 1 else 0) - closings rest := by
  by_cases closing : '}' ∈ rest <;> simp [levelAfter, levelOn, closesLater, closesFirst,
    closings, closing]

end Lines

/-- Where braces are paired, the first is an opening one, and one is closed if one is opened. -/
theorem Code.braces_iff (code : Code) :
    code.text.head? ≠ some '}' ∧ ('{' ∈ code.text ↔ '}' ∈ code.text) := by
  have deep {depth : Nat} {t : Text} (h : paired depth t = true) :
      ('{' ∈ t → '}' ∈ t) ∧ (0 < depth → '}' ∈ t) ∧ (depth = 0 → '}' ∈ t → '{' ∈ t) := by
    induction t generalizing depth with
    | nil => simp_all [paired]
    | cons c t ih => grind [paired]
  have shape := code.braces
  refine ⟨fun first => ?_, (deep shape).1, (deep shape).2.2 rfl⟩
  obtain ⟨rest, same⟩ := List.head?_eq_some_iff.1 first
  simp [same, paired] at shape

theorem levelAfter_code (code : Code) (level : Nat) :
    levelAfter level code.text = level - (if opener.occursIn code.text then 0
      else closings code.text) := by
  obtain ⟨first, both⟩ := code.braces_iff
  rw [levelAfter_of_head? level first, opensLevel, closings]
  by_cases occurs : opener.occursIn code.text <;> by_cases closing : '}' ∈ code.text <;>
    simp [occurs, closing, both]

theorem levelAfter_tail (tail : Code) (level : Nat) :
    levelAfter level ('}' :: tail.text) =
      level - 1 - (if opener.occursIn ('}' :: tail.text) then 0 else closings tail.text) := by
  obtain ⟨-, both⟩ := tail.braces_iff
  rw [levelAfter_closing, opensLevel, closings]
  by_cases occurs : opener.occursIn ('}' :: tail.text) <;> by_cases closing : '}' ∈ tail.text <;>
    simp [occurs, closing, both]

theorem matchAt_opener {s : Spot} (edge : s.onWordEdge = true) :
    opener.matchAt s = (Pattern.anyWord guards).firstThen
      (Pattern.blanks.firstThen ((Pattern.char '(').firstThen fun _ => some [])) s := by
  rw [← Pattern.firstThen_some, opener, guardedKeyword]
  simp only [Pattern.firstThen_append]
  rw [Pattern.firstThen_wordEdge, if_pos edge]
  rfl

/-- A keyword and its parenthesis are found behind anything that no word ends with. -/
theorem opener_occursIn {front : Text} {keyword : String} {gap : Text} (rest : Text)
    (apart : ∀ c ∈ front.getLast?, isWordChar c = false) (listed : keyword ∈ guards)
    (blank : ∀ c ∈ gap, isBlank c = true) :
    opener.occursIn (front ++ (keyword.toList ++ (gap ++ '(' :: rest))) = true := by
  have distinct : ∀ v ∈ guards, ∀ w ∈ guards, v.toList <+: w.toList → v = w := by decide
  have letters : ∀ w ∈ guards, w.toList.head?.any isWordChar = true := by decide
  have bracket :
      Gives ((Pattern.char '(').firstThen fun _ => some []) ('(' :: rest) (some [.char '(']) :=
    Gives.char (o := some []) '(' fun _ => rfl
  have read := Pattern.gives_anyWord distinct listed (Gives.many blank rfl bracket) front.reverse
  have edge :
      (Spot.mk front.reverse (keyword.toList ++ (gap ++ '(' :: rest))).onWordEdge = true := by
    have before : front.reverse.head?.any isWordChar = false := by
      rw [List.head?_reverse]
      exact (Option.any_eq_false ..).2 apart
    obtain ⟨c, more, same, letter⟩ := Text.exists_cons_of_head? (letters keyword listed)
    rw [Spot.onWordEdge, before, same]
    simpa using letter
  exact Pattern.occursIn_of_matchAt ((matchAt_opener edge).trans read)

theorem opener_not_occursIn {line : Text} (none : '(' ∉ line) : opener.occursIn line = false := by
  by_contra occurs
  obtain ⟨u, taken, part⟩ := Pattern.infix_of_occursIn (Bool.not_eq_false _ ▸ occurs)
  obtain ⟨v, -, w, bracket, rfl⟩ := Pattern.mem_language_append.1 taken
  rw [Pattern.mem_language_char.1 bracket] at part
  exact none (part.subset (by simp))

theorem Head.head?_line (head : Head) : head.line.head? ≠ some '}' := by
  have other {t u : Text} (noBrace : '}' ∉ t) (rest : u.head? ≠ some '}') :
      (t ++ u).head? ≠ some '}' := by
    cases t with
    | nil => exact rest
    | cons c t =>
      rintro ⟨rfl⟩
      simp at noBrace
  cases head with
  | bare words noBracket => exact other noBracket.2.2 (by simp)
  | guarded lead keyword gap condition last apart noBrace listed =>
    have letters : ∀ w ∈ guards, w.toList ≠ [] ∧ w.toList.head? ≠ some '}' := by decide
    obtain ⟨some_char, first⟩ := letters keyword listed
    refine other noBrace.2 ?_
    rwa [List.head?_append_of_ne_nil _ some_char]

theorem apart_append {front lead : Text} (h : ∀ c ∈ front.getLast?, isWordChar c = false)
    (g : ∀ c ∈ lead.getLast?, isWordChar c = false) :
    ∀ c ∈ (front ++ lead).getLast?, isWordChar c = false := by
  obtain rfl | some_char := eq_or_ne lead []
  · simpa using h
  · rwa [List.getLast?_append_of_ne_nil _ some_char]

namespace Gap

variable (gap : Gap)

theorem not_mem {c : Char} (visible : isBlank c = false) : c ∉ gap.text := fun there => by
  simp [gap.blank c there] at visible

theorem closings_append (t : Text) : closings (gap.text ++ t) = closings t := by
  simp [closings, gap.not_mem (c := '}') (by decide)]

theorem closing_apart : ∀ c ∈ ('}' :: gap.text).getLast?, isWordChar c = false := by
  have blank : ∀ c ∈ gap.text.getLast?, isWordChar c = false := fun c last =>
    Text.isWordChar_of_isBlank (gap.blank c (List.mem_of_getLast? last))
  have closing : ∀ c ∈ ['}'].getLast?, isWordChar c = false := by
    rintro _ ⟨⟩
    decide
  exact apart_append closing blank

theorem closing_noParen : '(' ∉ '}' :: gap.text := by
  simp [gap.not_mem (c := '(') (by decide)]

end Gap

/-- A header opens a level if it has a condition, and what is closed on its line is closed in the
condition. -/
theorem Head.levels (head : Head) (front : Text)
    (apart : ∀ c ∈ front.getLast?, isWordChar c = false) (noParen : '(' ∉ front) (level : Nat) :
    level + (if opensLevel (front ++ head.line) then 1 else 0) - closings head.line =
      level + 1 - head.unpaired := by
  cases head with
  | bare words noBracket =>
    have opens : opensLevel (front ++ Head.line (.bare words noBracket)) = false := by
      have none : '(' ∉ front ++ Head.line (.bare words noBracket) := by
        simp [Head.line, noParen, noBracket.1]
      simp [opensLevel, opener_not_occursIn none]
    have closes : closings (Head.line (.bare words noBracket)) = 0 := by
      simp [closings, Head.line, noBracket]
    simp [opens, closes, Head.unpaired]
  | guarded lead keyword gap condition last apart' noBrace listed =>
    have edge := apart_append apart apart'
    have opens : opensLevel (front ++
        Head.line (.guarded lead keyword gap condition last apart' noBrace listed)) = true := by
      have occurs :=
        opener_occursIn (condition.text ++ ')' :: (last.text ++ ['{'])) edge listed gap.blank
      rw [List.append_assoc] at occurs
      simp [opensLevel, Head.line, occurs]
    have closes :
        closings (Head.line (.guarded lead keyword gap condition last apart' noBrace listed)) =
          closings condition.text := by
      have letters : ∀ w ∈ guards, '}' ∉ w.toList := by decide
      have gaps (gap : Gap) : '}' ∉ gap.text := gap.not_mem (by decide)
      simp [closings, Head.line, noBrace, letters keyword listed, gaps]
    simp [opens, closes, Head.unpaired]

mutual

/-- After statements, as many levels are open as before them, less those that they close in
excess. -/
theorem Statements.levelsAfter_lines : ∀ (s : Statements) (level : Nat),
    levelsAfter level s.lines = level - s.unpaired
  | .nil, level => rfl
  | .simple code more, level => by
    have first := levelAfter_code code level
    have further := more.levelsAfter_lines (levelAfter level code.text)
    simp only [Statements.lines, Statements.unpaired, levelsAfter, List.foldl_cons] at further ⊢
    omega
  | .control head body rest more, level => by
    have opened := head.levels [] (by simp) (by simp) level
    have start := levelAfter_of_head? level head.head?_line
    have inside := body.levelsAfter_lines (levelAfter level head.line)
    have closed := rest.levelsAfter_lines (levelsAfter (levelAfter level head.line) body.lines)
    have further := more.levelsAfter_lines
      (levelsAfter (levelsAfter (levelAfter level head.line) body.lines) rest.lines)
    rw [List.nil_append] at opened
    simp only [Statements.lines, Statements.unpaired, levelsAfter, List.foldl_cons,
      List.foldl_append]
      at inside closed further ⊢
    omega

theorem Rest.levelsAfter_lines : ∀ (r : Rest) (level : Nat),
    levelsAfter level r.lines = level - 1 - r.unpaired
  | .close tail, level => levelAfter_tail tail level
  | .next gap head body rest, level => by
    have opened := head.levels ('}' :: gap.text) gap.closing_apart gap.closing_noParen (level - 1)
    have start := levelAfter_closing level (gap.text ++ head.line)
    have inside := body.levelsAfter_lines (levelAfter level ('}' :: (gap.text ++ head.line)))
    have closed := rest.levelsAfter_lines
      (levelsAfter (levelAfter level ('}' :: (gap.text ++ head.line))) body.lines)
    rw [gap.closings_append] at start
    simp only [Rest.lines, Rest.unpaired, levelsAfter, List.foldl_cons, List.foldl_append,
      List.cons_append]
      at opened inside closed ⊢
    omega

end

/-! ## What follows statements -/

/-- Whether a text is statements as they are written, however far in and with whatever empty lines,
and free of comments and literals. -/
structure Statements.Written (s : Statements) (b : Text) : Prop where
  plain : Source.Plain b
  ended : Text.Ended b
  lines : (Text.trimmedLines b).filter (!·.isEmpty) = s.lines

theorem Statements.Written.linesOf_eq {s : Statements} {b : Text} (h : s.Written b) :
    linesOf b = s.lines := by
  rw [linesOf, h.plain.stripped_eq, h.lines]

/-- So many lines with a closing brace. -/
def closingLines (n : Nat) : Text := (List.replicate n ['}', '\n']).flatten

theorem wholeLines_closingLines (n : Nat) : Source.WholeLines (closingLines n) :=
  .replicate (by decide) n

theorem linesOf_closingLines (n : Nat) : linesOf (closingLines n) = List.replicate n ['}'] :=
  linesOf_replicate (by decide) (by decide) n

theorem score_closingLines (level n : Nat) :
    score level (List.replicate n ['}']) = 0 ∧
      levelsAfter level (List.replicate n ['}']) = level - n := by
  induction n generalizing level with
  | zero => exact ⟨rfl, rfl⟩
  | succ n ih =>
    obtain ⟨scored, closed⟩ := ih (levelAfter level ['}'])
    have noKeyword : controlFlow.find? ['}'] = none := by decide
    have none : logicalOperator.count ['}'] = 0 ∧ conditional.count ['}'] = 0 := by decide
    have one : lineScore level ['}'] = 0 ∧ levelAfter level ['}'] = level - 1 :=
      ⟨by simp [lineScore, keywordScore, noKeyword, none], rfl⟩
    rw [List.replicate_succ, score, scored, one.1]
    refine ⟨rfl, ?_⟩
    rw [levelsAfter, List.foldl_cons, ← levelsAfter, closed, one.2]
    omega

theorem total_closingLines {p : Text} (whole : Source.WholeLines p) (n : Nat) (q : Text) :
    total (p ++ (closingLines n ++ q)) = total p + score (openLevels p - n) (linesOf q) := by
  have lines : linesOf (closingLines n ++ q) = List.replicate n ['}'] ++ linesOf q := by
    rw [linesOf_append (wholeLines_closingLines n), linesOf_closingLines]
  rw [total_append whole, lines, score_append, (score_closingLines _ n).1,
    (score_closingLines _ n).2, Nat.zero_add]

/-- A line with a keyword tells how many levels are around it. -/
theorem score_do (level : Nat) : score level (linesOf ['d', 'o', '\n']) = 1 + level := by
  have lines : linesOf ['d', 'o', '\n'] = [['d', 'o']] := by decide
  have keyword : controlFlow.find? ['d', 'o'] =
      some [.opening .keyword, .char 'd', .char 'o', .closing .keyword] := by decide
  have others : logicalOperator.count ['d', 'o'] = 0 ∧ conditional.count ['d', 'o'] = 0 := by decide
  have outside : levelOn level ['d', 'o'] = level := rfl
  have alone :
      isElseIf (Match.part [.opening .keyword, .char 'd', .char 'o', .closing .keyword] .keyword) =
        false := by decide
  simp [lines, score, lineScore, keywordScore, outside, keyword, alone, others]

namespace Statements.Written

variable {s : Statements} {b p : Text}

theorem wholeLines (written : s.Written b) : Source.WholeLines b :=
  written.plain.wholeLines written.ended

theorem total_append (written : s.Written b) (whole : Source.WholeLines p) (q : Text) :
    total (p ++ (b ++ q)) = total (p ++ b) + score (openLevels p - s.unpaired) (linesOf q) := by
  rw [Cognitive.total_append whole, linesOf_append written.wholeLines, score_append,
    written.linesOf_eq, s.levelsAfter_lines, ← Nat.add_assoc, Cognitive.total_append whole,
    written.linesOf_eq]

end Statements.Written

/-- Closing all levels but one tells any two numbers of levels apart, of which the second is the
lower one. -/
theorem score_do_ne {high low : Nat} (lower : low < high) :
    let q := closingLines (high - 1) ++ ['d', 'o', '\n']
    score high (linesOf q) = 2 ∧ score low (linesOf q) = 1 := by
  intro q
  have lines : linesOf q = List.replicate (high - 1) ['}'] ++ linesOf ['d', 'o', '\n'] := by
    rw [linesOf_append (wholeLines_closingLines _), linesOf_closingLines]
  have scored (level : Nat) : score level (linesOf q) = 1 + (level - (high - 1)) := by
    rw [lines, score_append, (score_closingLines _ _).1, (score_closingLines _ _).2, score_do,
      Nat.zero_add]
  constructor
  · rw [scored]
    omega
  · rw [scored]
    omega

/-- What follows statements is scored as if, in their place, so many braces were closed as they
close without having opened a level. So it is scored as if they were not there exactly if they close
none in excess or no level is open around them. -/
theorem what_follows_statements_is_scored_outside {s : Statements} {b p : Text}
    (written : s.Written b) (whole : Source.WholeLines p) :
    (∀ q, complexity (p ++ (b ++ q)) + complexity p =
      complexity (p ++ b) + complexity (p ++ (closingLines s.unpaired ++ q))) ∧
    ((∀ q, Source.WholeLines q →
        complexity (p ++ (b ++ q)) + complexity p = complexity (p ++ b) + complexity (p ++ q)) ↔
      s.unpaired = 0 ∨ openLevels p = 0) := by
  have behind := written.total_append whole
  refine ⟨fun q => complexity_add_eq ?_, fun all => ?_, fun level q _ => complexity_add_eq ?_⟩
  · rw [behind q, total_closingLines whole]
    omega
  · by_contra both
    obtain ⟨excess, levels⟩ := not_or.1 both
    -- Where only one level is left open around the keyword, the scores differ by one.
    have lower : openLevels p - s.unpaired < openLevels p := by omega
    obtain ⟨two, one⟩ := score_do_ne lower
    have differ :=
      all _ ((wholeLines_closingLines (openLevels p - 1)).append (q := ['d', 'o', '\n'])
      (by decide))
    simp only [complexity, ← UInt32.ofNat_add] at differ
    rw [behind, total_append whole (closingLines _ ++ _), one, two] at differ
    have next : total (p ++ b) + 1 + total p + 1 = total (p ++ b) + (total p + 2) := by omega
    rw [← next, UInt32.ofNat_add _ 1] at differ
    simp at differ
  · have same : openLevels p - s.unpaired = openLevels p := by omega
    rw [behind q, same, total_append whole q]
    omega

/-- A space. -/
def Gap.space : Gap := ⟨[' '], by simp [isBlank]⟩

/-- The header `try {` with a loop in its block, and then `catch (E e) {` and `finally {`. -/
def loopInTry : Statements :=
  .control (.bare "try ".toList (by decide))
    (.control (.bare "do ".toList (by decide))
      (.simple ⟨"f(() -> \x7b x(); \x7d);".toList, rfl⟩ .nil)
      (.close ⟨" while (a);".toList, rfl⟩) .nil)
    (.next .space (.guarded [] "catch" .space ⟨"E e".toList, rfl⟩ .space (by simp) (by simp)
      (by decide)) .nil
      (.next .space (.bare "finally ".toList (by decide)) .nil (.close ⟨[], rfl⟩)))
    .nil

/-- Three blocks without a condition and a body that is closed on its line close a level each, and
so neither of the two levels around the statement is left. -/
theorem what_follows_loop_is_scored_outside :
    let p := "if (a) \x7b // one\nfor (;;) \x7b\n".toList
    let b := ("try \x7b\n\tdo \x7b\n\t\tf(() -> \x7b x(); \x7d);\n\t\x7d while (a);\n" ++
      "\x7d catch (E e) \x7b\n\n\x7d finally \x7b\n\x7d\n").toList
    loopInTry.Written b ∧ Source.WholeLines p ∧ openLevels p = 2 ∧ loopInTry.unpaired = 4 ∧
      (∀ q, complexity (p ++ (b ++ q)) + complexity p =
        complexity (p ++ b) + complexity (p ++ (closingLines 4 ++ q))) ∧
      ∃ q, Source.WholeLines q ∧
        complexity (p ++ (b ++ q)) + complexity p ≠ complexity (p ++ b) + complexity (p ++ q) := by
  intro p b
  have written : loopInTry.Written b := ⟨by decide +kernel, by decide +kernel, by decide +kernel⟩
  have whole : Source.WholeLines p := by decide
  have levels : openLevels p = 2 := by decide +kernel
  have excess : loopInTry.unpaired = 4 := by decide +kernel
  obtain ⟨scored, same⟩ := what_follows_statements_is_scored_outside written whole
  refine ⟨written, whole, levels, excess, excess ▸ scored, ?_⟩
  obtain ⟨q, differs⟩ := not_forall.1 (mt same.1 (by simp [levels, excess]))
  exact ⟨q, Classical.not_imp.1 differs⟩

/-- The statement `if (a) {` … `} else {` … `}`. -/
def ifElse : Statements :=
  .control (.guarded [] "if" .space ⟨['a'], rfl⟩ .space (by simp) (by simp) (by decide))
    (.simple ⟨"x();".toList, rfl⟩ .nil)
    (.next .space (.bare "else ".toList (by decide)) (.simple ⟨"y();".toList, rfl⟩ .nil)
      (.close ⟨[], rfl⟩))
    .nil

/-- After an `else` block the loop around it is taken to be closed, and the next condition in it
scores one less. -/
theorem else_block_closes_a_level :
    let p := "for (;;) \x7b\n".toList
    let b := "if (a) \x7b\nx();\n\x7d else \x7b\ny();\n\x7d\n".toList
    let q := "if (b) \x7b\nz();\n\x7d\n\x7d\n".toList
    ifElse.Written b ∧ Source.WholeLines p ∧ Source.WholeLines q ∧
      complexity (p ++ (b ++ q)) = 6 ∧ complexity (p ++ b) = 5 ∧ complexity (p ++ q) = 3 ∧
      complexity p = 1 := by
  refine ⟨⟨by decide, by decide, by decide⟩, by decide, by decide, ?_⟩
  decide +kernel

end Cognitive

end CodeGauge
