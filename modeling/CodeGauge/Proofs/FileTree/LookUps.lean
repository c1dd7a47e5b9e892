import CodeGauge.Proofs.FileTree.Walks
import CodeGauge.Proofs.Path.Steps

/-!
# Looking paths up

A path that ends in a name looks for it in its directory, with the links that are left from the way
there (`exists_lookUp`), so a name that is no link leads to what stands in the directory under it,
if it leads anywhere (`eq_of_locate_join`).

The system may give a path up (`GivesUp`): it is too long, it leads over too many links, or a
directory on the way refuses to look names up. Two paths that look for the same name in the same
directory lead to the same place if both are given up on or neither is (`locate_agree`).
-/

namespace CodeGauge

theorem Except.toOption_bind {ε α β : Type} (x : Except ε α) (f : α → Except ε β) :
    (x.bind f).toOption = x.toOption.bind fun a => (f a).toOption := by
  cases x <;> rfl

namespace FileTree

variable {t : FileTree} {p q dir : Path} {loc place : Location} {n m : Bytes} {node : Node}

/-! ## What stands at a location -/

theorem textAt_eq_ok_iff {text : Text} : t.textAt loc = .ok text ↔
    t.refusal? loc .read = none ∧ ∃ bytes, t.node? loc = some (.file bytes) ∧
      decode? bytes = some text := by
  unfold textAt
  cases t.node? loc with
  | none => simp
  | some node =>
    cases t.refusal? loc .read with
    | some wording => simp
    | none =>
      cases node with
      | directory | link => simp
      | file bytes => cases decoded : decode? bytes <;> simp [decoded]

theorem listAt_eq_ok_iff {entries : List (Bytes × Node)} : t.listAt loc = .ok entries ↔
    t.refusal? loc .read = none ∧ t.node? loc = some .directory ∧ t.entriesAt loc = entries := by
  unfold listAt
  cases t.node? loc with
  | none => simp
  | some node => cases node <;> cases t.refusal? loc .read <;> simp

theorem list_eq_ok_iff {entries : List (Bytes × Node)} : t.list p = .ok entries ↔
    ∃ loc, t.locate .follow p = .ok loc ∧ t.refusal? loc .read = none ∧
      t.node? loc = some .directory ∧ t.entriesAt loc = entries := by
  unfold list
  cases t.locate .follow p with
  | error cause => simp [Except.bind]
  | ok loc => simp [Except.bind, listAt_eq_ok_iff]

theorem isOk_list_iff : (t.list p).isOk = true ↔
    ∃ loc, t.locate .follow p = .ok loc ∧ t.node? loc = some .directory ∧
      t.refusal? loc .read = none := by
  constructor
  · intro opened
    cases listed : t.list p with
    | error cause => simp [listed, Except.isOk, Except.toBool] at opened
    | ok entries =>
      obtain ⟨loc, leads, allowed, directory, -⟩ := list_eq_ok_iff.1 listed
      exact ⟨loc, leads, directory, allowed⟩
  · rintro ⟨loc, leads, directory, allowed⟩
    rw [list_eq_ok_iff.2 ⟨loc, leads, allowed, directory, rfl⟩]
    rfl

theorem readText_eq_ok_iff {text : Text} : t.readText p = .ok text ↔
    ∃ loc, t.locate .follow p = .ok loc ∧ t.refusal? loc .read = none ∧
      ∃ bytes, t.node? loc = some (.file bytes) ∧ decode? bytes = some text := by
  unfold readText
  cases t.locate .follow p with
  | error cause => simp [Except.bind]
  | ok loc => simp [Except.bind, textAt_eq_ok_iff]

theorem node?_of_mem_entriesAt (wf : t.WellFormed) {e : Bytes × Node}
    (there : e ∈ t.entriesAt loc) :
    t.node? (loc ++ [e.1]) = some e.2 :=
  node?_of_mem_nodes wf.distinct (by simp) (mem_entriesAt.1 there)

/-! ## Names in directories -/

theorem trace_eq_of_endsIn (h : p.EndsIn n) :
    t.trace .follow p = if p.bytes.contains nul then .error .holdsNul
      else t.walk .follow maxLinks (t.startOf p) (Path.steps p.bytes) := by
  have spelled : p.bytes.isEmpty = false := by simpa using h.spelled
  have ends : ∀ n' ∈ (Path.segments p.bytes).getLast?, Path.isIdle n' = false := by
    intro n' last
    rw [h.last] at last
    exact Option.some.inj last ▸ h.visible
  have same := t.walk_filter maxLinks (t.startOf p) ends []
  rw [trace, spelled]
  simp only [Bool.false_eq_true, if_false]
  rw [← List.nil_append (Path.segments p.bytes), same]
  rfl

/-- What a path that leads somewhere is like, and where its steps alone lead. -/
theorem steps_of_trace (leads : t.trace .follow dir = .ok loc) :
    dir.bytes.contains nul = false ∧ dir.bytes ≠ [] ∧
      t.walk .follow maxLinks (t.startOf dir) (Path.steps dir.bytes) = .ok loc := by
  rw [trace] at leads
  split at leads
  · contradiction
  · split at leads
    · contradiction
    · rename_i noNul spelled
      exact ⟨by simpa using noNul, by simpa using spelled, walk_filter_of_ok leads⟩

/-- A path is free of the byte that stands in no path if its steps are. -/
theorem contains_nul_iff {u : Bytes} : u.contains nul = false ↔ ∀ s ∈ Path.steps u, nul ∉ s := by
  have inSteps := Path.exists_mem_steps (t := u) (c := nul) (by decide) (by decide)
  rw [List.contains_eq_mem, decide_eq_false_iff_not, ← inSteps]
  simp

/-- What looking for a name in a directory comes to, with so many links left. -/
def lookUp (t : FileTree) (left : Nat) (loc : Location) (n : Bytes) : Except AccessError Location :=
  if n.contains nul then .error .holdsNul else t.walk .follow left loc [n]

/-- A path whose last step comes behind those of a directory looks for it there, with the links that
are left. -/
theorem exists_lookUp (leads : t.trace .follow dir = .ok loc) :
    ∃ left, ∀ (x : Path) (m : Bytes), x.EndsIn m → x.isAbsolute = dir.isAbsolute →
      Path.steps x.bytes = Path.steps dir.bytes ++ [m] →
      t.trace .follow x = t.lookUp left loc m := by
  obtain ⟨noNul, -, walks⟩ := steps_of_trace leads
  obtain ⟨left, goes⟩ := walk_append_of_ok walks
  refine ⟨left, fun x m ends absolute steps => ?_⟩
  have start : t.startOf x = t.startOf dir := by rw [startOf, absolute, startOf]
  have inLast : x.bytes.contains nul = m.contains nul := by
    have only : x.bytes.contains nul = false ↔ m.contains nul = false := by
      rw [contains_nul_iff, steps, List.forall_mem_append]
      simpa using fun _ => contains_nul_iff.1 noNul
    exact Bool.eq_iff_iff.2 (by simpa only [Bool.not_eq_false] using not_congr only)
  rw [trace_eq_of_endsIn ends, inLast, start, steps, goes, lookUp]

/-- Names in a directory are looked for with the links that are left. -/
theorem exists_lookUp_join (leads : t.trace .follow dir = .ok loc) :
    ∃ left, ∀ name, isName name = true → t.trace .follow (dir.join name) =
      t.lookUp left loc name := by
  obtain ⟨left, looks⟩ := exists_lookUp leads
  have spelled := (steps_of_trace leads).2.1
  refine ⟨left, fun name named => ?_⟩
  have noSlash := Path.slash_not_mem_of_isName named
  have visible : Path.isIdle name = false := by simp_all [isName]
  exact looks _ _ (Path.endsIn_join spelled noSlash visible) (Path.isAbsolute_join spelled name)
    (Path.steps_join spelled noSlash visible)

theorem lookUp_of_isName (named : isName n = true) (left : Nat) :
    t.lookUp left loc n = t.walk .follow left loc [n] := by
  have noNul : n.contains nul = false := by simp_all [isName]
  rw [lookUp, noNul]
  rfl

/-- What is no link is found under its name, where names can be looked up. -/
theorem lookUp_plain {left : Nat} (here : t.Searchable loc) (named : isName n = true)
    (there : t.node? (loc ++ [n]) = some node) (plain : ∀ target, node ≠ .link target) :
    t.lookUp left loc n = .ok (loc ++ [n]) :=
  (lookUp_of_isName named left).trans (walk_last here named there plain)

/-- What is no link is found under its name, if it is found at all. -/
theorem eq_of_lookUp {left : Nat} (directory : t.node? loc = some .directory)
    (named : isName n = true) (there : t.node? (loc ++ [n]) = some node)
    (plain : ∀ target, node ≠ .link target) (found : t.lookUp left loc n = .ok place) :
    place = loc ++ [n] := by
  cases allowed : t.refusal? loc .search with
  | none =>
    rw [lookUp_plain ⟨directory, allowed⟩ named there plain] at found
    exact (Except.ok.inj found).symm
  | some wording =>
    rw [lookUp_of_isName named, walk_refused directory allowed (ne_nil_of_isName named)] at found
    contradiction

/-! ## Limits -/

/-- Whether a path is given up on: it is too long, it leads over too many links, or a directory on
the way refuses to look names up. -/
def GivesUp (t : FileTree) (p : Path) : Prop :=
  t.locate .follow p = .error .nameTooLong ∨ t.locate .follow p = .error .linkLoop ∨
    ∃ wording, t.locate .follow p = .error (.refused wording)

/-- A path that is not given up on is looked up however long it is. -/
theorem locate_cases (t : FileTree) (p : Path) :
    (t.GivesUp p ∧ (t.locate .follow p).toOption = none) ∨
      (¬ t.GivesUp p ∧ t.locate .follow p = t.trace .follow p ∧
        t.trace .follow p ≠ .error .linkLoop ∧
        ∀ wording, t.trace .follow p ≠ .error (.refused wording)) := by
  by_cases gives : t.GivesUp p
  · refine .inl ⟨gives, ?_⟩
    rcases gives with fails | fails | ⟨wording, fails⟩ <;> rw [fails] <;> rfl
  · have same : t.locate .follow p = t.trace .follow p := by
      by_contra other
      refine gives (.inl ?_)
      unfold locate at other ⊢
      split <;> simp_all
    exact .inr ⟨gives, same, fun loops => gives (.inr (.inl (same.trans loops))),
      fun wording refused => gives (.inr (.inr ⟨wording, same.trans refused⟩))⟩

theorem givesUp_of_refused {wording : String}
    (refused : t.trace .follow p = .error (.refused wording)) : t.GivesUp p := by
  rcases t.locate_cases p with ⟨gives, -⟩ | ⟨-, -, -, allowed⟩
  · exact gives
  · exact absurd refused (allowed wording)

/-- A path that leads somewhere does so without regard to its length. -/
theorem trace_of_locate {last : LastName} (leads : t.locate last p = .ok loc) :
    t.trace last p = .ok loc := by
  unfold locate at leads
  split at leads
  · contradiction
  · exact leads

/-- The path of a directory leads nowhere else. -/
theorem eq_of_locate_pathOf (wf : t.WellFormed) (directory : t.node? loc = some .directory)
    {last : LastName} (found : t.locate last (pathOf loc) = .ok place) : place = loc := by
  have found := trace_of_locate found
  rcases trace_pathOf wf directory last with ⟨wording, refused⟩ | leads
  · rw [refused] at found
    contradiction
  · exact Except.ok.inj (found.symm.trans leads)

/-- What is no link is found under its name behind the path of its directory, if it is found at
all. -/
theorem eq_of_locate_join (wf : t.WellFormed) (leads : t.locate .follow dir = .ok loc)
    (there : t.node? (loc ++ [n]) = some node) (plain : ∀ target, node ≠ .link target)
    (found : t.locate .follow (dir.join n) = .ok place) : place = loc ++ [n] := by
  have named : isName n = true := wf.isName_of_node? (by simp) there n (by simp)
  obtain ⟨left, looks⟩ := exists_lookUp_join (trace_of_locate leads)
  exact eq_of_lookUp (wf.node?_above (by simp) there) named there plain
    ((looks n named).symm.trans (trace_of_locate found))

/-- Two paths that come to the same, as long as neither leads over too many links, are found alike
if both are given up on or neither is. -/
theorem locate_agree_of_trace
    (same : t.trace .follow p ≠ .error .linkLoop → t.trace .follow q ≠ .error .linkLoop →
      t.trace .follow p = t.trace .follow q) (agree : t.GivesUp p ↔ t.GivesUp q) :
    (t.locate .follow p).toOption = (t.locate .follow q).toOption := by
  rcases t.locate_cases p with ⟨gives, none⟩ | ⟨keeps, found, enough, -⟩ <;>
    rcases t.locate_cases q with ⟨gives', none'⟩ | ⟨keeps', found', enough', -⟩
  · rw [none, none']
  · exact absurd (agree.1 gives) keeps'
  · exact absurd (agree.2 gives') keeps
  · rw [found, found', same enough enough']

/-- As far as they are not given up on, two paths that look for the same name in the same directory
lead to the same place or nowhere. -/
theorem locate_agree {left right : Nat} (leads : t.trace .follow p = t.lookUp left loc n)
    (leads' : t.trace .follow q = t.lookUp right loc n) (agree : t.GivesUp p ↔ t.GivesUp q) :
    (t.locate .follow p).toOption = (t.locate .follow q).toOption := by
  refine locate_agree_of_trace (fun enough enough' => ?_) agree
  rw [leads] at enough
  rw [leads'] at enough'
  rw [leads, leads']
  unfold lookUp at enough enough' ⊢
  split
  · rfl
  · rename_i noNul
    rw [if_neg noNul] at enough enough'
    exact walk_links_agree (iff_of_false enough enough')

/-- A path that leads somewhere is given up on only for its length. -/
theorem givesUp_iff_of_trace (found : t.trace .follow p = .ok loc) :
    t.GivesUp p ↔ ¬ p.bytes.length ≤ maxPathBytes := by
  have noNul := (steps_of_trace found).1
  rw [GivesUp, locate, noNul, found, Nat.not_le]
  by_cases long : maxPathBytes < p.bytes.length <;> simp [long]

/-- A path that leads somewhere is not too long. -/
theorem length_le_of_locate (leads : t.locate .follow p = .ok loc) :
    p.bytes.length ≤ maxPathBytes := by
  by_contra long
  have gives := (givesUp_iff_of_trace (trace_of_locate leads)).2 long
  rcases gives with fails | fails | ⟨wording, fails⟩ <;> simp [leads] at fails

theorem locate_of_short (found : t.trace .follow p = .ok loc)
    (short : p.bytes.length ≤ maxPathBytes) :
    t.locate .follow p = .ok loc := by
  rw [locate, if_neg fun long => Nat.not_lt.2 short long.1, found]

end FileTree

end CodeGauge
