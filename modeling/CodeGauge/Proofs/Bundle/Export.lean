import Mathlib.Data.List.Nodup
import CodeGauge.Bundle.Report
import CodeGauge.Proofs.Json.RoundTrip
import CodeGauge.Proofs.Snapshot
import CodeGauge.Proofs.Text.Utf8
import CodeGauge.Proofs.Time.Reader

/-!
# Exported bundles read back

The JSON text of a bundle is read as that bundle, and the text of a snapshot as an object with one
field for each path, which holds the bundle of the path (`export_reads_back`), if the paths are
texts: what is shown of other paths may be the same. A bundle that was read from JSON keeps its
counts in range and its moment valid (`Sound`); that its ratios are read back from their decimal
form and that its moment is in the years 0 to 9999 is asked of it (`Legible`).
-/

namespace CodeGauge

variable {j : Json} {b : Bundle}

namespace Json

/-- Where no name stands twice, a field is found by its name. -/
theorem field?_of_mem {fields : List (String × Json)} {e : String × Json}
    (names : (fields.map (·.1)).Nodup) (there : e ∈ fields) :
    (obj fields).field? e.1 = some e.2 := by
  cases found : fields.reverse.find? (·.1 = e.1) with
  | none =>
    rw [List.find?_eq_none] at found
    simpa using found e (List.mem_reverse.2 there)
  | some f =>
    have same : f.1 = e.1 := by simpa using List.find?_some found
    have here : f ∈ fields := List.mem_reverse.1 (List.mem_of_find?_eq_some found)
    obtain rfl := List.inj_on_of_nodup_map names here there same
    simp [field?, found]

end Json

namespace Reading

variable {α : Type} {number? : Json → Option α} {number : α → Json} {r : Reading α}

/-- A reading is read back, if its number is and no object is a number. -/
theorem ofJson?_toJson (back : ∀ x, r.value? = some x → number? (number x) = some x)
    (objects : ∀ fields, number? (.obj fields) = none) :
    ofJson? number? (r.toJson number) = some r := by
  cases r with
  | value x => simp [toJson, ofJson?, back x rfl]
  | unavailable reason => simp [toJson, ofJson?, objects, Json.field?, Json.str?]

theorem number?_of_ofJson? {x : α} (read : ofJson? number? j = some r) (value : r.value? = some x) :
    number? j = some x := by
  unfold ofJson? at read
  split at read
  · rename_i y number
    obtain rfl := Option.some.inj read
    rwa [← value]
  · split at read
    · obtain ⟨reason, -, rfl⟩ := Option.map_eq_some_iff.1 read
      cases value
    · obtain rfl := Option.some.inj read
      cases value
    · cases read

theorem readable_toJson {depth : Nat}
    (numbers : ∀ x, r.value? = some x → Json.Readable (depth + 1) (number x)) :
    Json.Readable (depth + 1) (r.toJson number) := by
  cases r with
  | value x => exact numbers x rfl
  | unavailable reason => exact .obj (by simpa [toJson] using .str reason)

end Reading

namespace Bundle

/-- The readings that count something. -/
def counts (b : Bundle) : List (Reading Nat) :=
  [b.afferentCoupling, b.cognitiveComplexity, b.cyclomaticComplexity, b.efferentCoupling,
    b.lcom, b.wmc]

/-- The readings that are ratios. -/
def ratios (b : Bundle) : List (Reading Float) := [b.instability, b.tcc]

/-- Counts in range and a valid moment, as every bundle has that was read from JSON. -/
structure Sound (b : Bundle) : Prop where
  counts : ∀ r ∈ b.counts, ∀ n, r.value? = some n → n ≤ maxCount
  moment : b.timestamp.isValid = true
  fraction : b.timestamp.nanos < 1000000000

/-- Ratios that are read back from their decimal form, so that they are finite, and a moment in the
years with four digits. -/
structure Legible (b : Bundle) : Prop where
  ratios : ∀ r ∈ b.ratios, ∀ x, r.value? = some x → Json.ReadsBack x
  least : 0 ≤ b.timestamp.year
  most : b.timestamp.year ≤ 9999

theorem le_of_count? {n : Nat} (read : count? j = some n) : n ≤ maxCount := by
  simpa using (Option.filter_eq_some_iff.1 read).2

theorem sound_of_ofJson? (read : ofJson? j = some b) : b.Sound := by
  simp only [ofJson?, Option.bind_eq_bind, Option.bind_eq_some_iff, Option.pure_def,
    Option.some.injEq] at read
  obtain ⟨ca, ⟨_, _, readCa⟩, cognitive, ⟨_, _, readCognitive⟩, cyclomatic, ⟨_, _, readCyclomatic⟩,
    ce, ⟨_, _, readCe⟩, _, _, lcom, ⟨_, _, readLcom⟩, _, _, wmc, ⟨_, _, readWmc⟩, stamp,
    _, timestamp, parsed, rfl⟩ := read
  have inRange : ∀ {j : Json} {r : Reading Nat}, Reading.ofJson? count? j = some r →
      ∀ n, r.value? = some n → n ≤ maxCount :=
    fun read n value => le_of_count? (Reading.number?_of_ofJson? read value)
  obtain ⟨moment, fraction⟩ := Instant.bounds_of_parse? parsed
  refine ⟨?_, moment, fraction⟩
  simp only [counts, List.forall_mem_cons]
  exact ⟨inRange readCa, inRange readCognitive, inRange readCyclomatic, inRange readCe,
    inRange readLcom, inRange readWmc, by simp⟩

theorem count?_countJson {n : Nat} (small : n ≤ maxCount) : count? (countJson n) = some n := by
  simp [count?, countJson, Json.nat?, small]

theorem readable_fields (sound : b.Sound) (legible : b.Legible) {depth : Nat} :
    ∀ e ∈ b.fields, Json.Readable (depth + 1) e.2 := by
  have count : ∀ r ∈ b.counts, Json.Readable (depth + 1) (r.toJson countJson) := by
    intro r there
    refine Reading.readable_toJson fun n value => .int ?_
    have small := sound.counts r there n value
    exact Json.fitsWhole_of_lt (Nat.lt_of_le_of_lt small (by decide))
  have ratio : ∀ r ∈ b.ratios, Json.Readable (depth + 1) (r.toJson .float) :=
    fun r there => Reading.readable_toJson fun x value => .float (legible.ratios r there x value)
  simp only [counts, ratios, List.forall_mem_cons] at count ratio
  obtain ⟨c₁, c₂, c₃, c₄, c₅, c₆, -⟩ := count
  obtain ⟨q₁, q₂, -⟩ := ratio
  simp only [fields, readingFields, List.cons_append, List.nil_append, List.forall_mem_cons]
  exact ⟨c₁, c₂, c₃, c₄, q₁, c₅, q₂, c₆, .str _, by simp⟩

/-- A bundle is read from every object that has its fields. -/
theorem ofJson?_obj (sound : b.Sound) (legible : b.Legible) {fields : List (String × Json)}
    (names : (fields.map (·.1)).Nodup) (all : ∀ e ∈ b.fields, e ∈ fields) :
    ofJson? (.obj fields) = some b := by
  have field : ∀ e ∈ b.fields, fieldOf? (.obj fields) e.1 = some e.2 :=
    fun e there => Json.field?_of_mem names (all e there)
  have count : ∀ r ∈ b.counts, Reading.ofJson? count? (r.toJson countJson) = some r :=
    fun r there => Reading.ofJson?_toJson
      (fun n value => count?_countJson (sound.counts r there n value)) fun _ => rfl
  have ratio : ∀ r : Reading Float, Reading.ofJson? Json.number? (r.toJson .float) = some r :=
    fun r => Reading.ofJson?_toJson (fun _ _ => rfl) fun _ => rfl
  have stamp := Instant.parse?_text sound.moment legible.least legible.most sound.fraction
  simp only [Bundle.fields, readingFields, List.cons_append, List.nil_append,
    List.forall_mem_cons] at field
  simp only [counts, List.forall_mem_cons] at count
  obtain ⟨f₁, f₂, f₃, f₄, f₅, f₆, f₇, f₈, f₉, -⟩ := field
  obtain ⟨c₁, c₂, c₃, c₄, c₅, c₆, -⟩ := count
  simp only [ofJson?, f₁, f₂, f₃, f₄, f₅, f₆, f₇, f₈, f₉, Option.bind_some, Option.bind_eq_bind,
    c₁, c₂, c₃, c₄, c₅, c₆, ratio, Json.str?, String.toList_ofList, stamp]
  rfl

theorem names_nodup (b : Bundle) (path : Json) :
    ((("path", path) :: b.fields).map (·.1)).Nodup := by
  simp [fields, readingFields]

/-- The text of a bundle is that of an object with the path as its first field. -/
theorem parse?_jsonText (sound : b.Sound) (legible : b.Legible) (path : Path) :
    Json.parse? (b.jsonText path) =
      some (.obj (("path", .str (String.ofList path.display)) :: b.fields)) := by
  refine Json.parse?_pretty (.obj ?_ : Json.Readable (126 + 1) _)
  rw [List.forall_mem_cons]
  exact ⟨.str _, readable_fields sound legible⟩

end Bundle

namespace Snapshot

theorem shown_concat (s : Snapshot) (e : Path × Bundle) :
    shown (s ++ [e]) = (shown s).filter (·.1 ≠ e.1.display) ++ [(e.1.display, e.2)] :=
  List.foldl_concat ..

/-- Whatever is shown, it is shown once. -/
theorem shown_nodup (s : Snapshot) : (s.shown.map (·.1)).Nodup := by
  induction s using List.reverseRecOn with
  | nil => exact List.nodup_nil
  | append_singleton s e ih =>
    rw [shown_concat, List.map_append, List.nodup_append']
    refine ⟨ih.sublist (List.filter_sublist.map _), List.nodup_singleton _,
      fun name there last => ?_⟩
    obtain ⟨f, kept, rfl⟩ := List.mem_map.1 there
    have other := (List.mem_filter.1 kept).2
    simp_all

/-- What is shown is the bundle of a path that is shown so. -/
theorem exists_of_mem_shown {s : Snapshot} {named : Text × Bundle} (there : named ∈ s.shown) :
    ∃ e ∈ s, named = (e.1.display, e.2) := by
  induction s using List.reverseRecOn with
  | nil => contradiction
  | append_singleton s e ih =>
    rw [shown_concat] at there
    rcases List.mem_append.1 there with kept | last
    · obtain ⟨f, listed, same⟩ := ih (List.mem_filter.1 kept).1
      exact ⟨f, List.mem_append_left _ listed, same⟩
    · exact ⟨e, by simp, List.mem_singleton.1 last⟩

/-- Every path is shown. -/
theorem display_mem_shown {s : Snapshot} {e : Path × Bundle} (there : e ∈ s) :
    e.1.display ∈ s.shown.map (·.1) := by
  induction s using List.reverseRecOn with
  | nil => contradiction
  | append_singleton s last ih =>
    rw [shown_concat, List.map_append, List.mem_append]
    by_cases alike : e.1.display = last.1.display
    · exact .inr (by simp [alike])
    · rcases List.mem_append.1 there with listed | same
      · obtain ⟨f, shown, name⟩ := List.mem_map.1 (ih listed)
        exact .inl (List.mem_map.2 ⟨f, List.mem_filter.2 ⟨shown, by simpa [name] using alike⟩,
          name⟩)
      · exact absurd (by rw [List.mem_singleton.1 same]) alike

/-- Paths that are shown differently are all there. -/
theorem shown_eq {s : Snapshot} (apart : (s.map (·.1.display)).Nodup) :
    s.shown = s.map fun e => (e.1.display, e.2) := by
  induction s using List.reverseRecOn with
  | nil => rfl
  | append_singleton s e ih =>
    rw [List.map_append, List.nodup_append'] at apart
    obtain ⟨front, -, other⟩ := apart
    have kept : (s.map fun f => (f.1.display, f.2)).filter (·.1 ≠ e.1.display) =
        s.map fun f => (f.1.display, f.2) := by
      refine List.filter_eq_self.2 fun f there => ?_
      obtain ⟨g, listed, rfl⟩ := List.mem_map.1 there
      have := other (List.mem_map_of_mem listed)
      simpa using this
    rw [shown_concat, ih front, kept, List.map_append]
    rfl

/-- The fields of a snapshot in the order of the text. -/
def jsonFields (s : Snapshot) : List (String × Json) :=
  (s.shown.mergeSort fun a b => Text.le a.1 b.1).map fun e => (String.ofList e.1, e.2.toJson)

theorem jsonFields_perm {s : Snapshot} (apart : (s.map (·.1.display)).Nodup) :
    (s.jsonFields).Perm (s.map fun e => (String.ofList e.1.display, e.2.toJson)) := by
  have sorted : s.jsonFields.Perm (s.shown.map fun e => (String.ofList e.1, e.2.toJson)) :=
    (List.mergeSort_perm s.shown _).map _
  rw [shown_eq apart, List.map_map] at sorted
  exact sorted

theorem mem_jsonFields {s : Snapshot} (apart : (s.map (·.1.display)).Nodup)
    {field : String × Json} :
    field ∈ s.jsonFields ↔ ∃ e ∈ s, (String.ofList e.1.display, e.2.toJson) = field := by
  rw [(jsonFields_perm apart).mem_iff, List.mem_map]

theorem parse?_jsonText {s : Snapshot} (apart : (s.map (·.1.display)).Nodup)
    (sound : ∀ e ∈ s, e.2.Sound) (legible : ∀ e ∈ s, e.2.Legible) :
    Json.parse? s.jsonText = some (.obj s.jsonFields) := by
  refine Json.parse?_pretty (.obj ?_ : Json.Readable (126 + 1) (.obj s.jsonFields))
  intro field listed
  obtain ⟨e, there, rfl⟩ := (mem_jsonFields apart).1 listed
  exact .obj (Bundle.readable_fields (sound e there) (legible e there))

theorem names_perm {s : Snapshot} (apart : (s.map (·.1.display)).Nodup) :
    (s.jsonFields.map (·.1)).Perm ((s.map (·.1.display)).map String.ofList) := by
  simpa [Function.comp_def] using (jsonFields_perm apart).map (·.1)

/-- The bundles of files whose paths are texts. -/
def ofTexts (s : List (Text × Bundle)) : Snapshot := s.map fun e => (.ofText e.1, e.2)

theorem display_ofText (t : Text) : (Path.ofText t).display = t := Bytes.shown_utf8 t

theorem map_display_ofTexts (s : List (Text × Bundle)) :
    (ofTexts s).map (·.1.display) = s.map (·.1) := by
  simp [ofTexts, Function.comp_def, display_ofText]

/-- Different paths that are texts are shown differently. -/
theorem shown_apart {s : List (Text × Bundle)}
    (apart : s.Pairwise fun e f => (Path.ofText e.1).same (.ofText f.1) = false) :
    ((ofTexts s).map (·.1.display)).Nodup := by
  rw [map_display_ofTexts]
  refine List.pairwise_map.2 (apart.imp fun {e f} other same => ?_)
  simp [same] at other

end Snapshot

/-- A bundle that was read from JSON is read from its own JSON text again, next to the path that the
text is about. The text of a snapshot is read as an object with the paths as its names, each once,
and a bundle is read from the field with the name of its path. -/
theorem export_reads_back :
    (∀ (name : Text) (b : Bundle) (j : Json), Bundle.ofJson? j = some b → b.Legible →
      ∃ exported, Json.parse? (b.jsonText (.ofText name)) = some exported ∧
        Bundle.ofJson? exported = some b ∧
        (exported.field? "path").bind Json.str? = some (String.ofList name)) ∧
    ∀ s : List (Text × Bundle),
      (s.Pairwise fun e f => (Path.ofText e.1).same (.ofText f.1) = false) → (∀ e ∈ s, e.2.Sound) →
      (∀ e ∈ s, e.2.Legible) →
      ∃ fields, Json.parse? (Snapshot.ofTexts s).jsonText = some (.obj fields) ∧
        (fields.map (·.1)).Nodup ∧ (fields.map (·.1)).Perm (s.map fun e => String.ofList e.1) ∧
        ∀ e ∈ s, ((Json.obj fields).field? (String.ofList e.1)).bind Bundle.ofJson? = some e.2 := by
  refine ⟨fun name b j read legible => ?_, fun s apart sound legible => ?_⟩
  · have sound := Bundle.sound_of_ofJson? read
    have parsed := Bundle.parse?_jsonText sound legible (.ofText name)
    rw [Snapshot.display_ofText] at parsed
    have names := b.names_nodup (.str (String.ofList name))
    refine ⟨_, parsed, ?_, ?_⟩
    · exact Bundle.ofJson?_obj sound legible names fun e there => List.mem_cons_of_mem _ there
    · rw [Json.field?_of_mem names (List.mem_cons_self ..)]
      rfl
  · have shown := Snapshot.shown_apart apart
    have each : ∀ e ∈ Snapshot.ofTexts s, e.2.Sound ∧ e.2.Legible := by
      intro e there
      obtain ⟨f, listed, rfl⟩ := List.mem_map.1 there
      exact ⟨sound f listed, legible f listed⟩
    have listed :
        ((Snapshot.ofTexts s).jsonFields.map (·.1)).Perm (s.map fun e => String.ofList e.1) := by
      have all := Snapshot.names_perm shown
      rwa [Snapshot.map_display_ofTexts, List.map_map] at all
    have names : ((Snapshot.ofTexts s).jsonFields.map (·.1)).Nodup :=
      (Snapshot.names_perm shown).nodup_iff.2 (shown.map fun _ _ => String.ofList_injective)
    refine ⟨_, Snapshot.parse?_jsonText shown (fun e there => (each e there).1)
      (fun e there => (each e there).2), names, listed, fun e there => ?_⟩
    have field : (String.ofList e.1, e.2.toJson) ∈ (Snapshot.ofTexts s).jsonFields := by
      refine (Snapshot.mem_jsonFields shown).2 ⟨_, List.mem_map_of_mem there, ?_⟩
      rw [Snapshot.display_ofText]
    have found := Json.field?_of_mem names field
    have own : (e.2.fields.map (·.1)).Nodup := (List.nodup_cons.1 (e.2.names_nodup .null)).2
    rw [found, Option.bind_some]
    exact Bundle.ofJson?_obj (sound e there) (legible e there) own fun _ here => here

/-- Taken in a leap second, with a reason that has to be escaped. -/
def leapBundle : Bundle :=
  { afferentCoupling := .value 1
    cognitiveComplexity := .value 0
    cyclomaticComplexity := .value 4294967295
    efferentCoupling := .value 1
    instability := .value 0.5
    lcom := .unavailable "no \"class\"\n"
    tcc := .unavailable ""
    wmc := .value 7
    timestamp := ⟨2016, 12, 31, 23, 59, 60, 500000000⟩ }

theorem legible_leapBundle : leapBundle.Legible where
  ratios := by
    have half : Json.ReadsBack 0.5 := rfl
    simpa [Bundle.ratios, leapBundle, Reading.value?] using half
  least := by decide
  most := by decide

theorem leap_second_reads_back :
    (∃ exported, Json.parse? (leapBundle.jsonText (.ofText ['é', '"', '\n'])) = some exported ∧
      Bundle.ofJson? exported = some leapBundle ∧
      (exported.field? "path").bind Json.str? = some (String.ofList ['é', '"', '\n'])) ∧
    ∃ fields,
      Json.parse? (Snapshot.ofTexts [(['b'], leapBundle), (['ä'], leapBundle)]).jsonText =
        some (.obj fields) ∧
      (fields.map (·.1)).Nodup ∧
      (fields.map (·.1)).Perm [String.ofList ['b'], String.ofList ['ä']] ∧
      ((Json.obj fields).field? (String.ofList ['ä'])).bind Bundle.ofJson? = some leapBundle := by
  have read : Bundle.ofJson? (.arr [.int 1, .int 0, .int 4294967295, .int 1, .float 0.5,
      .arr [.str "no \"class\"\n"], .obj [("unavailable", .str "")], .int 7,
      .str "2017-01-01T00:59:60.5+01:00"]) = some leapBundle := rfl
  have sound := Bundle.sound_of_ofJson? read
  refine ⟨export_reads_back.1 _ _ _ read legible_leapBundle, ?_⟩
  obtain ⟨fields, parsed, names, listed, each⟩ := export_reads_back.2
    [(['b'], leapBundle), (['ä'], leapBundle)] (List.pairwise_pair.2 (by decide)) (by simp [sound])
    (by simp [legible_leapBundle])
  exact ⟨fields, parsed, names, listed, each (['ä'], leapBundle) (by simp)⟩

end CodeGauge
