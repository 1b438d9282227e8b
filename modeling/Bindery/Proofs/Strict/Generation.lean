import Bindery.Proofs.Strict.Collision
import Bindery.Proofs.Strict.Types
import Bindery.Proofs.Generation.Includes

/-!
A whole run step by step. The run comes to an end without a breakdown, and to the report of the
total generator: what it falls back on where a step could break down is never needed. The only ids
it looks up in the table of names are those of enabled types.
-/

set_option autoImplicit false

namespace Bindery

namespace Strict

def colons? : Text → Option Nat
  | [] => none
  | 58 :: 58 :: _ => some 0
  | _ :: t => (colons? t).map (· + 1)

def segmentsValid (ns : Text) (start : Nat) : Step Bool :=
  if _ : start ≤ ns.length then
    match colons? (ns.drop start) with
    | none => return Namespace.isSegment (ns.drop start)
    | some count =>
      if Namespace.isSegment ((ns.drop start).take count) then
        segmentsValid ns (start + count + 2)
      else return false
  else .error .outOfRange
termination_by ns.length + 1 - start

def optionProblem? (target : Target) (o : Options) : Step (Option Text) := do
  match target with
  | .c => return none
  | .cpp =>
    if o.hostNamespace.isEmpty then return some (Target.invalidNamespace o.hostNamespace)
    else if ← segmentsValid o.hostNamespace 0 then return none
    else return some (Target.invalidNamespace o.hostNamespace)

def problem? (o : Options) (target : Target) : Step (Option Text) := do
  if o.pointerWidth ≠ 32 ∧ o.pointerWidth ≠ 64 then
    return some ("pointer width must be 32 or 64, got " ++ decimalInt o.pointerWidth)
  else optionProblem? target o

theorem segments_eq (t : Text) :
    Namespace.segments t = match colons? t with
      | none => [t]
      | some count => t.take count :: Namespace.segments (t.drop (count + 2)) := by
  fun_induction colons? t with
  | case1 => rfl
  | case2 t => rfl
  | case3 c t hcolons ih =>
    rw [Namespace.segments, ih]
    · cases colons? t <;> simp
    · exact hcolons

theorem colons?_lt {t : Text} {count : Nat} (h : colons? t = some count) :
    count + 2 ≤ t.length := by
  fun_induction colons? t generalizing count with
  | case1 => cases h
  | case2 t =>
    cases h
    simp
  | case3 c t hcolons ih =>
    obtain ⟨n, hn, rfl⟩ := Option.map_eq_some_iff.mp h
    have hle := ih hn
    simp only [List.length_cons]
    omega

theorem segmentsValid_eq (ns : Text) {start : Nat} (hstart : start ≤ ns.length) :
    segmentsValid ns start =
      .ok ((Namespace.segments (ns.drop start)).all Namespace.isSegment) := by
  fun_induction segmentsValid ns start with
  | case1 start _ hnone => simp [segments_eq (ns.drop start), hnone]
  | case2 start _ count hcolons hvalid ih =>
    have hlt := colons?_lt hcolons
    rw [List.length_drop] at hlt
    rw [ih (by omega), segments_eq (ns.drop start), hcolons]
    simp [hvalid, Nat.add_assoc]
  | case3 start _ count hcolons hinvalid =>
    simp [segments_eq (ns.drop start), hcolons, hinvalid]
  | case4 start hlong => exact absurd hstart hlong

theorem problem?_eq (o : Options) (target : Target) :
    problem? o target = .ok (o.problem? target) := by
  have hoption : optionProblem? target o = .ok (target.optionProblem? o) := by
    unfold optionProblem? Target.optionProblem? Namespace.isValid
    cases target with
    | c => rfl
    | cpp =>
      rw [segmentsValid_eq _ (Nat.zero_le _), List.drop_zero]
      cases hns : o.hostNamespace with
      | nil => rfl
      | cons c ns =>
        simp only [List.isEmpty_cons, ok_bind, Bool.false_eq_true, if_false]
        split_ifs <;> rfl
  unfold problem? Options.problem?
  split_ifs
  · rfl
  · exact hoption

def putMember (v : Json) (key : Text) (value : Json) : Step Json :=
  match v.put? key value with
  | some v => .ok v
  | none => .error .wrongForm

def pushItem (v value : Json) : Step Json :=
  match v.push? value with
  | some v => .ok v
  | none => .error .wrongForm

def arrayOf (items : List Json) : Step Json := items.foldlM pushItem (.array [])

def stringsOf (ts : List Text) : Step Json := arrayOf (ts.map Json.string)

def objectOf (members : List (Text × Json)) : Step Json :=
  members.foldlM (fun v m => putMember v m.1 m.2) (.object [])

def paired (types : List TypeDef) (outcomes : List TypeOutcome) :
    Step (List (TypeDef × TypeOutcome)) :=
  (List.range types.length).mapM fun i => do
    let t ← item types i
    let o ← item outcomes i
    return (t, o)

def unitEntry (t : TypeDef) (u : GeneratedUnit) : Step Json := do
  let files ← stringsOf (u.artifacts.map Artifact.path)
  let symbols ← stringsOf u.symbols
  objectOf
    [("id", Manifest.integer t.id), ("type", .string t.name), ("kind", .string t.kind.name),
      ("files", files), ("symbols", symbols)]

def unitEntries (types : List TypeDef) (outcomes : List TypeOutcome) : Step (List Json) := do
  let pairs ← paired types outcomes
  let entries ← pairs.mapM fun (t, o) =>
    match o.generated with
    | some u => do
      let entry ← unitEntry t u
      return some entry
    | none => return none
  return entries.filterMap id

def manifest (r : Registry) (target : Target) (o : Options) (types : List TypeDef)
    (outcomes : List TypeOutcome) : Step Artifact := do
  let features ← stringsOf (Sorted.ofList Text.before o.features)
  let runtime ← stringsOf (target.runtime.map Artifact.path)
  let entries ← unitEntries types outcomes
  let units ← arrayOf entries
  let shared : List (Text × Json) :=
    [("generator", .string "weld"), ("version", .string version),
      ("backend", .string target.name), ("library", .string r.library),
      ("pointer_width", Manifest.integer o.pointerWidth), ("features", features),
      ("runtime", runtime), ("units", units)]
  let json ← objectOf (shared ++ Manifest.namespaceEntry target o.hostNamespace)
  return ⟨Manifest.file, json.pretty 2, 0⟩

theorem arrayOf_eq (items : List Json) : arrayOf items = .ok (.array items) := by
  have hfold : ∀ start : List Json,
      items.foldlM pushItem (.array start) = .ok (.array (start ++ items)) := by
    induction items with
    | nil => simp
    | cons v items ih =>
      intro start
      rw [List.foldlM_cons]
      exact (ih (start ++ [v])).trans (by simp)
  exact hfold []

theorem stringsOf_eq (ts : List Text) : stringsOf ts = .ok (Manifest.strings ts) := arrayOf_eq _

theorem objectOf_eq (members : List (Text × Json)) :
    objectOf members = .ok (.ofMembers members) := by
  have hfold : ∀ start : List (Text × Json),
      members.foldlM (fun v m => putMember v m.1 m.2) (.object start) =
        .ok (.object (members.foldl (fun obj m => Sorted.put Text.before m.1 m.2 obj) start)) := by
    induction members with
    | nil => exact fun _ => rfl
    | cons m members ih => exact fun start => ih _
  exact hfold []

section
variable {types : List TypeDef} {outcomes : List TypeOutcome}
  (htypes : outcomes.map TypeOutcome.type = types)
include htypes

theorem paired_eq : paired types outcomes = .ok (outcomes.map fun o => (o.type, o)) := by
  subst htypes
  rw [paired, List.length_map]
  refine mapM_range_eq_ok fun i hi => ?_
  rw [item_of_lt hi, item_of_lt (by simpa using hi), List.getElem_map]
  rfl

theorem unitEntries_eq : unitEntries types outcomes = .ok (Manifest.unitEntries outcomes) := by
  have hentry : ∀ o ∈ outcomes, (match o.generated with
      | some u => do
        let entry ← unitEntry o.type u
        return some entry
      | none => return none : Step (Option Json)) =
        .ok (o.generated.map (Manifest.unitEntry o.type)) := by
    intro o _
    cases o.generated with
    | none => rfl
    | some u =>
      simp only [unitEntry, stringsOf_eq, objectOf_eq, ok_bind]
      rfl
  rw [unitEntries, paired_eq htypes, ok_bind, List.mapM_map, Function.comp_def,
    mapM_eq_ok hentry, ok_bind, List.filterMap_map]
  rfl

theorem manifest_eq (r : Registry) (target : Target) (o : Options) :
    manifest r target o types outcomes = .ok (Manifest.artifact r target o outcomes) := by
  simp only [manifest, unitEntries_eq htypes, stringsOf_eq, arrayOf_eq, objectOf_eq, ok_bind]
  rfl

end

def assembleReport (r : Registry) (target : Target) (o : Options) (selection : Selection)
    (types : List TypeDef) (outcomes : List TypeOutcome) : Step Report := do
  let pairs ← paired types outcomes
  let manifest ← if o.manifest then do
      let manifest ← manifest r target o types outcomes
      pure [manifest]
    else pure []
  return {
    artifacts :=
      sortArtifacts (artifactsOf (pairs.map Prod.snd) ++ manifest ++ target.runtime)
    units := pairs.filterMap fun (t, o) => o.generated.map fun u => ⟨t.id, t.name, u.symbols⟩
    omissions := selection.omissions ++ pairs.flatMap fun (_, o) => o.omissions
    errors := selection.errors ++ pairs.flatMap fun (_, o) => o.errors }

def processAll (look : Lookup) (c : Context) (types : List TypeDef) : Step (List TypeOutcome) :=
  (List.range types.length).mapM fun i => do
    let t ← item types i
    processType look c t

/-- A run in which `look` answers for the table of names. -/
def generateWith (look : Lookup) (r : Registry) (target : Target) (o : Options) : Step Report := do
  match ← problem? o target with
  | some message => return .failed message
  | none =>
    let selection := (runAvailability target o).select r
    let types := enabledTypes r selection.enabled
    let outcomes ← processAll look (contextOf r target o selection.enabled) types
    let settled ← resolveCollisions types outcomes
    assembleReport r target o selection types settled

def runTable (r : Registry) (target : Target) (o : Options) : NameTable :=
  nameTable target (enabledTypes r ((runAvailability target o).select r).enabled)

/-- A run that breaks down wherever the total generator falls back on a default. -/
def generate (r : Registry) (target : Target) (o : Options) : Step Report :=
  generateWith (entryOf (runTable r target o)) r target o

theorem assembleReport_eq {types : List TypeDef} {outcomes : List TypeOutcome}
    (htypes : outcomes.map TypeOutcome.type = types) (r : Registry) (target : Target)
    (o : Options) (selection : Selection) :
    assembleReport r target o selection types outcomes =
      .ok (Bindery.assembleReport r target o selection outcomes) := by
  have houtcomes : (outcomes.map fun o => (o.type, o)).map Prod.snd = outcomes := by
    rw [List.map_map]
    exact List.map_id _
  rw [assembleReport, paired_eq htypes, manifest_eq htypes, Bindery.assembleReport]
  simp only [ok_bind, houtcomes, List.filterMap_map, List.flatMap_map]
  cases o.manifest <;> rfl

section
variable {r : Registry} {target : Target} {o : Options}

theorem serves_of_runTypes (hr : r.WellFormed) {look : Lookup}
    (h : ∀ t ∈ runTypes r target o, look t.id = entryOf (runTable r target o) t.id) :
    look.Serves (runContext r target o).names (runContext r target o).mapper.Knows := by
  refine @Lookup.serves_of_entries look (runTable r target o) _ fun id hid => ?_
  obtain ⟨t, ht, rfl⟩ := (knows_iff hr).mp hid
  obtain ⟨s, hfind, henabled⟩ := hid
  have hentry : (runTable r target o).find? t.id = some (nameEntry target s) :=
    find?_nameTable_of_enabled hr hfind henabled
  exact ⟨nameEntry target s, by rw [h t ht, entryOf, hentry], hentry⟩

theorem knownWidth_of_problem? (h : o.problem? target = none) :
    (runContext r target o).mapper.KnownWidth := by
  unfold Options.problem? at h
  split_ifs at h with hwidth
  show o.pointerWidth = 32 ∨ o.pointerWidth = 64
  tauto

theorem map_type_resolveCollisions (outcomes : List TypeOutcome) :
    (Bindery.resolveCollisions outcomes).map TypeOutcome.type =
      outcomes.map TypeOutcome.type := by
  rw [Bindery.resolveCollisions, List.map_map]
  refine List.map_congr_left fun o _ => ?_
  rw [Function.comp_apply, withdrawClashing]
  split <;> rfl

theorem outcomes_types (c : Context) (types : List TypeDef) :
    (types.map (Bindery.processType c)).map TypeOutcome.type = types := by
  rw [List.map_map]
  exact (List.map_congr_left fun t _ => processType_type c t).trans (List.map_id _)

theorem processAll_eq {look : Lookup} {c : Context} (hwidth : c.mapper.KnownWidth)
    (hlook : look.Serves c.names c.mapper.Knows) {types : List TypeDef}
    (htypes : ∀ t ∈ types, c.mapper.Knows t.id) :
    processAll look c types = .ok (types.map (Bindery.processType c)) := by
  refine mapM_range_eq_ok fun i hi => ?_
  rw [item_of_lt hi, ok_bind]
  exact processType_eq hwidth _ hlook (htypes _ (List.getElem_mem hi))

/-- A run comes to the report of the total generator, whatever is said about ids that are not those
of enabled types. -/
theorem generateWith_eq (hr : r.WellFormed) {look : Lookup}
    (h : ∀ t ∈ runTypes r target o, look t.id = entryOf (runTable r target o) t.id) :
    generateWith look r target o = .ok (Bindery.generate r target o) := by
  rw [generateWith, problem?_eq, ok_bind, Bindery.generate]
  cases ho : o.problem? target with
  | some message => rfl
  | none =>
    have hknows : ∀ t ∈ enabledTypes r ((runAvailability target o).select r).enabled,
        (runContext r target o).mapper.Knows t.id := by
      rw [enabledTypes_select hr]
      exact fun t ht => (knows_iff hr).mpr ⟨t, ht, rfl⟩
    have hids : (enabledTypes r ((runAvailability target o).select r).enabled).Pairwise
        fun a b => a.id < b.id := hr.ids_increase.filter _
    have hprocessed := processAll_eq (knownWidth_of_problem? ho) (serves_of_runTypes hr h) hknows
    have houtcomes := outcomes_types (runContext r target o)
      (enabledTypes r ((runAvailability target o).select r).enabled)
    have hresolved := resolveCollisions_eq hids houtcomes
    have hassembled := assembleReport_eq ((map_type_resolveCollisions _).trans houtcomes) r target o
      ((runAvailability target o).select r)
    simp only [runContext] at hprocessed hresolved hassembled
    simp only [hprocessed, hresolved, hassembled, ok_bind]
    rfl

end

end Strict

/-- Every run over a built registry, for either target and with any options, comes to a report: the
strict run, which a division by zero, an unknown id, a value of another form, a value that is not
there or a place out of range would stop, is not stopped, and its report is that of the generator.
What is said about ids other than those of enabled types makes no difference to it, a breakdown
included, so only enabled types are looked up; and a plan mentions no others. -/
theorem generate_completes {library : Text} {types : List TypeDef} {r : Registry}
    (hr : Registry.build library types = .ok r) (target : Target) (o : Options) :
    Strict.generate r target o = .ok (generate r target o) ∧
    (∀ look : Strict.Lookup,
      (∀ t ∈ runTypes r target o, look t.id = Strict.entryOf (Strict.runTable r target o) t.id) →
      Strict.generateWith look r target o = .ok (generate r target o)) ∧
    ∀ t ∈ runTypes r target o,
      (runPlan r target o t).RefersWithin fun id => ∃ s ∈ runTypes r target o, s.id = id := by
  have hwell := Registry.build_wellFormed hr
  refine ⟨Strict.generateWith_eq hwell fun _ _ => rfl,
    fun look hlook => Strict.generateWith_eq hwell hlook, fun t ht => ?_⟩
  have hknows : (runContext r target o).mapper.Knows =
      fun id => ∃ s ∈ runTypes r target o, s.id = id :=
    funext fun _ => propext (knows_iff hwell)
  exact hknows ▸ runPlan_knows hwell ht

namespace Station

def probe : TypeDef :=
  ⟨1, "Probe", [], [], .object
    [⟨"take", [], [], .byValue, [⟨"mode", .enumeration 3⟩],
        .fallible (.object 1 .owned false) (.enumeration 3)⟩,
      ⟨"log", [], [], .shared,
        [⟨"at", .record 2 true⟩, ⟨"label", .nullable (.slice .utf8 false)⟩,
          ⟨"peer", .nullable (.object 1 .borrowed false)⟩, ⟨"last", .nullable (.record 2 false)⟩],
        .fallible .writeable .unit⟩]⟩

def spot : TypeDef :=
  ⟨2, "Spot", [], [], .record
    [⟨"x", [], .primitive .f64⟩, ⟨"mode", [], .nullable (.enumeration 3)⟩]
    [⟨"next", [], [], .byValue, [], .nullable (.record 2 false)⟩]⟩

def mode : TypeDef := ⟨3, "Mode", [], [], .enumeration [⟨"On", [], 1⟩, ⟨"Off", [], 0⟩]⟩

def lost : TypeDef := ⟨4, "Lost", [], [⟨"*", [], false⟩], .record [] []⟩

def registry : Registry := ⟨"station", [probe, spot, mode, lost]⟩

def options : Options := ⟨[], 64, "weld", 1, true⟩

theorem build_registry :
    Registry.build "station" [probe, spot, mode, lost] = .ok registry :=
  Registry.build_of_increasing _ (by decide) (by decide)

end Station

theorem generate_completes_station :
    (generate Station.registry .cpp Station.options).success = true ∧
    Strict.generate Station.registry .cpp Station.options =
      .ok (generate Station.registry .cpp Station.options) ∧
    Strict.generateWith
        (fun id => if id = 4 then .error (.unknownId 4)
          else Strict.entryOf (Strict.runTable Station.registry .cpp Station.options) id)
        Station.registry .cpp Station.options =
      .ok (generate Station.registry .cpp Station.options) := by
  obtain ⟨hrun, hlook, -⟩ := generate_completes Station.build_registry .cpp Station.options
  refine ⟨by decide +kernel, hrun, hlook _ fun t ht => if_neg ?_⟩
  have hids : ∀ t ∈ runTypes Station.registry .cpp Station.options, t.id ≠ 4 := by decide
  exact hids t ht

end Bindery
