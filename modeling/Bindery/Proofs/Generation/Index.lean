import Bindery.Proofs.Generation.Artifacts
import Bindery.Proofs.Header.Inclusion

/-!
The index of a run against its report. The two are put together from the same outcomes, each in a
way of its own. Read back from its text, the index lists the units of the report in order, each with
the files that belong to it, and besides them the files of the runtime.
-/

set_option autoImplicit false

namespace Bindery

namespace Manifest

/-- What an index says about a unit of a report. -/
structure Lists (r : Registry) (report : Report) (u : UnitSymbols) (entry : Json) : Prop where
  id : ∃ i : Int64, entry.get? "id" = some (.number (.int i)) ∧ i.toInt = u.id
  type : entry.get? "type" = some (.string u.typeName)
  kind : ∃ t, r.find? u.id = some t ∧ entry.get? "kind" = some (.string t.kind.name)
  symbols : entry.get? "symbols" = some (strings u.symbols)
  files : ∃ files, entry.get? "files" = some (strings files) ∧
    files.Perm ((report.artifacts.filter fun a => a.owner == u.id).map Artifact.path)

/-- What an index says about a report. -/
structure Indexes (r : Registry) (target : Target) (o : Options) (report : Report) (v : Json) :
    Prop where
  units : ∃ entries, v.get? "units" = some (.array entries) ∧
    List.Forall₂ (Lists r report) report.units entries
  runtime : v.get? "runtime" = some (strings
    ((report.artifacts.filter fun a => a.owner == 0 && a.path != file).map Artifact.path))
  features : ∃ features, v.get? "features" = some (strings features) ∧
    (features.Pairwise fun a b => Text.before a b = true) ∧ ∀ f, f ∈ features ↔ f ∈ o.features
  hostNamespace : v.get? "namespace" =
    match target with
    | .c => none
    | .cpp => some (.string o.hostNamespace)

theorem forall₂_units {R : UnitSymbols → Json → Prop} {outcomes : List TypeOutcome}
    (h : ∀ o ∈ outcomes, ∀ u, o.generated = some u →
      R ⟨o.type.id, o.type.name, u.symbols⟩ (unitEntry o.type u)) :
    List.Forall₂ R (unitsOf outcomes) (unitEntries outcomes) := by
  induction outcomes with
  | nil => exact .nil
  | cons o outcomes ih =>
    rw [List.forall_mem_cons] at h
    have hrest := ih h.2
    unfold unitsOf unitEntries at hrest ⊢
    cases hu : o.generated with
    | none => simpa [hu] using hrest
    | some u => simpa [hu] using ⟨h.1 u hu, hrest⟩

theorem integer_toInt {n : Nat} (h : n < 2 ^ 32) : (Int64.ofInt n).toInt = n := by
  apply Int64.toInt_ofInt_of_le <;> omega

section
variable {r : Registry} {target : Target} {o : Options} {t : TypeDef}

theorem unitEntry_lists (hr : r.WellFormed) (ho : o.problem? target = none)
    (hids : ∀ t ∈ r.types, t.id < 2 ^ 32) (ht : t ∈ runTypes r target o) {u : GeneratedUnit}
    (hu : (settled r target o t).generated = some u) :
    Lists r (generate r target o) ⟨t.id, t.name, u.symbols⟩ (unitEntry t u) := by
  obtain ⟨hmem, henabled⟩ := mem_runTypes.mp ht
  have hfiles := artifactsFor_generate hr ho hmem
  rw [if_pos henabled, TypeOutcome.artifacts, hu] at hfiles
  have hget := Json.get?_ofMembers
  exact {
    id := ⟨_, hget _ "id", integer_toInt (hids t hmem)⟩
    type := hget _ "type"
    kind := ⟨t, hr.find?_eq_some_iff.mpr ⟨hmem, rfl⟩, hget _ "kind"⟩
    symbols := hget _ "symbols"
    files := ⟨_, hget _ "files", (hfiles.map Artifact.path).symm⟩ }

theorem runtime_shared (target : Target) :
    (∀ a ∈ target.runtime, a.owner = 0 ∧ a.path ≠ file) ∧
      (target.runtime.map Artifact.path).Pairwise fun a b => Text.before a b = true := by
  cases target <;> decide

theorem ownerless_perm (hr : r.WellFormed) (ho : o.problem? target = none) :
    ((generate r target o).artifacts.filter fun a => a.owner == 0 && a.path != file).Perm
      target.runtime := by
  rw [generate_eq hr ho, assembleReport, sortArtifacts]
  refine ((List.mergeSort_perm _ _).filter _).trans (List.Perm.of_eq ?_)
  have howned : (artifactsOf ((runTypes r target o).map (settled r target o))).filter
      (fun a => a.owner == 0 && a.path != file) = [] := by
    rw [List.filter_eq_nil_iff]
    intro a ha
    obtain ⟨_, hsettled, ha⟩ := List.mem_flatMap.mp ha
    obtain ⟨t, ht, rfl⟩ := List.mem_map.mp hsettled
    have hid : a.owner = t.id := (settled_owned hr ht).2.1 a ha
    simp [hid, hr.id_ne_zero t (mem_runTypes.mp ht).1]
  have hindex : (if o.manifest then [artifact r target o
      ((runTypes r target o).map (settled r target o))] else []).filter
        (fun a => a.owner == 0 && a.path != file) = [] := by
    split_ifs <;> simp [artifact]
  have hruntime : target.runtime.filter (fun a => a.owner == 0 && a.path != file) =
      target.runtime := by
    rw [List.filter_eq_self]
    intro a ha
    obtain ⟨howner, hpath⟩ := (runtime_shared target).1 a ha
    simp [howner, hpath]
  rw [List.filter_append, List.filter_append, howned, hindex, hruntime, List.nil_append,
    List.nil_append]

theorem ownerless_paths (hr : r.WellFormed) (ho : o.problem? target = none) :
    ((generate r target o).artifacts.filter fun a => a.owner == 0 && a.path != file).map
      Artifact.path = target.runtime.map Artifact.path := by
  have hdistinct : ((generate r target o).artifacts.map Artifact.path).Nodup :=
    List.Nodup.of_map Text.lower (by
      rw [List.map_map]
      exact nodup_lower_paths hr ho)
  have hsorted : ((generate r target o).artifacts.map Artifact.path).Pairwise
      fun a b => Text.before a b = true := by
    rw [generate_eq hr ho] at hdistinct ⊢
    exact paths_increase hdistinct
  refine ((ownerless_perm hr ho).map Artifact.path).eq_of_pairwise ?_
    (hsorted.sublist (List.filter_sublist.map Artifact.path)) (runtime_shared target).2
  intro a b _ _ hab hba
  rw [Text.before_isOrder.asymm hab] at hba
  exact absurd hba (by decide)

theorem json_indexes (hr : r.WellFormed) (ho : o.problem? target = none)
    (hids : ∀ t ∈ r.types, t.id < 2 ^ 32) :
    Indexes r target o (generate r target o)
      (json r target o ((runTypes r target o).map (settled r target o))) := by
  have hget := Json.get?_ofMembers (sharedEntries r target o
    ((runTypes r target o).map (settled r target o)) ++ namespaceEntry target o.hostNamespace)
  have hunits : List.Forall₂ (Lists r (generate r target o)) (generate r target o).units
      (unitEntries ((runTypes r target o).map (settled r target o))) := by
    have heq : (generate r target o).units =
        unitsOf ((runTypes r target o).map (settled r target o)) := by
      rw [generate_eq hr ho]
      rfl
    rw [heq]
    refine forall₂_units fun outcome houtcome u hu => ?_
    obtain ⟨t, ht, rfl⟩ := List.mem_map.mp houtcome
    have htype : (settled r target o t).type = t := by
      rcases settled_cases hr ht with ⟨-, -, _, -, hsettled⟩ | ⟨-, hrefused⟩
      · rw [hsettled]
      · exact hrefused.type
    rw [htype]
    exact unitEntry_lists hr ho hids ht hu
  exact {
    units := ⟨_, (hget "units").trans (by cases target <;> rfl), hunits⟩
    runtime := by
      rw [ownerless_paths hr ho]
      exact (hget "runtime").trans (by cases target <;> rfl)
    features := ⟨_, (hget "features").trans (by cases target <;> rfl),
      Sorted.ofList_increasing Text.before_isOrder _,
      fun _ => Sorted.mem_ofList Text.before_isOrder⟩
    hostNamespace := (hget "namespace").trans (by cases target <;> rfl) }

end

end Manifest

/-- The index of a run is read back as one of its report, whatever came of the types. Ids are of
thirty-two bits. -/
theorem generate_manifest {library : Text} {types : List TypeDef} {r : Registry}
    (hr : Registry.build library types = .ok r) (hids : ∀ t ∈ types, t.id < 2 ^ 32)
    (target : Target) (o : Options) (ho : o.problem? target = none)
    (hmanifest : o.manifest = true) :
    ∃ a members, (generate r target o).findArtifact? Manifest.file = some a ∧
      Json.parse a.content = .ok (.object members) ∧
      Manifest.Indexes r target o (generate r target o) (.object members) := by
  have hwf := Registry.build_wellFormed hr
  have hids' : ∀ t ∈ r.types, t.id < 2 ^ 32 := by
    obtain ⟨-, rfl⟩ := Registry.build_eq_ok_iff.mp hr
    exact fun t ht => hids t ((List.mergeSort_perm _ _).mem_iff.mp ht)
  have hmem : Manifest.artifact r target o ((runTypes r target o).map (settled r target o)) ∈
      (generate r target o).artifacts := by
    rw [generate_eq hwf ho, assembleReport]
    simp [sortArtifacts, hmanifest]
  have hfaithful := faithful_manifest r target o ((runTypes r target o).map (settled r target o))
  exact ⟨_, _, findArtifact?_of_mem hwf ho hmem, (hfaithful.mono (by decide)).parse_pretty 2,
    Manifest.json_indexes hwf ho hids'⟩

namespace Harbour

def buoy : TypeDef :=
  ⟨7, "Buoy", [], [], .object [⟨"drift", [], [], .shared, [], .primitive .f64⟩]⟩

def hull : TypeDef := ⟨8, "Hull", [], [], .record [] []⟩

def tide : TypeDef := ⟨4294967295, "Tide", [], [], .enumeration [⟨"low", [], 0⟩, ⟨"high", [], 1⟩]⟩

def library : Text := [34, 10, 255]

def registry : Registry := ⟨library, [buoy, hull, tide]⟩

def options : Options := ⟨["winter", "night", "winter"], 64, "harbour", 1, true⟩

theorem build_registry : Registry.build library [buoy, hull, tide] = .ok registry :=
  Registry.build_of_increasing _ (by decide) (by decide)

end Harbour

theorem generate_manifest_harbour :
    (generate Harbour.registry .cpp Harbour.options).success = false ∧
    (generate Harbour.registry .cpp Harbour.options).units =
      [⟨7, "Buoy", ["Buoy_drift", "Buoy_destroy"]⟩, ⟨4294967295, "Tide", []⟩] ∧
    ∃ a members, (generate Harbour.registry .cpp Harbour.options).findArtifact?
        "weld-manifest.json" = some a ∧
      Json.parse a.content = .ok (.object members) ∧
      Manifest.Indexes Harbour.registry .cpp Harbour.options
        (generate Harbour.registry .cpp Harbour.options) (.object members) :=
  ⟨by decide +kernel, by decide +kernel,
    generate_manifest Harbour.build_registry (by decide) .cpp Harbour.options (by decide) rfl⟩

end Bindery
