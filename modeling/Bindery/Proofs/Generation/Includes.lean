import Bindery.Proofs.Generation.Plain

/-!
What the headers of a successful run include: files of the same run, and never in a circle. A
declaration includes the declarations its fields need, so a circle among declarations would be one
of records inside records, which have no layout.
-/

set_option autoImplicit false

namespace Bindery

section
variable {r : Registry} {target : Target} {o : Options} {s t : TypeDef} {id : TypeId}
  {a b : Artifact}

theorem problem?_eq_none_of_success (h : (generate r target o).success = true) :
    o.problem? target = none := by
  cases ho : o.problem? target with
  | none => rfl
  | some message => simp [generate, ho, Report.failed, Report.success] at h

theorem mem_survivors_of_success (hr : r.WellFormed) (h : (generate r target o).success = true)
    (ht : t ∈ runTypes r target o) : t ∈ survivors r target o := by
  by_contra hlost
  obtain ⟨d, hd, -⟩ := (exists_error_iff hr (problem?_eq_none_of_success h) t.id).mpr
    ⟨t, (mem_runTypes.mp ht).1, rfl, .inr ⟨ht, hlost⟩⟩
  rw [Report.success, List.isEmpty_iff] at h
  rw [h] at hd
  exact absurd hd List.not_mem_nil

theorem knows_iff (hr : r.WellFormed) :
    (runContext r target o).mapper.Knows id ↔ ∃ s ∈ runTypes r target o, s.id = id := by
  have hmem : ∀ s ∈ r.types, s.id ∈ ((runAvailability target o).select r).enabled ↔
      s ∈ runTypes r target o := by
    intro s hs
    rw [runTypes, ← enabledTypes_select hr, enabledTypes, List.mem_filter, List.contains_iff_mem]
    exact ⟨fun henabled => ⟨hs, henabled⟩, fun h => h.2⟩
  constructor
  · rintro ⟨s, hfind, henabled⟩
    have hid := Registry.id_of_find? hfind
    refine ⟨s, (hmem s (Registry.mem_of_find? hfind)).mp ?_, hid⟩
    rwa [hid]
  · rintro ⟨s, hs, rfl⟩
    have hmemTypes := (mem_runTypes.mp hs).1
    exact ⟨s, hr.find?_eq_some_iff.mpr ⟨hmemTypes, rfl⟩, (hmem s hmemTypes).mpr hs⟩

theorem names_name (hr : r.WellFormed) (hs : s ∈ runTypes r target o) :
    (runContext r target o).names.name s.id = s.name := by
  obtain ⟨s', hfind, henabled⟩ := (knows_iff hr).mpr ⟨s, hs, rfl⟩
  have hsame := hr.find?_eq_some_iff.mpr ⟨(mem_runTypes.mp hs).1, rfl⟩
  exact name_of_enabled hr hsame henabled

theorem runPlan_knows (hr : r.WellFormed) (ht : t ∈ runTypes r target o) :
    (runPlan r target o t).RefersWithin (runContext r target o).mapper.Knows :=
  draftType_knows ((knows_iff hr).mpr ⟨t, ht, rfl⟩)

/-- A field of the one type refers to the other. -/
def RefersInField (t s : TypeDef) : Prop := ∃ f ∈ t.fields, s.id ∈ f.type.ids

theorem kind_of_fields {f : Field} (hf : f ∈ t.fields) : t.kind = .record := by
  unfold TypeDef.fields at hf
  unfold TypeDef.kind
  cases hshape : t.shape with
  | record fields methods => rfl
  | _ => simp [hshape] at hf

theorem mem_fieldDeps {p : TypePlan} :
    id ∈ p.fieldDeps ↔ (∃ f ∈ p.fields, id ∈ f.mapped.deps) ∧ id ≠ p.type.id := by
  simp [TypePlan.fieldDeps, idSet, Sorted.mem_ofList idBefore_isOrder]

theorem definitionDeps_subset {c : Context} :
    (draftType c t).plan.definitionDeps ⊆ (draftType c t).plan.fieldDeps := by
  intro id hid
  obtain ⟨hset, hne⟩ := List.mem_filter.mp hid
  have hmem := (Sorted.mem_ofList idBefore_isOrder).mp hset
  obtain ⟨f, hf, hdep⟩ := List.mem_flatMap.mp (List.mem_filter.mp hmem).1
  exact mem_fieldDeps.mpr ⟨⟨f, hf, hdep⟩, bne_iff_ne.mp hne⟩

theorem exists_of_mem_fieldDeps (hr : r.WellFormed) (ht : t ∈ runTypes r target o)
    (hid : id ∈ (runPlan r target o t).fieldDeps) :
    ∃ s ∈ runTypes r target o, s.id = id ∧ RefersInField t s := by
  obtain ⟨s, hs, rfl⟩ := (knows_iff hr).mp ((runPlan_knows hr ht).fieldDeps id hid)
  obtain ⟨⟨p, hp, hdep⟩, -⟩ := mem_fieldDeps.mp hid
  obtain ⟨hfield, hmapped⟩ := mem_planDefinition hp
  rw [Mapper.mapWith_deps hmapped] at hdep
  exact ⟨s, hs, rfl, p.field, hfield, hdep⟩

theorem recordLayout_of_survivor (hr : r.WellFormed) (ht : t ∈ survivors r target o)
    (hkind : t.kind = .record) :
    ∃ layout, (runContext r target o).mapper.recordLayout t = .ok layout := by
  have hdraft := (processType_of_mem_survivors hr ht).1
  simp only [draftType, List.append_eq_nil_iff] at hdraft
  have hdefinition := hdraft.1.2
  simp only [planDefinition, hkind, planRecord] at hdefinition
  split_ifs at hdefinition
  cases hlayout : (runContext r target o).mapper.recordLayout t with
  | ok layout => exact ⟨layout, rfl⟩
  | error fault => simp [hlayout] at hdefinition

theorem Mapper.Resolves.kind_eq {m : Mapper} {kind kind' : Kind} (h : m.Resolves id kind s)
    (h' : m.Resolves id kind' t) : kind = kind' := by
  have hsame := h.1.symm.trans h'.1
  cases hsame
  exact h.2.2.symm.trans h'.2.2

/-- A field refers to a record by holding it. -/
theorem Mapper.Admissible.containedRecord?_eq {m : Mapper} {sound : TypeDef → Prop} {ref : TypeRef}
    (h : m.Admissible sound ref .field) (hid : id ∈ ref.ids) (hs : m.Resolves id .record s) :
    ref.containedRecord? = some id := by
  cases ref with
  | unit | primitive | slice | writeable => exact absurd hid List.not_mem_nil
  | object id' ownership isMutable =>
    obtain rfl := List.mem_singleton.mp hid
    obtain ⟨⟨u, hu⟩, -⟩ := h
    exact absurd (hu.kind_eq hs) (by decide)
  | enumeration id' =>
    obtain rfl := List.mem_singleton.mp hid
    obtain ⟨u, hu, -⟩ := h
    exact absurd (hu.kind_eq hs) (by decide)
  | record id' byRef =>
    obtain rfl := List.mem_singleton.mp hid
    cases byRef with
    | false => rfl
    | true => exact absurd (h.2 rfl) (by decide)
  | nullable inner =>
    obtain ⟨-, hinner, hnull, -⟩ := h
    cases inner with
    | object id' ownership isMutable =>
      obtain rfl := List.mem_singleton.mp hid
      obtain ⟨⟨u, hu⟩, -⟩ := hinner
      exact absurd (hu.kind_eq hs) (by decide)
    | enumeration id' =>
      obtain rfl := List.mem_singleton.mp hid
      obtain ⟨u, hu, -⟩ := hinner
      exact absurd (hu.kind_eq hs) (by decide)
    | record id' byRef =>
      obtain rfl := List.mem_singleton.mp hid
      obtain ⟨rfl, -⟩ := hnull
      rfl
    | primitive | slice => exact absurd hid List.not_mem_nil
    | _ => exact hnull.elim
  | fallible ok err => exact absurd h.1 (by decide)

theorem fields_admissible (hr : r.WellFormed) (ht : t ∈ survivors r target o) :
    ∀ f ∈ t.fields, (runContext r target o).mapper.Admissible
      (Mapper.HasLayout (runContext r target o).mapper.recordLayout) f.type .field := by
  intro f hf
  obtain ⟨layout, hlayout⟩ := recordLayout_of_survivor hr ht (kind_of_fields hf)
  exact Mapper.hasLayout_layoutFrom_iff.mp ⟨layout, Mapper.layoutFrom_recordLayout hlayout⟩ f hf

theorem contains_of_refers (hr : r.WellFormed) (ht : t ∈ survivors r target o)
    (hs : s ∈ runTypes r target o) (hrefers : RefersInField t s) (hkind : s.kind = .record) :
    r.Contains t s := by
  obtain ⟨f, hf, hid⟩ := hrefers
  have hfind := hr.find?_eq_some_iff.mpr ⟨(mem_runTypes.mp hs).1, rfl⟩
  obtain ⟨-, -, henabled⟩ := (knows_iff hr).mpr ⟨s, hs, rfl⟩
  exact ⟨f, hf, s.id, (fields_admissible hr ht f hf).containedRecord?_eq hid
    ⟨hfind, henabled, hkind⟩, hfind⟩

def FieldStep (r : Registry) (target : Target) (o : Options) (t s : TypeDef) : Prop :=
  t ∈ survivors r target o ∧ s ∈ survivors r target o ∧ RefersInField t s

theorem FieldStep.kind (h : FieldStep r target o t s) : t.kind = .record := by
  obtain ⟨-, -, f, hf, -⟩ := h
  exact kind_of_fields hf

theorem FieldStep.contains (hr : r.WellFormed) (h : FieldStep r target o t s)
    (hkind : s.kind = .record) : r.Contains t s :=
  contains_of_refers hr h.1 (List.mem_filter.mp h.2.1).1 h.2.2 hkind

/-- Only records have fields, so a chain of references that goes on is one of containment. -/
theorem transGen_contains (hr : r.WellFormed) (h : Relation.TransGen (FieldStep r target o) t s)
    (hkind : s.kind = .record) : Relation.TransGen r.Contains t s := by
  induction h with
  | single hstep => exact .single (hstep.contains hr hkind)
  | tail _ hstep ih => exact (ih hstep.kind).tail (hstep.contains hr hkind)

theorem not_transGen_fieldStep (hr : r.WellFormed) (t : TypeDef) :
    ¬ Relation.TransGen (FieldStep r target o) t t := by
  intro hcycle
  obtain ⟨s, hstep, -⟩ := Relation.TransGen.head'_iff.mp hcycle
  obtain ⟨layout, hlayout⟩ := recordLayout_of_survivor hr hstep.1 hstep.kind
  exact Mapper.containsNoCycle_of_recordLayout hlayout t t .refl
    (transGen_contains hr hcycle hstep.kind) rfl

/-- The report has a file of the path. -/
def Report.HasFile (report : Report) (path : Text) : Prop := ∃ a ∈ report.artifacts, a.path = path

theorem hasFile_runtime (hr : r.WellFormed) (ho : o.problem? target = none) {a : Artifact}
    (ha : a ∈ target.runtime) : (generate r target o).HasFile a.path :=
  ⟨a, mem_artifacts_of_runtime hr ho ha, rfl⟩

theorem hasFile_unit (hr : r.WellFormed) (ho : o.problem? target = none)
    (ht : t ∈ survivors r target o) {file : Text} (hfile : file ∈ target.unitFiles t.name) :
    (generate r target o).HasFile file := by
  have hpaths := render_paths target (runPlan r target o t) (runContext r target o).names
    o.hostNamespace
  change _ = target.unitFiles t.name at hpaths
  rw [← hpaths] at hfile
  obtain ⟨a, ha, rfl⟩ := List.mem_map.mp hfile
  exact ⟨a, mem_artifacts_of_headers hr ho ht ha, rfl⟩

/-- Why a file of a run includes another one: the runtime; the type itself or a type it refers to,
at an earlier stage; a field of the type, at the same stage; definitions of other types. -/
inductive IncludeOf (r : Registry) (target : Target) (o : Options) : Text → Text → Prop where
  | runtime (hcpp : target = .cpp) : IncludeOf r target o CppRuntime.file CRuntime.file
  | declarationRuntime {t : TypeDef} (ht : t ∈ survivors r target o) :
    IncludeOf r target o (UnitFile.declaration t.name) CRuntime.file
  | declarationField {t s : TypeDef} (hstep : FieldStep r target o t s) :
    IncludeOf r target o (UnitFile.declaration t.name) (UnitFile.declaration s.name)
  | functionsRuntime {t : TypeDef} (ht : t ∈ survivors r target o) :
    IncludeOf r target o (UnitFile.functions t.name) CRuntime.file
  | functionsDeclaration {t s : TypeDef} (ht : t ∈ survivors r target o)
    (hs : s ∈ survivors r target o) :
    IncludeOf r target o (UnitFile.functions t.name) (UnitFile.declaration s.name)
  | hostRuntime {t : TypeDef} (hcpp : target = .cpp) (ht : t ∈ survivors r target o) :
    IncludeOf r target o (UnitFile.hostDeclaration t.name) CppRuntime.file
  | hostDeclaration {t : TypeDef} (hcpp : target = .cpp) (ht : t ∈ survivors r target o) :
    IncludeOf r target o (UnitFile.hostDeclaration t.name) (UnitFile.declaration t.name)
  | hostField {t s : TypeDef} (hcpp : target = .cpp) (hstep : FieldStep r target o t s) :
    IncludeOf r target o (UnitFile.hostDeclaration t.name) (UnitFile.hostDeclaration s.name)
  | definitions {t s : TypeDef} {file : Text} (hcpp : target = .cpp)
    (ht : t ∈ survivors r target o) (hs : s ∈ survivors r target o)
    (hfile : file ∈ target.unitFiles s.name) :
    IncludeOf r target o (UnitFile.hostDefinitions t.name) file

theorem IncludeOf.hasFile (hr : r.WellFormed) (ho : o.problem? target = none) {path file : Text}
    (h : IncludeOf r target o path file) : (generate r target o).HasFile file := by
  have hc : (generate r target o).HasFile CRuntime.file := by
    refine hasFile_runtime hr ho (a := Target.cArtifact CRuntime.header 0) ?_
    cases target <;> exact List.mem_cons_self
  have hdeclaration : ∀ s ∈ survivors r target o,
      (generate r target o).HasFile (UnitFile.declaration s.name) := by
    intro s hs
    refine hasFile_unit hr ho hs ?_
    cases target <;> exact List.mem_cons_self
  cases h with
  | runtime | declarationRuntime | functionsRuntime => exact hc
  | declarationField hstep => exact hdeclaration _ hstep.2.1
  | functionsDeclaration ht hs => exact hdeclaration _ hs
  | hostRuntime hcpp =>
    subst hcpp
    exact hasFile_runtime hr ho (a := Target.cppArtifact CppRuntime.header 0)
      (List.mem_cons_of_mem _ List.mem_cons_self)
  | hostDeclaration hcpp ht => exact hdeclaration _ ht
  | hostField hcpp hstep =>
    subst hcpp
    exact hasFile_unit hr ho hstep.2.1 (by simp [Target.unitFiles])
  | definitions hcpp ht hs hfile => exact hasFile_unit hr ho hs hfile

theorem runPlan_type : (runPlan r target o t).type = t := rfl

theorem exists_of_dep (hr : r.WellFormed) (h : (generate r target o).success = true)
    (ht : t ∈ survivors r target o) (hid : id ∈ (runPlan r target o t).deps) :
    ∃ s ∈ survivors r target o, (runContext r target o).names.name id = s.name := by
  have hrun := (List.mem_filter.mp ht).1
  obtain ⟨s, hs, rfl⟩ := (knows_iff hr).mp ((runPlan_knows hr hrun).deps id hid)
  exact ⟨s, mem_survivors_of_success hr h hs, names_name hr hs⟩

theorem exists_of_fieldDep (hr : r.WellFormed) (h : (generate r target o).success = true)
    (ht : t ∈ survivors r target o) (hid : id ∈ (runPlan r target o t).fieldDeps) :
    ∃ s, FieldStep r target o t s ∧ (runContext r target o).names.name id = s.name := by
  obtain ⟨s, hs, rfl, hrefers⟩ := exists_of_mem_fieldDeps hr (List.mem_filter.mp ht).1 hid
  exact ⟨s, ⟨ht, mem_survivors_of_success hr h hs, hrefers⟩, names_name hr hs⟩

theorem includeOf_of_header (hr : r.WellFormed) (h : (generate r target o).success = true)
    (ht : t ∈ survivors r target o) (ha : a ∈ runHeaders r target o t) {file : Text}
    (hfile : file ∈ includedFiles a.content) : IncludeOf r target o a.path file := by
  have ho := problem?_eq_none_of_success h
  have hplain : (runPlan r target o t).Plain := draftType_plain hr (mem_types_of_survivors ht)
  have hnames : (runContext r target o).names.Plain := names_plain hr
  rcases render_cases ha with rfl | rfl | ⟨rfl, rfl⟩ | ⟨rfl, rfl⟩
  · change file ∈ includedFiles (TypePlan.declarationHeader _ _).text at hfile
    rw [includedFiles_declaration hplain hnames] at hfile
    rcases List.mem_cons.mp hfile with rfl | hfile
    · exact .declarationRuntime ht
    · obtain ⟨id, hid, rfl⟩ := List.mem_map.mp hfile
      obtain ⟨s, hstep, hname⟩ := exists_of_fieldDep hr h ht hid
      rw [hname]
      exact .declarationField hstep
  · change file ∈ includedFiles (TypePlan.functionHeader _ _).text at hfile
    rw [includedFiles_functions hplain hnames] at hfile
    simp only [List.cons_append, List.nil_append, List.mem_cons, List.mem_map] at hfile
    rcases hfile with rfl | rfl | ⟨id, hid, rfl⟩
    · exact .functionsDeclaration ht ht
    · exact .functionsRuntime ht
    · obtain ⟨s, hs, hname⟩ := exists_of_dep hr h ht hid
      rw [hname]
      exact .functionsDeclaration ht hs
  · change file ∈ includedFiles (TypePlan.hostDeclarationHeader _ _ _).text at hfile
    rw [includedFiles_hostDeclaration hplain hnames (noHash_hostNamespace ho)] at hfile
    simp only [List.cons_append, List.nil_append, List.mem_cons, List.mem_map] at hfile
    rcases hfile with rfl | rfl | ⟨id, hid, rfl⟩
    · exact .hostRuntime rfl ht
    · exact .hostDeclaration rfl ht
    · obtain ⟨s, hstep, hname⟩ := exists_of_fieldDep hr h ht (definitionDeps_subset hid)
      rw [hname]
      exact .hostField rfl hstep
  · change file ∈ includedFiles (TypePlan.hostDefinitionHeader _ _ _).text at hfile
    rw [includedFiles_hostDefinitions hplain hnames (noHash_hostNamespace ho)] at hfile
    simp only [List.cons_append, List.nil_append, List.mem_cons, List.mem_append,
      List.mem_map] at hfile
    rcases hfile with rfl | rfl | ⟨id, hid, rfl⟩ | ⟨id, hid, rfl⟩
    · exact .definitions rfl ht ht (by simp [Target.unitFiles, runPlan_type])
    · exact .definitions rfl ht ht (by simp [Target.unitFiles, runPlan_type])
    · obtain ⟨s, hs, hname⟩ := exists_of_dep hr h ht hid
      exact .definitions rfl ht hs (by simp [Target.unitFiles, hname])
    · obtain ⟨s, hs, hname⟩ := exists_of_dep hr h ht hid
      exact .definitions rfl ht hs (by simp [Target.unitFiles, hname])

theorem includeOf_of_mem (hr : r.WellFormed) (h : (generate r target o).success = true)
    (ha : a ∈ (generate r target o).artifacts) {file : Text}
    (hfile : file ∈ includedFiles a.content) : IncludeOf r target o a.path file := by
  rcases artifact_cases hr (problem?_eq_none_of_success h) ha with
    hruntime | ⟨outcomes, rfl⟩ | ⟨t, ht, hheader⟩
  · rcases runtime_cases hruntime with rfl | ⟨hcpp, rfl⟩
    · change file ∈ includedFiles CRuntime.header.text at hfile
      rw [includedFiles_cRuntime] at hfile
      exact absurd hfile List.not_mem_nil
    · change file ∈ includedFiles CppRuntime.header.text at hfile
      rw [includedFiles_cppRuntime, List.mem_singleton] at hfile
      rw [hfile]
      exact .runtime hcpp
  · rw [includedFiles_manifest] at hfile
    exact absurd hfile List.not_mem_nil
  · exact includeOf_of_header hr h ht hheader hfile

/-- The stage a header belongs to, read off its name. -/
def stage (file : Text) : Nat :=
  if file = CRuntime.file then 0
  else if file = CppRuntime.file then 1
  else if ascii ".d.h" <:+ file then 2
  else if ascii ".d.hpp" <:+ file then 3
  else 4

theorem ne_of_suffix {name ext file : Text} (h : ¬ ext <:+ file) : name ++ ext ≠ file := fun he =>
  h (he ▸ List.suffix_append name ext)

theorem not_suffix_of_isPart {name ext : Text} (h : name.all Identifier.isPart = true) :
    ¬ ascii ".d" ++ ext <:+ name ++ ext := by
  rintro ⟨before, he⟩
  rw [← List.append_assoc, List.append_left_inj] at he
  have hdot : (46 : UInt8) ∈ name := he ▸ List.mem_append_right before (by decide)
  exact notMem_of_all_isPart h (by decide) hdot

theorem getLast?_of_suffix {s t : Text} (h : s <:+ t) (hne : s ≠ []) : t.getLast? = s.getLast? := by
  obtain ⟨before, rfl⟩ := h
  rw [List.getLast?_append_of_ne_nil _ hne]

theorem not_suffix_of_getLast? {name ext ending : Text} (hext : ext ≠ []) (hending : ending ≠ [])
    (h : ext.getLast? ≠ ending.getLast?) : ¬ ending <:+ name ++ ext := by
  intro hsuffix
  have hlast := getLast?_of_suffix hsuffix hending
  rw [getLast?_of_suffix (List.suffix_append name ext) hext] at hlast
  exact h hlast

theorem stage_declaration (name : Text) : stage (UnitFile.declaration name) = 2 := by
  have hc : UnitFile.declaration name ≠ CRuntime.file := ne_of_suffix (by decide)
  have hcpp : UnitFile.declaration name ≠ CppRuntime.file := ne_of_suffix (by decide)
  have hext : ascii ".d.h" <:+ UnitFile.declaration name := List.suffix_append name _
  rw [stage, if_neg hc, if_neg hcpp, if_pos hext]

theorem stage_hostDeclaration (name : Text) : stage (UnitFile.hostDeclaration name) = 3 := by
  have hc : UnitFile.hostDeclaration name ≠ CRuntime.file := ne_of_suffix (by decide)
  have hcpp : UnitFile.hostDeclaration name ≠ CppRuntime.file := ne_of_suffix (by decide)
  have hother : ¬ ascii ".d.h" <:+ UnitFile.hostDeclaration name :=
    not_suffix_of_getLast? (by decide) (by decide) (by decide)
  have hext : ascii ".d.hpp" <:+ UnitFile.hostDeclaration name := List.suffix_append name _
  rw [stage, if_neg hc, if_neg hcpp, if_neg hother, if_pos hext]

theorem name_ne_runtime (hr : r.WellFormed) (ht : t ∈ survivors r target o) :
    t.name ≠ ascii "weld_runtime" := by
  intro he
  have hclean := (mem_cleanTypes.mp ((mem_survivors hr).mp ht).1).2
  have hstarts := not_usesSupportPrefix hclean
  rw [he] at hstarts
  exact absurd hstarts (by decide)

theorem stage_functions (hr : r.WellFormed) (ht : t ∈ survivors r target o) :
    stage (UnitFile.functions t.name) = 4 := by
  have hparts := all_isPart_of_isValid (hr.name_valid t (mem_types_of_survivors ht))
  have hc : UnitFile.functions t.name ≠ CRuntime.file := by
    intro he
    change t.name ++ ascii ".h" = ascii "weld_runtime" ++ ascii ".h" at he
    exact name_ne_runtime hr ht (List.append_cancel_right he)
  have hcpp : UnitFile.functions t.name ≠ CppRuntime.file := ne_of_suffix (by decide)
  have hdeclaration : ¬ ascii ".d.h" <:+ UnitFile.functions t.name := not_suffix_of_isPart hparts
  have hhost : ¬ ascii ".d.hpp" <:+ UnitFile.functions t.name :=
    not_suffix_of_getLast? (by decide) (by decide) (by decide)
  rw [stage, if_neg hc, if_neg hcpp, if_neg hdeclaration, if_neg hhost]

/-- The headers that only declare: all but the C++ definitions. -/
def Artifact.Declares (a : Artifact) : Prop :=
  a.path ∈ [CRuntime.file, CppRuntime.file] ∨
    ∃ ending ∈ [ascii ".d.h", ascii ".h", ascii ".d.hpp"], ending <:+ a.path

theorem not_declares_definitions (hr : r.WellFormed) (ht : t ∈ survivors r target o)
    (ha : a.path = UnitFile.hostDefinitions t.name) : ¬ a.Declares := by
  have hparts := all_isPart_of_isValid (hr.name_valid t (mem_types_of_survivors ht))
  have hlast : ∀ ending : Text, ending ≠ [] → ending.getLast? ≠ (ascii ".hpp").getLast? →
      ¬ ending <:+ UnitFile.hostDefinitions t.name := fun ending hne hdiffers =>
    not_suffix_of_getLast? (by decide) hne hdiffers.symm
  rw [Artifact.Declares, ha]
  rintro (hruntime | ⟨ending, hending, hsuffix⟩)
  · rcases List.mem_pair.mp hruntime with he | he
    · exact ne_of_suffix (by decide) he
    · change t.name ++ ascii ".hpp" = ascii "weld_runtime" ++ ascii ".hpp" at he
      exact name_ne_runtime hr ht (List.append_cancel_right he)
  · simp only [List.mem_cons, List.not_mem_nil, or_false] at hending
    rcases hending with rfl | rfl | rfl
    · exact hlast _ (by decide) (by decide) hsuffix
    · exact hlast _ (by decide) (by decide) hsuffix
    · exact not_suffix_of_isPart hparts hsuffix

def DeclarationOf (path : Text) (t : TypeDef) : Prop :=
  path = UnitFile.declaration t.name ∨ path = UnitFile.hostDeclaration t.name

theorem DeclarationOf.unique (hr : r.WellFormed) {path : Text} (ht : t ∈ r.types)
    (hs : s ∈ r.types) (h : DeclarationOf path t) (h' : DeclarationOf path s) : t = s := by
  have hmixed : ∀ n n' : Text, UnitFile.declaration n ≠ UnitFile.hostDeclaration n' := by
    intro n n' he
    change n ++ ascii ".d.h" = n' ++ ascii ".d.hpp" at he
    have hends : ascii ".d.hpp" <:+ n ++ ascii ".d.h" := he ▸ List.suffix_append n' _
    exact not_suffix_of_getLast? (by decide) (by decide) (by decide) hends
  have hname : t.name = s.name := by
    rcases h with rfl | rfl <;> rcases h' with he | he
    · exact List.append_cancel_right he
    · exact absurd he (hmixed _ _)
    · exact absurd he.symm (hmixed _ _)
    · exact List.append_cancel_right he
  exact List.inj_on_of_nodup_map hr.names_distinct ht hs hname

/-- An include leads to an earlier stage, or along a field to a declaration of the same stage. -/
theorem IncludeOf.stage_lt_or_field (hr : r.WellFormed) {path file : Text}
    (h : IncludeOf r target o path file)
    (hpath : ∀ t ∈ survivors r target o, path ≠ UnitFile.hostDefinitions t.name) :
    stage file < stage path ∨ stage file = stage path ∧
      ∃ t s, FieldStep r target o t s ∧ DeclarationOf path t ∧ DeclarationOf file s := by
  have hc : stage CRuntime.file = 0 := rfl
  have hcpp : stage CppRuntime.file = 1 := by decide
  cases h with
  | runtime => exact .inl (by decide)
  | declarationRuntime ht => exact .inl (by rw [hc, stage_declaration]; decide)
  | declarationField hstep =>
    refine .inr ⟨?_, _, _, hstep, .inl rfl, .inl rfl⟩
    rw [stage_declaration, stage_declaration]
  | functionsRuntime ht => exact .inl (by rw [hc, stage_functions hr ht]; decide)
  | functionsDeclaration ht hs =>
    exact .inl (by rw [stage_declaration, stage_functions hr ht]; decide)
  | hostRuntime _ ht => exact .inl (by rw [hcpp, stage_hostDeclaration]; decide)
  | hostDeclaration _ ht =>
    exact .inl (by rw [stage_declaration, stage_hostDeclaration]; decide)
  | hostField _ hstep =>
    refine .inr ⟨?_, _, _, hstep, .inr rfl, .inr rfl⟩
    rw [stage_hostDeclaration, stage_hostDeclaration]
  | definitions _ ht hs hfile => exact absurd rfl (hpath _ ht)

/-- One declaring header of the report includes another one. -/
def Report.Includes (report : Report) (a b : Artifact) : Prop :=
  (a ∈ report.artifacts ∧ a.Declares) ∧ (b ∈ report.artifacts ∧ b.Declares) ∧
    b.path ∈ includedFiles a.content

theorem Report.Includes.stage_lt_or_field (hr : r.WellFormed)
    (hsuccess : (generate r target o).success = true) (h : (generate r target o).Includes a b) :
    stage b.path < stage a.path ∨ stage b.path = stage a.path ∧
      ∃ t s, FieldStep r target o t s ∧ DeclarationOf a.path t ∧ DeclarationOf b.path s := by
  obtain ⟨⟨ha, hdeclares⟩, -, hfile⟩ := h
  refine (includeOf_of_mem hr hsuccess ha hfile).stage_lt_or_field hr fun t ht hpath => ?_
  exact not_declares_definitions hr ht hpath hdeclares

/-- Along includes the stage falls, or stays and the types are linked by fields. -/
theorem stage_lt_or_transGen (hr : r.WellFormed) (hsuccess : (generate r target o).success = true)
    (h : Relation.TransGen (generate r target o).Includes a b) :
    stage b.path < stage a.path ∨ stage b.path = stage a.path ∧
      ∃ t s, Relation.TransGen (FieldStep r target o) t s ∧ DeclarationOf a.path t ∧
        DeclarationOf b.path s := by
  induction h with
  | single hstep =>
    rcases hstep.stage_lt_or_field hr hsuccess with hlt | ⟨heq, t, s, hfield, ht, hs⟩
    · exact .inl hlt
    · exact .inr ⟨heq, t, s, .single hfield, ht, hs⟩
  | tail _ hstep ih =>
    rcases hstep.stage_lt_or_field hr hsuccess with hlt | ⟨heq, t, s, hfield, ht, hs⟩
    · rcases ih with hbefore | ⟨hbefore, -⟩
      · exact .inl (hlt.trans hbefore)
      · exact .inl (hlt.trans_eq hbefore)
    · rcases ih with hbefore | ⟨hbefore, t', s', hpath, ht', hs'⟩
      · exact .inl (heq.trans_lt hbefore)
      · -- the declaration in the middle is that of one type
        have hmem : s' ∈ r.types := by
          cases hpath with
          | single hlast => exact mem_types_of_survivors hlast.2.1
          | tail _ hlast => exact mem_types_of_survivors hlast.2.1
        obtain rfl := hs'.unique hr hmem (mem_types_of_survivors hfield.1) ht
        exact .inr ⟨heq.trans hbefore, t', s, hpath.tail hfield, ht', hs⟩

theorem exists_fieldPlan (hr : r.WellFormed) (ht : t ∈ survivors r target o) {f : Field}
    (hf : f ∈ t.fields) : ∃ p ∈ (runPlan r target o t).fields, p.field = f := by
  have hkind := kind_of_fields hf
  obtain ⟨layout, hlayout⟩ := recordLayout_of_survivor hr ht hkind
  obtain ⟨mapped, hmapped, -⟩ :=
    Mapper.layoutFrom_eq_ok_iff.mp (Mapper.layoutFrom_recordLayout hlayout)
  have hplanned : (runPlan r target o t).fields = List.zipWith FieldPlan.mk t.fields mapped := by
    have hnonempty : t.fields.isEmpty = false := by
      cases hfields : t.fields with
      | nil => simp [hfields] at hf
      | cons => rfl
    show (planDefinition _ _ _).1 = _
    simp only [planDefinition, hkind, planRecord, hnonempty, hlayout]
    exact (planFields_of_mapped hmapped []).1
  obtain ⟨i, hi, rfl⟩ := List.mem_iff_getElem.mp hf
  have hx : i < mapped.length := hmapped.length_eq ▸ hi
  refine ⟨⟨t.fields[i], mapped[i]⟩, ?_, rfl⟩
  rw [hplanned, List.mem_iff_getElem]
  exact ⟨i, by simp [hi, hx], List.getElem_zipWith⟩

theorem mem_fieldDeps_of_field (hr : r.WellFormed) (ht : t ∈ survivors r target o) {f : Field}
    (hf : f ∈ t.fields) (hid : id ∈ f.type.ids) :
    id ∈ (runPlan r target o t).fieldDeps ∧ ∃ s ∈ runTypes r target o, s.id = id := by
  obtain ⟨p, hp, rfl⟩ := exists_fieldPlan hr ht hf
  have hmapped := (mem_planDefinition hp).2
  obtain ⟨s, hs, rfl⟩ := (knows_iff hr).mp (Mapper.mapWith_knows hmapped id hid)
  refine ⟨mem_fieldDeps.mpr ⟨⟨p, hp, ?_⟩, fun hself => ?_⟩, s, hs, rfl⟩
  · rwa [Mapper.mapWith_deps hmapped]
  · -- a record with itself in a field would hold itself
    have hsame : s.id = t.id := hself
    obtain rfl := hr.eq_of_id_eq (mem_runTypes.mp hs).1 (mem_types_of_survivors ht) hsame
    exact not_transGen_fieldStep hr s (.single ⟨ht, ht, p.field, hf, hid⟩)

theorem declaration_includes_fields (hr : r.WellFormed)
    (h : (generate r target o).success = true) (ht : t ∈ runTypes r target o) :
    ∃ a, (generate r target o).findArtifact? (UnitFile.declaration t.name) = some a ∧
      ∀ f ∈ t.fields, ∀ id ∈ f.type.ids, ∃ s, r.find? id = some s ∧
        UnitFile.declaration s.name ∈ includedFiles a.content := by
  have ho := problem?_eq_none_of_success h
  have hsurvives := mem_survivors_of_success hr h ht
  have hplain : (runPlan r target o t).Plain :=
    draftType_plain hr (mem_types_of_survivors hsurvives)
  have hheader : Target.cArtifact
      ((runPlan r target o t).declarationHeader (runContext r target o).names) t.id ∈
        runHeaders r target o t := by
    cases target <;> exact List.mem_cons_self
  have hfind := findArtifact?_of_mem hr ho (mem_artifacts_of_headers hr ho hsurvives hheader)
  refine ⟨_, hfind, fun f hf id hid => ?_⟩
  obtain ⟨hdep, s, hs, rfl⟩ := mem_fieldDeps_of_field hr hsurvives hf hid
  refine ⟨s, hr.find?_eq_some_iff.mpr ⟨(mem_runTypes.mp hs).1, rfl⟩, ?_⟩
  show _ ∈ includedFiles (TypePlan.declarationHeader _ _).text
  rw [includedFiles_declaration hplain (names_plain hr), ← names_name hr hs]
  exact List.mem_cons_of_mem _ (List.mem_map_of_mem hdep)

end

/-- In a successful run, every file that a header includes is a file of the run. The headers that
only declare do not include one another in a circle, and the C declaration of a type includes those
of all types its fields refer to. -/
theorem generate_includes {library : Text} {types : List TypeDef} {r : Registry}
    (hr : Registry.build library types = .ok r) (target : Target) (o : Options)
    (hsuccess : (generate r target o).success = true) :
    (∀ a ∈ (generate r target o).artifacts, ∀ file ∈ includedFiles a.content,
      (generate r target o).HasFile file) ∧
    (∀ a, ¬ Relation.TransGen (generate r target o).Includes a a) ∧
    ∀ t ∈ runTypes r target o, ∃ a,
      (generate r target o).findArtifact? (UnitFile.declaration t.name) = some a ∧
      ∀ f ∈ t.fields, ∀ id ∈ f.type.ids, ∃ s, r.find? id = some s ∧
        UnitFile.declaration s.name ∈ includedFiles a.content := by
  have hwell := Registry.build_wellFormed hr
  refine ⟨fun a ha file hfile => ?_, fun a hcycle => ?_,
    fun t ht => declaration_includes_fields hwell hsuccess ht⟩
  · exact (includeOf_of_mem hwell hsuccess ha hfile).hasFile hwell
      (problem?_eq_none_of_success hsuccess)
  · rcases stage_lt_or_transGen hwell hsuccess hcycle with hlt | ⟨-, t, s, hpath, ht, hs⟩
    · exact absurd hlt (Nat.lt_irrefl _)
    · obtain ⟨t', hfirst, -⟩ := Relation.TransGen.head'_iff.mp hpath
      obtain ⟨s', -, hlast⟩ := Relation.TransGen.tail'_iff.mp hpath
      obtain rfl := ht.unique hwell (mem_types_of_survivors hfirst.1)
        (mem_types_of_survivors hlast.2.1) hs
      exact not_transGen_fieldStep hwell t hpath

namespace Linked

def route : TypeDef :=
  ⟨1, "Route", [], [], .record
    [⟨"start", [], .nullable (.record 2 false)⟩, ⟨"map", [], .object 3 .borrowed false⟩] []⟩

def place : TypeDef := ⟨2, "Place", [], [], .record [⟨"x", [], .primitive .f32⟩] []⟩

def chart : TypeDef :=
  ⟨3, "Chart", [], [], .object [⟨"find", [], [], .shared, [], .record 1 false⟩]⟩

def registry : Registry := ⟨"linked", [route, place, chart]⟩

def options : Options := ⟨[], 64, "weld", 1, true⟩

theorem build_registry : Registry.build "linked" [route, place, chart] = .ok registry :=
  Registry.build_of_increasing _ (by decide) (by decide)

end Linked

theorem generate_includes_linked :
    (generate Linked.registry .cpp Linked.options).success = true ∧
    (∃ a, (generate Linked.registry .cpp Linked.options).findArtifact? "Route.d.h" = some a ∧
      ascii "Place.d.h" ∈ includedFiles a.content ∧ ascii "Chart.d.h" ∈ includedFiles a.content) ∧
    ∀ a, ¬ Relation.TransGen (generate Linked.registry .cpp Linked.options).Includes a a := by
  have hsuccess : (generate Linked.registry .cpp Linked.options).success = true := by
    decide +kernel
  obtain ⟨-, hcircle, hfields⟩ :=
    generate_includes Linked.build_registry .cpp Linked.options hsuccess
  obtain ⟨a, hfind, hincludes⟩ := hfields Linked.route (by decide)
  refine ⟨hsuccess, ⟨a, hfind, ?_, ?_⟩, hcircle⟩
  · obtain ⟨s, hs, hfile⟩ := hincludes _ List.mem_cons_self 2 List.mem_cons_self
    cases hs
    exact hfile
  · obtain ⟨s, hs, hfile⟩ := hincludes _ (List.mem_cons_of_mem _ List.mem_cons_self) 3
      List.mem_cons_self
    cases hs
    exact hfile

end Bindery
