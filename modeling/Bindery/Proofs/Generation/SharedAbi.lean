import Bindery.Proofs.Generation.Distinctness
import Bindery.Proofs.Generation.Locality
import Bindery.Proofs.Generation.NativeSide
import Mathlib.Data.List.Count

/-!
A C run and a C++ run over the same registry. Where the rules come to the same in both languages,
the same types are worked on, the same ones are left after errors and clashes, and the C headers
are the same. That C++ has twice as many files for each type makes no further clash: the additional
ones are called like the C headers with two letters more.
-/

set_option autoImplicit false

namespace Bindery

section
variable {r : Registry} {target : Target} {o : Options} {t : TypeDef}

theorem settled_of_mem_survivors (ht : t ∈ survivors r target o) :
    settled r target o t = processType (runContext r target o) t := by
  have hsome := (List.mem_filter.mp ht).2
  rw [settled] at hsome ⊢
  rcases withdrawClashing_cases _ _ (processType (runContext r target o) t) with
    ⟨-, hsame⟩ | ⟨-, errors, -, -, -, hwithdrawn⟩
  · exact hsame
  · rw [hwithdrawn] at hsome
    exact absurd hsome (by simp)

theorem mem_artifacts_of_runtime (hr : r.WellFormed) (ho : o.problem? target = none)
    {a : Artifact} (ha : a ∈ target.runtime) : a ∈ (generate r target o).artifacts := by
  rw [generate_eq hr ho, assembleReport]
  simp only [sortArtifacts, List.mem_mergeSort, List.mem_append, ha, or_true]

theorem mem_artifacts_of_survivor (hr : r.WellFormed) (ho : o.problem? target = none)
    (ht : t ∈ survivors r target o) {a : Artifact}
    (ha : a ∈ (processType (runContext r target o) t).artifacts) :
    a ∈ (generate r target o).artifacts := by
  obtain ⟨shared, -, -, hperm⟩ := artifacts_perm hr ho
  rw [hperm.mem_iff, List.mem_append, List.mem_flatMap]
  refine .inl ⟨t, (List.mem_filter.mp ht).1, ?_⟩
  rwa [settled_of_mem_survivors ht]

theorem findArtifact?_of_mem (hr : r.WellFormed) (ho : o.problem? target = none) {a : Artifact}
    (ha : a ∈ (generate r target o).artifacts) :
    (generate r target o).findArtifact? a.path = some a := by
  have hpaths : ((generate r target o).artifacts.map Artifact.path).Nodup := by
    refine List.Nodup.of_map Text.lower ?_
    rw [List.map_map]
    exact nodup_lower_paths hr ho
  cases hfind : (generate r target o).findArtifact? a.path with
  | none =>
    have hne := List.find?_eq_none.mp hfind a ha
    exact absurd (beq_self_eq_true a.path) hne
  | some b =>
    have hpath : b.path = a.path := by simpa using List.find?_some hfind
    exact congrArg some (List.inj_on_of_nodup_map hpaths (List.mem_of_find?_eq_some hfind) ha hpath)

theorem exists_error_iff (hr : r.WellFormed) (ho : o.problem? target = none) (id : TypeId) :
    (∃ d ∈ (generate r target o).errors, d.typeId = id) ↔
      ∃ t ∈ r.types, t.id = id ∧ ((runAvailability target o).ruleErrors t ≠ [] ∨
        t ∈ runTypes r target o ∧ t ∉ survivors r target o) := by
  have herrors : ∀ t ∈ runTypes r target o,
      (settled r target o t).errors = [] ↔ t ∈ survivors r target o := by
    intro t ht
    rw [survivors, List.mem_filter]
    rcases settled_cases hr ht with ⟨-, -, u, -, heq⟩ | ⟨-, hrefused⟩
    · simp [heq, ht]
    · simp [hrefused.errors, hrefused.generated]
  rw [generate_eq hr ho, assembleReport]
  simp only [Availability.select, Availability.selectFrom_errors, List.flatMap_map,
    List.mem_append, List.mem_flatMap]
  constructor
  · rintro ⟨d, ⟨t, ht, hd⟩ | ⟨t, ht, hd⟩, rfl⟩
    · exact ⟨t, ht, (Availability.ruleErrors_about _ t d hd).symm, .inl (List.ne_nil_of_mem hd)⟩
    · refine ⟨t, (mem_runTypes.mp ht).1, ((settled_owned hr ht).2.2.1 d hd).symm, .inr ⟨ht, ?_⟩⟩
      rw [← herrors t ht]
      exact List.ne_nil_of_mem hd
  · rintro ⟨t, ht, rfl, hrules | ⟨hrun, hlost⟩⟩
    · obtain ⟨d, hd⟩ := List.exists_mem_of_ne_nil _ hrules
      exact ⟨d, .inl ⟨t, ht, hd⟩, Availability.ruleErrors_about _ t d hd⟩
    · rw [← herrors t hrun] at hlost
      obtain ⟨d, hd⟩ := List.exists_mem_of_ne_nil _ hlost
      exact ⟨d, .inr ⟨t, hrun, hd⟩, (settled_owned hr hrun).2.2.1 d hd⟩

theorem toNames_target (hr : r.WellFormed) (target target' : Target) (enabled : List TypeId) :
    (nameTable target (enabledTypes r enabled)).toNames =
      (nameTable target' (enabledTypes r enabled)).toNames := by
  have hfind : ∀ (target : Target) (id : TypeId),
      (nameTable target (enabledTypes r enabled)).find? id = (r.find? id).bind fun t =>
        if enabled.contains t.id then some (nameEntry target t) else none := by
    intro target id
    rw [NameTable.find?, nameTable_entries hr]
    exact lookup_table hr _ _ id
  -- entries differ in their files alone, which headers do not read
  have hread : ∀ {β : Type} (read : Option NameEntry → β),
      (∀ t, read (some (nameEntry target t)) = read (some (nameEntry target' t))) → ∀ id,
        read ((nameTable target (enabledTypes r enabled)).find? id) =
          read ((nameTable target' (enabledTypes r enabled)).find? id) := by
    intro β read hsame id
    rw [hfind, hfind]
    cases r.find? id with
    | none => rfl
    | some t =>
      rw [Option.bind_some, Option.bind_some]
      split_ifs
      · exact hsame t
      · rfl
  have hname : (nameTable target (enabledTypes r enabled)).toNames.name =
      (nameTable target' (enabledTypes r enabled)).toNames.name :=
    funext (hread (fun e => (e.map NameEntry.name).getD []) fun _ => rfl)
  have hkind : (nameTable target (enabledTypes r enabled)).toNames.kind =
      (nameTable target' (enabledTypes r enabled)).toNames.kind :=
    funext (hread (fun e => e.bind fun e => Kind.ofName? e.kind) fun _ => rfl)
  have htypes : (nameTable target (enabledTypes r enabled)).hasType =
      (nameTable target' (enabledTypes r enabled)).hasType := by
    funext name
    rw [Bool.eq_iff_iff, nameTable_hasType hr, nameTable_hasType hr]
  exact Names.mk.injEq _ _ _ _ _ _ |>.mpr ⟨hname, hkind, htypes⟩

end

/-- The additional files of C++ are called like the C headers, with two letters more. -/
theorem fileKeys_cpp (t : TypeDef) :
    Target.cpp.fileKeys t =
      Target.c.fileKeys t ++ (Target.c.fileKeys t).map fun key => key ++ ascii "pp" := by
  simp only [Target.fileKeys, Target.unitFiles, UnitFile.declaration, UnitFile.functions,
    UnitFile.hostDeclaration, UnitFile.hostDefinitions, List.map_cons, List.map_nil, lower_append,
    List.append_assoc]
  rfl

theorem append_not_mem_fileKeys_c (key : Text) (t : TypeDef) :
    key ++ ascii "pp" ∉ Target.c.fileKeys t := by
  intro hmem
  simp only [Target.fileKeys, Target.unitFiles, UnitFile.declaration, UnitFile.functions,
    List.map_cons, List.map_nil, List.mem_cons, List.not_mem_nil, or_false, lower_append] at hmem
  -- the last letters are told apart: `p` here, `h` in a C header
  have hlast : (key ++ ascii "pp").getLast? = some 112 := List.getLast?_append
  have hne : some (104 : UInt8) ≠ some 112 := by decide
  rcases hmem with hmem | hmem <;> rw [hmem, List.getLast?_append] at hlast <;> exact hne hlast

theorem count_fileKeys_cpp (types : List TypeDef) (key : Text) :
    (types.flatMap Target.cpp.fileKeys).count key =
      (types.flatMap Target.c.fileKeys).count key +
        ((types.flatMap Target.c.fileKeys).map fun k => k ++ ascii "pp").count key := by
  induction types with
  | nil => rfl
  | cons t ts ih =>
    simp only [List.flatMap_cons, fileKeys_cpp, List.map_append, List.count_append, ih]
    omega

theorem count_cHeader {types : List TypeDef} {t : TypeDef} {key : Text}
    (h : key ∈ Target.c.fileKeys t) :
    (types.flatMap Target.cpp.fileKeys).count key =
      (types.flatMap Target.c.fileKeys).count key := by
  have hnone : key ∉ (types.flatMap Target.c.fileKeys).map fun k => k ++ ascii "pp" := by
    intro hmem
    obtain ⟨k, -, rfl⟩ := List.mem_map.mp hmem
    exact append_not_mem_fileKeys_c k t h
  rw [count_fileKeys_cpp, List.count_eq_zero_of_not_mem hnone, Nat.add_zero]

theorem count_hostHeader (types : List TypeDef) (key : Text) :
    (types.flatMap Target.cpp.fileKeys).count (key ++ ascii "pp") =
      (types.flatMap Target.c.fileKeys).count key := by
  have hnone : key ++ ascii "pp" ∉ types.flatMap Target.c.fileKeys := by
    intro hmem
    obtain ⟨t, -, hkey⟩ := List.mem_flatMap.mp hmem
    exact append_not_mem_fileKeys_c key t hkey
  have hinjective : Function.Injective fun k : Text => k ++ ascii "pp" :=
    fun _ _ h => List.append_cancel_right h
  rw [count_fileKeys_cpp, List.count_eq_zero_of_not_mem hnone, Nat.zero_add]
  exact List.count_map_of_injective _ _ hinjective key

theorem file_clash_iff (types : List TypeDef) (t : TypeDef) :
    (∃ file ∈ Target.c.fileKeys t, 2 ≤ (types.flatMap Target.c.fileKeys).count file) ↔
      ∃ file ∈ Target.cpp.fileKeys t, 2 ≤ (types.flatMap Target.cpp.fileKeys).count file := by
  constructor
  · rintro ⟨file, hfile, htwice⟩
    refine ⟨file, ?_, ?_⟩
    · rw [fileKeys_cpp]
      exact List.mem_append_left _ hfile
    · rwa [count_cHeader hfile]
  · rintro ⟨file, hfile, htwice⟩
    rw [fileKeys_cpp, List.mem_append, List.mem_map] at hfile
    rcases hfile with hfile | ⟨key, hkey, rfl⟩
    · exact ⟨file, hfile, by rwa [count_cHeader hfile] at htwice⟩
    · exact ⟨key, hkey, by rwa [count_hostHeader] at htwice⟩

/-- The options of a C run and of a C++ run under which the rules come to the same and values have
the same size. -/
structure Registry.AlikeUnder (r : Registry) (o o' : Options) : Prop where
  pointerWidth : o.pointerWidth = o'.pointerWidth
  types : ∀ t ∈ r.types, (runAvailability .c o).Agree (runAvailability .cpp o') t.rules
  methods : ∀ t ∈ r.types, ∀ m ∈ t.methods,
    (runAvailability .c o).Agree (runAvailability .cpp o') m.rules

namespace Registry.AlikeUnder

variable {r : Registry} {o o' : Options} {t : TypeDef} (h : r.AlikeUnder o o')
include h

theorem runTypes_eq : runTypes r .c o = runTypes r .cpp o' :=
  List.filter_congr fun t ht => (h.types t ht).enables_eq

theorem enabledMethods_eq (ht : t ∈ r.types) :
    (runAvailability .c o).enabledMethods t = (runAvailability .cpp o').enabledMethods t :=
  List.filter_congr fun m hm => (h.methods t ht m hm).enables_eq

theorem exportedSymbols_eq (ht : t ∈ r.types) :
    (runAvailability .c o).exportedSymbols t = (runAvailability .cpp o').exportedSymbols t := by
  rw [Availability.exportedSymbols, Availability.exportedSymbols, h.enabledMethods_eq ht]

theorem declaredIdentifiers_eq (ht : t ∈ r.types) :
    (runAvailability .c o).declaredIdentifiers t =
      (runAvailability .cpp o').declaredIdentifiers t := by
  rw [Availability.declaredIdentifiers, Availability.declaredIdentifiers, h.enabledMethods_eq ht,
    h.exportedSymbols_eq ht]

theorem ruleErrors_iff (ht : t ∈ r.types) :
    (runAvailability .c o).ruleErrors t = [] ↔ (runAvailability .cpp o').ruleErrors t = [] := by
  have hresolved : ∀ a : Availability, a.ruleErrors t = [] ↔
      (resolveRules t.rules a.target a.features).toOption.isSome = true := by
    intro a
    rw [Availability.ruleErrors, Availability.ofType]
    cases resolveRules t.rules a.target a.features <;> simp [Except.toOption]
  rw [hresolved, hresolved, h.types t ht]

theorem runContext_parallel (hr : r.WellFormed) :
    (runContext r .c o).Parallel (runContext r .cpp o') := by
  have henabled : ((runAvailability .c o).select r).enabled =
      ((runAvailability .cpp o').select r).enabled := by
    rw [Availability.select, Availability.select, Availability.selectFrom_enabled,
      Availability.selectFrom_enabled]
    exact congrArg (List.map TypeDef.id) h.runTypes_eq
  refine ⟨rfl, rfl, rfl, henabled, h.pointerWidth, ?_⟩
  rw [runContext, runContext, henabled]
  exact toNames_target hr _ _ _

theorem methods_agree (ht : t ∈ r.types) : ∀ m ∈ t.methods,
    (runContext r .c o).availability.Agree (runContext r .cpp o').availability m.rules :=
  h.methods t ht

theorem cleanTypes_eq (hr : r.WellFormed) : cleanTypes r .c o = cleanTypes r .cpp o' := by
  rw [cleanTypes, cleanTypes, h.runTypes_eq]
  apply List.filter_congr
  intro t ht
  rw [Bool.eq_iff_iff, List.isEmpty_iff, List.isEmpty_iff]
  exact (h.runContext_parallel hr).processType_errors_iff (h.methods_agree (mem_runTypes.mp ht).1)

theorem clashes_iff (hr : r.WellFormed) (ht : t ∈ r.types) :
    Clashes r .c o t ↔ Clashes r .cpp o' t := by
  have hdeclared : (cleanTypes r .cpp o').flatMap (runAvailability .c o).declaredIdentifiers =
      (cleanTypes r .cpp o').flatMap (runAvailability .cpp o').declaredIdentifiers := by
    apply List.flatMap_congr
    intro s hs
    exact h.declaredIdentifiers_eq (mem_runTypes.mp (mem_cleanTypes.mp hs).1).1
  -- identifiers are C ones in both runs; files are where C++ has more
  rw [Clashes, Clashes, h.cleanTypes_eq hr, hdeclared, h.declaredIdentifiers_eq ht, file_clash_iff]

theorem survivors_eq (hr : r.WellFormed) : survivors r .c o = survivors r .cpp o' := by
  have hmem : ∀ t ∈ r.types, t ∈ survivors r .c o ↔ t ∈ survivors r .cpp o' := by
    intro t ht
    rw [mem_survivors hr, mem_survivors hr, h.cleanTypes_eq hr, h.clashes_iff hr ht]
  rw [survivors, survivors, h.runTypes_eq]
  apply List.filter_congr
  intro t ht
  have hiff := hmem t (mem_runTypes.mp ht).1
  simp only [survivors, List.mem_filter, h.runTypes_eq, ht, true_and] at hiff
  exact Bool.eq_iff_iff.mpr hiff

theorem units_eq (hr : r.WellFormed) (ho : o.problem? .c = none) (ho' : o'.problem? .cpp = none) :
    (generate r .c o).units = (generate r .cpp o').units := by
  rw [generate_eq hr ho, generate_eq hr ho', assembleReport, assembleReport]
  simp only [unitsOf_settled hr, h.survivors_eq hr]
  apply List.map_congr_left
  intro t ht
  rw [h.exportedSymbols_eq (mem_runTypes.mp (List.mem_filter.mp ht).1).1]

theorem mem_artifacts (hr : r.WellFormed) (ho : o.problem? .c = none)
    (ho' : o'.problem? .cpp = none) (ht : t ∈ survivors r .c o) {path : Text}
    (hpath : path ∈ Target.c.unitFiles t.name) :
    ∃ a, a.path = path ∧ a ∈ (generate r .c o).artifacts ∧ a ∈ (generate r .cpp o').artifacts := by
  obtain ⟨u, hu, hp⟩ := clean_rendered hr ((mem_survivors hr).mp ht).1
  rw [← hu.paths] at hpath
  obtain ⟨a, ha, rfl⟩ := List.mem_map.mp hpath
  have hc : a ∈ (processType (runContext r .c o) t).artifacts := by
    rw [hp]
    exact ha
  obtain ⟨host, hcpp⟩ := (h.runContext_parallel hr).processType_artifacts_eq
    (h.methods_agree (mem_runTypes.mp (List.mem_filter.mp ht).1).1)
  refine ⟨a, rfl, mem_artifacts_of_survivor hr ho ht hc,
    mem_artifacts_of_survivor hr ho' (h.survivors_eq hr ▸ ht) ?_⟩
  rw [hcpp]
  exact List.mem_append_left _ hc

end Registry.AlikeUnder

/-- C++ ships the C interface that C ships. Where the rules come to the same for both, the two runs
have the same units, the same types fail, and each C header is the same artifact in both. -/
theorem generate_shared_abi {library : Text} {types : List TypeDef} {r : Registry}
    (hr : Registry.build library types = .ok r) (o o' : Options) (ho : o.problem? .c = none)
    (ho' : o'.problem? .cpp = none) (hwidth : o.pointerWidth = o'.pointerWidth)
    (hrules : ∀ t ∈ r.types,
      (runAvailability .c o).Agree (runAvailability .cpp o') t.rules ∧
      ∀ m ∈ t.methods, (runAvailability .c o).Agree (runAvailability .cpp o') m.rules) :
    (generate r .c o).units = (generate r .cpp o').units ∧
    (∀ id, (∃ d ∈ (generate r .c o).errors, d.typeId = id) ↔
      ∃ d ∈ (generate r .cpp o').errors, d.typeId = id) ∧
    ∀ path ∈ CRuntime.file :: (generate r .c o).units.flatMap fun u =>
        [UnitFile.declaration u.typeName, UnitFile.functions u.typeName],
      ∃ a, (generate r .c o).findArtifact? path = some a ∧
        (generate r .cpp o').findArtifact? path = some a := by
  have hwf := Registry.build_wellFormed hr
  have h : r.AlikeUnder o o' := ⟨hwidth, fun t ht => (hrules t ht).1, fun t ht => (hrules t ht).2⟩
  refine ⟨h.units_eq hwf ho ho', fun id => ?_, fun path hpath => ?_⟩
  · rw [exists_error_iff hwf ho, exists_error_iff hwf ho', h.runTypes_eq, h.survivors_eq hwf]
    refine exists_congr fun t => and_congr_right fun ht => ?_
    rw [ne_eq, ne_eq, h.ruleErrors_iff ht]
  · have hboth : ∃ a, a.path = path ∧ a ∈ (generate r .c o).artifacts ∧
        a ∈ (generate r .cpp o').artifacts := by
      rcases List.mem_cons.mp hpath with rfl | hpath
      · exact ⟨Target.cArtifact CRuntime.header 0, rfl,
          mem_artifacts_of_runtime hwf ho (by simp [Target.runtime]),
          mem_artifacts_of_runtime hwf ho' (by simp [Target.runtime])⟩
      · obtain ⟨u, hu, hpath⟩ := List.mem_flatMap.mp hpath
        rw [generate_eq hwf ho, assembleReport] at hu
        simp only [unitsOf_settled hwf] at hu
        obtain ⟨t, ht, rfl⟩ := List.mem_map.mp hu
        exact h.mem_artifacts hwf ho ho' ht hpath
    obtain ⟨a, rfl, hc, hcpp⟩ := hboth
    exact ⟨a, findArtifact?_of_mem hwf ho hc, findArtifact?_of_mem hwf ho' hcpp⟩

namespace Bilingual

def gauge : TypeDef :=
  ⟨1, "Gauge", [], [], .object
    [⟨"read", [], [⟨"c", [], true⟩], .shared, [⟨"at", .record 2 true⟩],
        .nullable (.primitive .f64)⟩,
      ⟨"open", [], [], .absent, [⟨"name", .slice .utf8 false⟩],
        .fallible (.object 1 .owned false) (.primitive .i32)⟩,
      ⟨"tune", [], [⟨"c", [], false⟩, ⟨"cpp", [], false⟩], .exclusive, [], .unit⟩]⟩

def place : TypeDef := ⟨2, "Place", [], [], .record [⟨"x", [], .primitive .f32⟩] []⟩

def hollow : TypeDef := ⟨3, "Hollow", [], [], .record [] []⟩

def torn : TypeDef := ⟨4, "Torn", [], [⟨"*", [], true⟩, ⟨"*", [], false⟩], .synonym .u8⟩

def registry : Registry := ⟨"bilingual", [gauge, place, hollow, torn]⟩

def cOptions : Options := ⟨[], 64, [], 1, true⟩

def cppOptions : Options := ⟨[], 64, "weld", 4, false⟩

theorem build_registry :
    Registry.build "bilingual" [gauge, place, hollow, torn] = .ok registry :=
  Registry.build_of_increasing _ (by decide) (by decide)

end Bilingual

theorem generate_shared_abi_bilingual :
    (generate Bilingual.registry .cpp Bilingual.cppOptions).units =
      [⟨1, "Gauge", ["Gauge_read", "Gauge_open", "Gauge_destroy"]⟩, ⟨2, "Place", []⟩] ∧
    (∃ d ∈ (generate Bilingual.registry .cpp Bilingual.cppOptions).errors, d.typeId = 4) ∧
    ∃ a, (generate Bilingual.registry .c Bilingual.cOptions).findArtifact? "Gauge.h" = some a ∧
      (generate Bilingual.registry .cpp Bilingual.cppOptions).findArtifact? "Gauge.h" = some a := by
  have h := generate_shared_abi Bilingual.build_registry Bilingual.cOptions Bilingual.cppOptions
    (by decide) (by decide) rfl (by decide +kernel)
  have hunits : (generate Bilingual.registry .c Bilingual.cOptions).units =
      [⟨1, "Gauge", ["Gauge_read", "Gauge_open", "Gauge_destroy"]⟩, ⟨2, "Place", []⟩] := by
    decide +kernel
  have hfails : ∃ d ∈ (generate Bilingual.registry .c Bilingual.cOptions).errors,
      d.typeId = 4 := by decide +kernel
  refine ⟨h.1 ▸ hunits, (h.2.1 4).mp hfails, h.2.2 "Gauge.h" ?_⟩
  rw [hunits]
  decide

end Bindery
