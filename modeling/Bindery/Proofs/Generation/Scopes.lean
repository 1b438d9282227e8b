import Bindery.Proofs.Generation.Includes
import Bindery.Proofs.Header.Identifiers
import Bindery.Proofs.Registry.Building

/-!
Names that stand in one scope: the parameters of a prototype, the members of a structure or class,
the constants of an enumeration. A run tells the names of an interface apart before they are
escaped, and parameters not at all, so what a successful run leaves open is which names fall
together when they are escaped.
-/

set_option autoImplicit false

namespace Bindery

theorem nodup_map_cons {α : Type} {f : α → Text} {x : α} {xs : List α} {seen : List Text}
    (hx : f x ∉ seen) (hxs : ∀ y ∈ xs, f y ∉ f x :: seen) (hnodup : (xs.map f).Nodup) :
    (∀ y ∈ x :: xs, f y ∉ seen) ∧ ((x :: xs).map f).Nodup := by
  refine ⟨List.forall_mem_cons.mpr ⟨hx, fun y hy hmem => ?_⟩, List.nodup_cons.mpr ⟨?_, hnodup⟩⟩
  · exact hxs y hy (List.mem_cons_of_mem _ hmem)
  · intro hmem
    obtain ⟨y, hy, hname⟩ := List.mem_map.mp hmem
    exact hxs y hy (hname ▸ List.mem_cons_self ..)

section
variable {c : Context} {t : TypeDef}

theorem planFields_eq_nil {seen : List Text} {fields : List Field}
    (h : (planFields c t seen fields).2 = []) :
    (planFields c t seen fields).1.map FieldPlan.field = fields ∧
      (∀ f ∈ fields, f.name ∉ seen) ∧ (fields.map Field.name).Nodup := by
  induction fields generalizing seen with
  | nil => exact ⟨rfl, List.forall_mem_nil _, List.nodup_nil⟩
  | cons f fs ih =>
    rw [planFields] at h ⊢
    cases hmapped : c.mapper.map f.type .field [] with
    | error fault => simp [hmapped] at h
    | ok mapped =>
      simp only [hmapped, List.append_eq_nil_iff] at h ⊢
      obtain ⟨hrest, hfresh, hnodup⟩ := ih h.2
      have hname : f.name ∉ seen := by
        intro hmem
        simp [hmem] at h
      exact ⟨by rw [List.map_cons, hrest], nodup_map_cons hname hfresh hnodup⟩

theorem symbolProblems_eq_nil {seen : List Text} {ms : List Method}
    (h : symbolProblems t seen ms = []) :
    (∀ m ∈ ms, methodSymbol t m ∉ seen) ∧ (ms.map (methodSymbol t)).Nodup := by
  induction ms generalizing seen with
  | nil => exact ⟨List.forall_mem_nil _, List.nodup_nil⟩
  | cons m ms ih =>
    rw [symbolProblems] at h
    split_ifs at h with hdestructor hseen
    obtain ⟨hfresh, hnodup⟩ := ih h
    exact nodup_map_cons (by simpa using hseen) hfresh hnodup

theorem fieldClashes_eq_nil {ms : List Method} (h : fieldClashes t ms = []) :
    ∀ f ∈ t.fields, ∀ m ∈ ms, f.name ≠ m.name := by
  intro f hf m hm hname
  rw [fieldClashes, List.map_eq_nil_iff, List.filter_eq_nil_iff] at h
  exact h m hm (List.any_eq_true.mpr ⟨f, hf, beq_iff_eq.mpr hname⟩)

end

section
variable {r : Registry} {target : Target} {o : Options} {t : TypeDef}

theorem draft_of_mem_survivors (hr : r.WellFormed) (ht : t ∈ survivors r target o) :
    checkSymbols t ((runAvailability target o).enabledMethods t) = [] ∧
    (planDefinition (runContext r target o) t
      ((runAvailability target o).enabledMethods t)).2 = [] ∧
    (runPlan r target o t).fields = (planDefinition (runContext r target o) t
      ((runAvailability target o).enabledMethods t)).1 ∧
    List.Forall₂ (fun m p => planMethod (runContext r target o) t m = .ok p)
      ((runAvailability target o).enabledMethods t) (runPlan r target o t).methods := by
  have hmethods : (selectMethods (runContext r target o).availability t t.methods).methods =
      (runAvailability target o).enabledMethods t := selectMethods_methods _ _ _
  have hdraft := (processType_of_mem_survivors hr ht).1
  have hplans : (runPlan r target o t).methods = (partitionResults
      (((runAvailability target o).enabledMethods t).map
        (planMethod (runContext r target o) t))).1 := by
    rw [← hmethods]
    rfl
  have hfields : (runPlan r target o t).fields = (planDefinition (runContext r target o) t
      ((runAvailability target o).enabledMethods t)).1 := by
    rw [← hmethods]
    rfl
  simp only [draftType, List.append_eq_nil_iff, hmethods] at hdraft
  obtain ⟨⟨⟨-, hsymbols⟩, hdefinition⟩, hplanned⟩ := hdraft
  exact ⟨hsymbols, hdefinition, hfields, hplans ▸ partitionResults_forall₂ hplanned⟩

/-- The names of an interface that end up in the scope of a class. -/
def memberNames (target : Target) (o : Options) (t : TypeDef) : List Text :=
  t.fields.map Field.name ++ ((runAvailability target o).enabledMethods t).map Method.name

theorem planRecord_eq_nil {c : Context} {ms : List Method} (h : (planRecord c t ms).2 = []) :
    (planRecord c t ms).1.map FieldPlan.field = t.fields ∧ (t.fields.map Field.name).Nodup ∧
      ∀ f ∈ t.fields, ∀ m ∈ ms, f.name ≠ m.name := by
  unfold planRecord at h ⊢
  split_ifs at h with hempty
  cases hlayout : c.mapper.recordLayout t with
  | error fault => simp [hlayout] at h
  | ok layout =>
    simp only [hlayout, List.append_eq_nil_iff] at h
    obtain ⟨hfields, -, hnodup⟩ := planFields_eq_nil h.1
    simp only [hempty]
    exact ⟨hfields, hnodup, fieldClashes_eq_nil h.2⟩

theorem planDefinition_eq_nil {c : Context} {ms : List Method}
    (h : (planDefinition c t ms).2 = []) :
    (planDefinition c t ms).1.map FieldPlan.field = t.fields ∧ (t.fields.map Field.name).Nodup ∧
      ∀ f ∈ t.fields, ∀ m ∈ ms, f.name ≠ m.name := by
  unfold planDefinition at h ⊢
  unfold TypeDef.kind at h ⊢
  cases hshape : t.shape with
  | record fields methods =>
    simp only [hshape, Shape.kind] at h
    exact planRecord_eq_nil h
  | _ => simp [TypeDef.fields, hshape, Shape.kind]

theorem memberNames_nodup (hr : r.WellFormed) (ht : t ∈ survivors r target o) :
    (memberNames target o t).Nodup := by
  obtain ⟨hsymbols, hdefinition, -, -⟩ := draft_of_mem_survivors hr ht
  obtain ⟨-, hfields, hclash⟩ := planDefinition_eq_nil hdefinition
  have hmethods : (((runAvailability target o).enabledMethods t).map Method.name).Nodup := by
    -- the run compares symbols, which are names behind that of the type
    refine List.Nodup.of_map (fun name => t.name ++ ascii "_" ++ name) ?_
    rw [List.map_map]
    exact (symbolProblems_eq_nil hsymbols).2
  refine List.nodup_append'.mpr ⟨hfields, hmethods, fun name hfield hmethod => ?_⟩
  obtain ⟨f, hf, rfl⟩ := List.mem_map.mp hfield
  obtain ⟨m, hm, hname⟩ := List.mem_map.mp hmethod
  exact hclash f hf m hm hname.symm

end

def Signature.spelledNames (s : Signature) : List Text :=
  s.params.map fun p => Identifier.escape p.name

def CDecl.signature? : CDecl → Option Signature
  | .function _ _ signature => some signature
  | _ => none

def CHeader.signatures (h : CHeader) : List Signature := h.decls.filterMap CDecl.signature?

theorem Header.infix_render {δ : Type} {declText : δ → Text} {h : Header δ} {d : δ}
    (hd : d ∈ h.decls) : declText d <:+: h.render declText := by
  have hdecls : declText d <:+: h.decls.flatMap declText :=
    List.infix_of_mem_flatten (List.mem_map_of_mem hd)
  refine hdecls.trans ⟨banner ++ openGuard h.file ++ includeText h.includes ++ h.scope.opening,
    h.scope.closing ++ closeGuard h.file, ?_⟩
  simp only [render, List.append_assoc]

theorem CHeader.prototype_infix {h : CHeader} {s : Signature} (hs : s ∈ h.signatures) :
    s.prototype ++ ascii ";" <:+: h.text := by
  obtain ⟨d, hd, hsome⟩ := List.mem_filterMap.mp hs
  cases d with
  | function docs contract signature =>
    cases hsome
    refine List.IsInfix.trans ⟨docComment [] docs contract, ascii "\n\n", ?_⟩
      (Header.infix_render hd)
    have hend : ascii ";\n\n" = ascii ";" ++ ascii "\n\n" := rfl
    simp only [CDecl.text, hend, List.append_assoc]
  | _ => cases hsome

theorem functionHeader_signatures (p : TypePlan) (names : Names) :
    CHeader.signatures (p.functionHeader names) = p.methods.map MethodPlan.signature := by
  have hresults : (p.methods.filterMap fun m => m.signature.outcome.map fun o =>
      CDecl.result o.record).filterMap CDecl.signature? = [] := by
    rw [List.filterMap_eq_nil_iff]
    intro d hd
    obtain ⟨m, -, hsome⟩ := List.mem_filterMap.mp hd
    obtain ⟨o, -, rfl⟩ := Option.map_eq_some_iff.mp hsome
    rfl
  have hfunctions : (p.methods.map fun m => CDecl.function m.method.docs m.transfers.describe
      m.signature).filterMap CDecl.signature? = p.methods.map MethodPlan.signature := by
    rw [List.filterMap_map, ← List.filterMap_eq_map]
    rfl
  have hdestructor : (p.destructor.toList.map (.destructor p.type.name)).filterMap
      CDecl.signature? = [] := by
    cases p.destructor <;> rfl
  simp only [CHeader.signatures, TypePlan.functionHeader, TypePlan.functionDecls,
    List.filterMap_append, hresults, hfunctions, hdestructor, List.nil_append, List.append_nil]

section
variable {m : Mapper} {owner : TypeDef} {method : Method} {s : Signature}

theorem signature_names (h : m.signature owner method = .ok s) :
    ∃ self hidden : List Text,
      s.params.map AbiParam.name = self ++ method.params.map Param.name ++ hidden ∧
      (self ++ hidden).Sublist hiddenNames ∧ ∀ p ∈ method.params, p.name ∉ hiddenNames := by
  obtain ⟨receiver, declared, returns, outcome, -, hparams, -, -, rfl⟩ :=
    Mapper.signature_eq_ok_iff.mp h
  have hdeclared := Mapper.mapParams_eq_ok_iff.mp hparams
  refine ⟨receiver.toList.map fun _ => selfParam,
    (if Mapper.writesText method.returns then [writeParam] else []) ++
      if Mapper.passingOf returns.native m.pointerWidth = .out then [outParam] else [],
    ?_, ?_, ((List.forall₂_and_left _ _).mp hdeclared).1⟩
  · rw [Mapper.abiParams]
    simp only [List.map_append, List.append_assoc]
    rw [map_map_zip hdeclared.length_eq _ AbiParam.name Param.name]
    · simp only [List.map_map, apply_ite (List.map AbiParam.name), List.map_cons, List.map_nil]
      rfl
    · exact fun _ => rfl
  · have hself : (receiver.toList.map fun _ => selfParam).Sublist [selfParam] := by
      cases receiver <;> simp
    have hoptional : ∀ (b : Prop) [Decidable b] (name : Text),
        (if b then [name] else []).Sublist [name] := by
      intro b _ name
      split_ifs <;> simp
    exact hself.append ((hoptional _ _).append (hoptional _ _))

/-- The hidden parameters are no reserved words and do not end in an underscore, so only declared
ones fall together. -/
theorem spelledNames_nodup_iff (h : m.signature owner method = .ok s) :
    s.spelledNames.Nodup ↔ (method.params.map Param.name).Nodup ∧
      ¬ Identifier.Merges (method.params.map Param.name) := by
  obtain ⟨self, hidden, hnames, hsublist, hvisible⟩ := signature_names h
  have hmem : ∀ name, name ∈ s.params.map AbiParam.name →
      name ∈ method.params.map Param.name ∨ name ∈ hiddenNames := by
    intro name hname
    rw [hnames, List.mem_append, List.mem_append] at hname
    rcases hname with (hself | hdeclared) | hlast
    · exact .inr (hsublist.subset (List.mem_append_left _ hself))
    · exact .inl hdeclared
    · exact .inr (hsublist.subset (List.mem_append_right _ hlast))
  have hnodup : (s.params.map AbiParam.name).Nodup ↔ (method.params.map Param.name).Nodup := by
    have hdisjoint : (method.params.map Param.name).Disjoint (self ++ hidden) := by
      intro name hname hhidden
      obtain ⟨p, hp, rfl⟩ := List.mem_map.mp hname
      exact hvisible p hp (hsublist.subset hhidden)
    rw [hnames, List.append_assoc, (List.perm_append_comm_assoc self _ hidden).nodup_iff,
      List.nodup_append']
    exact and_iff_left ⟨List.Nodup.sublist hsublist (by decide), hdisjoint⟩
  have hmerges : Identifier.Merges (s.params.map AbiParam.name) ↔
      Identifier.Merges (method.params.map Param.name) := by
    constructor
    · rintro ⟨word, hword, hreserved, hother⟩
      refine ⟨word, (hmem word hword).resolve_right fun hhidden => ?_, hreserved,
        (hmem _ hother).resolve_right fun hhidden => ?_⟩
      · rw [(Identifier.of_mem_hiddenNames hhidden).1] at hreserved
        cases hreserved
      · exact (Identifier.of_mem_hiddenNames hhidden).2 List.getLast?_append
    · rintro ⟨word, hword, hreserved, hother⟩
      have hsub : ∀ name ∈ method.params.map Param.name, name ∈ s.params.map AbiParam.name := by
        intro name hname
        rw [hnames]
        exact List.mem_append_left _ (List.mem_append_right _ hname)
      exact ⟨word, hsub _ hword, hreserved, hsub _ hother⟩
  have hspelled : s.spelledNames = (s.params.map AbiParam.name).map Identifier.escape := by
    rw [List.map_map]
    rfl
  rw [hspelled, Identifier.nodup_escape_iff, hnodup, hmerges]

end

section
variable {r : Registry} {target : Target} {o : Options} {t : TypeDef}

theorem cArtifact_mem_runHeaders :
    Target.cArtifact ((runPlan r target o t).declarationHeader (runContext r target o).names) t.id ∈
        runHeaders r target o t ∧
      Target.cArtifact ((runPlan r target o t).functionHeader (runContext r target o).names) t.id ∈
        runHeaders r target o t := by
  cases target <;> simp [runHeaders, Target.render, runPlan_type]

theorem cppArtifact_mem_runHeaders :
    Target.cppArtifact ((runPlan r .cpp o t).hostDeclarationHeader (runContext r .cpp o).names
      o.hostNamespace) t.id ∈ runHeaders r .cpp o t := by
  simp [runHeaders, Target.render, runPlan_type]

end

/-- In a successful run the function header of a type has one prototype for each enabled method. Its
parameters are spelled differently exactly if the declared names differ and none of them is a
reserved word beside the name it is escaped to. -/
theorem prototypes_distinct_iff {library : Text} {types : List TypeDef} {r : Registry}
    (hr : Registry.build library types = .ok r) (target : Target) (o : Options)
    (h : (generate r target o).success = true) {t : TypeDef} (ht : t ∈ runTypes r target o) :
    let header := (runPlan r target o t).functionHeader (runContext r target o).names
    (generate r target o).findArtifact? (UnitFile.functions t.name) =
      some ⟨UnitFile.functions t.name, CHeader.text header, t.id⟩ ∧
    List.Forall₂ (fun m s => (runContext r target o).mapper.signature t m = .ok s ∧
        s.prototype ++ ascii ";" <:+: CHeader.text header ∧
        (s.spelledNames.Nodup ↔ (m.params.map Param.name).Nodup ∧
          ¬ Identifier.Merges (m.params.map Param.name)))
      ((runAvailability target o).enabledMethods t) (CHeader.signatures header) := by
  have hwf := Registry.build_wellFormed hr
  have ho := problem?_eq_none_of_success h
  have hsurvives := mem_survivors_of_success hwf h ht
  obtain ⟨-, -, -, hplans⟩ := draft_of_mem_survivors hwf hsurvives
  refine ⟨findArtifact?_of_mem hwf ho (mem_artifacts_of_headers hwf ho hsurvives
    cArtifact_mem_runHeaders.2), ?_⟩
  rw [functionHeader_signatures, List.forall₂_map_right_iff]
  -- pair by pair, so that a signature is known to be one of the header
  obtain ⟨hlength, hplanned⟩ := List.forall₂_iff_zip.mp hplans
  refine List.forall₂_iff_zip.mpr ⟨hlength, fun {m p} hmp => ?_⟩
  obtain ⟨-, hsignature, -⟩ := planMethod_eq_ok_iff.mp (hplanned hmp)
  refine ⟨hsignature, CHeader.prototype_infix ?_, spelledNames_nodup_iff hsignature⟩
  rw [functionHeader_signatures]
  exact List.mem_map_of_mem (List.of_mem_zip hmp).2

namespace Moving

def move : Method :=
  ⟨"move", [], [], .shared, [⟨"dx", .primitive .i32⟩, ⟨"dx", .primitive .i32⟩], .unit⟩

def mark : Method :=
  ⟨"mark", [], [], .absent, [⟨"class", .primitive .i32⟩, ⟨"class_", .primitive .i32⟩], .unit⟩

def describe : Method :=
  ⟨"describe", [], [], .shared, [⟨"class", .primitive .i32⟩, ⟨"dx", .primitive .i32⟩],
    .fallible .writeable .unit⟩

def plot : TypeDef := ⟨1, "Plot", [], [], .object [move, mark, describe]⟩

def registry : Registry := ⟨"moving", [plot]⟩

def options : Options := ⟨[], 64, [], 0, false⟩

theorem build_registry : Registry.build "moving" [plot] = .ok registry :=
  Registry.build_of_increasing _ (by decide) (by decide)

def header : CHeader :=
  (runPlan registry .c options plot).functionHeader (runContext registry .c options).names

theorem run : (generate registry .c options).success = true ∧
    Identifier.Merges (mark.params.map Param.name) ∧
    ¬ Identifier.Merges (describe.params.map Param.name) ∧
    ∃ s ∈ header.signatures, ¬ s.spelledNames.Nodup := by
  decide +kernel

theorem plot_mem : plot ∈ runTypes registry .c options :=
  mem_runTypes.mpr ⟨List.mem_singleton_self _, rfl⟩

end Moving

theorem prototypes_distinct_plot :
    (generate Moving.registry .c Moving.options).success = true ∧
    ∃ moved marked described, Moving.header.signatures = [moved, marked, described] ∧
      ¬ moved.spelledNames.Nodup ∧ ¬ marked.spelledNames.Nodup ∧ described.spelledNames.Nodup := by
  obtain ⟨hsuccess, hmark, hdescribe, -⟩ := Moving.run
  have hmethods : (runAvailability .c Moving.options).enabledMethods Moving.plot =
      [Moving.move, Moving.mark, Moving.describe] := rfl
  obtain ⟨-, hall⟩ := prototypes_distinct_iff Moving.build_registry .c Moving.options
    hsuccess Moving.plot_mem
  rw [hmethods] at hall
  obtain ⟨moved, _, ⟨-, -, hmoved⟩, hrest, hsignatures⟩ := List.forall₂_cons_left_iff.mp hall
  obtain ⟨marked, _, ⟨-, -, hmarked⟩, hlast, rfl⟩ := List.forall₂_cons_left_iff.mp hrest
  obtain ⟨described, _, ⟨-, -, hdescribed⟩, hnil, rfl⟩ := List.forall₂_cons_left_iff.mp hlast
  obtain rfl := List.forall₂_nil_left_iff.mp hnil
  refine ⟨hsuccess, moved, marked, described, hsignatures, ?_, ?_,
    hdescribed.mpr ⟨by decide, hdescribe⟩⟩
  · exact fun h => absurd (hmoved.mp h).1 (by decide)
  · exact fun h => (hmarked.mp h).2 hmark

/-- A successful run with prototypes that name two parameters alike, because the names are the same
or because one is a reserved word. -/
theorem prototypes_not_distinct :
    Registry.build "moving" [Moving.plot] = .ok Moving.registry ∧
    (generate Moving.registry .c Moving.options).success = true ∧
    ¬ ∀ t ∈ runTypes Moving.registry .c Moving.options,
      ∀ s ∈ CHeader.signatures ((runPlan Moving.registry .c Moving.options t).functionHeader
        (runContext Moving.registry .c Moving.options).names), s.spelledNames.Nodup := by
  obtain ⟨hsuccess, -, -, s, hs, hrepeated⟩ := Moving.run
  refine ⟨Moving.build_registry, hsuccess, fun h => ?_⟩
  exact hrepeated (h _ Moving.plot_mem s hs)

def CDecl.members? : CDecl → Option (List Text)
  | .record _ _ members => some (members.map fun m => Identifier.escape m.name)
  | _ => none

def CppDecl.members? : CppDecl → Option (List Text)
  | .handleClass _ _ methods => some (methods.map fun d => d.method.name)
  | .record _ _ fields methods =>
    some (fields.map HostField.name ++ methods.map fun d => d.method.name)
  | _ => none

def CppDecl.constants? : CppDecl → Option (List Text)
  | .enumeration _ _ variants => some (variants.map HostVariant.name)
  | _ => none

/-- The identifiers of members in the scope of their class. -/
structure ClassScope (names : Names) (owner : Text) (members ids : List Text) : Prop where
  distinct_iff : ids.Nodup ↔ ¬ ∃ x ∈ members, ∃ y ∈ members, HostMerges names owner x y
  asFFI_not_mem : asFFI ∉ ids
  fromFFI_not_mem : fromFFI ∉ ids
  owner_mem_iff : owner ∈ ids ↔ ∃ x ∈ members,
    names.Takes owner (Identifier.escape x) ∧ owner = Identifier.escape x ++ ascii "_"

theorem classScope_map {names : Names} {owner : Text} {members : List Text}
    (hmembers : members.Nodup) :
    ClassScope names owner members (members.map (hostIdentifier names owner)) where
  distinct_iff := nodup_hostIdentifier_iff.trans (and_iff_right hmembers)
  asFFI_not_mem hmem := by
    obtain ⟨x, -, hx⟩ := List.mem_map.mp hmem
    exact hostIdentifier_ne_asFFI x hx
  fromFFI_not_mem hmem := by
    obtain ⟨x, -, hx⟩ := List.mem_map.mp hmem
    exact hostIdentifier_ne_fromFFI x hx
  owner_mem_iff := by
    simp only [List.mem_map, hostIdentifier_eq_taken_iff (.inl rfl)]

section
variable {r : Registry} {target : Target} {o : Options} {t : TypeDef}

theorem runPlan_field_names (hr : r.WellFormed) (ht : t ∈ survivors r target o) :
    (runPlan r target o t).fields.map (fun f => f.field.name) = t.fields.map Field.name := by
  obtain ⟨-, hdefinition, hfields, -⟩ := draft_of_mem_survivors hr ht
  rw [← (planDefinition_eq_nil hdefinition).1, hfields, List.map_map]
  rfl

theorem names_of_planned {c : Context} {ms : List Method} {plans : List MethodPlan}
    (h : List.Forall₂ (fun m p => planMethod c t m = .ok p) ms plans) :
    plans.map (fun p => p.method.name) = ms.map Method.name := by
  induction h with
  | nil => rfl
  | cons hp _ ih => rw [List.map_cons, List.map_cons, ih, (planMethod_eq_ok_iff.mp hp).1]

theorem typeDecls_members (hr : r.WellFormed) (ht : t ∈ survivors r target o) {d : CDecl}
    (hd : d ∈ (runPlan r target o t).typeDecls) {ids : List Text} (hids : d.members? = some ids) :
    ids = (t.fields.map Field.name).map Identifier.escape := by
  have hfields := runPlan_field_names hr ht
  obtain ⟨id, name, docs, rules, shape⟩ := t
  cases shape with
  | object methods =>
    obtain rfl := List.mem_singleton.mp hd
    cases hids
  | record fields methods =>
    rcases List.mem_cons.mp hd with rfl | hd
    · cases hids
      rw [← hfields, List.map_map, List.map_map]
      rfl
    · obtain rfl := List.mem_singleton.mp hd
      cases hids
  | enumeration variants =>
    rcases List.mem_cons.mp hd with rfl | hd
    · cases hids
    · obtain rfl := List.mem_singleton.mp hd
      cases hids
  | synonym primitive =>
    obtain rfl := List.mem_singleton.mp hd
    cases hids

theorem hostTypeDecl_members (hr : r.WellFormed) (ht : t ∈ survivors r target o) {names : Names}
    {ids : List Text} (hids : ((runPlan r target o t).hostTypeDecl names).members? = some ids) :
    ids = (memberNames target o t).map (hostIdentifier names t.name) := by
  have hfields : ((runPlan r target o t).hostFields names).map HostField.name =
      (t.fields.map Field.name).map (hostIdentifier names t.name) := by
    rw [← runPlan_field_names hr ht, TypePlan.hostFields, List.map_map, List.map_map]
    rfl
  have hmethods : ((runPlan r target o t).hostMethods names).map (fun d => d.method.name) =
      (((runAvailability target o).enabledMethods t).map Method.name).map
        (hostIdentifier names t.name) := by
    rw [← names_of_planned (draft_of_mem_survivors hr ht).2.2.2, TypePlan.hostMethods,
      List.map_map, List.map_map]
    rfl
  rw [memberNames, List.map_append, ← hfields, ← hmethods]
  obtain ⟨id, name, docs, rules, shape⟩ := t
  cases shape with
  | object methods =>
    cases hids
    rw [hfields]
    rfl
  | record fields methods =>
    cases hids
    rfl
  | enumeration variants => cases hids
  | synonym primitive => cases hids

theorem hostTypeDecl_constants {names : Names} {ids : List Text}
    (hids : ((runPlan r target o t).hostTypeDecl names).constants? = some ids) :
    ids = (t.variants.map Variant.name).map Identifier.escape := by
  obtain ⟨id, name, docs, rules, shape⟩ := t
  cases shape with
  | enumeration variants =>
    cases hids
    rw [List.map_map, List.map_map]
    rfl
  | _ => cases hids

end

/-- In a successful run the members of a type have different names, except for those that fall
together when they are escaped: in a record or an enumeration a reserved word beside the name it is
escaped to, in a class a name that gets more underscores than the other. No member is called like a
conversion; it is called like its class exactly if the underscore makes it so. -/
theorem members_distinct_iff {library : Text} {types : List TypeDef} {r : Registry}
    (hr : Registry.build library types = .ok r) (target : Target) (o : Options)
    (h : (generate r target o).success = true) {t : TypeDef} (ht : t ∈ runTypes r target o) :
    let names := (runContext r target o).names
    let declaration := (runPlan r target o t).declarationHeader names
    (generate r target o).findArtifact? (UnitFile.declaration t.name) =
      some ⟨UnitFile.declaration t.name, CHeader.text declaration, t.id⟩ ∧
    (∀ d ∈ declaration.decls, ∀ ids, d.members? = some ids →
      (ids.Nodup ↔ ¬ Identifier.Merges (t.fields.map Field.name))) ∧
    (target = .cpp →
      let host := (runPlan r target o t).hostDeclarationHeader names o.hostNamespace
      (generate r target o).findArtifact? (UnitFile.hostDeclaration t.name) =
        some ⟨UnitFile.hostDeclaration t.name, CppHeader.text host, t.id⟩ ∧
      ∀ d ∈ host.decls,
        (∀ ids, d.members? = some ids → ClassScope names t.name (memberNames target o t) ids) ∧
        ∀ ids, d.constants? = some ids →
          (ids.Nodup ↔ ¬ Identifier.Merges (t.variants.map Variant.name))) := by
  have hwf := Registry.build_wellFormed hr
  have ho := problem?_eq_none_of_success h
  have hsurvives := mem_survivors_of_success hwf h ht
  have hmembers := memberNames_nodup hwf hsurvives
  refine ⟨findArtifact?_of_mem hwf ho (mem_artifacts_of_headers hwf ho hsurvives
    cArtifact_mem_runHeaders.1), fun d hd ids hids => ?_, ?_⟩
  · rw [typeDecls_members hwf hsurvives hd hids, Identifier.nodup_escape_iff]
    exact and_iff_right (List.nodup_append'.mp hmembers).1
  · rintro rfl
    refine ⟨findArtifact?_of_mem hwf ho (mem_artifacts_of_headers hwf ho hsurvives
      cppArtifact_mem_runHeaders), ?_⟩
    intro d hd
    rcases List.mem_cons.mp hd with rfl | hd
    · exact ⟨fun ids hids => (nomatch hids), fun ids hids => (nomatch hids)⟩
    · obtain rfl := List.mem_singleton.mp hd
      refine ⟨fun ids hids => ?_, fun ids hids => ?_⟩
      · rw [hostTypeDecl_members hwf hsurvives hids]
        exact classScope_map hmembers
      · have hvariants := ((Registry.memberProblems_eq_nil_iff t).mp
          (hwf.members_valid t (mem_types_of_survivors hsurvives))).2.2.2
        rw [hostTypeDecl_constants hids, Identifier.nodup_escape_iff]
        exact and_iff_right hvariants

namespace Merged

def cell : TypeDef :=
  ⟨1, "Cell", [], [], .record [⟨"class", [], .primitive .i32⟩, ⟨"class_", [], .primitive .i32⟩] []⟩

def level : TypeDef := ⟨2, "Level", [], [], .enumeration [⟨"new", [], 0⟩, ⟨"new_", [], 1⟩]⟩

def host : TypeDef := ⟨3, "Cell_", [], [], .object [⟨"Cell", [], [], .shared, [], .unit⟩]⟩

def registry : Registry := ⟨"merged", [cell, level, host]⟩

def options : Options := ⟨[], 64, "grid", 0, false⟩

theorem build_registry : Registry.build "merged" [cell, level, host] = .ok registry :=
  Registry.build_of_increasing _ (by decide) (by decide)

theorem cell_mem : cell ∈ runTypes registry .cpp options :=
  mem_runTypes.mpr ⟨by simp [registry], rfl⟩

theorem host_mem : host ∈ runTypes registry .cpp options :=
  mem_runTypes.mpr ⟨by simp [registry], rfl⟩

def names : Names := (runContext registry .cpp options).names

def cDecls (t : TypeDef) : List CDecl :=
  ((runPlan registry .cpp options t).declarationHeader names).decls

def cppDecls (t : TypeDef) : List CppDecl :=
  ((runPlan registry .cpp options t).hostDeclarationHeader names options.hostNamespace).decls

theorem run : (generate registry .cpp options).success = true ∧
    (names.Takes "Cell_" (Identifier.escape "Cell") ∧
      ascii "Cell_" = Identifier.escape "Cell" ++ ascii "_") ∧
    (∃ d ∈ cDecls cell, d.members? = some [ascii "class_", ascii "class_"]) ∧
    (∃ d ∈ cppDecls cell, d.members? = some [ascii "class_", ascii "class_"]) ∧
    (∃ d ∈ cppDecls host, d.members? = some [ascii "Cell_"]) ∧
    ∃ d ∈ cppDecls level, d.constants? = some [ascii "new_", ascii "new_"] := by
  decide +kernel

end Merged

theorem members_distinct_merged :
    (generate Merged.registry .cpp Merged.options).success = true ∧
    (∃ d ∈ Merged.cDecls Merged.cell, ∃ ids, d.members? = some ids ∧ ¬ ids.Nodup) ∧
    ∃ d ∈ Merged.cppDecls Merged.host, ∃ ids, d.members? = some ids ∧
      ClassScope Merged.names "Cell_" ["Cell"] ids ∧ ascii "Cell_" ∈ ids := by
  obtain ⟨hsuccess, htakes, ⟨c, hc, hcell⟩, -, ⟨d, hd, hhost⟩, -⟩ := Merged.run
  have hrecord := (members_distinct_iff Merged.build_registry .cpp Merged.options
    hsuccess Merged.cell_mem).2.1
  have hclass := ((members_distinct_iff Merged.build_registry .cpp Merged.options
    hsuccess Merged.host_mem).2.2 rfl).2
  have hscope : ClassScope Merged.names "Cell_" ["Cell"] [ascii "Cell_"] := (hclass d hd).1 _ hhost
  refine ⟨hsuccess, ⟨c, hc, _, hcell, ?_⟩, d, hd, _, hhost, hscope, hscope.owner_mem_iff.mpr ?_⟩
  · rw [hrecord c hc _ hcell, not_not]
    decide
  · exact ⟨"Cell", List.mem_singleton_self _, htakes⟩

/-- A successful run in which fields, the constants of an enumeration, and a method and its class
are called alike. -/
theorem members_not_distinct :
    Registry.build "merged" [Merged.cell, Merged.level, Merged.host] = .ok Merged.registry ∧
    (generate Merged.registry .cpp Merged.options).success = true ∧
    (¬ ∀ d ∈ Merged.cDecls Merged.cell, ∀ ids, d.members? = some ids → ids.Nodup) ∧
    (¬ ∀ d ∈ Merged.cppDecls Merged.cell, ∀ ids, d.members? = some ids → ids.Nodup) ∧
    (¬ ∀ d ∈ Merged.cppDecls Merged.host, ∀ ids, d.members? = some ids →
      Merged.host.name ∉ ids) ∧
    ¬ ∀ d ∈ Merged.cppDecls Merged.level, ∀ ids, d.constants? = some ids → ids.Nodup := by
  obtain ⟨hsuccess, -, ⟨c, hc, hcell⟩, ⟨d, hd, hhostCell⟩, ⟨e, he, hhost⟩, f, hf, hlevel⟩ :=
    Merged.run
  refine ⟨Merged.build_registry, hsuccess, fun h => ?_, fun h => ?_, fun h => ?_, fun h => ?_⟩
  · exact absurd (h c hc _ hcell) (by decide)
  · exact absurd (h d hd _ hhostCell) (by decide)
  · exact absurd (h e he _ hhost) (by decide)
  · exact absurd (h f hf _ hlevel) (by decide)

end Bindery
