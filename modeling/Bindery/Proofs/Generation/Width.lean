import Bindery.Proofs.Generation.Includes
import Bindery.Proofs.Mapping.Sizes
import Bindery.Proofs.Mapping.Unsized

/-!
The width of a pointer changes how values are returned, and nothing else. Two runs that differ in it
report the same errors, omissions and units, and write the same declaration headers; what narrow
pointers return in a register, wide ones do.
-/

set_option autoImplicit false

namespace Bindery

def Options.atWidth (o : Options) (width : Int) : Options := { o with pointerWidth := width }

def Context.atWidth (c : Context) (width : Int) : Context :=
  { c with options := c.options.atWidth width }

namespace Context

variable (c : Context) (width : Int)

@[simp] theorem mapper_atWidth : (c.atWidth width).mapper = c.mapper.atWidth width := rfl

@[simp] theorem registry_atWidth : (c.atWidth width).registry = c.registry := rfl

@[simp] theorem enabled_atWidth : (c.atWidth width).enabled = c.enabled := rfl

@[simp] theorem availability_atWidth : (c.atWidth width).availability = c.availability := rfl

end Context

theorem Target.ignoresLayout (target : Target) : target.dialect.IgnoresLayout := by
  cases target with
  | c => exact Dialect.c_ignoresLayout
  | cpp => exact Dialect.cpp_ignoresLayout

def MethodPlan.unsized (p : MethodPlan) : MethodPlan := { p with signature := p.signature.unsized }

def FieldPlan.unsized (p : FieldPlan) : FieldPlan := { p with mapped := p.mapped.unsized }

def TypePlan.unsized (p : TypePlan) : TypePlan :=
  { p with
    methods := p.methods.map MethodPlan.unsized
    fields := p.fields.map FieldPlan.unsized }

namespace TypePlan

variable (p : TypePlan) (names : Names)

theorem typeDecls_unsized : p.unsized.typeDecls = p.typeDecls := by
  have hmembers : (p.unsized.fields.map fun f =>
        (⟨f.field.docs, f.mapped.native.cType, f.field.name⟩ : CMember)) =
      p.fields.map fun f => ⟨f.field.docs, f.mapped.native.cType, f.field.name⟩ := by
    rw [unsized, List.map_map]
    rfl
  rw [typeDecls, hmembers]
  rfl

theorem symbols_unsized : p.unsized.symbols = p.symbols := by
  rw [symbols, unsized, List.map_map]
  rfl

theorem declaredNames_unsized : p.unsized.declaredNames = p.declaredNames := by
  have hresults : (p.unsized.methods.filterMap fun m =>
        m.signature.outcome.map fun o => o.record.name) =
      p.methods.filterMap fun m => m.signature.outcome.map fun o => o.record.name := by
    rw [unsized, List.filterMap_map]
    apply List.filterMap_congr
    intro m _
    cases h : m.signature.outcome <;>
      simp [MethodPlan.unsized, Signature.unsized, h, Outcome.unsized]
  rw [declaredNames, declaredNames, List.flatMap_append, List.flatMap_append, functionDecls_names,
    functionDecls_names, typeDecls_unsized, symbols_unsized, hresults]

theorem declarationHeader_unsized :
    p.unsized.declarationHeader names = p.declarationHeader names := by
  have hdeps : p.unsized.fieldDeps = p.fieldDeps := by
    have hids : (p.unsized.fields.flatMap fun f => f.mapped.deps) =
        p.fields.flatMap fun f => f.mapped.deps := List.flatMap_map _ _ _
    rw [fieldDeps, hids]
    rfl
  rw [declarationHeader, hdeps, typeDecls_unsized]
  rfl

theorem hostDeclarationHeader_unsized (ns : Text) :
    p.unsized.hostDeclarationHeader names ns = p.hostDeclarationHeader names ns := by
  have hmethods : p.unsized.hostMethods names = p.hostMethods names := by
    rw [hostMethods, hostMethods, unsized, List.map_map]
    apply List.map_congr_left
    intro m _
    have hself : ((m.signature.receiver.map Mapped.unsized).toList.map fun r =>
        (⟨r.host, selfParam⟩ : HostParam)) =
        m.signature.receiver.toList.map fun r => ⟨r.host, selfParam⟩ := by
      cases m.signature.receiver <;> rfl
    simp only [Function.comp_apply, MethodPlan.declaration, HostMethod.ofPlan, MethodPlan.unsized,
      Signature.unsized, hself, List.zip_map_right, List.map_map]
    rfl
  have hfields : p.unsized.hostFields names = p.hostFields names := by
    rw [hostFields, hostFields, unsized, List.map_map]
    rfl
  have hdecl : p.unsized.hostTypeDecl names = p.hostTypeDecl names := by
    rw [hostTypeDecl, hostTypeDecl, hmethods, hfields]
    rfl
  rw [hostDeclarationHeader, hdecl]
  rfl

end TypePlan

namespace Context

variable (c : Context) (t : TypeDef) (w w' : Int)

theorem ignoresLayout : c.mapper.dialect.IgnoresLayout := c.target.ignoresLayout

theorem planMethod_unsized (m : Method) :
    (planMethod (c.atWidth w) t m).map MethodPlan.unsized =
      (planMethod (c.atWidth w') t m).map MethodPlan.unsized := by
  simp only [planMethod, mapper_atWidth, registry_atWidth]
  rcases map_eq_map_cases (Mapper.signature_unsized c.ignoresLayout w w' t m) with
    ⟨e, h, h'⟩ | ⟨s, s', h, h', hs⟩
  · rw [h, h']
  · rw [h, h']
    cases c.registry.planTransfers t m with
    | error d => rfl
    | ok transfers => simp only [Except.map, MethodPlan.unsized, hs]

theorem planMethods_unsized (ms : List Method) :
    (partitionResults (ms.map (planMethod (c.atWidth w) t))).1.map MethodPlan.unsized =
      (partitionResults (ms.map (planMethod (c.atWidth w') t))).1.map MethodPlan.unsized ∧
    (partitionResults (ms.map (planMethod (c.atWidth w) t))).2 =
      (partitionResults (ms.map (planMethod (c.atWidth w') t))).2 := by
  have hplans : (ms.map (planMethod (c.atWidth w) t)).map (Except.map MethodPlan.unsized) =
      (ms.map (planMethod (c.atWidth w') t)).map (Except.map MethodPlan.unsized) := by
    rw [List.map_map, List.map_map]
    exact List.map_congr_left fun m _ => c.planMethod_unsized t w w' m
  have hparts := congrArg partitionResults hplans
  rw [partitionResults_map, partitionResults_map, Prod.mk.injEq] at hparts
  exact hparts

theorem planFields_unsized (seen : List Text) (fields : List Field) :
    (planFields (c.atWidth w) t seen fields).1.map FieldPlan.unsized =
      (planFields (c.atWidth w') t seen fields).1.map FieldPlan.unsized ∧
    (planFields (c.atWidth w) t seen fields).2 = (planFields (c.atWidth w') t seen fields).2 := by
  induction fields generalizing seen with
  | nil => exact ⟨rfl, rfl⟩
  | cons f fs ih =>
    obtain ⟨hplans, hproblems⟩ := ih (f.name :: seen)
    rw [planFields, planFields, mapper_atWidth, mapper_atWidth]
    rcases map_eq_map_cases (Mapper.map_unsized c.ignoresLayout w w' f.type .field []) with
      ⟨e, h, h'⟩ | ⟨x, x', h, h', hx⟩
    · simp only [h, h', hplans, hproblems, and_self]
    · simp only [h, h', hproblems, List.map_cons, FieldPlan.unsized, hx, hplans, and_self]

theorem planDefinition_unsized (ms : List Method) :
    (planDefinition (c.atWidth w) t ms).1.map FieldPlan.unsized =
      (planDefinition (c.atWidth w') t ms).1.map FieldPlan.unsized ∧
    (planDefinition (c.atWidth w) t ms).2 = (planDefinition (c.atWidth w') t ms).2 := by
  unfold planDefinition
  cases t.kind with
  | record =>
    dsimp only
    rw [planRecord, planRecord, mapper_atWidth, mapper_atWidth]
    split_ifs
    · exact ⟨rfl, rfl⟩
    · rcases map_eq_map_cases (Mapper.recordLayout_verdict c.ignoresLayout w w' t) with
        ⟨e, h, h'⟩ | ⟨l, l', h, h', -⟩
      · rw [h, h']
        exact ⟨rfl, rfl⟩
      · obtain ⟨hplans, hproblems⟩ := c.planFields_unsized t w w' [] t.fields
        simp only [h, h', hplans, hproblems, and_self]
  | _ => exact ⟨rfl, rfl⟩

theorem assemblePlan_unsized (fields : List FieldPlan) (methods : List MethodPlan) :
    (assemblePlan (c.atWidth w) t fields methods).unsized =
      assemblePlan c t (fields.map FieldPlan.unsized) (methods.map MethodPlan.unsized) := by
  have hfields : ((fields.map FieldPlan.unsized).flatMap fun f => f.mapped.deps) =
      fields.flatMap fun f => f.mapped.deps := List.flatMap_map _ _ _
  have hmethods : ((methods.map MethodPlan.unsized).flatMap fun m => m.signature.deps) =
      methods.flatMap fun m => m.signature.deps := by
    rw [List.flatMap_map]
    simp only [MethodPlan.unsized, Signature.deps_unsized]
  simp only [assemblePlan, hfields, hmethods]
  rfl

theorem draftType_unsized :
    (draftType (c.atWidth w) t).plan.unsized = (draftType (c.atWidth w') t).plan.unsized ∧
    (draftType (c.atWidth w) t).errors = (draftType (c.atWidth w') t).errors ∧
    (draftType (c.atWidth w) t).omissions = (draftType (c.atWidth w') t).omissions := by
  obtain ⟨hfields, hproblems⟩ :=
    c.planDefinition_unsized t w w' (selectMethods c.availability t t.methods).methods
  obtain ⟨hmethods, hfaults⟩ :=
    c.planMethods_unsized t w w' (selectMethods c.availability t t.methods).methods
  simp only [draftType, availability_atWidth, assemblePlan_unsized, hfields, hmethods, hproblems,
    hfaults, and_self]

end Context

def isDeclarationFile (file : Text) : Bool :=
  List.isSuffixOf ".d.h" file || List.isSuffixOf ".d.hpp" file

/-- An artifact of which the text is kept where it declares types. -/
def Artifact.outline (a : Artifact) : Artifact :=
  if isDeclarationFile a.path then a else { a with content := [] }

def GeneratedUnit.outline (u : GeneratedUnit) : GeneratedUnit :=
  { u with artifacts := u.artifacts.map Artifact.outline }

def TypeOutcome.outline (o : TypeOutcome) : TypeOutcome :=
  { o with generated := o.generated.map GeneratedUnit.outline }

@[simp] theorem Artifact.path_outline (a : Artifact) : a.outline.path = a.path := by
  unfold Artifact.outline
  split_ifs <;> rfl

theorem Artifact.outline_eq {path : Text} (h : isDeclarationFile path = false)
    (content content' : Text) (owner : TypeId) :
    (⟨path, content, owner⟩ : Artifact).outline = (⟨path, content', owner⟩ : Artifact).outline := by
  simp only [Artifact.outline, h, Bool.false_eq_true, if_false]

theorem filter_outline (as : List Artifact) :
    ((as.map Artifact.outline).filter fun a => isDeclarationFile a.path) =
      as.filter fun a => isDeclarationFile a.path := by
  induction as with
  | nil => rfl
  | cons a as ih =>
    rw [List.map_cons, List.filter_cons, List.filter_cons, Artifact.path_outline, ih]
    split_ifs with h
    · rw [Artifact.outline, if_pos h]
    · rfl

theorem not_isDeclarationFile {name : Text} (hname : Identifier.isValid name = true) :
    isDeclarationFile (UnitFile.functions name) = false ∧
      isDeclarationFile (UnitFile.hostDefinitions name) = false := by
  simp only [isDeclarationFile, ← Bool.not_eq_true, Bool.or_eq_true, List.isSuffixOf_iff_suffix,
    not_or]
  have hparts := all_isPart_of_isValid hname
  refine ⟨⟨?_, ?_⟩, ?_, ?_⟩
  · exact not_suffix_of_isPart hparts
  · exact not_suffix_of_getLast? (by decide) (by decide) (by decide)
  · exact not_suffix_of_getLast? (by decide) (by decide) (by decide)
  · exact not_suffix_of_isPart hparts

section
variable {p p' : TypePlan} (hp : p.unsized = p'.unsized)
include hp

theorem render_outline (hname : Identifier.isValid p.type.name = true) (target : Target)
    (names : Names) (ns : Text) :
    (target.render p names ns).map Artifact.outline =
      (target.render p' names ns).map Artifact.outline := by
  have htype : p.type = p'.type := (congrArg TypePlan.type hp :)
  have hdeclaration : p.declarationHeader names = p'.declarationHeader names := by
    rw [← p.declarationHeader_unsized, hp, p'.declarationHeader_unsized]
  have hhost : p.hostDeclarationHeader names ns = p'.hostDeclarationHeader names ns := by
    rw [← p.hostDeclarationHeader_unsized, hp, p'.hostDeclarationHeader_unsized]
  have hfunctions : (Target.cArtifact (p.functionHeader names) p'.type.id).outline =
      (Target.cArtifact (p'.functionHeader names) p'.type.id).outline := by
    simp only [Target.cArtifact, TypePlan.functionHeader, ← htype]
    exact Artifact.outline_eq (not_isDeclarationFile hname).1 ..
  have hdefinitions : (Target.cppArtifact (p.hostDefinitionHeader names ns) p'.type.id).outline =
      (Target.cppArtifact (p'.hostDefinitionHeader names ns) p'.type.id).outline := by
    simp only [Target.cppArtifact, TypePlan.hostDefinitionHeader, ← htype]
    exact Artifact.outline_eq (not_isDeclarationFile hname).2 ..
  cases target <;>
    simp only [Target.render, List.map_append, List.map_cons, List.map_nil, hdeclaration, hhost,
      hfunctions, hdefinitions, htype]

theorem generate_outline (hname : Identifier.isValid p.type.name = true) (c : Context)
    (w w' : Int) :
    (p.generate (c.atWidth w)).outline = (p'.generate (c.atWidth w')).outline := by
  have hsymbols : p.symbols = p'.symbols := by rw [← p.symbols_unsized, hp, p'.symbols_unsized]
  have hnames : p.declaredNames = p'.declaredNames := by
    rw [← p.declaredNames_unsized, hp, p'.declaredNames_unsized]
  have hrender := render_outline hp hname c.target c.names c.options.hostNamespace
  simp only [TypePlan.generate, GeneratedUnit.outline, hsymbols, hnames, GeneratedUnit.mk.injEq,
    true_and]
  exact hrender

end

theorem processType_outline (c : Context) {t : TypeDef} (hname : Identifier.isValid t.name = true)
    (w w' : Int) :
    (processType (c.atWidth w) t).outline = (processType (c.atWidth w') t).outline := by
  obtain ⟨hplan, herrors, homissions⟩ := c.draftType_unsized t w w'
  have hdeps : (draftType (c.atWidth w) t).plan.deps = (draftType (c.atWidth w') t).plan.deps :=
    (congrArg TypePlan.deps hplan :)
  have htype : ∀ w, (draftType (c.atWidth w) t).plan.type = t := fun _ => rfl
  have hunit := generate_outline hplan hname c w w'
  simp only [processType, Draft.finish, herrors, homissions, hdeps, htype,
    Context.registry_atWidth, Context.enabled_atWidth]
  split_ifs
  · cases c.registry.checkDestructors c.enabled t (draftType (c.atWidth w') t).plan.deps with
    | nil => simp only [TypeOutcome.outline, Option.map_some, hunit]
    | cons d ds => rfl
  · rfl

def Report.outline (r : Report) : Report := { r with artifacts := r.artifacts.map Artifact.outline }

theorem keysBy_outline {f : GeneratedUnit → List Text} (hf : ∀ u, f u.outline = f u)
    (o : TypeOutcome) : o.outline.keysBy f = o.keysBy f := by
  unfold TypeOutcome.keysBy TypeOutcome.outline
  cases o.generated with
  | none => rfl
  | some u => simp only [Option.map_some, hf]

theorem withdrawClashing_outline (identifiers files : List Clash) (o : TypeOutcome) :
    withdrawClashing identifiers files o.outline =
      (withdrawClashing identifiers files o).outline := by
  have htype : o.outline.type = o.type := rfl
  unfold withdrawClashing
  rw [htype]
  split <;> rfl

theorem resolveCollisions_outline (outcomes : List TypeOutcome) :
    resolveCollisions (outcomes.map TypeOutcome.outline) =
      (resolveCollisions outcomes).map TypeOutcome.outline := by
  have hkeys : ∀ {f : GeneratedUnit → List Text}, (∀ u, f u.outline = f u) →
      (outcomes.map TypeOutcome.outline).flatMap (TypeOutcome.keysBy f) =
        outcomes.flatMap (TypeOutcome.keysBy f) := by
    intro f hf
    rw [List.flatMap_map]
    exact List.flatMap_congr fun o _ => keysBy_outline hf o
  have hfiles : ∀ u : GeneratedUnit, u.outline.fileKeys = u.fileKeys := by
    intro u
    simp only [GeneratedUnit.fileKeys, GeneratedUnit.outline, List.map_map, Function.comp_def,
      Artifact.path_outline]
  have hnames : ∀ u : GeneratedUnit, u.outline.names = u.names := fun _ => rfl
  simp only [resolveCollisions, hkeys hnames, hkeys hfiles, List.map_map]
  exact List.map_congr_left fun o _ => withdrawClashing_outline _ _ o

theorem sortArtifacts_outline (as : List Artifact) :
    (sortArtifacts as).map Artifact.outline = sortArtifacts (as.map Artifact.outline) :=
  List.map_mergeSort fun a _ b _ => by rw [Artifact.path_outline, Artifact.path_outline]

theorem artifactsOf_outline (outcomes : List TypeOutcome) :
    (artifactsOf outcomes).map Artifact.outline =
      artifactsOf (outcomes.map TypeOutcome.outline) := by
  rw [artifactsOf, artifactsOf, List.map_flatMap, List.flatMap_map]
  congr 1
  funext o
  cases h : o.generated <;> simp [TypeOutcome.outline, h, GeneratedUnit.outline]

theorem unitsOf_outline (outcomes : List TypeOutcome) :
    unitsOf (outcomes.map TypeOutcome.outline) = unitsOf outcomes := by
  rw [unitsOf, unitsOf, List.filterMap_map]
  apply List.filterMap_congr
  intro o _
  cases h : o.generated <;> simp [TypeOutcome.outline, h, GeneratedUnit.outline]

theorem assembleReport_outline (r : Registry) (target : Target) (o : Options) (w w' : Int)
    (selection : Selection) {outcomes outcomes' : List TypeOutcome}
    (h : outcomes.map TypeOutcome.outline = outcomes'.map TypeOutcome.outline) :
    (assembleReport r target (o.atWidth w) selection outcomes).outline =
      (assembleReport r target (o.atWidth w') selection outcomes').outline := by
  have hmanifest : (Manifest.artifact r target (o.atWidth w) outcomes).outline =
      (Manifest.artifact r target (o.atWidth w') outcomes').outline :=
    Artifact.outline_eq (by decide) ..
  have hkeeps : ∀ w, (o.atWidth w).manifest = o.manifest := fun _ => rfl
  have hartifacts : (artifactsOf outcomes).map Artifact.outline =
      (artifactsOf outcomes').map Artifact.outline := by
    rw [artifactsOf_outline, artifactsOf_outline, h]
  have hunits : unitsOf outcomes = unitsOf outcomes' := by
    rw [← unitsOf_outline, h, unitsOf_outline]
  have herrors : outcomes.flatMap TypeOutcome.errors = outcomes'.flatMap TypeOutcome.errors := by
    have hboth := congrArg (List.flatMap TypeOutcome.errors) h
    rwa [List.flatMap_map, List.flatMap_map] at hboth
  have homissions :
      outcomes.flatMap TypeOutcome.omissions = outcomes'.flatMap TypeOutcome.omissions := by
    have hboth := congrArg (List.flatMap TypeOutcome.omissions) h
    rwa [List.flatMap_map, List.flatMap_map] at hboth
  simp only [assembleReport, Report.outline, sortArtifacts_outline, List.map_append, hartifacts,
    hunits, herrors, homissions, hkeeps]
  split_ifs
  · simp only [List.map_cons, List.map_nil, hmanifest]
  · rfl

theorem generate_atWidth {r : Registry} (hr : r.WellFormed) (target : Target) (o : Options) :
    (generate r target (o.atWidth 32)).outline = (generate r target (o.atWidth 64)).outline := by
  have hproblem : (o.atWidth 32).problem? target = (o.atWidth 64).problem? target := by
    cases target <;> rfl
  have hfeatures : ∀ w, (o.atWidth w).features = o.features := fun _ => rfl
  unfold generate
  rw [hproblem]
  cases (o.atWidth 64).problem? target with
  | some message => rfl
  | none =>
    refine assembleReport_outline r target o 32 64 _ ?_
    rw [← resolveCollisions_outline, ← resolveCollisions_outline, processAll, processAll,
      List.map_map, List.map_map, hfeatures, hfeatures]
    congr 1
    apply List.map_congr_left
    intro t ht
    exact processType_outline (contextOf r target o _)
      (hr.name_valid t (List.mem_of_mem_filter ht)) 32 64

def Report.declarations (r : Report) : List Artifact :=
  r.artifacts.filter fun a => isDeclarationFile a.path

/-- The same findings, the same units, and the same headers wherever types are declared. -/
structure Report.SameInterface (a b : Report) : Prop where
  errors : a.errors = b.errors
  omissions : a.omissions = b.omissions
  units : a.units = b.units
  declarations : a.declarations = b.declarations

theorem Report.sameInterface_of_outline {a b : Report} (h : a.outline = b.outline) :
    a.SameInterface b where
  errors := (congrArg Report.errors h :)
  omissions := (congrArg Report.omissions h :)
  units := (congrArg Report.units h :)
  declarations := by
    have hartifacts : a.artifacts.map Artifact.outline = b.artifacts.map Artifact.outline :=
      (congrArg Report.artifacts h :)
    rw [Report.declarations, ← filter_outline, hartifacts, filter_outline]
    rfl

theorem Mapper.pointerBytes_narrow (m : Mapper) : (m.atWidth 32).PointerBytes 4 :=
  ⟨.inl rfl, rfl⟩

theorem Mapper.pointerBytes_wide (m : Mapper) : (m.atWidth 64).PointerBytes 8 := ⟨.inr rfl, rfl⟩

/-- A method that returns in a narrow register returns in a wide one. -/
theorem Mapper.signature_direct {m : Mapper} {owner : TypeDef} {method : Method}
    {narrow wide : Signature} (hnarrow : (m.atWidth 32).signature owner method = .ok narrow)
    (hwide : (m.atWidth 64).signature owner method = .ok wide)
    (hfits : (m.registry.exactLayout 4 method.returns).size < 2 ^ 64)
    (h : narrow.passing = .direct) : wide.passing = .direct := by
  have hpassing : narrow.passing = m.registry.exactPassing 4 method.returns :=
    (signature_passing m.pointerBytes_narrow hnarrow hfits :)
  rw [hpassing] at h
  have hregister := (m.registry.exactPassing_eq_direct_iff.mp h).2.2.2
  have hdouble := (m.registry.exactLayout_widens method.returns).size_le_double
  have hwideFits : (m.registry.exactLayout 8 method.returns).size < 2 ^ 64 := by omega
  have hpassing' : wide.passing = m.registry.exactPassing 8 method.returns :=
    (signature_passing m.pointerBytes_wide hwide hwideFits :)
  rw [hpassing', m.registry.exactPassing_widens h]

/-- The width of a pointer shows in how methods return, and only there. -/
theorem generate_widths {library : Text} {types : List TypeDef} {r : Registry}
    (hr : Registry.build library types = .ok r) (target : Target) (o : Options) :
    Report.SameInterface (generate r target (o.atWidth 32)) (generate r target (o.atWidth 64)) ∧
    ∀ m : Mapper,
      (∀ ref position name,
        verdict ((m.atWidth 32).map ref position name) =
          verdict ((m.atWidth 64).map ref position name) ∧
        ∀ narrow wide, (m.atWidth 32).map ref position name = .ok narrow →
          (m.atWidth 64).map ref position name = .ok wide →
          ((m.registry.exactLayout 4 ref).size < 2 ^ 64 →
            narrow.native.layout.Holds (m.registry.exactLayout 4 ref)) ∧
          ((m.registry.exactLayout 8 ref).size < 2 ^ 64 →
            wide.native.layout.Holds (m.registry.exactLayout 8 ref)) ∧
          (m.registry.exactLayout 8 ref).size ≤ 2 * (m.registry.exactLayout 4 ref).size ∧
          ((m.registry.exactLayout 8 ref).align = (m.registry.exactLayout 4 ref).align ∨
            (m.registry.exactLayout 8 ref).align = 2 * (m.registry.exactLayout 4 ref).align)) ∧
      ∀ owner method,
        verdict ((m.atWidth 32).signature owner method) =
          verdict ((m.atWidth 64).signature owner method) ∧
        ∀ narrow wide, (m.atWidth 32).signature owner method = .ok narrow →
          (m.atWidth 64).signature owner method = .ok wide →
          (m.registry.exactPassing 4 method.returns = .direct →
            m.registry.exactPassing 8 method.returns = .direct) ∧
          ((m.registry.exactLayout 4 method.returns).size < 2 ^ 64 →
            narrow.passing = m.registry.exactPassing 4 method.returns ∧
              (narrow.passing = .direct → wide.passing = .direct)) := by
  refine ⟨?_, fun m => ⟨fun ref position name => ⟨?_, ?_⟩, fun owner method => ⟨?_, ?_⟩⟩⟩
  · exact Report.sameInterface_of_outline (generate_atWidth (Registry.build_wellFormed hr) target o)
  · exact m.map_verdict 32 64 ref position name
  · intro narrow wide hnarrow hwide
    have hwidens := m.registry.exactLayout_widens ref
    have hholds := Mapper.map_holds m.pointerBytes_narrow hnarrow
    have hholds' := Mapper.map_holds m.pointerBytes_wide hwide
    exact ⟨hholds, hholds', hwidens.size_le_double, hwidens.align⟩
  · exact m.signature_verdict 32 64 owner method
  · intro narrow wide hnarrow hwide
    refine ⟨m.registry.exactPassing_widens, fun hfits => ⟨?_, ?_⟩⟩
    · have hpassing := Mapper.signature_passing m.pointerBytes_narrow hnarrow hfits
      exact hpassing
    · exact Mapper.signature_direct hnarrow hwide hfits

namespace Atlas

def mark : TypeDef := ⟨1, "Mark", [], [], .record [⟨"offset", [], .primitive .usize⟩] []⟩

def point : TypeDef :=
  ⟨2, "Point", [], [], .record [⟨"x", [], .primitive .f32⟩, ⟨"y", [], .primitive .f32⟩] []⟩

def top : Method := ⟨"top", [], [], .shared, [], .record 1 false⟩

def corner : Method := ⟨"corner", [], [], .shared, [], .record 2 false⟩

def page : TypeDef := ⟨3, "Page", [], [], .object [top, corner]⟩

def hollow : TypeDef := ⟨4, "Hollow", [], [], .record [] []⟩

def registry : Registry := ⟨"atlas", [mark, point, page, hollow]⟩

def options : Options := ⟨[], 64, "weld", 1, true⟩

def mapper : Mapper := (runContext registry .cpp options).mapper

theorem build_registry : Registry.build "atlas" [mark, point, page, hollow] = .ok registry :=
  Registry.build_of_increasing _ (by decide) (by decide)

-- the headers do depend on the width: what comes back in memory may come back in a register
example : registry.exactPassing 4 corner.returns = .out ∧
    registry.exactPassing 8 corner.returns = .direct := by decide

end Atlas

theorem generate_widths_atlas :
    (generate Atlas.registry .cpp (Atlas.options.atWidth 64)).units =
      [⟨1, "Mark", []⟩, ⟨2, "Point", []⟩,
        ⟨3, "Page", ["Page_top", "Page_corner", "Page_destroy"]⟩] ∧
    (∃ d ∈ (generate Atlas.registry .cpp (Atlas.options.atWidth 64)).errors, d.typeId = 4) ∧
    (generate Atlas.registry .cpp (Atlas.options.atWidth 32)).declarations =
      (generate Atlas.registry .cpp (Atlas.options.atWidth 64)).declarations ∧
    (Atlas.registry.exactLayout 8 (.record 1 false)).size ≤
      2 * (Atlas.registry.exactLayout 4 (.record 1 false)).size ∧
    ∃ s, (Atlas.mapper.atWidth 64).signature Atlas.page Atlas.top = .ok s ∧
      s.passing = .direct := by
  obtain ⟨hreports, hmappers⟩ := generate_widths Atlas.build_registry .cpp Atlas.options
  obtain ⟨hrefs, hmethods⟩ := hmappers Atlas.mapper
  have hunits : (generate Atlas.registry .cpp (Atlas.options.atWidth 32)).units =
      [⟨1, "Mark", []⟩, ⟨2, "Point", []⟩,
        ⟨3, "Page", ["Page_top", "Page_corner", "Page_destroy"]⟩] := by decide +kernel
  have hfails : ∃ d ∈ (generate Atlas.registry .cpp (Atlas.options.atWidth 32)).errors,
      d.typeId = 4 := by decide +kernel
  obtain ⟨x, hx⟩ : ∃ x, (Atlas.mapper.atWidth 32).map (.record 1 false) .result [] = .ok x :=
    ⟨_, rfl⟩
  obtain ⟨y, hy⟩ : ∃ y, (Atlas.mapper.atWidth 64).map (.record 1 false) .result [] = .ok y :=
    ⟨_, rfl⟩
  obtain ⟨s, hs, hdirect⟩ : ∃ s, (Atlas.mapper.atWidth 32).signature Atlas.page Atlas.top = .ok s ∧
      s.passing = .direct := ⟨_, rfl, rfl⟩
  obtain ⟨s', hs'⟩ : ∃ s, (Atlas.mapper.atWidth 64).signature Atlas.page Atlas.top = .ok s :=
    ⟨_, rfl⟩
  have hfits : (Atlas.registry.exactLayout 4 Atlas.top.returns).size < 2 ^ 64 := by decide
  refine ⟨hreports.units ▸ hunits, hreports.errors ▸ hfails, hreports.declarations, ?_, s', hs', ?_⟩
  · exact ((hrefs (.record 1 false) .result []).2 x y hx hy).2.2.1
  · exact (((hmethods Atlas.page Atlas.top).2 s s' hs hs').2 hfits).2 hdirect

end Bindery
