import Bindery.Proofs.Strict.Conversion
import Bindery.Proofs.Header.Names

/-!
The headers of one type step by step. Every include and every announcement asks for a name; so do
the conversions of fields and the definitions of methods.
-/

set_option autoImplicit false

namespace Bindery.Strict

def includesOf (look : Lookup) (file : Text → Text) (types : List TypeId) : Step (List Include) :=
  types.mapM fun id => do
    let name ← nameOf look id
    return .file (file name)

def declarationHeader (look : Lookup) (p : TypePlan) : Step CHeader := do
  let fields ← includesOf look UnitFile.declaration p.fieldDeps
  return {
    file := UnitFile.declaration p.type.name
    includes := [.file CRuntime.file :: fields]
    scope := .linkage
    decls := p.typeDecls }

def functionHeader (look : Lookup) (p : TypePlan) : Step CHeader := do
  let deps ← includesOf look UnitFile.declaration p.deps
  return {
    file := UnitFile.functions p.type.name
    includes := [[.file (UnitFile.declaration p.type.name), .file CRuntime.file] ++ deps]
    scope := .linkage
    decls := p.functionDecls }

def forwardType (look : Lookup) (id : TypeId) : Step (Option (Kind × Text)) := do
  match ← kindOf look id with
  | some .synonym => return none
  | some kind =>
    let name ← nameOf look id
    return some (kind, name)
  | none => return none

def forwardTypes (look : Lookup) (p : TypePlan) : Step (List (Kind × Text)) := do
  let found ← (p.deps.filter fun id => !p.definitionDeps.contains id).mapM (forwardType look)
  return found.filterMap id

def hostMethods (names : Names) (p : TypePlan) : Step (List HostMethodDecl) :=
  p.methods.mapM fun m => do
    let host ← hostMethod names p.type m
    return ⟨m.method.docs, m.transfers.describe, host⟩

def hostTypeDecl (names : Names) (p : TypePlan) : Step CppDecl := do
  let t := p.type
  match t.shape with
  | .object _ =>
    let methods ← hostMethods names p
    return .handleClass t.docs t.name methods
  | .record _ _ =>
    let methods ← hostMethods names p
    return .record t.docs t.name (p.hostFields names) methods
  | .enumeration variants =>
    return .enumeration t.docs t.name
      (variants.map fun v => ⟨v.docs, Identifier.escape v.name, v.value⟩)
  | .synonym primitive => return .synonym t.docs t.name primitive.hostName

def hostDeclarationHeader (look : Lookup) (names : Names) (p : TypePlan) (ns : Text) :
    Step CppHeader := do
  let definitions ← includesOf look UnitFile.hostDeclaration p.definitionDeps
  let forwards ← forwardTypes look p
  let decl ← hostTypeDecl names p
  return {
    file := UnitFile.hostDeclaration p.type.name
    includes :=
      [[.file CppRuntime.file, .file (UnitFile.declaration p.type.name)] ++ definitions]
    scope := .named ns
    decls := [.forwards forwards, decl] }

def conversionDecls (look : Lookup) (names : Names) (p : TypePlan) : Step (List CppDecl) := do
  match p.type.shape with
  | .object _ => return [.handleConversions p.type.name p.destructor]
  | .record _ _ =>
    let lowered ← p.fields.mapM fun f => do
      let value ← lower look f.field.type .field
        ("this->" ++ hostIdentifier names p.type.name f.field.name) []
      return value.value
    let lifted ← p.fields.mapM fun f =>
      lift look f.field.type f.mapped.host .field ("c_struct." ++ Identifier.escape f.field.name)
    return [.recordConversions p.type.name lowered lifted]
  | _ => return []

def hostDefinitionHeader (look : Lookup) (names : Names) (p : TypePlan) (ns : Text) :
    Step CppHeader := do
  let declarations ← includesOf look UnitFile.hostDeclaration p.deps
  let definitions ← includesOf look UnitFile.hostDefinitions p.deps
  let methods ← p.methods.mapM (definition look names p.type)
  let conversions ← conversionDecls look names p
  return {
    file := UnitFile.hostDefinitions p.type.name
    includes :=
      [[.file (UnitFile.hostDeclaration p.type.name), .file (UnitFile.functions p.type.name)] ++
        declarations ++ definitions]
    scope := .named ns
    decls := methods ++ conversions }

def render (look : Lookup) (target : Target) (p : TypePlan) (names : Names) (ns : Text) :
    Step (List Artifact) := do
  let id := p.type.id
  let declaration ← declarationHeader look p
  let functions ← functionHeader look p
  let native := [Target.cArtifact declaration id, Target.cArtifact functions id]
  match target with
  | .c => return native
  | .cpp =>
    let hostDeclaration ← hostDeclarationHeader look names p ns
    let hostDefinitions ← hostDefinitionHeader look names p ns
    return native ++
      [Target.cppArtifact hostDeclaration id, Target.cppArtifact hostDefinitions id]

section
variable {look : Lookup} {names : Names} {ids : TypeId → Prop} (h : look.Serves names ids)
  {p : TypePlan}
include h

theorem includesOf_eq (file : Text → Text) {types : List TypeId} (htypes : ∀ id ∈ types, ids id) :
    includesOf look file types = .ok (types.map fun id => .file (file (names.name id))) := by
  refine mapM_eq_ok fun id hid => ?_
  rw [h.nameOf_eq (htypes id hid), ok_bind]
  rfl

theorem forwardTypes_eq (hdeps : ∀ id ∈ p.deps, ids id) :
    forwardTypes look p = .ok (p.forwardTypes names) := by
  have hforward : ∀ id ∈ p.deps.filter fun id => !p.definitionDeps.contains id,
      forwardType look id = .ok (match names.kind id with
        | some .synonym => none
        | some kind => some (kind, names.name id)
        | none => none) := by
    intro id hid
    have hdep := hdeps id (List.mem_of_mem_filter hid)
    rw [forwardType, h.kindOf_eq hdep, h.nameOf_eq hdep, ok_bind]
    rcases names.kind id with _ | kind
    · rfl
    · cases kind <;> rfl
  rw [forwardTypes, mapM_eq_ok hforward, ok_bind, List.filterMap_map]
  rfl

omit h in
theorem hostMethods_eq (hmethods : ∀ m ∈ p.methods, m.Coherent) :
    hostMethods names p = .ok (p.hostMethods names) := by
  refine mapM_eq_ok fun m hm => ?_
  rw [hostMethod_eq (hmethods m hm), ok_bind]
  rfl

omit h in
theorem hostTypeDecl_eq (hmethods : ∀ m ∈ p.methods, m.Coherent) :
    hostTypeDecl names p = .ok (p.hostTypeDecl names) := by
  simp only [hostTypeDecl, TypePlan.hostTypeDecl, hostMethods_eq hmethods, ok_bind]
  cases p.type.shape <;> rfl

theorem conversionDecls_eq (hfields : ∀ f ∈ p.fields, ∀ id ∈ f.field.type.ids, ids id) :
    conversionDecls look names p = .ok (p.conversionDecls names) := by
  have hlowered : ∀ f ∈ p.fields, (do
      let value ← lower look f.field.type .field
        ("this->" ++ hostIdentifier names p.type.name f.field.name) []
      return value.value) = .ok (Conversion.lower names f.field.type .field
        ("this->" ++ hostIdentifier names p.type.name f.field.name) []).value := by
    intro f hf
    rw [lower_eq h (hfields f hf), ok_bind]
    rfl
  unfold conversionDecls TypePlan.conversionDecls
  rw [mapM_eq_ok hlowered, mapM_eq_ok fun f hf => lift_eq h (hfields f hf) _ _ _]
  cases p.type.shape <;> rfl

/-- A plan that refers to known ids only is rendered without a breakdown. -/
theorem render_eq (target : Target) (hp : p.RefersWithin ids)
    (hmethods : ∀ m ∈ p.methods, m.Coherent) (ns : Text) :
    render look target p names ns = .ok (target.render p names ns) := by
  have hdefinitions : p.methods.mapM (definition look names p.type) =
      .ok (p.methods.map (MethodPlan.definition names p.type)) :=
    mapM_eq_ok fun m hm =>
      definition_eq (hmethods m hm) h (hp.params m hm) (hp.returns m hm) p.type
  have hnative : declarationHeader look p = .ok (p.declarationHeader names) ∧
      functionHeader look p = .ok (p.functionHeader names) := by
    constructor
    · rw [declarationHeader, includesOf_eq h _ hp.fieldDeps]
      rfl
    · rw [functionHeader, includesOf_eq h _ hp.deps]
      rfl
  have hhost : hostDeclarationHeader look names p ns = .ok (p.hostDeclarationHeader names ns) ∧
      hostDefinitionHeader look names p ns = .ok (p.hostDefinitionHeader names ns) := by
    constructor
    · rw [hostDeclarationHeader, includesOf_eq h _ hp.definitionDeps, forwardTypes_eq h hp.deps,
        hostTypeDecl_eq hmethods]
      rfl
    · rw [hostDefinitionHeader, includesOf_eq h _ hp.deps, includesOf_eq h _ hp.deps, hdefinitions,
        conversionDecls_eq h hp.fields]
      rfl
  rw [render, hnative.1, hnative.2, hhost.1, hhost.2]
  cases target <;> rfl

end

end Bindery.Strict
