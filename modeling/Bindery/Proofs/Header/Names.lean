import Bindery.Generation.Target
import Mathlib.Data.List.Basic

/-!
What headers read of the other types. The C headers look at the names of the types a plan depends
on; the C++ headers also at their kinds, at the names of the types that fields, parameters and
returns mention, and at which names are taken by types.
-/

set_option autoImplicit false

namespace Bindery

structure Names.AgreeOn (n n' : Names) (ids : TypeId → Prop) : Prop where
  name : ∀ id, ids id → n.name id = n'.name id
  kind : ∀ id, ids id → n.kind id = n'.kind id

structure TypePlan.RefersWithin (p : TypePlan) (ids : TypeId → Prop) : Prop where
  fields : ∀ f ∈ p.fields, ∀ id ∈ f.field.type.ids, ids id
  params : ∀ m ∈ p.methods, ∀ q ∈ m.method.params, ∀ id ∈ q.type.ids, ids id
  returns : ∀ m ∈ p.methods, ∀ id ∈ m.method.returns.ids, ids id
  fieldDeps : ∀ id ∈ p.fieldDeps, ids id
  definitionDeps : ∀ id ∈ p.definitionDeps, ids id
  deps : ∀ id ∈ p.deps, ids id

variable {n n' : Names} {ids : TypeId → Prop}

namespace Conversion

theorem optionalType_congr {ref : TypeRef} (h : ∀ id ∈ ref.ids, n.name id = n'.name id) :
    optionalType n ref = optionalType n' ref := by
  cases ref with
  | record id byRef => rw [optionalType, optionalType, h id (by simp [TypeRef.ids])]
  | enumeration id => rw [optionalType, optionalType, h id (by simp [TypeRef.ids])]
  | _ => rfl

theorem lower_congr {ref : TypeRef} (h : ∀ id ∈ ref.ids, n.name id = n'.name id)
    (position : Position) (expr temp : Text) :
    lower n ref position expr temp = lower n' ref position expr temp := by
  induction ref generalizing position expr temp with
  | record id byRef => rw [lower, lower, h id (by simp [TypeRef.ids])]
  | enumeration id => rw [lower, lower, h id (by simp [TypeRef.ids])]
  | nullable inner ih =>
    have hinner := ih h
    have htype : optionalType n inner = optionalType n' inner := optionalType_congr h
    rw [lower.eq_def, lower.eq_def]
    cases inner <;> simp only [hinner, htype]
  | _ => rfl

theorem lift_congr {ref : TypeRef} (h : ∀ id ∈ ref.ids, n.name id = n'.name id) (host : Text)
    (position : Position) (expr : Text) :
    lift n ref host position expr = lift n' ref host position expr := by
  induction ref generalizing host position expr with
  | object id ownership isMutable => rw [lift, lift, h id (by simp [TypeRef.ids])]
  | record id byRef => rw [lift, lift, h id (by simp [TypeRef.ids])]
  | enumeration id => rw [lift, lift, h id (by simp [TypeRef.ids])]
  | nullable inner ih =>
    have hinner := ih h
    rw [lift.eq_def, lift.eq_def]
    cases inner <;> simp only [hinner]
  | _ => rfl

end Conversion

theorem hostIdentifier_congr (h : n.hasType = n'.hasType) (owner name : Text) :
    hostIdentifier n owner name = hostIdentifier n' owner name := by
  rw [hostIdentifier, hostIdentifier, h]

theorem ofPlan_congr (h : n.hasType = n'.hasType) (owner : TypeDef) (p : MethodPlan) :
    HostMethod.ofPlan n owner p = HostMethod.ofPlan n' owner p := by
  simp only [HostMethod.ofPlan, hostIdentifier_congr h]

namespace MethodBody

theorem lowerParams_congr (h : n.hasType = n'.hasType) {params : List Param}
    (hparams : ∀ q ∈ params, ∀ id ∈ q.type.ids, n.name id = n'.name id) (owner : TypeDef) :
    lowerParams n owner params = lowerParams n' owner params := by
  apply List.map_congr_left
  intro q hq
  simp only [hostIdentifier_congr h, Conversion.lower_congr (hparams q hq)]

theorem outcomeLines_congr {returns : TypeRef}
    (h : ∀ id ∈ returns.ids, n.name id = n'.name id) (o : Outcome) :
    outcomeLines n returns o = outcomeLines n' returns o := by
  cases returns with
  | fallible ok err =>
    simp only [TypeRef.ids, List.mem_append] at h
    have hok := Conversion.lift_congr fun id hid => h id (.inl hid)
    have herr := Conversion.lift_congr fun id hid => h id (.inr hid)
    simp only [outcomeLines, payload, hok, herr]
  | _ => rfl

theorem returnLines_congr {p : MethodPlan}
    (h : ∀ id ∈ p.method.returns.ids, n.name id = n'.name id) :
    returnLines n p = returnLines n' p := by
  unfold returnLines
  simp only [outcomeLines_congr h, Conversion.lift_congr h]

end MethodBody

theorem definition_congr (h : n.hasType = n'.hasType) {p : MethodPlan}
    (hparams : ∀ q ∈ p.method.params, ∀ id ∈ q.type.ids, n.name id = n'.name id)
    (hreturns : ∀ id ∈ p.method.returns.ids, n.name id = n'.name id) (owner : TypeDef) :
    p.definition n owner = p.definition n' owner := by
  have hlower := MethodBody.lowerParams_congr h hparams owner
  simp only [MethodPlan.definition, ofPlan_congr h, MethodBody.locals, MethodBody.lines,
    MethodBody.callLines, MethodBody.callText, hlower, MethodBody.returnLines_congr hreturns]

namespace TypePlan

variable {p : TypePlan}

theorem declarationHeader_congr (h : ∀ id ∈ p.fieldDeps, n.name id = n'.name id) :
    p.declarationHeader n = p.declarationHeader n' := by
  have hincludes : (p.fieldDeps.map fun id => Include.file (UnitFile.declaration (n.name id))) =
      p.fieldDeps.map fun id => Include.file (UnitFile.declaration (n'.name id)) :=
    List.map_congr_left fun id hid => by rw [h id hid]
  simp only [declarationHeader, hincludes]

theorem functionHeader_congr (h : ∀ id ∈ p.deps, n.name id = n'.name id) :
    p.functionHeader n = p.functionHeader n' := by
  have hincludes : (p.deps.map fun id => Include.file (UnitFile.declaration (n.name id))) =
      p.deps.map fun id => Include.file (UnitFile.declaration (n'.name id)) :=
    List.map_congr_left fun id hid => by rw [h id hid]
  simp only [functionHeader, hincludes]

theorem forwardTypes_congr (h : n.AgreeOn n' ids) (hp : p.RefersWithin ids) :
    p.forwardTypes n = p.forwardTypes n' := by
  apply List.filterMap_congr
  intro id hid
  have hdep := hp.deps id (List.mem_of_mem_filter hid)
  simp only [h.name id hdep, h.kind id hdep]

theorem hostDeclarationHeader_congr (h : n.AgreeOn n' ids) (htypes : n.hasType = n'.hasType)
    (hp : p.RefersWithin ids) (ns : Text) :
    p.hostDeclarationHeader n ns = p.hostDeclarationHeader n' ns := by
  have hincludes : (p.definitionDeps.map fun id =>
        Include.file (UnitFile.hostDeclaration (n.name id))) =
      p.definitionDeps.map fun id => Include.file (UnitFile.hostDeclaration (n'.name id)) :=
    List.map_congr_left fun id hid => by rw [h.name id (hp.definitionDeps id hid)]
  have hmethods : p.hostMethods n = p.hostMethods n' :=
    List.map_congr_left fun m _ => by
      simp only [MethodPlan.declaration, ofPlan_congr htypes]
  have htype : p.hostTypeDecl n = p.hostTypeDecl n' := by
    simp only [hostTypeDecl, hmethods, hostFields, hostIdentifier_congr htypes]
  simp only [hostDeclarationHeader, hincludes, forwardTypes_congr h hp, htype]

theorem conversionDecls_congr (h : n.AgreeOn n' ids) (htypes : n.hasType = n'.hasType)
    (hp : p.RefersWithin ids) : p.conversionDecls n = p.conversionDecls n' := by
  have hname : ∀ f ∈ p.fields, ∀ id ∈ f.field.type.ids, n.name id = n'.name id :=
    fun f hf id hid => h.name id (hp.fields f hf id hid)
  have hlowered : p.loweredFields n = p.loweredFields n' :=
    List.map_congr_left fun f hf => by
      rw [hostIdentifier_congr htypes, Conversion.lower_congr (hname f hf)]
  have hlifted : p.liftedFields n = p.liftedFields n' :=
    List.map_congr_left fun f hf => by rw [Conversion.lift_congr (hname f hf)]
  simp only [conversionDecls, hlowered, hlifted]

theorem hostDefinitionHeader_congr (h : n.AgreeOn n' ids) (htypes : n.hasType = n'.hasType)
    (hp : p.RefersWithin ids) (ns : Text) :
    p.hostDefinitionHeader n ns = p.hostDefinitionHeader n' ns := by
  have hincludes : ∀ file : Text → Text,
      (p.deps.map fun id => Include.file (file (n.name id))) =
        p.deps.map fun id => Include.file (file (n'.name id)) :=
    fun file => List.map_congr_left fun id hid => by rw [h.name id (hp.deps id hid)]
  have hmethods : p.methods.map (MethodPlan.definition n p.type) =
      p.methods.map (MethodPlan.definition n' p.type) :=
    List.map_congr_left fun m hm =>
      definition_congr htypes (fun q hq id hid => h.name id (hp.params m hm q hq id hid))
        (fun id hid => h.name id (hp.returns m hm id hid)) p.type
  simp only [hostDefinitionHeader, hincludes, hmethods, conversionDecls_congr h htypes hp]

end TypePlan

/-- Names that agree on what a plan refers to give the same headers. Which names are taken matters
in C++ alone. -/
theorem render_congr {target : Target} {p : TypePlan} (h : n.AgreeOn n' ids)
    (htypes : target = .cpp → n.hasType = n'.hasType) (hp : p.RefersWithin ids) (ns : Text) :
    target.render p n ns = target.render p n' ns := by
  have hdeclaration := TypePlan.declarationHeader_congr (p := p) fun id hid =>
    h.name id (hp.fieldDeps id hid)
  have hfunctions := TypePlan.functionHeader_congr (p := p) fun id hid =>
    h.name id (hp.deps id hid)
  cases target with
  | c => simp only [Target.render, hdeclaration, hfunctions]
  | cpp =>
    simp only [Target.render, hdeclaration, hfunctions,
      TypePlan.hostDeclarationHeader_congr h (htypes rfl) hp,
      TypePlan.hostDefinitionHeader_congr h (htypes rfl) hp]

end Bindery
