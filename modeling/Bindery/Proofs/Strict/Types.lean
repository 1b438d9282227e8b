import Bindery.Proofs.Strict.Headers
import Bindery.Proofs.Generation.References

/-!
The work on one type step by step: its name is looked into, its plan drawn up, and the headers
rendered if nothing is wrong. What a plan holds was mapped, so it refers to enabled types only, and
every signature in it was made for its method; that is all rendering needs.
-/

set_option autoImplicit false

namespace Bindery.Strict

def usesSupportPrefix (name : Text) : Step Bool := do
  let support ←
    if 4 < name.length ∧ Text.startsWith name "Weld" then do
      let c ← item name 4
      pure (Byte.isUpper c)
    else pure false
  return support || Text.startsWith (Text.lower name) "weld_"

def typeNameProblems (t : TypeDef) : Step (List Diagnostic) := do
  let reserved : List Diagnostic :=
    if Identifier.isReserved t.name then
      [.ofType .namingConflict t (Text.quoted t.name ++ " is a reserved word")]
    else []
  if ← usesSupportPrefix t.name then
    return reserved ++ [.ofType .namingConflict t
      (Text.quoted t.name ++ " uses a prefix reserved for runtime support types")]
  else return reserved

theorem usesSupportPrefix_eq (name : Text) :
    usesSupportPrefix name = .ok (Bindery.usesSupportPrefix name) := by
  unfold usesSupportPrefix Bindery.usesSupportPrefix
  cases hafter : Text.after? "Weld" name with
  | none =>
    have hstart : Text.startsWith name "Weld" = false := by
      by_contra hstart
      obtain ⟨rest, rfl⟩ :=
        List.isPrefixOf_iff_prefix.mp (Bool.eq_true_of_not_eq_false hstart)
      rw [Json.after?_eq_some_iff.mpr rfl] at hafter
      cases hafter
    simp [hstart]
  | some rest =>
    obtain rfl := Json.after?_eq_some_iff.mp hafter
    have hstart : Text.startsWith ("Weld" ++ rest) "Weld" = true :=
      List.isPrefixOf_iff_prefix.mpr (List.prefix_append _ rest)
    cases rest with
    | nil => rfl
    | cons c rest =>
      have hlength : 4 < (ascii "Weld" ++ c :: rest).length := by simp [ascii]
      rw [if_pos ⟨hlength, hstart⟩, item_of_lt hlength]
      rfl

theorem typeNameProblems_eq (t : TypeDef) :
    typeNameProblems t = .ok (Bindery.typeNameProblems t) := by
  rw [typeNameProblems, usesSupportPrefix_eq, ok_bind, Bindery.typeNameProblems]
  cases Bindery.usesSupportPrefix t.name <;> simp

def planMethod (c : Context) (t : TypeDef) (m : Method) : Step (Except Diagnostic MethodPlan) := do
  match ← signature c.mapper t m with
  | .error fault => return .error (fault.diagnostic t m)
  | .ok signature =>
    match ← planTransfers c.registry t m with
    | .error d => return .error d
    | .ok transfers => return .ok ⟨m, signature, transfers⟩

def planFields (c : Context) (t : TypeDef) :
    (seen : List Text) → List Field → Step (List FieldPlan × List Diagnostic)
  | _, [] => return ([], [])
  | seen, f :: fs => do
    let mapped ← map c.mapper f.type .field []
    let rest ← planFields c t (f.name :: seen) fs
    let repeated : List Diagnostic :=
      if seen.contains f.name then
        [.ofType .namingConflict t ("field " ++ Text.quoted f.name ++ " is declared twice")]
      else []
    match mapped with
    | .ok mapped => return (⟨f, mapped⟩ :: rest.1, repeated ++ rest.2)
    | .error fault => return (rest.1, repeated ++ mapProblem t fault :: rest.2)

def planRecord (c : Context) (t : TypeDef) (methods : List Method) :
    Step (List FieldPlan × List Diagnostic) := do
  let fields ← fieldsOf t
  if fields.isEmpty then return ([], [.ofType .unsupportedType t "struct has no fields"])
  else
    match ← recordLayout c.mapper t with
    | .error fault => return ([], [mapProblem t fault])
    | .ok _ =>
      let planned ← planFields c t [] fields
      return (planned.1, planned.2 ++ fieldClashes t methods)

def enumerationProblems (t : TypeDef) : Step (List Diagnostic) := do
  let variants ← variantsOf t
  if variants.isEmpty then return [.ofType .unsupportedType t "enum has no variants"]
  else
    match ← checkEnumeration t with
    | .error fault => return [mapProblem t fault]
    | .ok () => return []

def planDefinition (c : Context) (t : TypeDef) (methods : List Method) :
    Step (List FieldPlan × List Diagnostic) := do
  match t.kind with
  | .object => return ([], [])
  | .record => planRecord c t methods
  | .enumeration =>
    let problems ← enumerationProblems t
    return ([], problems)
  | .synonym => return ([], [])

def isRecord (r : Registry) (id : TypeId) : Step Bool := do
  match ← findType r id with
  | some t => return t.kind = .record
  | none => return false

def assemblePlan (c : Context) (t : TypeDef) (fields : List FieldPlan)
    (methods : List MethodPlan) : Step TypePlan := do
  let fieldIds := fields.flatMap fun f => f.mapped.deps
  let methodIds := methods.flatMap fun m => m.signature.deps
  let records ← fieldIds.filterM (isRecord c.registry)
  return {
    type := t
    methods
    fields
    destructor := (c.registry.destructors c.enabled).lookup t.id
    definitionDeps := (idSet records).filter (· != t.id)
    deps := (idSet (fieldIds ++ methodIds)).filter (· != t.id) }

def draftType (c : Context) (t : TypeDef) : Step Draft := do
  let chosen := selectMethods c.availability t t.methods
  let nameProblems ← typeNameProblems t
  let definition ← planDefinition c t chosen.methods
  let results ← chosen.methods.mapM (planMethod c t)
  let planned := partitionResults results
  let plan ← assemblePlan c t definition.1 planned.1
  return {
    plan
    errors :=
      nameProblems ++ chosen.errors ++ checkSymbols t chosen.methods ++ definition.2 ++ planned.2
    omissions := chosen.omissions }

/-- Renders a draft without errors; `look` answers for the table of names. -/
def finishDraft (look : Lookup) (c : Context) (d : Draft) : Step TypeOutcome := do
  let t := d.plan.type
  if d.errors.isEmpty then
    match ← checkDestructors c.registry c.enabled t d.plan.deps with
    | [] =>
      let artifacts ← render look c.target d.plan c.names c.options.hostNamespace
      return ⟨t, [], d.omissions, some ⟨d.plan.symbols, d.plan.declaredNames, artifacts⟩⟩
    | missing => return ⟨t, missing, d.omissions, none⟩
  else return ⟨t, d.errors, d.omissions, none⟩

def processType (look : Lookup) (c : Context) (t : TypeDef) : Step TypeOutcome := do
  let draft ← draftType c t
  finishDraft look c draft

section
variable {c : Context} (hwidth : c.mapper.KnownWidth) (t : TypeDef)
include hwidth

theorem planMethod_eq (m : Method) : planMethod c t m = .ok (Bindery.planMethod c t m) := by
  rw [planMethod, signature_eq hwidth, ok_bind, Bindery.planMethod]
  cases c.mapper.signature t m with
  | error fault => rfl
  | ok signature =>
    simp only [planTransfers_eq, ok_bind]
    cases c.registry.planTransfers t m <;> rfl

theorem planFields_eq (seen : List Text) (fields : List Field) :
    planFields c t seen fields = .ok (Bindery.planFields c t seen fields) := by
  induction fields generalizing seen with
  | nil => rfl
  | cons f fs ih =>
    rw [planFields, Bindery.planFields, map_eq hwidth, ih, ok_bind, ok_bind]
    cases c.mapper.map f.type .field [] <;> rfl

theorem planDefinition_eq (methods : List Method) :
    planDefinition c t methods = .ok (Bindery.planDefinition c t methods) := by
  unfold planDefinition Bindery.planDefinition
  cases hkind : t.kind with
  | object | synonym => rfl
  | record =>
    simp only [planRecord, Bindery.planRecord, fieldsOf_eq hkind, recordLayout_eq hwidth hkind,
      planFields_eq hwidth, ok_bind]
    split_ifs
    · rfl
    · cases c.mapper.recordLayout t <;> rfl
  | enumeration =>
    simp only [enumerationProblems, Bindery.enumerationProblems, variantsOf_eq hkind,
      checkEnumeration_eq hkind, ok_bind]
    split_ifs
    · rfl
    · cases Mapper.checkEnumeration t <;> rfl

omit hwidth in
theorem assemblePlan_eq (fields : List FieldPlan) (methods : List MethodPlan) :
    assemblePlan c t fields methods = .ok (Bindery.assemblePlan c t fields methods) := by
  have hrecord : ∀ id ∈ fields.flatMap fun f => f.mapped.deps,
      isRecord c.registry id = .ok (Bindery.isRecord c.registry id) := by
    intro id _
    rw [isRecord, findType_eq, ok_bind, Bindery.isRecord]
    cases c.registry.find? id <;> rfl
  rw [assemblePlan, filterM_eq_ok hrecord]
  rfl

theorem draftType_eq : draftType c t = .ok (Bindery.draftType c t) := by
  have hplanned := mapM_eq_ok (l := (selectMethods c.availability t t.methods).methods)
    fun m _ => planMethod_eq hwidth t m
  rw [draftType, typeNameProblems_eq, planDefinition_eq hwidth, hplanned]
  simp only [ok_bind, assemblePlan_eq]
  rfl

/-- The work on an enabled type breaks down nowhere, if `look` knows the enabled types. -/
theorem processType_eq {look : Lookup} (hlook : look.Serves c.names c.mapper.Knows)
    (ht : c.mapper.Knows t.id) : processType look c t = .ok (Bindery.processType c t) := by
  have hcoherent : ∀ m ∈ (Bindery.draftType c t).plan.methods, m.Coherent :=
    fun m hm => MethodPlan.coherent_of_signature (mem_draftType_methods hm).2
  have hrender := render_eq hlook c.target (draftType_knows ht) hcoherent c.options.hostNamespace
  rw [processType, draftType_eq hwidth, ok_bind, finishDraft, Bindery.processType, Draft.finish,
    hrender, checkDestructors_eq, ok_bind]
  by_cases hclean : (Bindery.draftType c t).errors.isEmpty = true
  · rw [if_pos hclean, if_pos hclean]
    cases c.registry.checkDestructors c.enabled (Bindery.draftType c t).plan.type
      (Bindery.draftType c t).plan.deps <;> rfl
  · rw [if_neg hclean, if_neg hclean]
    rfl

end

end Bindery.Strict
