import Bindery.Proofs.Generation.Collision
import Bindery.Proofs.Mapping.NativeSide

/-!
One type in C and in C++. Where its methods are available alike, the two plans are the same but for
the host types, the same types have something wrong with them, and the C headers are the same to
the byte.
-/

set_option autoImplicit false

namespace Bindery

/-- The rules come to the same for both: available, not available, or no answer at all. -/
def Availability.Agree (a a' : Availability) (rules : List Rule) : Prop :=
  (resolveRules rules a.target a.features).toOption =
    (resolveRules rules a'.target a'.features).toOption

instance (a a' : Availability) (rules : List Rule) : Decidable (a.Agree a' rules) :=
  inferInstanceAs (Decidable (_ = _))

section
variable {a a' : Availability}

theorem Availability.Agree.enables_eq {rules : List Rule} (h : a.Agree a' rules) :
    a.enables rules = a'.enables rules := by
  have henables : ∀ b : Availability,
      b.enables rules = (resolveRules rules b.target b.features).toOption.getD false := by
    intro b
    rw [Availability.enables]
    cases resolveRules rules b.target b.features <;> rfl
  rw [henables, henables, h]

theorem selectMethods_errors_iff {t : TypeDef} {ms : List Method}
    (h : ∀ m ∈ ms, a.Agree a' m.rules) :
    (selectMethods a t ms).errors = [] ↔ (selectMethods a' t ms).errors = [] := by
  induction ms with
  | nil => exact Iff.rfl
  | cons m ms ih =>
    simp only [List.mem_cons, forall_eq_or_imp] at h
    obtain ⟨hm, hms⟩ := h
    have hrest := ih hms
    unfold Availability.Agree at hm
    -- the two faults need not be the same: a contradiction names the target it was found for
    rw [selectMethods, selectMethods, Availability.ofMethod, Availability.ofMethod]
    cases hr : resolveRules m.rules a.target a.features with
    | error fault =>
      cases hr' : resolveRules m.rules a'.target a'.features with
      | error fault' => simp
      | ok b => simp [hr, hr', Except.toOption] at hm
    | ok b =>
      cases hr' : resolveRules m.rules a'.target a'.features with
      | error fault' => simp [hr, hr', Except.toOption] at hm
      | ok b' => cases b <;> cases b' <;> exact hrest

theorem selectMethods_methods_eq {t : TypeDef} {ms : List Method}
    (h : ∀ m ∈ ms, a.Agree a' m.rules) :
    (selectMethods a t ms).methods = (selectMethods a' t ms).methods := by
  rw [selectMethods_methods, selectMethods_methods]
  exact List.filter_congr fun m hm => (h m hm).enables_eq

end

def MethodPlan.inC (p : MethodPlan) : MethodPlan := { p with signature := p.signature.inC }

def FieldPlan.inC (p : FieldPlan) : FieldPlan := { p with mapped := p.mapped.inC }

def TypePlan.inC (p : TypePlan) : TypePlan :=
  { p with methods := p.methods.map MethodPlan.inC, fields := p.fields.map FieldPlan.inC }

namespace TypePlan

variable (p : TypePlan) (names : Names)

theorem typeDecls_inC : p.inC.typeDecls = p.typeDecls := by
  have hmembers : (p.inC.fields.map fun f =>
        (⟨f.field.docs, f.mapped.native.cType, f.field.name⟩ : CMember)) =
      p.fields.map fun f => ⟨f.field.docs, f.mapped.native.cType, f.field.name⟩ := by
    rw [inC, List.map_map]
    rfl
  rw [typeDecls, hmembers]
  rfl

theorem fieldDeps_inC : p.inC.fieldDeps = p.fieldDeps := by
  have hdeps : (p.inC.fields.flatMap fun f => f.mapped.deps) =
      p.fields.flatMap fun f => f.mapped.deps := List.flatMap_map _ _ _
  rw [fieldDeps, hdeps]
  rfl

theorem declarationHeader_inC : p.inC.declarationHeader names = p.declarationHeader names := by
  rw [declarationHeader, fieldDeps_inC, typeDecls_inC]
  rfl

/-- The declarations differ in what they carry of the host language, which is not written. -/
theorem functionDecls_text_inC :
    p.inC.functionDecls.flatMap CDecl.text = p.functionDecls.flatMap CDecl.text := by
  have hresults : (p.inC.methods.filterMap fun m =>
        m.signature.outcome.map fun o => CDecl.result o.record) =
      p.methods.filterMap fun m => m.signature.outcome.map fun o => CDecl.result o.record := by
    rw [inC, List.filterMap_map]
    apply List.filterMap_congr
    intro m _
    cases h : m.signature.outcome <;> simp [MethodPlan.inC, Signature.inC, h, Outcome.inC]
  have hfunctions : (p.inC.methods.map fun m =>
        CDecl.function m.method.docs m.transfers.describe m.signature).flatMap CDecl.text =
      (p.methods.map fun m =>
        CDecl.function m.method.docs m.transfers.describe m.signature).flatMap CDecl.text := by
    rw [inC, List.map_map, List.flatMap_map, List.flatMap_map]
    rfl
  rw [functionDecls, functionDecls, List.flatMap_append, List.flatMap_append, List.flatMap_append,
    List.flatMap_append, hresults, hfunctions]
  rfl

theorem functionHeader_text_inC :
    (p.inC.functionHeader names).text = (p.functionHeader names).text := by
  have hdecls := p.functionDecls_text_inC
  simp only [CHeader.text, Header.render, functionHeader, hdecls]
  rfl

end TypePlan

structure Context.Parallel (c c' : Context) : Prop where
  target : c.target = .c
  target' : c'.target = .cpp
  registry : c.registry = c'.registry
  enabled : c.enabled = c'.enabled
  pointerWidth : c.options.pointerWidth = c'.options.pointerWidth
  names : c.names = c'.names

theorem partitionResults_map {ε α β : Type} (f : α → β) (rs : List (Except ε α)) :
    partitionResults (rs.map (Except.map f)) =
      ((partitionResults rs).1.map f, (partitionResults rs).2) := by
  induction rs with
  | nil => rfl
  | cons r rs ih => cases r <;> simp [partitionResults, Except.map, ih]

namespace Context.Parallel

variable {c c' : Context} {t : TypeDef} (h : c.Parallel c')
include h

theorem mapper_eq : c.mapper = c'.mapper.inC := by
  simp only [Context.mapper, Mapper.inC, h.target, h.registry, h.enabled, h.pointerWidth]
  rfl

theorem planMethod_eq (t : TypeDef) (m : Method) :
    planMethod c t m = (planMethod c' t m).map MethodPlan.inC := by
  rw [planMethod, planMethod, h.mapper_eq, Mapper.signature_inC, h.registry]
  cases c'.mapper.signature t m with
  | error fault => rfl
  | ok signature => cases c'.registry.planTransfers t m <;> rfl

theorem planMethods_eq (t : TypeDef) (ms : List Method) :
    partitionResults (ms.map (planMethod c t)) =
      ((partitionResults (ms.map (planMethod c' t))).1.map MethodPlan.inC,
        (partitionResults (ms.map (planMethod c' t))).2) := by
  have hplanned : planMethod c t = Except.map MethodPlan.inC ∘ planMethod c' t :=
    funext (h.planMethod_eq t)
  rw [hplanned, ← List.map_map, partitionResults_map]

theorem planFields_eq (t : TypeDef) (seen : List Text) (fields : List Field) :
    planFields c t seen fields =
      ((planFields c' t seen fields).1.map FieldPlan.inC, (planFields c' t seen fields).2) := by
  induction fields generalizing seen with
  | nil => rfl
  | cons f fs ih =>
    rw [planFields, planFields, h.mapper_eq, Mapper.map_inC, ih]
    cases c'.mapper.map f.type .field [] <;> rfl

theorem planDefinition_eq (t : TypeDef) (ms : List Method) :
    planDefinition c t ms =
      ((planDefinition c' t ms).1.map FieldPlan.inC, (planDefinition c' t ms).2) := by
  unfold planDefinition
  cases t.kind with
  | record =>
    dsimp only
    rw [planRecord, planRecord, h.mapper_eq, Mapper.recordLayout_inC, h.planFields_eq]
    split_ifs
    · rfl
    · cases c'.mapper.recordLayout t <;> rfl
  | _ => rfl

theorem assemblePlan_eq (t : TypeDef) (fields : List FieldPlan) (methods : List MethodPlan) :
    assemblePlan c t (fields.map FieldPlan.inC) (methods.map MethodPlan.inC) =
      (assemblePlan c' t fields methods).inC := by
  have hfields : ((fields.map FieldPlan.inC).flatMap fun f => f.mapped.deps) =
      fields.flatMap fun f => f.mapped.deps := List.flatMap_map _ _ _
  have hmethods : ((methods.map MethodPlan.inC).flatMap fun m => m.signature.deps) =
      methods.flatMap fun m => m.signature.deps := by
    rw [List.flatMap_map]
    simp only [MethodPlan.inC, Signature.deps_inC]
  simp only [assemblePlan, hfields, hmethods, h.registry, h.enabled]
  rfl

section
variable (hrules : ∀ m ∈ t.methods, c.availability.Agree c'.availability m.rules)
include hrules

theorem draftType_plan_eq : (draftType c t).plan = (draftType c' t).plan.inC := by
  simp only [draftType, selectMethods_methods_eq hrules, h.planDefinition_eq, h.planMethods_eq,
    h.assemblePlan_eq]

theorem draftType_errors_iff : (draftType c t).errors = [] ↔ (draftType c' t).errors = [] := by
  simp only [draftType, selectMethods_methods_eq hrules, h.planDefinition_eq, h.planMethods_eq,
    List.append_eq_nil_iff, selectMethods_errors_iff hrules]

theorem processType_errors_iff :
    (processType c t).errors = [] ↔ (processType c' t).errors = [] := by
  have hdeps : (draftType c t).plan.deps = (draftType c' t).plan.deps := by
    rw [h.draftType_plan_eq hrules]
    rfl
  have hclean : ∀ d : Context, (processType d t).errors = [] ↔ (draftType d t).errors = [] ∧
      d.registry.checkDestructors d.enabled t (draftType d t).plan.deps = [] := by
    intro d
    have htype : (draftType d t).plan.type = t := rfl
    by_cases hdraft : (draftType d t).errors = []
    · cases hd : d.registry.checkDestructors d.enabled t (draftType d t).plan.deps <;>
        simp [processType, Draft.finish, hdraft, htype, hd]
    · simp [processType, Draft.finish, hdraft]
  rw [hclean, hclean, h.draftType_errors_iff hrules, hdeps, h.registry, h.enabled]

theorem cHeaders_eq :
    [Target.cArtifact ((draftType c t).plan.declarationHeader c.names) t.id,
      Target.cArtifact ((draftType c t).plan.functionHeader c.names) t.id] =
    [Target.cArtifact ((draftType c' t).plan.declarationHeader c'.names) t.id,
      Target.cArtifact ((draftType c' t).plan.functionHeader c'.names) t.id] := by
  have htext := (draftType c' t).plan.functionHeader_text_inC c'.names
  rw [h.draftType_plan_eq hrules, h.names, TypePlan.declarationHeader_inC]
  simp only [Target.cArtifact, htext]
  rfl

/-- What a type comes to in C is the first part of what it comes to in C++. -/
theorem processType_artifacts_eq :
    ∃ host, (processType c' t).artifacts = (processType c t).artifacts ++ host := by
  have hiff := h.processType_errors_iff hrules
  rcases processType_cases c t with ⟨-, hp⟩ | ⟨errors, hne, -, hp⟩
  · rcases processType_cases c' t with ⟨-, hp'⟩ | ⟨errors', hne', -, hp'⟩
    · rw [hp, hp', TypeOutcome.artifacts, TypeOutcome.artifacts]
      simp only [TypePlan.generate, Target.render, h.target, h.target']
      exact ⟨_, congrArg (· ++ _) (h.cHeaders_eq hrules).symm⟩
    · rw [hp, hp'] at hiff
      exact absurd (hiff.mp rfl) hne'
  · rw [hp]
    exact ⟨_, rfl⟩

end

end Context.Parallel

end Bindery
