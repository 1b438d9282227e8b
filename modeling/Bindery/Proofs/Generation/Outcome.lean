import Bindery.Generation.Report
import Bindery.Proofs.Mapping.Signatures
import Bindery.Proofs.Registry
import Bindery.Proofs.Sorted

/-!
What one type comes to. Nothing is wrong with it and it is rendered, or every error names it and it
contributes nothing. The symbols and the C identifiers of a rendered type follow from its
definition and the rules of its methods alone.
-/

set_option autoImplicit false

namespace Bindery

namespace Availability

def enables (a : Availability) (rules : List Rule) : Bool :=
  match resolveRules rules a.target a.features with
  | .ok b => b
  | .error _ => false

def enabledMethods (a : Availability) (t : TypeDef) : List Method :=
  t.methods.filter fun m => a.enables m.rules

def disabledMethods (a : Availability) (t : TypeDef) : List Method :=
  t.methods.filter fun m => !a.enables m.rules

/-- The functions a type exports: its enabled methods in order, then its destructor. -/
def exportedSymbols (a : Availability) (t : TypeDef) : List Text :=
  (a.enabledMethods t).map (methodSymbol t) ++
    if t.kind = .object then [destructorSymbol t] else []

end Availability

def TypeRef.isFallible : TypeRef → Bool
  | fallible _ _ => true
  | _ => false

def definitionIdentifiers (t : TypeDef) : List Text :=
  t.name :: t.variants.map (fun v => TypePlan.constantName t.name v.name) ++
    if t.kind = .record ∨ t.kind = .enumeration then [optionName t.name] else []

def Availability.declaredIdentifiers (a : Availability) (t : TypeDef) : List Text :=
  definitionIdentifiers t ++
    ((a.enabledMethods t).filter fun m => m.returns.isFallible).map (resultName t) ++
    a.exportedSymbols t

theorem selectMethods_methods (a : Availability) (t : TypeDef) (ms : List Method) :
    (selectMethods a t ms).methods = ms.filter fun m => a.enables m.rules := by
  induction ms with
  | nil => rfl
  | cons m ms ih =>
    unfold selectMethods
    cases h : resolveRules m.rules a.target a.features with
    | error fault => simp [Availability.ofMethod, Availability.enables, h, ih]
    | ok b => cases b <;> simp [Availability.ofMethod, Availability.enables, h, ih]

theorem selectMethods_omissions {a : Availability} {t : TypeDef} {ms : List Method}
    (h : (selectMethods a t ms).errors = []) :
    (selectMethods a t ms).omissions =
      (ms.filter fun m => !a.enables m.rules).map fun m => a.omission t m.name := by
  induction ms with
  | nil => rfl
  | cons m ms ih =>
    unfold selectMethods at h ⊢
    cases hr : resolveRules m.rules a.target a.features with
    | error fault => simp [Availability.ofMethod, hr] at h
    | ok b =>
      cases b <;> simp [Availability.ofMethod, hr] at h <;>
        simp [Availability.ofMethod, Availability.enables, hr, ih h]

theorem typeId_of_mem_omissions {a : Availability} {t : TypeDef} {ms : List Method} {o : Omission}
    (h : o ∈ (selectMethods a t ms).omissions) : o.typeId = t.id := by
  induction ms with
  | nil => simp [selectMethods] at h
  | cons m ms ih =>
    unfold selectMethods at h
    cases hr : a.ofMethod t m with
    | error d => exact ih (by simpa [hr] using h)
    | ok b =>
      cases b with
      | true => exact ih (by simpa [hr] using h)
      | false =>
        simp [hr] at h
        rcases h with rfl | h
        · rfl
        · exact ih h

namespace Mapper

/-- A fallible return is represented by the record it was given the name of. -/
theorem map_fallible {m : Mapper} {ok err : TypeRef} {name : Text} {mapped : Mapped}
    (h : m.map (.fallible ok err) .result name = .ok mapped) : mapped.native.cType = name := by
  rw [Mapper.map, mapWith] at h
  split_ifs at h with hpos herr
  cases hok : m.mapWith m.recordLayout ok .okPayload [] with
  | error fault => simp [hok] at h
  | ok okMapped =>
    cases he : m.mapWith m.recordLayout err .errPayload [] with
    | error fault => simp [hok, he] at h
    | ok errMapped =>
      simp [hok, he] at h
      rw [← h]

theorem mapOutcome_name {m : Mapper} {ok err : TypeRef} {native : Native} {outcome : Outcome}
    (h : m.mapOutcome ok err native = .ok outcome) : outcome.record.name = native.cType := by
  obtain ⟨-, -, hrecord⟩ := mapOutcome_eq_ok_iff.mp h
  rw [hrecord]
  rfl

theorem outcomeOf_name {m : Mapper} {returns : TypeRef} {native : Native}
    {outcome : Option Outcome} (h : m.outcomeOf returns native = .ok outcome) :
    outcome.map (fun o => o.record.name) =
      if returns.isFallible then some native.cType else none := by
  rcases outcomeOf_eq_ok_iff.mp h with ⟨ok, err, o, rfl, ho, rfl⟩ | ⟨hne, rfl⟩
  · rw [Option.map_some, mapOutcome_name ho]
    rfl
  · cases returns with
    | fallible ok err => exact absurd rfl (hne ok err)
    | _ => rfl

theorem signature_names {m : Mapper} {t : TypeDef} {method : Method} {s : Signature}
    (h : m.signature t method = .ok s) :
    s.symbol = methodSymbol t method ∧
      s.outcome.map (fun o => o.record.name) =
        if method.returns.isFallible then some (resultName t method) else none := by
  obtain ⟨_, _, returns, outcome, -, -, hreturns, houtcome, rfl⟩ := signature_eq_ok_iff.mp h
  refine ⟨rfl, ?_⟩
  have hmap := mapIn_eq_ok_iff.mp hreturns
  -- the record is named by the representation of the return, not by the signature
  rw [outcomeOf_name houtcome]
  cases hret : method.returns with
  | fallible ok err =>
    rw [hret] at hmap
    rw [map_fallible hmap]
  | _ => rfl

end Mapper

theorem planMethod_eq_ok_iff {c : Context} {t : TypeDef} {m : Method} {p : MethodPlan} :
    planMethod c t m = .ok p ↔ p.method = m ∧ c.mapper.signature t m = .ok p.signature ∧
      c.registry.planTransfers t m = .ok p.transfers := by
  obtain ⟨method, signature, transfers⟩ := p
  unfold planMethod
  cases c.mapper.signature t m with
  | error fault => simp
  | ok found => cases c.registry.planTransfers t m <;> simp [eq_comm]

theorem planMethod_names {c : Context} {t : TypeDef} {m : Method} {p : MethodPlan}
    (h : planMethod c t m = .ok p) :
    p.signature.symbol = methodSymbol t m ∧
      p.signature.outcome.map (fun o => o.record.name) =
        if m.returns.isFallible then some (resultName t m) else none :=
  Mapper.signature_names (planMethod_eq_ok_iff.mp h).2.1

theorem partitionResults_forall₂ {ε α β : Type} {f : α → Except ε β} {l : List α}
    (h : (partitionResults (l.map f)).2 = []) :
    List.Forall₂ (fun a b => f a = .ok b) l (partitionResults (l.map f)).1 := by
  induction l with
  | nil => exact .nil
  | cons a l ih =>
    rw [List.map_cons] at h ⊢
    cases hf : f a with
    | error e => simp [hf, partitionResults] at h
    | ok b =>
      rw [hf] at h
      exact .cons hf (ih h)

theorem error_mem_of_partitionResults {ε α : Type} {rs : List (Except ε α)} {e : ε}
    (h : e ∈ (partitionResults rs).2) : .error e ∈ rs := by
  induction rs with
  | nil => simp [partitionResults] at h
  | cons r rs ih =>
    cases r with
    | ok a => exact List.mem_cons_of_mem _ (ih h)
    | error d =>
      rcases List.mem_cons.mp h with rfl | h
      · exact List.mem_cons_self
      · exact List.mem_cons_of_mem _ (ih h)

section
variable {c : Context} {t : TypeDef} {ms : List Method} {plans : List MethodPlan}

theorem symbols_of_planned (h : List.Forall₂ (fun m p => planMethod c t m = .ok p) ms plans) :
    plans.map (fun p => p.signature.symbol) = ms.map (methodSymbol t) := by
  induction h with
  | nil => rfl
  | cons hp _ ih => rw [List.map_cons, List.map_cons, ih, (planMethod_names hp).1]

theorem results_of_planned (h : List.Forall₂ (fun m p => planMethod c t m = .ok p) ms plans) :
    plans.filterMap (fun p => p.signature.outcome.map fun o => o.record.name) =
      (ms.filter fun m => m.returns.isFallible).map (resultName t) := by
  induction h with
  | nil => rfl
  | @cons m p _ _ hp _ ih =>
    rw [List.filterMap_cons, (planMethod_names hp).2, List.filter_cons, ih]
    split_ifs <;> rfl

end

def AllAbout (t : TypeDef) (ds : List Diagnostic) : Prop := ∀ d ∈ ds, d.typeId = t.id

@[simp] theorem allAbout_nil (t : TypeDef) : AllAbout t [] := by simp [AllAbout]

@[simp] theorem allAbout_cons (t : TypeDef) (d : Diagnostic) (ds : List Diagnostic) :
    AllAbout t (d :: ds) ↔ d.typeId = t.id ∧ AllAbout t ds := by simp [AllAbout]

@[simp] theorem allAbout_append (t : TypeDef) (ds es : List Diagnostic) :
    AllAbout t (ds ++ es) ↔ AllAbout t ds ∧ AllAbout t es := List.forall_mem_append

@[simp] theorem typeId_ofType (kind : ErrorKind) (t : TypeDef) (message : Text) :
    (Diagnostic.ofType kind t message).typeId = t.id := rfl

@[simp] theorem typeId_ofMethod (kind : ErrorKind) (t : TypeDef) (method message : Text) :
    (Diagnostic.ofMethod kind t method message).typeId = t.id := rfl

theorem typeNameProblems_about (t : TypeDef) : AllAbout t (typeNameProblems t) := by
  unfold typeNameProblems
  split_ifs <;> simp

theorem ofMethod_about {a : Availability} {t : TypeDef} {m : Method} {d : Diagnostic}
    (h : a.ofMethod t m = .error d) : d.typeId = t.id := by
  unfold Availability.ofMethod at h
  cases hr : resolveRules m.rules a.target a.features with
  | ok b => simp [hr] at h
  | error fault =>
    simp [hr] at h
    rw [← h, typeId_ofMethod]

theorem selectMethods_about (a : Availability) (t : TypeDef) (ms : List Method) :
    AllAbout t (selectMethods a t ms).errors := by
  induction ms with
  | nil => exact allAbout_nil t
  | cons m ms ih =>
    unfold selectMethods
    cases h : a.ofMethod t m with
    | error d => simpa using ⟨ofMethod_about h, ih⟩
    | ok b => cases b <;> exact ih

theorem symbolProblems_about (t : TypeDef) (seen : List Text) (ms : List Method) :
    AllAbout t (symbolProblems t seen ms) := by
  induction ms generalizing seen with
  | nil => exact allAbout_nil t
  | cons m ms ih =>
    rw [symbolProblems]
    split_ifs <;> simp [ih]

theorem planFields_about (c : Context) (t : TypeDef) (seen : List Text) (fs : List Field) :
    AllAbout t (planFields c t seen fs).2 := by
  induction fs generalizing seen with
  | nil => exact allAbout_nil t
  | cons f fs ih =>
    rw [planFields]
    cases c.mapper.map f.type .field [] <;> split_ifs <;> simp [mapProblem, ih]

theorem planDefinition_about (c : Context) (t : TypeDef) (ms : List Method) :
    AllAbout t (planDefinition c t ms).2 := by
  unfold planDefinition planRecord enumerationProblems
  cases t.kind with
  | object => exact allAbout_nil t
  | synonym => exact allAbout_nil t
  | record =>
    cases c.mapper.recordLayout t with
    | error fault => split_ifs <;> simp [mapProblem]
    | ok layout =>
      have hclash : AllAbout t (fieldClashes t ms) := by
        intro d hd
        obtain ⟨m, -, rfl⟩ := List.mem_map.mp hd
        exact typeId_ofMethod _ t m.name _
      split_ifs <;> simp [planFields_about, hclash]
  | enumeration => cases Mapper.checkEnumeration t <;> split_ifs <;> simp [mapProblem]

theorem planMethod_about {c : Context} {t : TypeDef} {m : Method} {d : Diagnostic}
    (h : planMethod c t m = .error d) : d.typeId = t.id := by
  unfold planMethod at h
  cases hs : c.mapper.signature t m with
  | error fault =>
    simp [hs] at h
    rw [← h, SignatureFault.diagnostic, typeId_ofMethod]
  | ok signature =>
    unfold Registry.planTransfers at h
    cases hp : c.registry.planOutputs (Registry.inputsOf t m) m.returns with
    | ok plan => simp [hs, hp] at h
    | error message =>
      simp [hs, hp] at h
      rw [← h, typeId_ofMethod]

theorem draftType_about (c : Context) (t : TypeDef) : AllAbout t (draftType c t).errors := by
  simp only [draftType, checkSymbols, allAbout_append, typeNameProblems_about,
    selectMethods_about, symbolProblems_about, planDefinition_about, true_and]
  intro d hd
  obtain ⟨m, -, hm⟩ := List.mem_map.mp (error_mem_of_partitionResults hd)
  exact planMethod_about hm

theorem checkDestructors_about (r : Registry) (enabled : List TypeId) (t : TypeDef)
    (ids : List TypeId) : AllAbout t (r.checkDestructors enabled t ids) := by
  intro d hd
  simp only [Registry.checkDestructors, List.mem_filterMap] at hd
  obtain ⟨id, -, h⟩ := hd
  cases hf : r.find? id with
  | none => simp [hf] at h
  | some u =>
    simp [hf] at h
    rw [← h.2, typeId_ofType]

theorem idBefore_isOrder : Sorted.IsOrder Signature.idBefore where
  irrefl a := by simp [Signature.idBefore]
  trans h₁ h₂ := by
    simp only [Signature.idBefore, decide_eq_true_eq] at *
    exact Nat.lt_trans h₁ h₂
  eq_of_neither h₁ h₂ := by
    simp only [Signature.idBefore, decide_eq_false_iff_not, Nat.not_lt] at *
    exact Nat.le_antisymm h₂ h₁

theorem lookup_table {r : Registry} (hr : r.WellFormed) {β : Type} (chosen : TypeDef → Bool)
    (entry : TypeDef → β) (id : TypeId) :
    ((r.types.filter chosen).map fun t => (t.id, entry t)).lookup id =
      (r.find? id).bind fun t => if chosen t then some (entry t) else none := by
  have hkeys : Sorted.KeysIncrease Signature.idBefore
      ((r.types.filter chosen).map fun t => (t.id, entry t)) := by
    refine List.pairwise_map.mpr ((hr.ids_increase.filter _).imp fun hlt => ?_)
    simpa [Signature.idBefore] using hlt
  apply Option.ext
  intro value
  rw [Sorted.lookup_eq_some_iff idBefore_isOrder hkeys, Option.bind_eq_some_iff]
  simp only [List.mem_map, List.mem_filter, Prod.mk.injEq, hr.find?_eq_some_iff]
  constructor
  · rintro ⟨s, ⟨hs, hchosen⟩, rfl, rfl⟩
    exact ⟨s, ⟨hs, rfl⟩, if_pos hchosen⟩
  · rintro ⟨s, ⟨hs, rfl⟩, hvalue⟩
    split_ifs at hvalue with hchosen
    exact ⟨s, ⟨hs, hchosen⟩, rfl, Option.some.inj hvalue⟩

theorem lookup_destructors {r : Registry} (hr : r.WellFormed) {enabled : List TypeId}
    {t : TypeDef} (ht : t ∈ r.types) (he : t.id ∈ enabled) :
    (r.destructors enabled).lookup t.id =
      if t.kind = .object then some (destructorSymbol t) else none := by
  rw [Registry.destructors, lookup_table hr, hr.find?_eq_some_iff.mpr ⟨ht, rfl⟩]
  simp [he]

theorem typeDecls_names (p : TypePlan) :
    p.typeDecls.flatMap CDecl.names = definitionIdentifiers p.type := by
  unfold TypePlan.typeDecls definitionIdentifiers TypeDef.kind TypeDef.variants
  cases h : p.type.shape <;>
    simp [h, CDecl.names, Shape.kind, Function.comp_def]

theorem functionDecls_names (p : TypePlan) :
    p.functionDecls.flatMap CDecl.names =
      p.methods.filterMap (fun m => m.signature.outcome.map fun o => o.record.name) ++
        p.symbols := by
  have hresults : (p.methods.filterMap fun m =>
        m.signature.outcome.map fun o => CDecl.result o.record).flatMap CDecl.names =
      p.methods.filterMap fun m => m.signature.outcome.map fun o => o.record.name := by
    induction p.methods with
    | nil => rfl
    | cons m ms ih => cases h : m.signature.outcome <;> simp [h, ih, CDecl.names]
  rw [TypePlan.functionDecls, List.flatMap_append, List.flatMap_append, hresults, TypePlan.symbols,
    List.append_assoc, List.flatMap_map, List.flatMap_map, List.map_eq_flatMap]
  simp [CDecl.names]

/-- What a type contributes, told from its definition. -/
structure Rendered (a : Availability) (target : Target) (t : TypeDef) (u : GeneratedUnit) :
    Prop where
  symbols : u.symbols = a.exportedSymbols t
  names : u.names = a.declaredIdentifiers t
  paths : u.artifacts.map Artifact.path = target.unitFiles t.name
  owner : ∀ f ∈ u.artifacts, f.owner = t.id

/-- A type that comes to nothing: there are errors, and whatever is said is about it. -/
structure Refused (t : TypeDef) (o : TypeOutcome) : Prop where
  type : o.type = t
  errors : o.errors ≠ []
  about : AllAbout t o.errors
  omissions : ∀ e ∈ o.omissions, e.typeId = t.id
  generated : o.generated = none

theorem render_paths (target : Target) (p : TypePlan) (names : Names) (ns : Text) :
    (target.render p names ns).map Artifact.path = target.unitFiles p.type.name := by
  cases target <;> rfl

theorem render_owner (target : Target) (p : TypePlan) (names : Names) (ns : Text) :
    ∀ f ∈ target.render p names ns, f.owner = p.type.id := by
  cases target <;> simp [Target.render, Target.cArtifact, Target.cppArtifact]

section
variable {c : Context} {t : TypeDef}

theorem draftType_rendered (hr : c.registry.WellFormed) (ht : t ∈ c.registry.types)
    (he : t.id ∈ c.enabled) (h : (draftType c t).errors = []) :
    Rendered c.availability c.target t ((draftType c t).plan.generate c) := by
  simp only [draftType, List.append_eq_nil_iff] at h
  have hplans := partitionResults_forall₂ h.2
  have hmethods : (selectMethods c.availability t t.methods).methods =
      c.availability.enabledMethods t := selectMethods_methods _ _ _
  have hsymbols : (draftType c t).plan.symbols = c.availability.exportedSymbols t := by
    simp only [TypePlan.symbols, draftType, assemblePlan]
    rw [symbols_of_planned hplans, lookup_destructors hr ht he, hmethods,
      Availability.exportedSymbols]
    split_ifs <;> rfl
  refine ⟨hsymbols, ?_, render_paths _ _ _ _, render_owner _ _ _ _⟩
  show (draftType c t).plan.declaredNames = _
  rw [TypePlan.declaredNames, List.flatMap_append, typeDecls_names, functionDecls_names, hsymbols,
    ← List.append_assoc, Availability.declaredIdentifiers, ← hmethods, ← results_of_planned hplans]
  rfl

theorem draftType_omissions (h : (draftType c t).errors = []) :
    (draftType c t).omissions =
      (c.availability.disabledMethods t).map fun m => c.availability.omission t m.name := by
  simp only [draftType, List.append_eq_nil_iff] at h
  exact selectMethods_omissions h.1.1.1.2

/-- A type is rendered, or every error found names it and it is not. -/
theorem processType_cases (c : Context) (t : TypeDef) :
    (draftType c t).errors = [] ∧ processType c t =
        ⟨t, [], (draftType c t).omissions, some ((draftType c t).plan.generate c)⟩ ∨
    ∃ errors, errors ≠ [] ∧ AllAbout t errors ∧
      processType c t = ⟨t, errors, (draftType c t).omissions, none⟩ := by
  have hplan : (draftType c t).plan.type = t := rfl
  by_cases h : (draftType c t).errors = []
  · have habout := checkDestructors_about c.registry c.enabled t (draftType c t).plan.deps
    cases hd : c.registry.checkDestructors c.enabled t (draftType c t).plan.deps with
    | nil => exact .inl ⟨h, by simp [processType, Draft.finish, h, hplan, hd]⟩
    | cons d ds =>
      rw [hd] at habout
      refine .inr ⟨d :: ds, List.cons_ne_nil d ds, habout, ?_⟩
      simp [processType, Draft.finish, h, hplan, hd]
  · refine .inr ⟨(draftType c t).errors, h, draftType_about c t, ?_⟩
    simp [processType, Draft.finish, h, hplan]

theorem processType_type (c : Context) (t : TypeDef) : (processType c t).type = t := by
  rcases processType_cases c t with ⟨-, h⟩ | ⟨errors, -, -, h⟩ <;> rw [h]

theorem processType_omissions_typeId {o : Omission} (h : o ∈ (processType c t).omissions) :
    o.typeId = t.id := by
  have hdraft : (processType c t).omissions = (draftType c t).omissions := by
    rcases processType_cases c t with ⟨-, h⟩ | ⟨errors, -, -, h⟩ <;> rw [h]
  rw [hdraft] at h
  exact typeId_of_mem_omissions h

theorem not_usesSupportPrefix (h : (processType c t).errors = []) :
    usesSupportPrefix t.name = false := by
  rcases processType_cases c t with ⟨hdraft, -⟩ | ⟨errors, hne, -, hp⟩
  · simp only [draftType, typeNameProblems, List.append_eq_nil_iff] at hdraft
    simpa using hdraft.1.1.1.1.2
  · rw [hp] at h
    exact absurd h hne

theorem processType_clean (hr : c.registry.WellFormed) (ht : t ∈ c.registry.types)
    (he : t.id ∈ c.enabled) (h : (processType c t).errors = []) :
    ∃ u, Rendered c.availability c.target t u ∧ processType c t =
      ⟨t, [], (c.availability.disabledMethods t).map fun m => c.availability.omission t m.name,
        some u⟩ := by
  rcases processType_cases c t with ⟨hdraft, hp⟩ | ⟨errors, hne, -, hp⟩
  · refine ⟨_, draftType_rendered hr ht he hdraft, ?_⟩
    rw [hp, draftType_omissions hdraft]
  · rw [hp] at h
    exact absurd h hne

theorem processType_failed (h : (processType c t).errors ≠ []) :
    Refused t (processType c t) := by
  rcases processType_cases c t with ⟨-, hp⟩ | ⟨errors, -, habout, hp⟩
  · rw [hp] at h
    exact absurd rfl h
  · refine ⟨processType_type c t, h, ?_, fun e => processType_omissions_typeId, ?_⟩ <;> rw [hp]
    exact habout

end

end Bindery
