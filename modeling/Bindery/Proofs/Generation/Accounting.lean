import Bindery.Proofs.Generation.Collision

/-!
The report type by type. Everything a report says carries the id of the type it is about, and ids
are distinct, so a report falls into what its types came to. Each type has its headers, or was left
out by its rules, or has errors.
-/

set_option autoImplicit false

namespace Bindery

section
variable {α β : Type} {ids : α → TypeId} {owner : β → TypeId} {f : α → List β} {l : List α}

theorem filter_eq_self_of_owner {bs : List β} {id : TypeId} (h : ∀ b ∈ bs, owner b = id) :
    (bs.filter fun b => owner b == id) = bs :=
  List.filter_eq_self.mpr fun b hb => beq_iff_eq.mpr (h b hb)

theorem filter_eq_nil_of_owner {bs : List β} {id : TypeId} (h : ∀ b ∈ bs, owner b ≠ id) :
    (bs.filter fun b => owner b == id) = [] :=
  List.filter_eq_nil_iff.mpr fun b hb he => h b hb (beq_iff_eq.mp he)

theorem filter_flatMap_foreign (hf : ∀ a ∈ l, ∀ b ∈ f a, owner b = ids a) {id : TypeId}
    (h : ∀ a ∈ l, ids a ≠ id) : ((l.flatMap f).filter fun b => owner b == id) = [] := by
  apply filter_eq_nil_of_owner
  intro b hb
  obtain ⟨a, ha, hb⟩ := List.mem_flatMap.mp hb
  rw [hf a ha b hb]
  exact h a ha

theorem filter_flatMap_owned (hl : (l.map ids).Nodup) (hf : ∀ a ∈ l, ∀ b ∈ f a, owner b = ids a)
    {a : α} (ha : a ∈ l) : ((l.flatMap f).filter fun b => owner b == ids a) = f a := by
  induction l with
  | nil => simp at ha
  | cons x l ih =>
    rw [List.map_cons, List.nodup_cons] at hl
    rw [List.flatMap_cons, List.filter_append]
    have hrest : ∀ y ∈ l, ∀ b ∈ f y, owner b = ids y := fun y hy => hf y (by simp [hy])
    rcases List.mem_cons.mp ha with rfl | ha
    · rw [filter_eq_self_of_owner (hf a (by simp)), filter_flatMap_foreign hrest, List.append_nil]
      intro y hy he
      exact hl.1 (List.mem_map.mpr ⟨y, hy, he⟩)
    · rw [ih hl.2 hrest ha, filter_eq_nil_of_owner, List.nil_append]
      intro b hb he
      rw [hf x (by simp) b hb] at he
      exact hl.1 (List.mem_map.mpr ⟨a, ha, he.symm⟩)

end

namespace Availability

def ruleErrors (a : Availability) (t : TypeDef) : List Diagnostic :=
  match a.ofType t with
  | .error d => [d]
  | .ok _ => []

def ruleOmissions (a : Availability) (t : TypeDef) : List Omission :=
  match a.ofType t with
  | .ok false => [a.omission t []]
  | _ => []

theorem selectFrom_errors (a : Availability) (ts : List TypeDef) :
    (a.selectFrom ts).errors = ts.flatMap a.ruleErrors := by
  induction ts with
  | nil => rfl
  | cons t ts ih =>
    rw [List.flatMap_cons, ← ih, selectFrom, ruleErrors]
    cases a.ofType t with
    | error d => rfl
    | ok b => cases b <;> rfl

theorem selectFrom_omissions (a : Availability) (ts : List TypeDef) :
    (a.selectFrom ts).omissions = ts.flatMap a.ruleOmissions := by
  induction ts with
  | nil => rfl
  | cons t ts ih =>
    rw [List.flatMap_cons, ← ih, selectFrom, ruleOmissions]
    cases a.ofType t with
    | error d => rfl
    | ok b => cases b <;> rfl

theorem rules_cases (a : Availability) (t : TypeDef) :
    (a.enables t.rules = true ∧ a.ruleErrors t = [] ∧ a.ruleOmissions t = []) ∨
    (a.enables t.rules = false ∧ a.ruleErrors t = [] ∧ a.ruleOmissions t = [a.omission t []]) ∨
    (a.enables t.rules = false ∧ a.ruleOmissions t = [] ∧
      ∃ d, a.ruleErrors t = [d] ∧ d.typeId = t.id) := by
  unfold enables ruleErrors ruleOmissions ofType
  cases resolveRules t.rules a.target a.features with
  | ok b =>
    cases b with
    | true => exact .inl ⟨rfl, rfl, rfl⟩
    | false => exact .inr (.inl ⟨rfl, rfl, rfl⟩)
  | error fault => exact .inr (.inr ⟨rfl, rfl, _, rfl, rfl⟩)

theorem ruleErrors_of_enables {a : Availability} {t : TypeDef} (h : a.enables t.rules = true) :
    a.ruleErrors t = [] := by
  rcases a.rules_cases t with ⟨-, hnil, -⟩ | ⟨hnot, -⟩ | ⟨hnot, -⟩
  · exact hnil
  · simp [h] at hnot
  · simp [h] at hnot

theorem ruleErrors_about (a : Availability) (t : TypeDef) : AllAbout t (a.ruleErrors t) := by
  rcases a.rules_cases t with ⟨-, h, -⟩ | ⟨-, h, -⟩ | ⟨-, -, d, h, hd⟩ <;> simp [h]
  exact hd

theorem ruleOmissions_typeId (a : Availability) (t : TypeDef) :
    ∀ e ∈ a.ruleOmissions t, e.typeId = t.id := by
  rcases a.rules_cases t with ⟨-, -, h⟩ | ⟨-, -, h⟩ | ⟨-, h, -⟩ <;> simp [h, omission]

end Availability

namespace Report

def unitsFor (report : Report) (t : TypeDef) : List UnitSymbols :=
  report.units.filter fun u => u.id == t.id

def artifactsFor (report : Report) (t : TypeDef) : List Artifact :=
  report.artifacts.filter fun a => a.owner == t.id

def errorsFor (report : Report) (t : TypeDef) : List Diagnostic :=
  report.errors.filter fun d => d.typeId == t.id

def omissionsFor (report : Report) (t : TypeDef) : List Omission :=
  report.omissions.filter fun e => e.typeId == t.id

end Report

/-- The paths of the files that belong to no type. -/
def Target.sharedPaths (target : Target) : List Text :=
  Manifest.file :: target.runtime.map Artifact.path

def TypeOutcome.unit (o : TypeOutcome) : List UnitSymbols :=
  (o.generated.map fun u => ⟨o.type.id, o.type.name, u.symbols⟩).toList

section
variable {r : Registry} {target : Target} {o : Options} {t : TypeDef}

theorem filter_runTypes {β : Type} {owner : β → TypeId} {f : TypeDef → List β} (hr : r.WellFormed)
    (hf : ∀ s ∈ runTypes r target o, ∀ b ∈ f s, owner b = s.id) (ht : t ∈ r.types) :
    (((runTypes r target o).flatMap f).filter fun b => owner b == t.id) =
      if (runAvailability target o).enables t.rules then f t else [] := by
  split_ifs with henabled
  · exact filter_flatMap_owned (runTypes_ids_nodup hr) hf (mem_runTypes.mpr ⟨ht, henabled⟩)
  · apply filter_flatMap_foreign hf
    intro s hs hid
    obtain ⟨hs, hsenabled⟩ := mem_runTypes.mp hs
    rw [hr.eq_of_id_eq hs ht hid] at hsenabled
    exact henabled hsenabled

theorem settled_owned (hr : r.WellFormed) (ht : t ∈ runTypes r target o) :
    (∀ u ∈ (settled r target o t).unit, u.id = t.id) ∧
    (∀ a ∈ (settled r target o t).artifacts, a.owner = t.id) ∧
    (∀ d ∈ (settled r target o t).errors, d.typeId = t.id) ∧
    ∀ e ∈ (settled r target o t).omissions, e.typeId = t.id := by
  rcases settled_cases hr ht with ⟨-, -, u, hu, heq⟩ | ⟨-, hrefused⟩
  · rw [heq]
    refine ⟨by simp [TypeOutcome.unit], hu.owner, by simp, ?_⟩
    simp [Availability.omission]
  · refine ⟨?_, ?_, hrefused.about, hrefused.omissions⟩
    · simp [TypeOutcome.unit, hrefused.generated]
    · simp [TypeOutcome.artifacts, hrefused.generated]

theorem errorsFor_generate (hr : r.WellFormed) (ho : o.problem? target = none) (ht : t ∈ r.types) :
    (generate r target o).errorsFor t = (runAvailability target o).ruleErrors t ++
      if (runAvailability target o).enables t.rules then (settled r target o t).errors else [] := by
  rw [generate_eq hr ho, Report.errorsFor, assembleReport]
  simp only [Availability.select, Availability.selectFrom_errors, List.flatMap_map,
    List.filter_append]
  rw [filter_flatMap_owned hr.ids_nodup (fun s _ => Availability.ruleErrors_about _ s) ht,
    filter_runTypes hr (fun s hs => (settled_owned hr hs).2.2.1) ht]

theorem omissionsFor_generate (hr : r.WellFormed) (ho : o.problem? target = none)
    (ht : t ∈ r.types) :
    (generate r target o).omissionsFor t = (runAvailability target o).ruleOmissions t ++
      if (runAvailability target o).enables t.rules then (settled r target o t).omissions
      else [] := by
  rw [generate_eq hr ho, Report.omissionsFor, assembleReport]
  simp only [Availability.select, Availability.selectFrom_omissions, List.flatMap_map,
    List.filter_append]
  rw [filter_flatMap_owned hr.ids_nodup (fun s _ => Availability.ruleOmissions_typeId _ s) ht,
    filter_runTypes hr (fun s hs => (settled_owned hr hs).2.2.2) ht]

theorem unitsFor_generate (hr : r.WellFormed) (ho : o.problem? target = none) (ht : t ∈ r.types) :
    (generate r target o).unitsFor t =
      if (runAvailability target o).enables t.rules then (settled r target o t).unit else [] := by
  have hunits : unitsOf ((runTypes r target o).map (settled r target o)) =
      (runTypes r target o).flatMap fun t => (settled r target o t).unit := by
    rw [unitsOf, List.filterMap_eq_flatMap_toList, List.flatMap_map]
    rfl
  rw [generate_eq hr ho, Report.unitsFor, assembleReport]
  simp only [hunits]
  exact filter_runTypes hr (fun s hs => (settled_owned hr hs).1) ht

theorem artifacts_perm (hr : r.WellFormed) (ho : o.problem? target = none) :
    ∃ shared : List Artifact, (shared.map Artifact.path).Sublist target.sharedPaths ∧
      (∀ a ∈ shared, a.owner = 0) ∧ (generate r target o).artifacts.Perm
        ((runTypes r target o).flatMap (fun t => (settled r target o t).artifacts) ++ shared) := by
  refine ⟨(if o.manifest then [Manifest.artifact r target o
    ((runTypes r target o).map (settled r target o))] else []) ++ target.runtime, ?_, ?_, ?_⟩
  · rw [Target.sharedPaths]
    split_ifs
    · exact List.Sublist.refl _
    · exact List.sublist_cons_self _ _
  · have hruntime : ∀ a ∈ target.runtime, a.owner = 0 := by cases target <;> decide
    split_ifs
    · simpa [Manifest.artifact] using hruntime
    · simpa using hruntime
  · have hartifacts : artifactsOf ((runTypes r target o).map (settled r target o)) =
        (runTypes r target o).flatMap fun t => (settled r target o t).artifacts := by
      rw [artifactsOf, List.flatMap_map]
      rfl
    rw [generate_eq hr ho, assembleReport, ← List.append_assoc, ← hartifacts]
    exact List.mergeSort_perm _ _

theorem artifactsFor_generate (hr : r.WellFormed) (ho : o.problem? target = none)
    (ht : t ∈ r.types) :
    ((generate r target o).artifactsFor t).Perm
      (if (runAvailability target o).enables t.rules then (settled r target o t).artifacts
      else []) := by
  obtain ⟨shared, -, howner, hperm⟩ := artifacts_perm hr ho
  have hfilter := hperm.filter fun a => a.owner == t.id
  -- shared files are owned by id zero, which no type has
  have hnone : (shared.filter fun a => a.owner == t.id) = [] := by
    apply filter_eq_nil_of_owner
    intro a ha he
    exact hr.id_ne_zero t ht (he ▸ howner a ha)
  rwa [List.filter_append, hnone, List.append_nil,
    filter_runTypes hr (fun s hs => (settled_owned hr hs).2.1) ht] at hfilter

/-- Each type has its headers, was left out by its rules, or has errors and nothing else. -/
theorem report_cases (hr : r.WellFormed) (ho : o.problem? target = none) (ht : t ∈ r.types) :
    (∃ u, Rendered (runAvailability target o) target t u ∧
      (generate r target o).unitsFor t = [⟨t.id, t.name, u.symbols⟩] ∧
      ((generate r target o).artifactsFor t).Perm u.artifacts ∧
      (generate r target o).errorsFor t = [] ∧
      (generate r target o).omissionsFor t = ((runAvailability target o).disabledMethods t).map
        fun m => (runAvailability target o).omission t m.name) ∨
    ((generate r target o).unitsFor t = [] ∧ (generate r target o).artifactsFor t = [] ∧
      (generate r target o).errorsFor t = [] ∧
      (generate r target o).omissionsFor t = [(runAvailability target o).omission t []]) ∨
    ((generate r target o).unitsFor t = [] ∧ (generate r target o).artifactsFor t = [] ∧
      (generate r target o).errorsFor t ≠ []) := by
  have hartifacts := artifactsFor_generate hr ho ht
  rw [unitsFor_generate hr ho ht, errorsFor_generate hr ho ht, omissionsFor_generate hr ho ht]
  rcases (runAvailability target o).rules_cases t with
    ⟨henabled, herrors, homissions⟩ | ⟨henabled, herrors, homissions⟩ |
      ⟨henabled, -, d, herrors, -⟩
  · rw [if_pos henabled] at hartifacts
    simp only [henabled, herrors, homissions, if_true, List.nil_append]
    rcases settled_cases hr (mem_runTypes.mpr ⟨ht, henabled⟩) with
      ⟨-, -, u, hu, heq⟩ | ⟨-, hrefused⟩
    · rw [heq] at hartifacts ⊢
      exact .inl ⟨u, hu, rfl, hartifacts, rfl, rfl⟩
    · refine .inr (.inr ⟨?_, ?_, hrefused.errors⟩)
      · simp [TypeOutcome.unit, hrefused.generated]
      · simpa [TypeOutcome.artifacts, hrefused.generated] using hartifacts
  · rw [if_neg (by simp [henabled])] at hartifacts
    refine .inr (.inl ⟨?_, hartifacts.eq_nil, ?_, ?_⟩) <;> simp [henabled, herrors, homissions]
  · rw [if_neg (by simp [henabled])] at hartifacts
    refine .inr (.inr ⟨?_, hartifacts.eq_nil, ?_⟩) <;> simp [henabled, herrors]

theorem units_increase (hr : r.WellFormed) (ho : o.problem? target = none) :
    ((generate r target o).units.map UnitSymbols.id).Pairwise (· < ·) := by
  rw [generate_eq hr ho, assembleReport]
  simp only [unitsOf_settled hr, List.map_map]
  have hsub : (survivors r target o).Sublist r.types :=
    List.filter_sublist.trans List.filter_sublist
  exact List.pairwise_map.mpr (hr.ids_increase.sublist hsub)

end

namespace Report

/-- The type has its unit and its headers, and nothing is wrong with it. -/
structure Generates (report : Report) (target : Target) (t : TypeDef) : Prop where
  unit : (report.unitsFor t).length = 1
  artifacts : ((report.artifactsFor t).map Artifact.path).Perm (target.unitFiles t.name)
  errors : report.errorsFor t = []

/-- The type as a whole is left out, once, and that is all. -/
structure LeavesOut (report : Report) (t : TypeDef) : Prop where
  omission : ((report.omissionsFor t).filter fun e => e.method.isEmpty).length = 1
  units : report.unitsFor t = []
  artifacts : report.artifactsFor t = []
  errors : report.errorsFor t = []

/-- There are errors about the type, and no headers. -/
structure Rejects (report : Report) (t : TypeDef) : Prop where
  errors : report.errorsFor t ≠ []
  units : report.unitsFor t = []
  artifacts : report.artifactsFor t = []

theorem Generates.units_ne_nil {report : Report} {target : Target} {t : TypeDef}
    (h : report.Generates target t) : report.unitsFor t ≠ [] := by
  intro hnil
  have hunit := h.unit
  simp [hnil] at hunit

end Report

def ExactlyOne (p q s : Prop) : Prop := p ∧ ¬ q ∧ ¬ s ∨ ¬ p ∧ q ∧ ¬ s ∨ ¬ p ∧ ¬ q ∧ s

/-- No type is lost, and none is half there: it has its headers, is left out by its rules, or has
errors. The symbols of a type with headers are those of its enabled methods and its destructor, and
the methods that are left out are the others. -/
theorem generate_accounts {library : Text} {types : List TypeDef} {r : Registry}
    (hr : Registry.build library types = .ok r) (target : Target) (o : Options)
    (ho : o.problem? target = none) :
    (∀ t ∈ r.types,
      ExactlyOne ((generate r target o).Generates target t) ((generate r target o).LeavesOut t)
        ((generate r target o).Rejects t) ∧
      ((generate r target o).Generates target t →
        ((generate r target o).unitsFor t).map UnitSymbols.symbols =
          [((runAvailability target o).enabledMethods t).map (methodSymbol t) ++
            if t.kind = .object then [destructorSymbol t] else []] ∧
        (((generate r target o).omissionsFor t).filter fun e => !e.method.isEmpty).map
            Omission.method =
          ((runAvailability target o).disabledMethods t).map Method.name)) ∧
    ((generate r target o).units.map UnitSymbols.id).Pairwise (· < ·) := by
  have hwf := Registry.build_wellFormed hr
  refine ⟨fun t ht => ?_, units_increase hwf ho⟩
  rcases report_cases hwf ho ht with
    ⟨u, hu, hunits, hartifacts, herrors, homissions⟩ |
      ⟨hunits, hartifacts, herrors, homissions⟩ | ⟨hunits, hartifacts, herrors⟩
  · have hgenerates : (generate r target o).Generates target t := by
      refine ⟨by rw [hunits]; rfl, ?_, herrors⟩
      rw [← hu.paths]
      exact hartifacts.map _
    refine ⟨.inl ⟨hgenerates, fun h => hgenerates.units_ne_nil h.units, fun h => h.errors herrors⟩,
      fun _ => ⟨?_, ?_⟩⟩
    · rw [hunits, List.map_singleton, hu.symbols]
      rfl
    · -- the name of a method is never empty, so no omission here is of the whole type
      rw [homissions, List.filter_eq_self.mpr, List.map_map]
      · rfl
      · intro e he
        obtain ⟨m, hm, rfl⟩ := List.mem_map.mp he
        simpa [Availability.omission] using
          hwf.method_name_ne_nil ht (List.mem_filter.mp hm).1
  · have hleft : (generate r target o).LeavesOut t :=
      ⟨by rw [homissions]; rfl, hunits, hartifacts, herrors⟩
    refine ⟨.inr (.inl ⟨fun h => h.units_ne_nil hunits, hleft, fun h => h.errors herrors⟩), ?_⟩
    exact fun h => absurd hunits h.units_ne_nil
  · have hrejects : (generate r target o).Rejects t := ⟨herrors, hunits, hartifacts⟩
    refine ⟨.inr (.inr ⟨fun h => h.units_ne_nil hunits, fun h => herrors h.errors, hrejects⟩), ?_⟩
    exact fun h => absurd hunits h.units_ne_nil

namespace Mixed

def counter : TypeDef :=
  ⟨1, "Counter", [], [], .object
    [⟨"value", [], [], .shared, [], .primitive .u32⟩,
      ⟨"reset", [], [⟨"*", [], false⟩], .exclusive, [], .unit⟩]⟩

def hidden : TypeDef := ⟨2, "Hidden", [], [⟨"c", [], false⟩], .synonym .u8⟩

def empty : TypeDef := ⟨3, "Empty", [], [], .record [] []⟩

def registry : Registry := ⟨"mixed", [counter, hidden, empty]⟩

def options : Options := ⟨[], 64, [], 1, true⟩

theorem build_registry : Registry.build "mixed" [counter, hidden, empty] = .ok registry :=
  Registry.build_of_increasing _ (by decide) (by decide)

end Mixed

theorem generate_accounts_mixed :
    (generate Mixed.registry .c Mixed.options).Generates .c Mixed.counter ∧
    (generate Mixed.registry .c Mixed.options).LeavesOut Mixed.hidden ∧
    (generate Mixed.registry .c Mixed.options).Rejects Mixed.empty := by
  have h := (generate_accounts Mixed.build_registry .c Mixed.options rfl).1
  have hrun : (generate Mixed.registry .c Mixed.options).unitsFor Mixed.counter ≠ [] ∧
      (generate Mixed.registry .c Mixed.options).unitsFor Mixed.hidden = [] ∧
      (generate Mixed.registry .c Mixed.options).unitsFor Mixed.empty = [] ∧
      (generate Mixed.registry .c Mixed.options).errorsFor Mixed.hidden = [] ∧
      (generate Mixed.registry .c Mixed.options).errorsFor Mixed.empty ≠ [] := by
    decide +kernel
  obtain ⟨hcounter, hhidden, hempty, hclean, herrors⟩ := hrun
  refine ⟨?_, ?_, ?_⟩
  · obtain ⟨hg, -⟩ | ⟨-, hl, -⟩ | ⟨-, -, hj⟩ := (h Mixed.counter (by decide)).1
    · exact hg
    · exact absurd hl.units hcounter
    · exact absurd hj.units hcounter
  · obtain ⟨hg, -⟩ | ⟨-, hl, -⟩ | ⟨-, -, hj⟩ := (h Mixed.hidden (by decide)).1
    · exact absurd hhidden hg.units_ne_nil
    · exact hl
    · exact absurd hclean hj.errors
  · obtain ⟨hg, -⟩ | ⟨-, hl, -⟩ | ⟨-, -, hj⟩ := (h Mixed.empty (by decide)).1
    · exact absurd hempty hg.units_ne_nil
    · exact absurd hl.errors herrors
    · exact hj

end Bindery
