import Bindery.Proofs.Generation.Outcome
import Bindery.Proofs.Header.Names
import Bindery.Proofs.Mapping.Locality

/-!
The work on one type is local. What a type comes to depends on the definitions that it refers to,
on those that records among them refer to in turn, and in C++ on which names are taken by types.
Whatever else is in a registry makes no difference.
-/

set_option autoImplicit false

namespace Bindery

def nameEntry (target : Target) (t : TypeDef) : NameEntry :=
  ⟨t.name, t.kind.name, target.unitFiles t.name⟩

section
variable {r : Registry} {target : Target} {enabled : List TypeId}

theorem nameTable_entries (hr : r.WellFormed) (target : Target) (enabled : List TypeId) :
    (nameTable target (enabledTypes r enabled)).entries =
      (enabledTypes r enabled).map fun t => (t.id, nameEntry target t) := by
  have hfold : ∀ (types : List TypeDef) (table : NameTable),
      (types.foldl (fun table t => table.add t.id (nameEntry target t)) table).entries =
        (types.map fun t => (t.id, nameEntry target t)).foldl
          (fun map b => Sorted.put Signature.idBefore b.1 b.2 map) table.entries := by
    intro types
    induction types with
    | nil => exact fun table => rfl
    | cons t ts ih => exact fun table => ih (table.add t.id (nameEntry target t))
  have hkeys : Sorted.KeysIncrease Signature.idBefore
      ((enabledTypes r enabled).map fun t => (t.id, nameEntry target t)) := by
    refine List.pairwise_map.mpr ((hr.ids_increase.filter _).imp fun hlt => ?_)
    simpa [Signature.idBefore] using hlt
  exact (hfold _ _).trans (Sorted.ofBindings_of_increasing idBefore_isOrder hkeys)

theorem nameTable_hasType (hr : r.WellFormed) (target : Target) (enabled : List TypeId)
    (name : Text) :
    (nameTable target (enabledTypes r enabled)).hasType name = true ↔
      ∃ t ∈ enabledTypes r enabled, t.name = name := by
  simp [NameTable.hasType, nameTable_entries hr, nameEntry]

end

theorem ok_mem_of_partitionResults {ε α : Type} {rs : List (Except ε α)} {a : α}
    (h : a ∈ (partitionResults rs).1) : .ok a ∈ rs := by
  induction rs with
  | nil => simp [partitionResults] at h
  | cons r rs ih =>
    cases r with
    | error e => exact List.mem_cons_of_mem _ (ih h)
    | ok b =>
      rcases List.mem_cons.mp h with rfl | h
      · exact List.mem_cons_self
      · exact List.mem_cons_of_mem _ (ih h)

structure TypeDef.RefersWithin (t : TypeDef) (ids : TypeId → Prop) : Prop where
  self : ids t.id
  fields : ∀ f ∈ t.fields, ∀ id ∈ f.type.ids, ids id
  params : ∀ m ∈ t.methods, ∀ p ∈ m.params, ∀ id ∈ p.type.ids, ids id
  returns : ∀ m ∈ t.methods, ∀ id ∈ m.returns.ids, ids id

namespace Mapper

variable {m : Mapper} {owner : TypeDef} {method : Method} {s : Signature}

theorem signature_eq_ok (h : m.signature owner method = .ok s) :
    m.mapReceiver owner method.receiver = .ok s.receiver ∧
      m.mapParams method.params = .ok s.declared ∧
      m.map method.returns .result (resultName owner method) = .ok s.returns := by
  obtain ⟨_, _, _, _, hself, hdeclared, hreturns, -, rfl⟩ := signature_eq_ok_iff.mp h
  exact ⟨hself, hdeclared, mapIn_eq_ok_iff.mp hreturns⟩

theorem mapReceiver_deps {receiver : Receiver} {mapped : Mapped}
    (h : m.mapReceiver owner receiver = .ok (some mapped)) : mapped.deps = [owner.id] := by
  rcases mapReceiver_eq_ok_iff.mp h with ⟨-, hnone⟩ | ⟨ref, found, href, hmap, hfound⟩
  · cases hnone
  · cases hfound
    rw [mapWith_deps hmap]
    unfold receiverRef at href
    split at href <;> cases href <;> rfl

theorem mapParams_deps {params : List Param} {declared : List Mapped}
    (h : m.mapParams params = .ok declared) :
    declared.map Mapped.deps = params.map fun p => p.type.ids := by
  have hall := mapParams_eq_ok_iff.mp h
  clear h
  induction hall with
  | nil => rfl
  | cons hp _ ih => rw [List.map_cons, List.map_cons, ih, mapWith_deps hp.2]

theorem signature_deps (h : m.signature owner method = .ok s) {ids : TypeId → Prop}
    (hid : ids owner.id) (hparams : ∀ p ∈ method.params, ∀ id ∈ p.type.ids, ids id)
    (hreturns : ∀ id ∈ method.returns.ids, ids id) : ∀ id ∈ s.deps, ids id := by
  obtain ⟨hself, hdeclared, hret⟩ := signature_eq_ok h
  intro id hmem
  rw [Signature.deps, Sorted.mem_ofList idBefore_isOrder, List.mem_flatMap] at hmem
  obtain ⟨mapped, hmapped, hdep⟩ := hmem
  simp only [List.mem_append, Option.mem_toList, List.mem_singleton] at hmapped
  rcases hmapped with (hreceiver | hmapped) | rfl
  · rw [hreceiver] at hself
    rw [mapReceiver_deps hself, List.mem_singleton] at hdep
    rwa [hdep]
  · have hlist := List.mem_map_of_mem (f := Mapped.deps) hmapped
    rw [mapParams_deps hdeclared, List.mem_map] at hlist
    obtain ⟨p, hp, heq⟩ := hlist
    exact hparams p hp id (heq ▸ hdep)
  · rw [mapWith_deps hret] at hdep
    exact hreturns id hdep

end Mapper

section
variable {c : Context} {t : TypeDef} {ids : TypeId → Prop}

theorem mem_planFields {seen : List Text} {fields : List Field} {p : FieldPlan}
    (h : p ∈ (planFields c t seen fields).1) :
    p.field ∈ fields ∧ c.mapper.map p.field.type .field [] = .ok p.mapped := by
  induction fields generalizing seen with
  | nil => simp [planFields] at h
  | cons f fs ih =>
    rw [planFields] at h
    cases hf : c.mapper.map f.type .field [] with
    | error fault =>
      simp only [hf] at h
      exact ⟨List.mem_cons_of_mem _ (ih h).1, (ih h).2⟩
    | ok mapped =>
      simp only [hf, List.mem_cons] at h
      rcases h with rfl | h
      · exact ⟨List.mem_cons_self, hf⟩
      · exact ⟨List.mem_cons_of_mem _ (ih h).1, (ih h).2⟩

theorem mem_planDefinition {ms : List Method} {p : FieldPlan}
    (h : p ∈ (planDefinition c t ms).1) :
    p.field ∈ t.fields ∧ c.mapper.map p.field.type .field [] = .ok p.mapped := by
  unfold planDefinition planRecord at h
  cases hkind : t.kind with
  | record =>
    simp only [hkind] at h
    split_ifs at h with hempty
    · simp at h
    · cases hlayout : c.mapper.recordLayout t with
      | error fault => simp [hlayout] at h
      | ok layout =>
        simp only [hlayout] at h
        exact mem_planFields h
  | _ => simp [hkind] at h

theorem mem_draftType_methods {p : MethodPlan} (h : p ∈ (draftType c t).plan.methods) :
    p.method ∈ t.methods ∧ c.mapper.signature t p.method = .ok p.signature := by
  obtain ⟨m, hm, hp⟩ := List.mem_map.mp (ok_mem_of_partitionResults h)
  obtain ⟨rfl, hsignature, -⟩ := planMethod_eq_ok_iff.mp hp
  rw [selectMethods_methods] at hm
  exact ⟨List.mem_of_mem_filter hm, hsignature⟩

theorem planDefinition_deps (ht : t.RefersWithin ids) {ms : List Method} {p : FieldPlan}
    (h : p ∈ (planDefinition c t ms).1) : ∀ id ∈ p.mapped.deps, ids id := by
  obtain ⟨hfield, hmapped⟩ := mem_planDefinition h
  rw [Mapper.mapWith_deps hmapped]
  exact ht.fields p.field hfield

theorem refersWithin_of_members (hself : ids t.id)
    (hfields : ∀ p ∈ (draftType c t).plan.fields, ∀ id ∈ p.field.type.ids, ids id)
    (hparams : ∀ p ∈ (draftType c t).plan.methods, ∀ q ∈ p.method.params, ∀ id ∈ q.type.ids, ids id)
    (hreturns : ∀ p ∈ (draftType c t).plan.methods, ∀ id ∈ p.method.returns.ids, ids id) :
    (draftType c t).plan.RefersWithin ids := by
  have hfieldIds : ∀ id ∈ (draftType c t).plan.fields.flatMap (fun f => f.mapped.deps), ids id := by
    intro id hid
    obtain ⟨p, hp, hdep⟩ := List.mem_flatMap.mp hid
    rw [Mapper.mapWith_deps (mem_planDefinition hp).2] at hdep
    exact hfields p hp id hdep
  have hmethodIds : ∀ id ∈ (draftType c t).plan.methods.flatMap (fun m => m.signature.deps),
      ids id := by
    intro id hid
    obtain ⟨p, hp, hdep⟩ := List.mem_flatMap.mp hid
    exact Mapper.signature_deps (mem_draftType_methods hp).2 hself (hparams p hp) (hreturns p hp)
      id hdep
  have hset : ∀ l : List TypeId, (∀ id ∈ l, ids id) →
      ∀ id ∈ (idSet l).filter (· != t.id), ids id := by
    intro l hl id hid
    exact hl id ((Sorted.mem_ofList idBefore_isOrder).mp (List.mem_of_mem_filter hid))
  exact ⟨hfields, hparams, hreturns, hset _ hfieldIds,
    hset _ fun id hid => hfieldIds id (List.mem_of_mem_filter hid),
    hset _ fun id hid => (List.mem_append.mp hid).elim (hfieldIds id) (hmethodIds id)⟩

theorem draftType_refersWithin (ht : t.RefersWithin ids) :
    (draftType c t).plan.RefersWithin ids :=
  refersWithin_of_members ht.self (fun _ hp => ht.fields _ (mem_planDefinition hp).1)
    (fun _ hp => ht.params _ (mem_draftType_methods hp).1)
    fun _ hp => ht.returns _ (mem_draftType_methods hp).1

end

/-- The contexts cannot be told apart by looking at the ids of the set. -/
structure Context.AgreeOn (c c' : Context) (ids : TypeId → Prop) : Prop where
  target : c.target = c'.target
  options : c.options = c'.options
  mapper : c.mapper.AgreeOn c'.mapper ids
  names : c.names.AgreeOn c'.names ids
  hasType : c.target = .cpp → c.names.hasType = c'.names.hasType
  destructors : ∀ id, ids id →
    (c.registry.destructors c.enabled).lookup id = (c'.registry.destructors c'.enabled).lookup id

namespace Context.AgreeOn

variable {c c' : Context} {t : TypeDef} {ids : TypeId → Prop} (h : c.AgreeOn c' ids)
include h

theorem availability_eq : c.availability = c'.availability := by
  rw [Context.availability, Context.availability, h.target, h.options]

theorem planMethod_eq (ht : t.RefersWithin ids) {m : Method} (hm : m ∈ t.methods) :
    planMethod c t m = planMethod c' t m := by
  have hsignature := h.mapper.signature_eq ht.self (ht.params m hm) (ht.returns m hm)
  have htransfers := Registry.planTransfers_congr h.mapper.same h.mapper.closed
    (ht.returns m hm) t
  have htransfers : c.registry.planTransfers t m = c'.registry.planTransfers t m := htransfers
  rw [planMethod, planMethod, hsignature, htransfers]

theorem planFields_eq {fields : List Field} (hids : ∀ f ∈ fields, ∀ id ∈ f.type.ids, ids id)
    (seen : List Text) : planFields c t seen fields = planFields c' t seen fields := by
  induction fields generalizing seen with
  | nil => rfl
  | cons f fs ih =>
    simp only [List.mem_cons, forall_eq_or_imp] at hids
    simp only [planFields, ih hids.2, h.mapper.map_eq hids.1]

theorem planDefinition_eq (ht : t.RefersWithin ids) (ms : List Method) :
    planDefinition c t ms = planDefinition c' t ms := by
  simp only [planDefinition, planRecord, h.mapper.recordLayout_eq ht.fields,
    h.planFields_eq ht.fields]

theorem assemblePlan_eq (ht : ids t.id) {fields : List FieldPlan}
    (hfields : ∀ f ∈ fields, ∀ id ∈ f.mapped.deps, ids id) (methods : List MethodPlan) :
    assemblePlan c t fields methods = assemblePlan c' t fields methods := by
  have hrecords : (fields.flatMap fun f => f.mapped.deps).filter (isRecord c.registry) =
      (fields.flatMap fun f => f.mapped.deps).filter (isRecord c'.registry) := by
    apply List.filter_congr
    intro id hid
    obtain ⟨f, hf, hdep⟩ := List.mem_flatMap.mp hid
    have hsame : c.registry.find? id = c'.registry.find? id :=
      h.mapper.same id (hfields f hf id hdep)
    rw [isRecord, isRecord, hsame]
  simp only [assemblePlan, hrecords, h.destructors t.id ht]

theorem draftType_eq (ht : t.RefersWithin ids) : draftType c t = draftType c' t := by
  have hplanned : (selectMethods c'.availability t t.methods).methods.map (planMethod c t) =
      (selectMethods c'.availability t t.methods).methods.map (planMethod c' t) := by
    apply List.map_congr_left
    intro m hm
    rw [selectMethods_methods] at hm
    exact h.planMethod_eq ht (List.mem_of_mem_filter hm)
  have hplan : ∀ ms plans, assemblePlan c t (planDefinition c' t ms).1 plans =
      assemblePlan c' t (planDefinition c' t ms).1 plans :=
    fun ms plans => h.assemblePlan_eq ht.self (fun f hf => planDefinition_deps ht hf) plans
  simp only [draftType, h.availability_eq, h.planDefinition_eq ht, hplanned, hplan]

theorem checkDestructors_eq {deps : List TypeId} (hdeps : ∀ id ∈ deps, ids id) :
    c.registry.checkDestructors c.enabled t deps =
      c'.registry.checkDestructors c'.enabled t deps := by
  apply List.filterMap_congr
  intro id hid
  have hsame : c.registry.find? id = c'.registry.find? id := h.mapper.same id (hdeps id hid)
  simp only [hsame, h.destructors id (hdeps id hid)]

theorem processType_eq (ht : t.RefersWithin ids) : processType c t = processType c' t := by
  have hplan : (draftType c' t).plan.RefersWithin ids := draftType_refersWithin ht
  have hrender := render_congr h.names h.hasType hplan c'.options.hostNamespace
  rw [h.target] at hrender
  rw [processType, processType, h.draftType_eq ht]
  simp only [Draft.finish, h.checkDestructors_eq hplan.deps, TypePlan.generate, hrender, h.target,
    h.options]

end Context.AgreeOn

/-- The ids a type needs: its own, those its fields and methods mention, and those that the fields
of definitions among them mention in turn. -/
inductive Registry.Needs (r : Registry) (t : TypeDef) : TypeId → Prop where
  | self : r.Needs t t.id
  | field {f : Field} {id : TypeId} (hf : f ∈ t.fields) (hid : id ∈ f.type.ids) : r.Needs t id
  | param {m : Method} {p : Param} {id : TypeId} (hm : m ∈ t.methods) (hp : p ∈ m.params)
    (hid : id ∈ p.type.ids) : r.Needs t id
  | returns {m : Method} {id : TypeId} (hm : m ∈ t.methods) (hid : id ∈ m.returns.ids) :
    r.Needs t id
  | nested {id inner : TypeId} {s : TypeDef} {f : Field} (hneeds : r.Needs t id)
    (hs : r.find? id = some s) (hf : f ∈ s.fields) (hinner : inner ∈ f.type.ids) :
    r.Needs t inner

theorem Registry.needs_refersWithin (r : Registry) (t : TypeDef) :
    t.RefersWithin (r.Needs t) where
  self := .self
  fields _ hf _ hid := .field hf hid
  params _ hm _ hp _ hid := .param hm hp hid
  returns _ hm _ hid := .returns hm hid

section
variable {r r' : Registry} {enabled enabled' : List TypeId} {ids : TypeId → Prop}

theorem lookup_table_congr (hr : r.WellFormed) (hr' : r'.WellFormed) {β : Type}
    {chosen chosen' : TypeDef → Bool} (entry : TypeDef → β) {id : TypeId}
    (hsame : r.find? id = r'.find? id)
    (hchosen : ∀ t, r.find? id = some t → chosen t = chosen' t) :
    ((r.types.filter chosen).map fun t => (t.id, entry t)).lookup id =
      ((r'.types.filter chosen').map fun t => (t.id, entry t)).lookup id := by
  rw [lookup_table hr, lookup_table hr', ← hsame]
  cases hfind : r.find? id with
  | none => rfl
  | some t => rw [Option.bind_some, Option.bind_some, hchosen t hfind]

theorem contextOf_agreeOn (hr : r.WellFormed) (hr' : r'.WellFormed) (target : Target)
    (o : Options) (hsame : r.SameOn r' ids) (hclosed : r.ClosedUnder ids)
    (henabled : ∀ id, ids id → ∀ t, r.find? id = some t → (id ∈ enabled ↔ id ∈ enabled'))
    (hnames : target = .cpp → ∀ name, (∃ s ∈ enabledTypes r enabled, s.name = name) ↔
      ∃ s ∈ enabledTypes r' enabled', s.name = name) :
    (contextOf r target o enabled).AgreeOn (contextOf r' target o enabled') ids := by
  have hcontains : ∀ id, ids id → ∀ t, r.find? id = some t →
      enabled.contains t.id = enabled'.contains t.id := by
    intro id hid t hfind
    rw [Bool.eq_iff_iff, List.contains_iff_mem, List.contains_iff_mem, Registry.id_of_find? hfind]
    exact henabled id hid t hfind
  have hentry : ∀ id, ids id → (nameTable target (enabledTypes r enabled)).find? id =
      (nameTable target (enabledTypes r' enabled')).find? id := by
    intro id hid
    rw [NameTable.find?, NameTable.find?, nameTable_entries hr, nameTable_entries hr']
    exact lookup_table_congr hr hr' _ (hsame id hid) (hcontains id hid)
  refine ⟨rfl, rfl, ⟨⟨rfl, rfl, rfl⟩, hsame, henabled, hclosed⟩, ⟨?_, ?_⟩, ?_, ?_⟩
  · intro id hid
    simp only [contextOf, NameTable.toNames, hentry id hid]
  · intro id hid
    simp only [contextOf, NameTable.toNames, hentry id hid]
  · intro htarget
    funext name
    have htaken := hnames htarget name
    rw [← nameTable_hasType hr target, ← nameTable_hasType hr' target] at htaken
    exact Bool.eq_iff_iff.mpr htaken
  · intro id hid
    refine lookup_table_congr hr hr' _ (hsame id hid) fun t hfind => ?_
    have hmem := hcontains id hid t hfind
    exact decide_eq_decide.mpr (by simp only [contextOf, hmem])

end

/-- What a type comes to by itself is the same in any two registries that agree on what it needs,
the same target and options given. In C++ the names of the enabled types have to be the same, for
members are kept apart from them. -/
theorem processType_local {library library' : Text} {types types' : List TypeDef}
    {r r' : Registry} (hr : Registry.build library types = .ok r)
    (hr' : Registry.build library' types' = .ok r') (target : Target) (o : Options)
    (enabled enabled' : List TypeId) (t : TypeDef)
    (hsame : ∀ id, r.Needs t id → r.find? id = r'.find? id)
    (henabled : ∀ id, r.Needs t id → ∀ s, r.find? id = some s → (id ∈ enabled ↔ id ∈ enabled'))
    (hnames : target = .cpp → ∀ name, (∃ s ∈ enabledTypes r enabled, s.name = name) ↔
      ∃ s ∈ enabledTypes r' enabled', s.name = name) :
    processType (contextOf r target o enabled) t =
      processType (contextOf r' target o enabled') t := by
  have hclosed : r.ClosedUnder (r.Needs t) :=
    fun id hid s hs f hf inner hinner => .nested hid hs hf hinner
  have hagree := contextOf_agreeOn (Registry.build_wellFormed hr) (Registry.build_wellFormed hr')
    target o hsame hclosed henabled hnames
  exact hagree.processType_eq (r.needs_refersWithin t)

namespace Surroundings

def gauge : TypeDef :=
  ⟨1, "Gauge", [], [], .object
    [⟨"read", [], [], .shared, [⟨"at", .record 2 true⟩], .nullable (.object 1 .borrowed false)⟩,
      ⟨"link", [], [⟨"*", [], false⟩], .shared, [⟨"other", .object 7 .borrowed false⟩], .unit⟩]⟩

def place : TypeDef := ⟨2, "Place", [], [], .record [⟨"x", [], .primitive .f32⟩] []⟩

def noise : TypeDef := ⟨3, "Noise", [], [], .synonym .u8⟩

def brokenNoise : TypeDef := ⟨9, "Noise", [], [], .record [] []⟩

def quiet : Registry := ⟨"quiet", [gauge, place, noise]⟩

def loud : Registry := ⟨"loud", [gauge, place, brokenNoise]⟩

def options : Options := ⟨[], 64, "weld", 1, false⟩

theorem build_quiet : Registry.build "quiet" [gauge, place, noise] = .ok quiet :=
  Registry.build_of_increasing _ (by decide) (by decide)

theorem build_loud : Registry.build "loud" [gauge, place, brokenNoise] = .ok loud :=
  Registry.build_of_increasing _ (by decide) (by decide)

theorem gauge_needs {id : TypeId} (h : quiet.Needs gauge id) : id = 1 ∨ id = 2 ∨ id = 7 := by
  induction h with
  | self => exact .inl rfl
  | field hf hid => exact absurd hf (by simp [gauge, TypeDef.fields])
  | param hm hp hid =>
    simp [gauge, TypeDef.methods] at hm
    rcases hm with rfl | rfl
    · simp at hp
      subst hp
      simp [TypeRef.ids] at hid
      exact .inr (.inl hid)
    · simp at hp
      subst hp
      simp [TypeRef.ids] at hid
      exact .inr (.inr hid)
  | returns hm hid =>
    simp [gauge, TypeDef.methods] at hm
    rcases hm with rfl | rfl
    · simp [TypeRef.ids] at hid
      exact .inl hid
    · simp [TypeRef.ids] at hid
  | nested _ hs hf hinner ih =>
    rcases ih with rfl | rfl | rfl
    · cases hs
      simp [gauge, TypeDef.fields] at hf
    · cases hs
      simp [place, TypeDef.fields] at hf
      subst hf
      simp [TypeRef.ids] at hinner
    · cases hs

end Surroundings

theorem processType_local_surroundings :
    (processType (contextOf Surroundings.quiet .cpp Surroundings.options [1, 2, 3])
        Surroundings.gauge).generated.isSome = true ∧
    processType (contextOf Surroundings.quiet .cpp Surroundings.options [1, 2, 3])
        Surroundings.gauge =
      processType (contextOf Surroundings.loud .cpp Surroundings.options [1, 2, 9])
        Surroundings.gauge := by
  refine ⟨by decide +kernel, ?_⟩
  refine processType_local Surroundings.build_quiet Surroundings.build_loud .cpp
    Surroundings.options [1, 2, 3] [1, 2, 9] Surroundings.gauge ?_ ?_ ?_
  · intro id hid
    rcases Surroundings.gauge_needs hid with rfl | rfl | rfl <;> rfl
  · intro id hid s hs
    rcases Surroundings.gauge_needs hid with rfl | rfl | rfl <;> simp
  · intro _ name
    simp [enabledTypes, Surroundings.quiet, Surroundings.loud, Surroundings.gauge,
      Surroundings.place, Surroundings.noise, Surroundings.brokenNoise]

end Bindery
