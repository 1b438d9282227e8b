import Bindery.Proofs.Generation.Outcome
import Mathlib.Data.List.Flatten

/-!
Clashes. A type is withdrawn exactly if a key of its own is declared more than once among all the
types that came without errors, be it twice by itself. So the keys of the types that are left are
distinct.
-/

set_option autoImplicit false

namespace Bindery

def TypeOutcome.keys (f : GeneratedUnit → List Text) (o : TypeOutcome) : List Text :=
  match o.generated with
  | none => []
  | some u => f u

section
variable {f : GeneratedUnit → List Text} {outcomes : List TypeOutcome}

theorem keysBy_eq (f : GeneratedUnit → List Text) (o : TypeOutcome) :
    o.keysBy f = (o.keys f).map fun key => ⟨key, o.type.id, o.type.name⟩ := by
  unfold TypeOutcome.keysBy TypeOutcome.keys
  cases o.generated <;> rfl

theorem key_of_keysBy (f : GeneratedUnit → List Text) (outcomes : List TypeOutcome) :
    (outcomes.flatMap (TypeOutcome.keysBy f)).map DeclaredKey.key =
      outcomes.flatMap (TypeOutcome.keys f) := by
  rw [List.map_flatMap]
  congr 1
  funext o
  rw [keysBy_eq, List.map_map]
  exact List.map_id _

theorem isRepeated_iff (declared : List DeclaredKey) (key : Text) :
    isRepeated declared key = true ↔ 2 ≤ (declared.map DeclaredKey.key).count key := by
  rw [isRepeated, decide_eq_true_eq, ← List.countP_eq_length_filter, List.count, List.countP_map]
  rfl

theorem mem_repeatedKeys (declared : List DeclaredKey) (key : Text) :
    key ∈ repeatedKeys declared ↔ 2 ≤ (declared.map DeclaredKey.key).count key := by
  rw [repeatedKeys, List.mem_filter, Sorted.mem_ofList Text.before_isOrder, isRepeated_iff]
  constructor
  · exact fun h => h.2
  · intro h
    exact ⟨List.count_pos_iff.mp (by omega), h⟩

/-- Owners are told apart by their ids, whatever name comes with them. -/
theorem mem_ids_ownersOf (declared : List DeclaredKey) (key : Text) (id : TypeId) :
    id ∈ (ownersOf declared key).map Prod.fst ↔ ∃ d ∈ declared, d.key = key ∧ d.owner = id := by
  have hf : ∀ a b : TypeId × Text, ownerBefore a b = false → ownerBefore b a = false →
      a.1 = b.1 := by
    intro a b hab hba
    simp only [ownerBefore, decide_eq_false_iff_not, Nat.not_lt] at hab hba
    exact Nat.le_antisymm hba hab
  rw [ownersOf, Sorted.mem_map_ofList hf]
  simp [and_assoc]

theorem involves_iff (declared : List DeclaredKey) (key : Text) (id : TypeId) :
    Clash.involves ⟨key, ownersOf declared key⟩ id = true ↔
      ∃ d ∈ declared, d.key = key ∧ d.owner = id := by
  rw [← mem_ids_ownersOf]
  simp [Clash.involves]

theorem exists_clash_iff (hids : (outcomes.map fun o => o.type.id).Nodup) {o : TypeOutcome}
    (ho : o ∈ outcomes) :
    (∃ c ∈ clashes (outcomes.flatMap (TypeOutcome.keysBy f)), c.involves o.type.id = true) ↔
      ∃ key ∈ o.keys f, 2 ≤ (outcomes.flatMap (TypeOutcome.keys f)).count key := by
  have hown : ∀ key, (∃ d ∈ outcomes.flatMap (TypeOutcome.keysBy f),
      d.key = key ∧ d.owner = o.type.id) ↔ key ∈ o.keys f := by
    intro key
    constructor
    · rintro ⟨d, hd, rfl, hid⟩
      obtain ⟨p, hp, hd⟩ := List.mem_flatMap.mp hd
      rw [keysBy_eq] at hd
      obtain ⟨k, hk, rfl⟩ := List.mem_map.mp hd
      obtain rfl := List.inj_on_of_nodup_map hids hp ho hid
      exact hk
    · intro hk
      refine ⟨⟨key, o.type.id, o.type.name⟩, List.mem_flatMap.mpr ⟨o, ho, ?_⟩, rfl, rfl⟩
      rw [keysBy_eq]
      exact List.mem_map.mpr ⟨key, hk, rfl⟩
  simp only [clashes, List.mem_map, exists_exists_and_eq_and, involves_iff, mem_repeatedKeys,
    key_of_keysBy, hown]
  tauto

end

theorem messagesFor_eq_nil_iff (what : Text) (found : List Clash) (id : TypeId) :
    Clash.messagesFor what found id = [] ↔ ¬ ∃ c ∈ found, c.involves id = true := by
  simp [Clash.messagesFor]

/-- What withdrawing does: nothing to a type without a clash, else it adds errors about the type and
takes its headers away. -/
theorem withdrawClashing_cases (identifiers files : List Clash) (o : TypeOutcome) :
    (¬ ((∃ c ∈ identifiers, c.involves o.type.id = true) ∨
        ∃ c ∈ files, c.involves o.type.id = true) ∧ withdrawClashing identifiers files o = o) ∨
    (((∃ c ∈ identifiers, c.involves o.type.id = true) ∨
        ∃ c ∈ files, c.involves o.type.id = true) ∧
      ∃ errors, errors ≠ [] ∧ AllAbout o.type errors ∧ (∀ d ∈ errors, d.kind = .namingConflict) ∧
        withdrawClashing identifiers files o =
          { o with errors := o.errors ++ errors, generated := none }) := by
  unfold withdrawClashing
  cases h : Clash.messagesFor "C identifier" identifiers o.type.id ++
      Clash.messagesFor "file name" files o.type.id with
  | nil =>
    rw [List.append_eq_nil_iff, messagesFor_eq_nil_iff, messagesFor_eq_nil_iff] at h
    exact .inl ⟨not_or.mpr h, rfl⟩
  | cons message messages =>
    refine .inr ⟨?_, (message :: messages).map (.ofType .namingConflict o.type), by simp, ?_, ?_,
      rfl⟩
    · by_contra hnone
      rw [not_or, ← messagesFor_eq_nil_iff "C identifier", ← messagesFor_eq_nil_iff "file name",
        ← List.append_eq_nil_iff, h] at hnone
      exact List.cons_ne_nil _ _ hnone
    · intro d hd
      obtain ⟨text, -, rfl⟩ := List.mem_map.mp hd
      exact typeId_ofType _ o.type text
    · intro d hd
      obtain ⟨text, -, rfl⟩ := List.mem_map.mp hd
      rfl

namespace Availability

theorem selectFrom_enabled (a : Availability) (ts : List TypeDef) :
    (a.selectFrom ts).enabled = (ts.filter fun t => a.enables t.rules).map TypeDef.id := by
  induction ts with
  | nil => rfl
  | cons t ts ih =>
    unfold selectFrom
    cases h : resolveRules t.rules a.target a.features with
    | error fault => simp [ofType, enables, h, ih]
    | ok b => cases b <;> simp [ofType, enables, h, ih]

end Availability

theorem enabledTypes_select {r : Registry} (hr : r.WellFormed) (a : Availability) :
    enabledTypes r (a.select r).enabled = r.types.filter fun t => a.enables t.rules := by
  rw [enabledTypes, Availability.select, a.selectFrom_enabled]
  apply List.filter_congr
  intro t ht
  rw [Bool.eq_iff_iff, List.contains_iff_mem, List.mem_map]
  constructor
  · rintro ⟨s, hs, hid⟩
    obtain ⟨hs, henabled⟩ := List.mem_filter.mp hs
    obtain rfl := hr.eq_of_id_eq hs ht hid
    exact henabled
  · intro henabled
    exact ⟨t, List.mem_filter.mpr ⟨ht, henabled⟩, rfl⟩

def runAvailability (target : Target) (o : Options) : Availability := ⟨target.name, o.features⟩

section
variable (r : Registry) (target : Target) (o : Options)

def runContext : Context := contextOf r target o ((runAvailability target o).select r).enabled

def runTypes : List TypeDef := r.types.filter fun t => (runAvailability target o).enables t.rules

def runOutcomes : List TypeOutcome :=
  (runTypes r target o).map (processType (runContext r target o))

/-- The types nothing is wrong with by themselves. -/
def cleanTypes : List TypeDef :=
  (runTypes r target o).filter fun t => (processType (runContext r target o) t).errors.isEmpty

end

/-- The files of a type as systems see them that ignore case. -/
def Target.fileKeys (target : Target) (t : TypeDef) : List Text :=
  (target.unitFiles t.name).map Text.lower

/-- An identifier or a file of the type is declared more than once among the clean types. -/
def Clashes (r : Registry) (target : Target) (o : Options) (t : TypeDef) : Prop :=
  (∃ name ∈ (runAvailability target o).declaredIdentifiers t,
    2 ≤ ((cleanTypes r target o).flatMap
      (runAvailability target o).declaredIdentifiers).count name) ∨
  ∃ file ∈ target.fileKeys t, 2 ≤ ((cleanTypes r target o).flatMap target.fileKeys).count file

/-- What a type comes to in the end. -/
def settled (r : Registry) (target : Target) (o : Options) (t : TypeDef) : TypeOutcome :=
  withdrawClashing
    (clashes ((runOutcomes r target o).flatMap (TypeOutcome.keysBy GeneratedUnit.names)))
    (clashes ((runOutcomes r target o).flatMap (TypeOutcome.keysBy GeneratedUnit.fileKeys)))
    (processType (runContext r target o) t)

theorem flatMap_filter {α β : Type} (p : α → Bool) (f : α → List β) (l : List α) :
    (l.filter p).flatMap f = l.flatMap fun a => if p a then f a else [] := by
  induction l with
  | nil => rfl
  | cons a l ih => cases h : p a <;> simp [h, ih]

section
variable {r : Registry} {target : Target} {o : Options} {t : TypeDef}

theorem generate_eq (hr : r.WellFormed) (ho : o.problem? target = none) :
    generate r target o = assembleReport r target o ((runAvailability target o).select r)
      ((runTypes r target o).map (settled r target o)) := by
  have hall : processAll r target o ((runAvailability target o).select r).enabled =
      runOutcomes r target o := by
    rw [processAll, enabledTypes_select hr]
    rfl
  unfold generate
  simp only [ho]
  rw [show (⟨target.name, o.features⟩ : Availability) = runAvailability target o from rfl, hall,
    resolveCollisions, runOutcomes, List.map_map]
  rfl

theorem mem_runTypes : t ∈ runTypes r target o ↔
    t ∈ r.types ∧ (runAvailability target o).enables t.rules = true := List.mem_filter

theorem runTypes_ids_nodup (hr : r.WellFormed) : ((runTypes r target o).map TypeDef.id).Nodup :=
  hr.ids_nodup.sublist (List.filter_sublist.map TypeDef.id)

theorem mem_cleanTypes : t ∈ cleanTypes r target o ↔
    t ∈ runTypes r target o ∧ (processType (runContext r target o) t).errors = [] := by
  rw [cleanTypes, List.mem_filter, List.isEmpty_iff]

theorem clean_rendered (hr : r.WellFormed) (ht : t ∈ cleanTypes r target o) :
    ∃ u, Rendered (runAvailability target o) target t u ∧ processType (runContext r target o) t =
      ⟨t, [], ((runAvailability target o).disabledMethods t).map fun m =>
        (runAvailability target o).omission t m.name, some u⟩ := by
  obtain ⟨hrun, hclean⟩ := mem_cleanTypes.mp ht
  obtain ⟨hmem, henabled⟩ := mem_runTypes.mp hrun
  refine processType_clean hr hmem ?_ hclean
  show t.id ∈ ((runAvailability target o).select r).enabled
  rw [Availability.select, Availability.selectFrom_enabled]
  exact List.mem_map.mpr ⟨t, hrun, rfl⟩

theorem keys_processType (hr : r.WellFormed) {f : GeneratedUnit → List Text}
    {g : TypeDef → List Text}
    (hfg : ∀ t u, Rendered (runAvailability target o) target t u → f u = g t)
    (ht : t ∈ runTypes r target o) :
    (processType (runContext r target o) t).keys f =
      if (processType (runContext r target o) t).errors.isEmpty then g t else [] := by
  by_cases hclean : (processType (runContext r target o) t).errors = []
  · obtain ⟨u, hu, hp⟩ := clean_rendered hr (mem_cleanTypes.mpr ⟨ht, hclean⟩)
    simp [hp, TypeOutcome.keys, hfg t u hu]
  · simp [TypeOutcome.keys, (processType_failed hclean).generated, hclean]

theorem fileKeys_rendered {a : Availability} (u : GeneratedUnit) (h : Rendered a target t u) :
    u.fileKeys = target.fileKeys t := by
  rw [Target.fileKeys, ← h.paths, List.map_map]
  rfl

theorem exists_clash_run (hr : r.WellFormed) {f : GeneratedUnit → List Text}
    {g : TypeDef → List Text}
    (hfg : ∀ t u, Rendered (runAvailability target o) target t u → f u = g t)
    (ht : t ∈ runTypes r target o) :
    (∃ c ∈ clashes ((runOutcomes r target o).flatMap (TypeOutcome.keysBy f)),
        c.involves t.id = true) ↔
      (processType (runContext r target o) t).errors = [] ∧
        ∃ key ∈ g t, 2 ≤ ((cleanTypes r target o).flatMap g).count key := by
  have hids : ((runOutcomes r target o).map fun o => o.type.id).Nodup := by
    rw [runOutcomes, List.map_map]
    simp only [Function.comp_def, processType_type]
    exact runTypes_ids_nodup hr
  -- types with errors have no keys, so all keys are those of the clean types
  have hkeys : (runOutcomes r target o).flatMap (TypeOutcome.keys f) =
      (cleanTypes r target o).flatMap g := by
    rw [runOutcomes, cleanTypes, flatMap_filter, List.flatMap_map]
    exact List.flatMap_congr fun s hs => keys_processType hr hfg hs
  have h := exists_clash_iff (f := f) hids (List.mem_map_of_mem ht)
  rw [processType_type, hkeys, keys_processType hr hfg ht] at h
  rw [h]
  split_ifs with hclean
  · simp [List.isEmpty_iff.mp hclean]
  · rw [List.isEmpty_iff] at hclean
    simp [hclean]

theorem settled_cases (hr : r.WellFormed) (ht : t ∈ runTypes r target o) :
    (t ∈ cleanTypes r target o ∧ ¬ Clashes r target o t ∧
      ∃ u, Rendered (runAvailability target o) target t u ∧ settled r target o t =
        ⟨t, [], ((runAvailability target o).disabledMethods t).map fun m =>
          (runAvailability target o).omission t m.name, some u⟩) ∨
    ((t ∈ cleanTypes r target o →
        Clashes r target o t ∧ ∀ d ∈ (settled r target o t).errors, d.kind = .namingConflict) ∧
      Refused t (settled r target o t)) := by
  have hnames := exists_clash_run hr (fun _ _ h => h.names) ht
  have hfiles := exists_clash_run hr (fun _ _ h => fileKeys_rendered _ h) ht
  have hcases := withdrawClashing_cases
    (clashes ((runOutcomes r target o).flatMap (TypeOutcome.keysBy GeneratedUnit.names)))
    (clashes ((runOutcomes r target o).flatMap (TypeOutcome.keysBy GeneratedUnit.fileKeys)))
    (processType (runContext r target o) t)
  rw [processType_type, hnames, hfiles, ← and_or_left] at hcases
  rcases hcases with ⟨hnone, hsame⟩ | ⟨⟨hclean, hclash⟩, errors, hne, habout, hkind, hwithdrawn⟩
  · by_cases hclean : (processType (runContext r target o) t).errors = []
    · obtain ⟨u, hu, hp⟩ := clean_rendered hr (mem_cleanTypes.mpr ⟨ht, hclean⟩)
      refine .inl ⟨mem_cleanTypes.mpr ⟨ht, hclean⟩, fun h => hnone ⟨hclean, h⟩, u, hu, ?_⟩
      exact hsame.trans hp
    · refine .inr ⟨fun h => absurd (mem_cleanTypes.mp h).2 hclean, ?_⟩
      rw [settled, hsame]
      exact processType_failed hclean
  · rw [settled, hwithdrawn, hclean]
    refine .inr ⟨fun _ => ⟨hclash, hkind⟩, ?_⟩
    exact ⟨rfl, hne, habout, fun e => processType_omissions_typeId, rfl⟩

end

def TypeOutcome.artifacts (o : TypeOutcome) : List Artifact :=
  match o.generated with
  | some u => u.artifacts
  | none => []

def survivors (r : Registry) (target : Target) (o : Options) : List TypeDef :=
  (runTypes r target o).filter fun t => (settled r target o t).generated.isSome

section
variable {r : Registry} {target : Target} {o : Options} {t : TypeDef}

theorem mem_survivors (hr : r.WellFormed) :
    t ∈ survivors r target o ↔ t ∈ cleanTypes r target o ∧ ¬ Clashes r target o t := by
  rw [survivors, List.mem_filter]
  constructor
  · rintro ⟨ht, hsome⟩
    rcases settled_cases hr ht with ⟨hclean, hclash, -⟩ | ⟨-, hrefused⟩
    · exact ⟨hclean, hclash⟩
    · simp [hrefused.generated] at hsome
  · rintro ⟨hclean, hclash⟩
    have ht := (mem_cleanTypes.mp hclean).1
    rcases settled_cases hr ht with ⟨-, -, u, -, hu⟩ | ⟨h, -⟩
    · exact ⟨ht, by simp [hu]⟩
    · exact absurd (h hclean).1 hclash

theorem unitsOf_settled (hr : r.WellFormed) :
    unitsOf ((runTypes r target o).map (settled r target o)) = (survivors r target o).map
      fun t => ⟨t.id, t.name, (runAvailability target o).exportedSymbols t⟩ := by
  rw [unitsOf, List.filterMap_map, survivors, ← List.filterMap_eq_map, List.filterMap_filter]
  apply List.filterMap_congr
  intro t ht
  rcases settled_cases hr ht with ⟨-, -, u, hu, heq⟩ | ⟨-, hrefused⟩
  · simp [heq, hu.symbols]
  · simp [hrefused.generated]

theorem fileKeys_settled (hr : r.WellFormed) :
    ((runTypes r target o).flatMap fun t => (settled r target o t).artifacts).map
      (fun a => Text.lower a.path) = (survivors r target o).flatMap target.fileKeys := by
  rw [List.map_flatMap, survivors, flatMap_filter]
  apply List.flatMap_congr
  intro t ht
  rcases settled_cases hr ht with ⟨-, -, u, hu, heq⟩ | ⟨-, hrefused⟩
  · simpa [heq, TypeOutcome.artifacts, GeneratedUnit.fileKeys] using fileKeys_rendered u hu
  · simp [TypeOutcome.artifacts, hrefused.generated]

theorem nodup_flatMap_of_unrepeated {α : Type} {keys : α → List Text} {all part : List α}
    (hpart : part.Sublist all)
    (h : ∀ a ∈ part, ∀ key ∈ keys a, (all.flatMap keys).count key < 2) :
    (part.flatMap keys).Nodup := by
  rw [List.nodup_iff_count_le_one]
  intro key
  have hle := (hpart.flatMap keys).count_le key
  by_cases hmem : key ∈ part.flatMap keys
  · obtain ⟨a, ha, hkey⟩ := List.mem_flatMap.mp hmem
    have hlt := h a ha key hkey
    omega
  · rw [List.count_eq_zero_of_not_mem hmem]
    omega

theorem survivors_sublist (hr : r.WellFormed) :
    (survivors r target o).Sublist (cleanTypes r target o) := by
  have hfilter : survivors r target o =
      (survivors r target o).filter fun t =>
        (processType (runContext r target o) t).errors.isEmpty := by
    refine (List.filter_eq_self.mpr fun t ht => ?_).symm
    exact List.isEmpty_iff.mpr (mem_cleanTypes.mp ((mem_survivors hr).mp ht).1).2
  rw [hfilter]
  exact List.filter_sublist.filter _

theorem nodup_declared_survivors (hr : r.WellFormed) :
    ((survivors r target o).flatMap (runAvailability target o).declaredIdentifiers).Nodup := by
  apply nodup_flatMap_of_unrepeated (survivors_sublist hr)
  intro t ht name hname
  have hclash := ((mem_survivors hr).mp ht).2
  exact Nat.lt_of_not_le fun hle => hclash (.inl ⟨name, hname, hle⟩)

theorem nodup_fileKeys_survivors (hr : r.WellFormed) :
    ((survivors r target o).flatMap target.fileKeys).Nodup := by
  apply nodup_flatMap_of_unrepeated (survivors_sublist hr)
  intro t ht file hfile
  have hclash := ((mem_survivors hr).mp ht).2
  exact Nat.lt_of_not_le fun hle => hclash (.inr ⟨file, hfile, hle⟩)

end

end Bindery
