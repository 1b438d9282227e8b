import Bindery.Proofs.Registry

/-!
Which lists of types make a registry, and which registry they make. The list may come in any order;
what is built holds its types in order of their ids and finds each of them by its id and by its
name. The places remembered while the types are checked lead to the same types.
-/

set_option autoImplicit false

namespace Bindery.Registry

/-- Ids that tell the types apart, and names that are identifiers and, for types and for the
variants of an enumeration, distinct. -/
structure Buildable (types : List TypeDef) : Prop where
  id_ne_zero : ∀ t ∈ types, t.id ≠ 0
  ids_distinct : (types.map TypeDef.id).Nodup
  name_valid : ∀ t ∈ types, Identifier.isValid t.name = true
  names_distinct : (types.map TypeDef.name).Nodup
  method_valid : ∀ t ∈ types, ∀ m ∈ t.methods, Identifier.isValid m.name = true
  param_valid : ∀ t ∈ types, ∀ m ∈ t.methods, ∀ p ∈ m.params, Identifier.isValid p.name = true
  field_valid : ∀ t ∈ types, ∀ f ∈ t.fields, Identifier.isValid f.name = true
  variant_valid : ∀ t ∈ types, ∀ v ∈ t.variants, Identifier.isValid v.name = true
  variants_distinct : ∀ t ∈ types, (t.variants.map Variant.name).Nodup

theorem methodProblems_eq_nil_iff (t : TypeDef) (m : Method) :
    methodProblems t m = [] ↔
      Identifier.isValid m.name = true ∧ ∀ p ∈ m.params, Identifier.isValid p.name = true := by
  simp only [methodProblems, List.append_eq_nil_iff, List.flatMap_eq_nil_iff, badName_eq_nil_iff]

theorem variantProblems_eq_nil_iff (t : TypeDef) (seen : List Text) (variants : List Variant) :
    variantProblems t seen variants = [] ↔
      (∀ v ∈ variants, Identifier.isValid v.name = true ∧ v.name ∉ seen) ∧
        (variants.map Variant.name).Nodup := by
  induction variants generalizing seen with
  | nil => simp [variantProblems]
  | cons v vs ih =>
    simp only [variantProblems, List.append_eq_nil_iff, badName_eq_nil_iff, ih, List.mem_cons,
      List.map_cons, List.nodup_cons, List.mem_map, forall_eq_or_imp, not_or, not_exists, not_and]
    grind

theorem memberProblems_eq_nil_iff (t : TypeDef) :
    memberProblems t = [] ↔
      (∀ m ∈ t.methods, Identifier.isValid m.name = true ∧
        ∀ p ∈ m.params, Identifier.isValid p.name = true) ∧
      (∀ f ∈ t.fields, Identifier.isValid f.name = true) ∧
      (∀ v ∈ t.variants, Identifier.isValid v.name = true) ∧
      (t.variants.map Variant.name).Nodup := by
  simp only [memberProblems, List.append_eq_nil_iff, List.flatMap_eq_nil_iff,
    methodProblems_eq_nil_iff, badName_eq_nil_iff, variantProblems_eq_nil_iff, List.not_mem_nil,
    not_false_eq_true, and_true, and_assoc]

theorem problems_eq_nil_iff_buildable (types : List TypeDef) :
    problems [] [] types = [] ↔ Buildable types := by
  simp only [problems_eq_nil_iff, Passes, List.not_mem_nil, not_false_eq_true, true_and,
    memberProblems_eq_nil_iff]
  constructor
  · rintro ⟨hpass, hids, hnames⟩
    exact {
      id_ne_zero := fun t ht => (hpass t ht).1
      ids_distinct := hids
      name_valid := fun t ht => (hpass t ht).2.1
      names_distinct := hnames
      method_valid := fun t ht m hm => ((hpass t ht).2.2.1 m hm).1
      param_valid := fun t ht m hm => ((hpass t ht).2.2.1 m hm).2
      field_valid := fun t ht => (hpass t ht).2.2.2.1
      variant_valid := fun t ht => (hpass t ht).2.2.2.2.1
      variants_distinct := fun t ht => (hpass t ht).2.2.2.2.2 }
  · intro h
    refine ⟨fun t ht => ⟨h.id_ne_zero t ht, h.name_valid t ht, fun m hm => ?_, h.field_valid t ht,
      h.variant_valid t ht, h.variants_distinct t ht⟩, h.ids_distinct, h.names_distinct⟩
    exact ⟨h.method_valid t ht m hm, h.param_valid t ht m hm⟩

theorem Buildable.perm {types types' : List TypeDef} (h : Buildable types)
    (hperm : types'.Perm types) : Buildable types' where
  id_ne_zero t ht := h.id_ne_zero t (hperm.subset ht)
  ids_distinct := (hperm.map _).nodup_iff.mpr h.ids_distinct
  name_valid t ht := h.name_valid t (hperm.subset ht)
  names_distinct := (hperm.map _).nodup_iff.mpr h.names_distinct
  method_valid t ht := h.method_valid t (hperm.subset ht)
  param_valid t ht := h.param_valid t (hperm.subset ht)
  field_valid t ht := h.field_valid t (hperm.subset ht)
  variant_valid t ht := h.variant_valid t (hperm.subset ht)
  variants_distinct t ht := h.variants_distinct t (hperm.subset ht)

theorem sortTypes_perm (types : List TypeDef) : (sortTypes types).Perm types :=
  List.mergeSort_perm types _

theorem sortTypes_eq_of_perm {types types' : List TypeDef} (h : (types.map TypeDef.id).Nodup)
    (hperm : types'.Perm types) : sortTypes types' = sortTypes types := by
  have hsame : (sortTypes types').Perm (sortTypes types) :=
    (sortTypes_perm types').trans (hperm.trans (sortTypes_perm types).symm)
  refine hsame.eq_of_pairwise ?_ (pairwise_sortTypes types') (pairwise_sortTypes types)
  -- types that are not in order either way have one id, and so are one type
  intro a b ha hb hab hba
  have ha : a ∈ types := hperm.subset ((sortTypes_perm types').subset ha)
  have hb : b ∈ types := (sortTypes_perm types).subset hb
  exact List.inj_on_of_nodup_map h ha hb (Nat.le_antisymm hab hba)

theorem build_eq_ok_iff_buildable {library : Text} {types : List TypeDef} {r : Registry} :
    build library types = .ok r ↔ Buildable types ∧ r = ⟨library, sortTypes types⟩ := by
  rw [build_eq_ok_iff, problems_eq_nil_iff_buildable]
  refine and_congr_left fun _ => ?_
  exact ⟨fun h => h.perm (sortTypes_perm types).symm, fun h => h.perm (sortTypes_perm types)⟩

theorem WellFormed.findNamed?_eq_some_iff {r : Registry} (h : r.WellFormed) {name : Text}
    {t : TypeDef} : r.findNamed? name = some t ↔ t ∈ r.types ∧ t.name = name := by
  constructor
  · intro hfind
    exact ⟨List.mem_of_find?_eq_some hfind, eq_of_beq (List.find?_some hfind :)⟩
  · rintro ⟨ht, rfl⟩
    have hsome : (r.findNamed? t.name).isSome :=
      List.find?_isSome.mpr ⟨t, ht, beq_self_eq_true t.name⟩
    obtain ⟨s, hs⟩ := Option.isSome_iff_exists.mp hsome
    have hname : s.name = t.name := eq_of_beq (List.find?_some hs :)
    rw [hs, List.inj_on_of_nodup_map h.names_distinct (List.mem_of_find?_eq_some hs) ht hname]

theorem resolve_eq_ok_iff (r : Registry) (id : TypeId) (t : TypeDef) :
    r.resolve id = .ok t ↔ r.find? id = some t := by
  unfold resolve
  cases r.find? id <;> simp

/-- Where types stand, by their ids and by their names. -/
structure Places where
  ids : List (TypeId × Nat) := []
  names : List (Text × Nat) := []
  deriving DecidableEq, Repr

/-- What the check of the types remembers, coming to the place `next`: a type that takes no id and
no name is passed over. -/
def recordPlaces : (next : Nat) → Places → List TypeDef → Places
  | _, places, [] => places
  | next, places, t :: ts =>
    if t.id = 0 ∨ (places.ids.lookup t.id).isSome ∨ (places.names.lookup t.name).isSome then
      recordPlaces (next + 1) places ts
    else recordPlaces (next + 1) ⟨(t.id, next) :: places.ids, (t.name, next) :: places.names⟩ ts

def places (r : Registry) : Places := recordPlaces 0 {} r.types

def IndexedBy {κ : Type} [BEq κ] (key : TypeDef → κ) (types : List TypeDef)
    (table : List (κ × Nat)) : Prop :=
  ∀ k i, table.lookup k = some i ↔ ∃ t, types[i]? = some t ∧ key t = k

section
variable {κ : Type} [BEq κ] {key : TypeDef → κ} {types : List TypeDef} {table : List (κ × Nat)}

theorem IndexedBy.lookup_eq_none (h : IndexedBy key types table) {k : κ}
    (hnew : k ∉ types.map key) : table.lookup k = none := by
  rw [Option.eq_none_iff_forall_ne_some]
  intro i hi
  obtain ⟨t, ht, rfl⟩ := (h k i).mp hi
  exact hnew (List.mem_map_of_mem (List.mem_of_getElem? ht))

theorem IndexedBy.concat [LawfulBEq κ] (h : IndexedBy key types table) {t : TypeDef}
    (hnew : key t ∉ types.map key) :
    IndexedBy key (types ++ [t]) ((key t, types.length) :: table) := by
  intro k i
  rw [List.lookup_cons]
  by_cases hk : k = key t
  · subst hk
    rw [beq_self_eq_true]
    constructor
    · rintro ⟨⟩
      exact ⟨t, by simp, rfl⟩
    · rintro ⟨s, hs, hkey⟩
      rcases Nat.lt_trichotomy i types.length with hlt | rfl | hgt
      · rw [List.getElem?_append_left hlt] at hs
        exact absurd (hkey ▸ List.mem_map_of_mem (List.mem_of_getElem? hs)) hnew
      · rfl
      · rw [List.getElem?_eq_none (by simpa using Nat.succ_le_of_lt hgt)] at hs
        cases hs
  · rw [beq_false_of_ne hk, h k i]
    refine exists_congr fun s => and_congr_left fun hkey => ?_
    rcases Nat.lt_trichotomy i types.length with hlt | rfl | hgt
    · rw [List.getElem?_append_left hlt]
    · -- the place just given belongs to another key
      have hne : t ≠ s := fun hts => hk (hts ▸ hkey.symm)
      simp [hne]
    · have hend : (types ++ [t]).length ≤ i := by simpa using Nat.succ_le_of_lt hgt
      rw [List.getElem?_eq_none (Nat.le_of_lt hgt), List.getElem?_eq_none hend]

/-- Following a place is finding the type of a key. -/
theorem IndexedBy.bind_lookup (h : IndexedBy key types table) (k : κ) (t : TypeDef) :
    (table.lookup k).bind (types[·]?) = some t ↔ t ∈ types ∧ key t = k := by
  rw [Option.bind_eq_some_iff, List.mem_iff_getElem?]
  constructor
  · rintro ⟨i, hi, ht⟩
    obtain ⟨s, hs, hkey⟩ := (h k i).mp hi
    obtain rfl : s = t := Option.some.inj (hs.symm.trans ht)
    exact ⟨⟨i, ht⟩, hkey⟩
  · rintro ⟨⟨i, ht⟩, hkey⟩
    exact ⟨i, (h k i).mpr ⟨t, ht, hkey⟩, ht⟩

omit [BEq κ] in
theorem not_mem_of_nodup_append {done rest : List TypeDef} {t : TypeDef}
    (h : ((done ++ t :: rest).map key).Nodup) : key t ∉ done.map key := by
  rw [List.map_append, List.map_cons, List.nodup_append] at h
  exact fun hmem => h.2.2 _ hmem (key t) List.mem_cons_self rfl

end

theorem recordPlaces_indexedBy {done rest : List TypeDef} {places : Places}
    (hids : IndexedBy TypeDef.id done places.ids)
    (hnames : IndexedBy TypeDef.name done places.names) (hzero : ∀ t ∈ rest, t.id ≠ 0)
    (hdistinct : ((done ++ rest).map TypeDef.id).Nodup)
    (hdistinct' : ((done ++ rest).map TypeDef.name).Nodup) :
    IndexedBy TypeDef.id (done ++ rest) (recordPlaces done.length places rest).ids ∧
      IndexedBy TypeDef.name (done ++ rest) (recordPlaces done.length places rest).names := by
  induction rest generalizing done places with
  | nil => simpa [recordPlaces] using ⟨hids, hnames⟩
  | cons t rest ih =>
    have hnew := not_mem_of_nodup_append hdistinct
    have hnew' := not_mem_of_nodup_append hdistinct'
    rw [List.append_cons] at hdistinct hdistinct' ⊢
    have hrest := @ih (done ++ [t])
      ⟨(t.id, done.length) :: places.ids, (t.name, done.length) :: places.names⟩
      (hids.concat hnew) (hnames.concat hnew') (fun s hs => hzero s (List.mem_cons_of_mem t hs))
      hdistinct hdistinct'
    have hplace : recordPlaces done.length places (t :: rest) =
        recordPlaces (done ++ [t]).length
          ⟨(t.id, done.length) :: places.ids, (t.name, done.length) :: places.names⟩ rest := by
      rw [recordPlaces, hids.lookup_eq_none hnew, hnames.lookup_eq_none hnew',
        List.length_append, List.length_singleton]
      simp [hzero t List.mem_cons_self]
    rwa [hplace]

theorem WellFormed.places_indexedBy {r : Registry} (h : r.WellFormed) :
    IndexedBy TypeDef.id r.types r.places.ids ∧ IndexedBy TypeDef.name r.types r.places.names := by
  have hempty : ∀ {κ : Type} [BEq κ] (key : TypeDef → κ), IndexedBy key [] [] := by
    intro κ _ key k i
    simp
  exact @recordPlaces_indexedBy [] r.types {} (hempty _) (hempty _) h.id_ne_zero h.ids_nodup
    h.names_distinct

/-- A registry is built exactly from what is buildable. It holds the listed types in order of their
ids, finds the one with an id or a name and no other, also through the places remembered, and is the
same whatever the order of the list. -/
theorem build_exact (library : Text) (types : List TypeDef) :
    ((∃ r, build library types = .ok r) ↔ Buildable types) ∧
    ∀ r, build library types = .ok r →
      r.library = library ∧ r.types.Perm types ∧ (r.types.Pairwise fun a b => a.id < b.id) ∧
      (∀ id t, r.find? id = some t ↔ t ∈ types ∧ t.id = id) ∧
      (∀ id t, r.resolve id = .ok t ↔ t ∈ types ∧ t.id = id) ∧
      (∀ name t, r.findNamed? name = some t ↔ t ∈ types ∧ t.name = name) ∧
      (∀ id, (r.places.ids.lookup id).bind (r.types[·]?) = r.find? id) ∧
      (∀ name, (r.places.names.lookup name).bind (r.types[·]?) = r.findNamed? name) ∧
      ∀ types', types'.Perm types → build library types' = .ok r := by
  constructor
  · simp only [build_eq_ok_iff_buildable, exists_and_left, exists_eq, and_true]
  · intro r hbuild
    have hwf := build_wellFormed hbuild
    obtain ⟨hbuildable, rfl⟩ := build_eq_ok_iff_buildable.mp hbuild
    have hperm := sortTypes_perm types
    have hfind : ∀ id t, (⟨library, sortTypes types⟩ : Registry).find? id = some t ↔
        t ∈ types ∧ t.id = id := by
      intro id t
      rw [hwf.find?_eq_some_iff, hperm.mem_iff]
    have hnamed : ∀ name t, (⟨library, sortTypes types⟩ : Registry).findNamed? name = some t ↔
        t ∈ types ∧ t.name = name := by
      intro name t
      rw [hwf.findNamed?_eq_some_iff, hperm.mem_iff]
    refine ⟨rfl, hperm, hwf.ids_increase, hfind, ?_, hnamed, ?_, ?_, ?_⟩
    · intro id t
      rw [resolve_eq_ok_iff, hfind]
    · intro id
      refine Option.ext fun t => ?_
      rw [hwf.places_indexedBy.1.bind_lookup, hwf.find?_eq_some_iff]
    · intro name
      refine Option.ext fun t => ?_
      rw [hwf.places_indexedBy.2.bind_lookup, hwf.findNamed?_eq_some_iff]
    · intro types' hperm'
      rw [build_eq_ok_iff_buildable, sortTypes_eq_of_perm hbuildable.ids_distinct hperm']
      exact ⟨hbuildable.perm hperm', rfl⟩

namespace Shuffled

def point : TypeDef := ⟨2, "Point", [], [], .record [⟨"x", [], .primitive .u8⟩] []⟩

def mode : TypeDef := ⟨7, "Mode", [], [], .enumeration [⟨"low", [], 0⟩, ⟨"high", [], 1⟩]⟩

def registry : Registry := ⟨"shuffled", [point, mode]⟩

end Shuffled

theorem build_exact_shuffled :
    build "shuffled" [Shuffled.mode, Shuffled.point] = .ok Shuffled.registry ∧
    Shuffled.registry.find? 7 = some Shuffled.mode ∧
    Shuffled.registry.findNamed? "Point" = some Shuffled.point ∧
    ¬ ∃ r, build "shuffled" [Shuffled.point, Shuffled.point] = .ok r := by
  have hbuild : build "shuffled" [Shuffled.point, Shuffled.mode] = .ok Shuffled.registry :=
    build_of_increasing _ (by decide) (by decide)
  obtain ⟨-, -, -, hfind, -, hnamed, -, -, hperm⟩ := (build_exact _ _).2 _ hbuild
  refine ⟨hperm _ (.swap ..), (hfind 7 _).mpr ⟨by simp, rfl⟩, (hnamed "Point" _).mpr ⟨by simp, rfl⟩,
    fun hrepeated => ?_⟩
  have hids := ((build_exact _ _).1.mp hrepeated).ids_distinct
  exact absurd hids (by decide)

end Bindery.Registry
