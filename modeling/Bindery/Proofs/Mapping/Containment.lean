import Bindery.Generation.Unit
import Bindery.Proofs.Mapping.Admissible
import Bindery.Proofs.Mapping.Dependence
import Bindery.Proofs.Registry
import Mathlib.Data.List.Forall2
import Mathlib.Logic.Relation

/-!
Records that contain records. Laying one out ends, whatever the definitions are, and the bound on
the depth never shows. It fails on a record that contains itself through others, and otherwise
only on fields that could stand in no record at all. A layout does not depend on the records around
it.
-/

set_option autoImplicit false

namespace Bindery

/-- The record whose value is part of the value of a reference. -/
def TypeRef.containedRecord? : TypeRef → Option TypeId
  | .record id false => some id
  | .nullable (.record id false) => some id
  | _ => none

namespace Registry

/-- A field of the one type holds the other by value, nullable or not. -/
def Contains (r : Registry) (outer inner : TypeDef) : Prop :=
  ∃ f ∈ outer.fields, ∃ id, f.type.containedRecord? = some id ∧ r.find? id = some inner

/-- No type found inside `t`, or `t` itself, is found inside itself again. Ids tell types apart, so
this also covers a type that is not in the registry. -/
def ContainsNoCycle (r : Registry) (t : TypeDef) : Prop :=
  ∀ s u, Relation.ReflTransGen r.Contains t s → Relation.TransGen r.Contains s u → s.id ≠ u.id

theorem Contains.mem {r : Registry} {outer inner : TypeDef} (h : r.Contains outer inner) :
    inner ∈ r.types := by
  obtain ⟨f, -, id, -, hfind⟩ := h
  exact mem_of_find? hfind

theorem Contains.find? {r : Registry} {outer inner : TypeDef} (h : r.Contains outer inner) :
    r.find? inner.id = some inner := by
  obtain ⟨f, -, id, -, hfind⟩ := h
  rwa [id_of_find? hfind]

/-- For a type of the registry, cycles are those of the containment relation. -/
theorem containsNoCycle_iff {r : Registry} {t : TypeDef} (ht : r.find? t.id = some t) :
    r.ContainsNoCycle t ↔
      ∀ s, Relation.ReflTransGen r.Contains t s → ¬ Relation.TransGen r.Contains s s := by
  constructor
  · intro h s hreach hcycle
    exact h s s hreach hcycle rfl
  · intro h s u hreach hpath hid
    have hs : r.find? s.id = some s := by
      cases hreach with
      | refl => exact ht
      | tail _ hlast => exact hlast.find?
    have hu : r.find? u.id = some u := by
      cases hpath with
      | single hlast => exact hlast.find?
      | tail _ hlast => exact hlast.find?
    rw [← hid, hs, Option.some.injEq] at hu
    subst hu
    exact h s hreach hpath

end Registry

namespace Mapper

theorem lookup_mem {m : Mapper} {id : TypeId} {kind : Kind} {t : TypeDef}
    (h : m.lookup id kind = .ok t) : t ∈ m.registry.types :=
  Registry.mem_of_find? (lookup_eq_ok_iff.mp h).1

section
variable {m : Mapper} {sound : TypeDef → Prop} {ref : TypeRef} {position : Position} {id : TypeId}
  {t : TypeDef}

theorem Admissible.sound_of_lookup (h : m.Admissible sound ref position) (hid : id ∈ ref.ids)
    (hlookup : m.lookup id .record = .ok t) : sound t := by
  have hrecord := lookup_eq_ok_iff.mp hlookup
  -- an id is found under one kind only
  have hkind : ∀ {kind s}, m.Resolves id kind s → s = t ∧ kind = .record := by
    rintro kind s ⟨hfind, -, rfl⟩
    rw [hrecord.1, Option.some.injEq] at hfind
    subst hfind
    exact ⟨rfl, hrecord.2.2⟩
  induction ref generalizing position with
  | unit => simp [TypeRef.ids] at hid
  | primitive p => simp [TypeRef.ids] at hid
  | slice view isMutable => simp [TypeRef.ids] at hid
  | writeable => simp [TypeRef.ids] at hid
  | object id' ownership isMutable =>
    simp only [TypeRef.ids, List.mem_singleton] at hid
    subst hid
    obtain ⟨⟨s, hs⟩, -⟩ := h
    exact absurd (hkind hs).2 (by decide)
  | enumeration id' =>
    simp only [TypeRef.ids, List.mem_singleton] at hid
    subst hid
    obtain ⟨s, hs, -⟩ := h
    exact absurd (hkind hs).2 (by decide)
  | record id' byRef =>
    simp only [TypeRef.ids, List.mem_singleton] at hid
    subst hid
    obtain ⟨⟨s, hs, hsound⟩, -⟩ := h
    rwa [(hkind hs).1] at hsound
  | nullable inner ih => exact ih h.2.1 hid
  | fallible ok err ihOk ihErr =>
    rcases List.mem_append.mp hid with hid | hid
    · exact ihOk h.2.1 hid
    · exact ihErr h.2.2 hid

theorem Admissible.contained (h : m.Admissible sound ref position)
    (hid : ref.containedRecord? = some id) :
    id ∈ ref.ids ∧ ∃ t, m.lookup id .record = .ok t := by
  simp only [lookup_eq_ok_iff]
  unfold TypeRef.containedRecord? at hid
  split at hid
  · obtain rfl := Option.some.inj hid
    obtain ⟨⟨t, ht, -⟩, -⟩ := h
    exact ⟨by simp [TypeRef.ids], t, ht⟩
  · obtain rfl := Option.some.inj hid
    obtain ⟨-, ⟨⟨t, ht, -⟩, -⟩, -⟩ := h
    exact ⟨by simp [TypeRef.ids], t, ht⟩
  · exact absurd hid (by simp)

theorem Admissible.of_contained (h : m.Admissible (fun _ => True) ref .field)
    (hsound : ∀ id t, ref.containedRecord? = some id → m.Resolves id .record t → sound t) :
    m.Admissible sound ref .field := by
  cases ref with
  | record id byRef =>
    obtain ⟨⟨t, ht, -⟩, hplace⟩ := h
    cases byRef with
    | true => exact absurd (hplace rfl) (by decide)
    | false => exact ⟨⟨t, ht, hsound id t rfl ht⟩, hplace⟩
  | nullable inner =>
    obtain ⟨hposition, hinner, hnull, hfield⟩ := h
    refine ⟨hposition, ?_, hnull, hfield⟩
    cases inner with
    | record id byRef =>
      obtain ⟨⟨t, ht, -⟩, hplace⟩ := hinner
      obtain ⟨rfl, -⟩ := hnull
      exact ⟨⟨t, ht, hsound id t rfl ht⟩, hplace⟩
    | nullable inner => exact hnull.elim
    | fallible ok err => exact hnull.elim
    | _ => exact hinner
  | fallible ok err => exact absurd h.1 (by decide)
  | _ => exact h

end

section
variable {m : Mapper} {nested nested' : TypeDef → Except MapFault Layout} {s t : TypeDef}
  {layout : Layout}

theorem fieldLayouts_eq_ok_iff {mapField : TypeRef → Except MapFault Mapped} {owner : Text}
    {fields : List Field} {layouts : List Layout} :
    fieldLayouts mapField owner fields = .ok layouts ↔
      ∃ mapped, List.Forall₂ (fun f x => mapField f.type = .ok x) fields mapped ∧
        mapped.map (fun x => x.native.layout) = layouts := by
  induction fields generalizing layouts with
  | nil => simp [fieldLayouts, eq_comm]
  | cons f fs ih =>
    rw [fieldLayouts]
    constructor
    · intro h
      cases hf : mapField f.type with
      | error fault => simp [hf] at h
      | ok x =>
        cases hfs : fieldLayouts mapField owner fs with
        | error fault => simp [hf, hfs] at h
        | ok rest =>
          obtain ⟨mapped, hmapped, hrest⟩ := ih.mp hfs
          simp only [hf, hfs, Except.ok.injEq] at h
          exact ⟨x :: mapped, .cons hf hmapped, by rw [List.map_cons, hrest, h]⟩
    · rintro ⟨mapped, hmapped, rfl⟩
      cases hmapped with
      | @cons _ x _ rest hf hrest =>
        have hfs := ih.mpr ⟨rest, hrest, rfl⟩
        simp [hf, hfs]

theorem fieldLayouts_isOk_iff (mapField : TypeRef → Except MapFault Mapped) (owner : Text)
    (fields : List Field) :
    (∃ layouts, fieldLayouts mapField owner fields = .ok layouts) ↔
      ∀ f ∈ fields, ∃ mapped, mapField f.type = .ok mapped := by
  induction fields with
  | nil => simp [fieldLayouts]
  | cons f fs ih =>
    rw [List.forall_mem_cons, ← ih, fieldLayouts]
    cases hf : mapField f.type with
    | error fault => simp
    | ok x => cases hfs : fieldLayouts mapField owner fs <;> simp

theorem layoutFrom_eq_ok_iff :
    m.layoutFrom nested t = .ok layout ↔
      ∃ mapped, List.Forall₂ (fun f x => m.mapWith nested f.type .field [] = .ok x)
          t.fields mapped ∧
        Layout.record (mapped.map fun x => x.native.layout) = layout := by
  unfold layoutFrom
  constructor
  · intro h
    cases hfields : fieldLayouts (fun ref => m.mapWith nested ref .field []) t.name t.fields with
    | error fault => simp [hfields] at h
    | ok layouts =>
      obtain ⟨mapped, hmapped, rfl⟩ := fieldLayouts_eq_ok_iff.mp hfields
      simp only [hfields, Except.ok.injEq] at h
      exact ⟨mapped, hmapped, h⟩
  · rintro ⟨mapped, hmapped, rfl⟩
    rw [fieldLayouts_eq_ok_iff.mpr ⟨mapped, hmapped, rfl⟩]

theorem hasLayout_layoutFrom_iff :
    HasLayout (m.layoutFrom nested) t ↔
      ∀ f ∈ t.fields, m.Admissible (HasLayout nested) f.type .field := by
  simp only [← mapWith_isOk_iff m nested _ .field [],
    ← fieldLayouts_isOk_iff (fun ref => m.mapWith nested ref .field []) t.name]
  unfold HasLayout layoutFrom
  cases fieldLayouts (fun ref => m.mapWith nested ref .field []) t.name t.fields <;> simp

theorem layoutFrom_mono (hmono : ∀ s layout, nested s = .ok layout → nested' s = .ok layout)
    (h : m.layoutFrom nested t = .ok layout) : m.layoutFrom nested' t = .ok layout := by
  have hadmissible := hasLayout_layoutFrom_iff.mp ⟨layout, h⟩
  rw [← h]
  refine (layoutFrom_congr (.refl m) (fun _ _ _ _ => rfl) fun f hf id hid s hs => ?_).symm
  obtain ⟨layout, hlayout⟩ := (hadmissible f hf).sound_of_lookup hid hs
  rw [hlayout, hmono s layout hlayout]

theorem hasLayout_of_contains (h : m.layoutFrom nested t = .ok layout)
    (hs : m.registry.Contains t s) : HasLayout nested s := by
  obtain ⟨f, hf, id, hid, hfind⟩ := hs
  have hadmissible := hasLayout_layoutFrom_iff.mp ⟨layout, h⟩ f hf
  obtain ⟨hmem, s', hs'⟩ := hadmissible.contained hid
  have hsame := (lookup_eq_ok_iff.mp hs').1
  rw [hfind, Option.some.injEq] at hsame
  subst hsame
  exact hadmissible.sound_of_lookup hmem hs'

end

section
variable {m : Mapper} {depth depth' : Nat} {enclosing enclosing' : List TypeId} {s t : TypeDef}
  {layout : Layout}

theorem layoutWithin_of_mem (m : Mapper) (depth : Nat) (h : t.id ∈ enclosing) :
    m.layoutWithin depth enclosing t = .error (.containsItself t.name) := by
  cases depth with
  | zero => rfl
  | succ depth => rw [layoutWithin_succ, if_pos h]

theorem layoutWithin_of_not_mem (m : Mapper) (depth : Nat) (h : t.id ∉ enclosing) :
    m.layoutWithin (depth + 1) enclosing t =
      m.layoutFrom (m.layoutWithin depth (t.id :: enclosing)) t := by
  rw [layoutWithin_succ, if_neg h]

theorem layoutWithin_eq (h : m.registry.DeepEnough depth enclosing t)
    (h' : m.registry.DeepEnough depth' enclosing t) :
    m.layoutWithin depth enclosing t = m.layoutWithin depth' enclosing t := by
  induction depth generalizing depth' enclosing t with
  | zero => rw [layoutWithin_of_mem m 0 h.mem_enclosing, layoutWithin_of_mem m _ h.mem_enclosing]
  | succ depth ih =>
    by_cases hagain : t.id ∈ enclosing
    · rw [layoutWithin_of_mem m _ hagain, layoutWithin_of_mem m _ hagain]
    · cases depth' with
      | zero => exact absurd h'.mem_enclosing hagain
      | succ depth' =>
        rw [layoutWithin_of_not_mem m _ hagain, layoutWithin_of_not_mem m _ hagain]
        refine layoutFrom_congr (.refl m) (fun _ _ _ _ => rfl) fun f hf id hid s hs => ?_
        have hmem := lookup_mem hs
        exact ih (h.nested hagain hmem) (h'.nested hagain hmem)

/-- Laying out as a recursion without any bound: a derivation is the finite tree of the layouts
that are asked for, each inside the records before it. -/
inductive Lays (m : Mapper) : List TypeId → TypeDef → Except MapFault Layout → Prop where
  | again {enclosing : List TypeId} {t : TypeDef} (h : t.id ∈ enclosing) :
    Lays m enclosing t (.error (.containsItself t.name))
  | fields {enclosing : List TypeId} {t : TypeDef} (nested : TypeDef → Except MapFault Layout)
    (hnew : t.id ∉ enclosing)
    (hnested : ∀ f ∈ t.fields, ∀ id ∈ f.type.ids, ∀ s, m.lookup id .record = .ok s →
      Lays m (t.id :: enclosing) s (nested s)) :
    Lays m enclosing t (m.layoutFrom nested t)

theorem lays_layoutWithin (h : m.registry.DeepEnough depth enclosing t) :
    m.Lays enclosing t (m.layoutWithin depth enclosing t) := by
  induction depth generalizing enclosing t with
  | zero =>
    rw [layoutWithin_of_mem m 0 h.mem_enclosing]
    exact .again h.mem_enclosing
  | succ depth ih =>
    by_cases hagain : t.id ∈ enclosing
    · rw [layoutWithin_of_mem m _ hagain]
      exact .again hagain
    · rw [layoutWithin_of_not_mem m _ hagain]
      exact .fields _ hagain fun f _ id _ s hs => ih (h.nested hagain (lookup_mem hs))

theorem Lays.unique {result result' : Except MapFault Layout} (h : m.Lays enclosing t result)
    (h' : m.Lays enclosing t result') : result = result' := by
  induction h generalizing result' with
  | again hmem =>
    cases h' with
    | again => rfl
    | fields _ hnew => exact absurd hmem hnew
  | fields nested hnew _ ih =>
    cases h' with
    | again hmem => exact absurd hmem hnew
    | fields nested' _ hnested' =>
      refine layoutFrom_congr (.refl m) (fun _ _ _ _ => rfl) fun f hf id hid s hs => ?_
      exact ih f hf id hid s hs (hnested' f hf id hid s hs)

theorem existsUnique_lays (m : Mapper) (enclosing : List TypeId) (t : TypeDef) :
    ∃! result, m.Lays enclosing t result := by
  have hdeep : m.registry.DeepEnough (m.registry.room enclosing + 1) enclosing t :=
    .inl (Nat.lt_succ_self _)
  exact ⟨_, lays_layoutWithin hdeep, fun _ h => h.unique (lays_layoutWithin hdeep)⟩

theorem layoutWithin_eq_ok (h : m.layoutWithin depth enclosing t = .ok layout) :
    t.id ∉ enclosing ∧ ∃ below, depth = below + 1 ∧
      m.layoutFrom (m.layoutWithin below (t.id :: enclosing)) t = .ok layout := by
  have hnew : t.id ∉ enclosing := by
    intro hagain
    rw [layoutWithin_of_mem m depth hagain] at h
    exact absurd h (by simp)
  cases depth with
  | zero => exact absurd h (by simp [layoutWithin])
  | succ below =>
    rw [layoutWithin_of_not_mem m below hnew] at h
    exact ⟨hnew, below, rfl, h⟩

/-- A layout found inside other records is found inside fewer of them, and it is the same. -/
theorem layoutWithin_mono (hdepth : depth ≤ depth') (hsub : enclosing' ⊆ enclosing)
    (h : m.layoutWithin depth enclosing t = .ok layout) :
    m.layoutWithin depth' enclosing' t = .ok layout := by
  induction depth generalizing depth' enclosing enclosing' t layout with
  | zero => exact absurd h (by simp [layoutWithin])
  | succ depth ih =>
    obtain ⟨hnew, below, hbelow, hfields⟩ := layoutWithin_eq_ok h
    obtain rfl := Nat.succ.inj hbelow
    cases depth' with
    | zero => omega
    | succ depth' =>
      rw [layoutWithin_of_not_mem m depth' fun hmem => hnew (hsub hmem)]
      refine layoutFrom_mono (fun s layout hs => ?_) hfields
      exact ih (by omega) (List.cons_subset_cons t.id hsub) hs

theorem layoutWithin_of_contains (h : m.layoutWithin depth enclosing t = .ok layout)
    (hs : m.registry.Contains t s) :
    ∃ below inner, m.layoutWithin below (t.id :: enclosing) s = .ok inner := by
  obtain ⟨-, below, -, hfields⟩ := layoutWithin_eq_ok h
  exact ⟨below, hasLayout_of_contains hfields hs⟩

theorem layoutWithin_of_transGen (h : m.layoutWithin depth enclosing t = .ok layout)
    (hs : Relation.TransGen m.registry.Contains t s) :
    ∃ below around inner, t.id ∈ around ∧ m.layoutWithin below around s = .ok inner := by
  induction hs with
  | single hs =>
    obtain ⟨below, inner, hinner⟩ := layoutWithin_of_contains h hs
    exact ⟨below, _, inner, List.mem_cons_self, hinner⟩
  | tail _ hstep ih =>
    obtain ⟨below, around, inner, hmem, hinner⟩ := ih
    obtain ⟨below', inner', hinner'⟩ := layoutWithin_of_contains hinner hstep
    exact ⟨below', _, inner', List.mem_cons_of_mem _ hmem, hinner'⟩

theorem containsNoCycle_of_recordLayout (h : m.recordLayout t = .ok layout) :
    m.registry.ContainsNoCycle t := by
  intro s u hreach hpath
  have hs : ∃ below around inner, m.layoutWithin below around s = .ok inner := by
    rcases Relation.reflTransGen_iff_eq_or_transGen.mp hreach with rfl | hreach
    · exact ⟨_, _, layout, h⟩
    · obtain ⟨below, around, inner, -, hinner⟩ := layoutWithin_of_transGen h hreach
      exact ⟨below, around, inner, hinner⟩
  obtain ⟨below, around, inner, hinner⟩ := hs
  obtain ⟨_, _, _, hmem, hu⟩ := layoutWithin_of_transGen hinner hpath
  intro hid
  rw [hid] at hmem
  exact (layoutWithin_eq_ok hu).1 hmem

theorem layoutFrom_recordLayout (h : m.recordLayout t = .ok layout) :
    m.layoutFrom m.recordLayout t = .ok layout := by
  obtain ⟨-, below, hbelow, hfields⟩ := layoutWithin_eq_ok h
  refine layoutFrom_mono (fun s inner hs => ?_) hfields
  exact layoutWithin_mono (by omega) (List.nil_subset _) hs

/-- Without a cycle, only a field that could stand in no record keeps a layout from being found.
The records around `s` are on a path to it, so `s` is not among them. -/
theorem hasLayout_of_noCycle {root : TypeDef} (hcycle : m.registry.ContainsNoCycle root)
    (hfields : ∀ s, Relation.ReflTransGen m.registry.Contains root s →
      ∀ f ∈ s.fields, m.Admissible (fun _ => True) f.type .field)
    (hreach : Relation.ReflTransGen m.registry.Contains root s)
    (haround : ∀ id ∈ enclosing, ∃ u, u.id = id ∧
      Relation.ReflTransGen m.registry.Contains root u ∧
      Relation.TransGen m.registry.Contains u s)
    (hdeep : m.registry.DeepEnough depth enclosing s) :
    HasLayout (m.layoutWithin depth enclosing) s := by
  have hnew : s.id ∉ enclosing := by
    intro hmem
    obtain ⟨u, hid, hu, hpath⟩ := haround s.id hmem
    exact hcycle u s hu hpath hid
  induction depth generalizing enclosing s with
  | zero => exact absurd hdeep.mem_enclosing hnew
  | succ depth ih =>
    unfold HasLayout
    simp only [layoutWithin_of_not_mem m depth hnew]
    refine hasLayout_layoutFrom_iff.mpr fun f hf => (hfields s hreach f hf).of_contained ?_
    intro id u hid hu
    have hstep : m.registry.Contains s u := ⟨f, hf, id, hid, hu.1⟩
    have haround' : ∀ id ∈ s.id :: enclosing, ∃ v, v.id = id ∧
        Relation.ReflTransGen m.registry.Contains root v ∧
        Relation.TransGen m.registry.Contains v u := by
      intro id hid
      rcases List.mem_cons.mp hid with rfl | hid
      · exact ⟨s, rfl, hreach, .single hstep⟩
      · obtain ⟨v, hvid, hv, hpath⟩ := haround id hid
        exact ⟨v, hvid, hv, hpath.tail hstep⟩
    refine ih (hreach.tail hstep) haround' (hdeep.nested hnew hstep.mem) ?_
    intro hmem
    obtain ⟨v, hvid, hv, hpath⟩ := haround' u.id hmem
    exact hcycle v u hv hpath hvid

end

end Mapper

theorem mapProblem_kind (t : TypeDef) (fault : MapFault) :
    (mapProblem t fault).kind ≠ .namingConflict := by
  show fault.kind ≠ .namingConflict
  induction fault with
  | inField owner field inner ih => exact ih
  | _ => simp [MapFault.kind]

theorem planFields_of_mapped {c : Context} {t : TypeDef} {fields : List Field}
    {mapped : List Mapped}
    (h : List.Forall₂ (fun f x => c.mapper.map f.type .field [] = .ok x) fields mapped)
    (seen : List Text) :
    (planFields c t seen fields).1 = List.zipWith FieldPlan.mk fields mapped ∧
      ∀ fault, mapProblem t fault ∉ (planFields c t seen fields).2 := by
  induction h generalizing seen with
  | nil => simp [planFields]
  | @cons f x fs xs hf _ ih =>
    obtain ⟨hplans, hfaults⟩ := ih (f.name :: seen)
    simp only [planFields, hf, List.zipWith_cons_cons, hplans, true_and, List.mem_append]
    rintro fault (hd | hd)
    · -- a repeated name is another kind of error
      have hkind := mapProblem_kind t fault
      split_ifs at hd
      · rw [List.mem_singleton.mp hd] at hkind
        exact hkind rfl
      · simp at hd
    · exact hfaults fault hd

/-- Laying out records ends on every input with the one result of the recursion without a bound.
A record is laid out only if nothing is found inside itself on the way down, and whenever that is so
and every field on the way may stand in a record, with nothing asked of the records it names. The
fields of a record that was laid out map afresh, outside of it, to the same layout, so planning them
again cannot fail. -/
theorem recordLayout_contained (m : Mapper) :
    (∀ enclosing t, ∃! result, m.Lays enclosing t result) ∧
    (∀ t, m.Lays [] t (m.recordLayout t)) ∧
    (∀ t layout, m.recordLayout t = .ok layout → m.registry.ContainsNoCycle t) ∧
    (∀ t, m.registry.ContainsNoCycle t →
      (∀ s, Relation.ReflTransGen m.registry.Contains t s →
        ∀ f ∈ s.fields, m.Admissible (fun _ => True) f.type .field) →
      ∃ layout, m.recordLayout t = .ok layout) ∧
    ∀ t layout, m.recordLayout t = .ok layout →
      ∃ mapped, List.Forall₂ (fun f x => m.map f.type .field [] = .ok x) t.fields mapped ∧
        Layout.record (mapped.map fun x => x.native.layout) = layout ∧
        ∀ c : Context, c.mapper = m → ∀ seen,
          (planFields c t seen t.fields).1 = List.zipWith FieldPlan.mk t.fields mapped ∧
          ∀ fault, mapProblem t fault ∉ (planFields c t seen t.fields).2 := by
  refine ⟨m.existsUnique_lays, fun t => Mapper.lays_layoutWithin (m.registry.deepEnough_start t),
    fun t layout => Mapper.containsNoCycle_of_recordLayout, ?_, ?_⟩
  · intro t hcycle hfields
    exact Mapper.hasLayout_of_noCycle hcycle hfields .refl (by simp)
      (m.registry.deepEnough_start t)
  · intro t layout h
    obtain ⟨mapped, hmapped, hlayout⟩ :=
      Mapper.layoutFrom_eq_ok_iff.mp (Mapper.layoutFrom_recordLayout h)
    refine ⟨mapped, hmapped, hlayout, ?_⟩
    rintro c rfl seen
    exact planFields_of_mapped hmapped seen

namespace Nested

def outer : TypeDef :=
  ⟨1, "Outer", [], [], .record
    [⟨"tag", [], .primitive .u8⟩, ⟨"left", [], .record 2 false⟩,
      ⟨"right", [], .nullable (.record 2 false)⟩] []⟩

def inner : TypeDef := ⟨2, "Inner", [], [], .record [⟨"x", [], .primitive .f64⟩] []⟩

def loop : TypeDef := ⟨3, "Loop", [], [], .record [⟨"next", [], .record 4 false⟩] []⟩

def ring : TypeDef := ⟨4, "Ring", [], [], .record [⟨"back", [], .nullable (.record 3 false)⟩] []⟩

def mapper : Mapper :=
  ⟨⟨"nested", [outer, inner, loop, ring]⟩, [1, 2, 3, 4], .c, .full, 32⟩

end Nested

theorem recordLayout_contained_nested :
    (∀ s, Relation.ReflTransGen Nested.mapper.registry.Contains Nested.outer s →
      ¬ Relation.TransGen Nested.mapper.registry.Contains s s) ∧
    (∃ mapped, Layout.record (mapped.map fun x => x.native.layout) = ⟨32, 8⟩ ∧
      List.Forall₂ (fun f x => Nested.mapper.map f.type .field [] = .ok x) Nested.outer.fields
        mapped) ∧
    ¬ ∃ layout, Nested.mapper.recordLayout Nested.loop = .ok layout := by
  obtain ⟨-, -, hcycle, -, hfields⟩ := recordLayout_contained Nested.mapper
  have houter : Nested.mapper.recordLayout Nested.outer = .ok ⟨32, 8⟩ := by decide +kernel
  refine ⟨(Registry.containsNoCycle_iff rfl).mp (hcycle _ _ houter), ?_, ?_⟩
  · obtain ⟨mapped, hmapped, hlayout, -⟩ := hfields _ _ houter
    exact ⟨mapped, hlayout, hmapped⟩
  · rintro ⟨layout, hloop⟩
    have hdown : Nested.mapper.registry.Contains Nested.loop Nested.ring :=
      ⟨⟨"next", [], .record 4 false⟩, by decide, 4, rfl, rfl⟩
    have hback : Nested.mapper.registry.Contains Nested.ring Nested.loop :=
      ⟨⟨"back", [], .nullable (.record 3 false)⟩, by decide, 3, rfl, rfl⟩
    exact hcycle _ _ hloop Nested.loop Nested.loop .refl (.tail (.single hdown) hback) rfl

end Bindery
