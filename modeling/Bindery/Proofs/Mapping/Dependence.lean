import Bindery.Proofs.Mapping.Success

/-!
What a mapping depends on. It looks up the ids its reference mentions and no others, asks for the
layouts of the records found there, and names those ids as the types its spelling refers to.
-/

set_option autoImplicit false

namespace Bindery.Mapper

structure SameTools (m m' : Mapper) : Prop where
  dialect : m.dialect = m'.dialect
  capabilities : m.capabilities = m'.capabilities
  pointerWidth : m.pointerWidth = m'.pointerWidth

theorem SameTools.refl (m : Mapper) : SameTools m m := ⟨rfl, rfl, rfl⟩

section
variable {m m' : Mapper} {layoutOf layoutOf' : TypeDef → Except MapFault Layout}

theorem mapRecord_congr (h : SameTools m m') {id : TypeId} (hlookup : m.lookup id = m'.lookup id)
    (hlayout : ∀ t, m.lookup id .record = .ok t → layoutOf t = layoutOf' t) (byRef : Bool)
    (position : Position) :
    m.mapRecord layoutOf id byRef position = m'.mapRecord layoutOf' id byRef position := by
  unfold mapRecord
  rw [← hlookup, h.dialect, h.pointerWidth]
  cases hfound : m.lookup id .record with
  | error fault => rfl
  | ok t => simp only [hlayout t hfound]

/-- Mappers with the same tools that find the same types, and lay out the records among them alike,
map a reference alike. -/
theorem mapWith_congr (h : SameTools m m') {ref : TypeRef}
    (hlookup : ∀ id ∈ ref.ids, m.lookup id = m'.lookup id)
    (hlayout : ∀ id ∈ ref.ids, ∀ t, m.lookup id .record = .ok t → layoutOf t = layoutOf' t)
    (position : Position) (name : Text) :
    m.mapWith layoutOf ref position name = m'.mapWith layoutOf' ref position name := by
  induction ref generalizing position name with
  | unit => simp only [mapWith, mapUnit, h.dialect]
  | primitive p => simp only [mapWith, mapPrimitive, h.dialect, h.pointerWidth]
  | object id ownership isMutable =>
    have hid := hlookup id (by simp [TypeRef.ids])
    simp only [mapWith, mapObject, hid, h.dialect, h.pointerWidth]
  | record id byRef =>
    have hmem : id ∈ (TypeRef.record id byRef).ids := by simp [TypeRef.ids]
    exact mapRecord_congr h (hlookup id hmem) (hlayout id hmem) byRef position
  | enumeration id =>
    have hid := hlookup id (by simp [TypeRef.ids])
    simp only [mapWith, mapEnumeration, hid, h.dialect]
  | slice view isMutable =>
    simp only [mapWith, mapSlice, sliceFault?, h.dialect, h.capabilities, h.pointerWidth]
  | writeable => simp only [mapWith, mapWriteable, h.dialect, h.capabilities, h.pointerWidth]
  | nullable inner ih =>
    simp only [mapWith, nullableNative, ih hlookup hlayout, h.dialect, h.capabilities]
  | fallible ok err ihOk ihErr =>
    simp only [TypeRef.ids, List.mem_append] at hlookup hlayout
    have hok := ihOk (fun id hid => hlookup id (.inl hid)) fun id hid => hlayout id (.inl hid)
    have herr := ihErr (fun id hid => hlookup id (.inr hid)) fun id hid => hlayout id (.inr hid)
    simp only [mapWith, hok, herr, h.dialect]

theorem fieldLayouts_congr {f g : TypeRef → Except MapFault Mapped} {fields : List Field}
    (h : ∀ field ∈ fields, f field.type = g field.type) (owner : Text) :
    fieldLayouts f owner fields = fieldLayouts g owner fields := by
  induction fields with
  | nil => rfl
  | cons field fields ih =>
    simp only [List.mem_cons, forall_eq_or_imp] at h
    simp only [fieldLayouts, h.1, ih h.2]

def layoutFrom (m : Mapper) (nested : TypeDef → Except MapFault Layout) (t : TypeDef) :
    Except MapFault Layout :=
  match fieldLayouts (fun ref => m.mapWith nested ref .field []) t.name t.fields with
  | .error fault => .error fault
  | .ok layouts => .ok (.record layouts)

theorem layoutWithin_succ (m : Mapper) (depth : Nat) (enclosing : List TypeId) (t : TypeDef) :
    m.layoutWithin (depth + 1) enclosing t =
      if t.id ∈ enclosing then .error (.containsItself t.name)
      else m.layoutFrom (m.layoutWithin depth (t.id :: enclosing)) t := by
  rw [layoutWithin]
  by_cases hagain : t.id ∈ enclosing
  · simp [hagain]
  · rw [if_neg hagain, if_neg (by simpa using hagain)]
    rfl

theorem layoutFrom_congr (h : SameTools m m') {t : TypeDef}
    (hlookup : ∀ f ∈ t.fields, ∀ id ∈ f.type.ids, m.lookup id = m'.lookup id)
    (hlayout : ∀ f ∈ t.fields, ∀ id ∈ f.type.ids, ∀ s, m.lookup id .record = .ok s →
      layoutOf s = layoutOf' s) : m.layoutFrom layoutOf t = m'.layoutFrom layoutOf' t := by
  have hfields := fieldLayouts_congr
    (f := fun ref => m.mapWith layoutOf ref .field [])
    (g := fun ref => m'.mapWith layoutOf' ref .field [])
    (fun f hf => mapWith_congr h (hlookup f hf) (hlayout f hf) .field []) t.name
  rw [layoutFrom, layoutFrom, hfields]

theorem mapWith_deps {ref : TypeRef} {position : Position} {name : Text} {mapped : Mapped}
    (h : m.mapWith layoutOf ref position name = .ok mapped) : mapped.deps = ref.ids := by
  induction ref generalizing position name mapped with
  | unit =>
    obtain ⟨-, rfl⟩ := mapUnit_eq_ok_iff.mp h
    rfl
  | primitive p =>
    cases h
    rfl
  | object id ownership isMutable =>
    obtain ⟨t, native, -, -, -, rfl⟩ := mapObject_eq_ok_iff.mp h
    rfl
  | record id byRef =>
    obtain ⟨t, layout, native, -, -, -, -, rfl⟩ := mapRecord_eq_ok_iff.mp h
    rfl
  | enumeration id =>
    obtain ⟨t, -, -, rfl⟩ := mapEnumeration_eq_ok_iff.mp h
    rfl
  | slice view isMutable =>
    obtain ⟨-, native, -, rfl⟩ := mapSlice_eq_ok_iff.mp h
    rfl
  | writeable =>
    obtain ⟨-, -, native, -, rfl⟩ := mapWriteable_eq_ok_iff.mp h
    rfl
  | nullable inner ih =>
    obtain ⟨-, value, native, hvalue, -, rfl⟩ := mapWith_nullable_eq_ok_iff.mp h
    have hdeps := ih hvalue
    exact hdeps
  | fallible ok err ihOk ihErr =>
    obtain ⟨-, -, okValue, errValue, native, hok, herr, -, rfl⟩ := mapWith_fallible_eq_ok_iff.mp h
    rw [TypeRef.ids, ← ihOk hok, ← ihErr herr]

end

end Bindery.Mapper
