import Bindery.Proofs.Strict.Layout
import Bindery.Proofs.Mapping.Dependence

/-!
Mapping references with every division, every place of a type and every look into a definition
checked. While the width of
a pointer is 32 or 64, whatever is mapped has an alignment, so nothing that is laid out divides by
zero; and a definition is only looked into after its kind has been found out.
-/

set_option autoImplicit false

namespace Bindery

namespace Mapper

def KnownWidth (m : Mapper) : Prop := m.pointerWidth = 32 ∨ m.pointerWidth = 64

section
variable {m : Mapper} {layoutOf : TypeDef → Except MapFault Layout}

theorem resultLayout_aligned (ok err : Native) : (resultLayout ok err).Aligned := by
  unfold resultLayout
  split <;> exact Layout.record_aligned _

theorem nullableNative_aligned {inner : TypeRef} {value : Mapped} {native : Native}
    (hvalue : value.native.layout.Aligned) (h : m.nullableNative inner value = .ok native) :
    native.layout.Aligned := by
  unfold nullableNative at h
  cases hkind : value.native.kind with
  | handle | slice =>
    simp only [hkind, Except.ok.injEq] at h
    exact h ▸ hvalue
  | scalar | enumeration | record =>
    simp only [hkind] at h
    split_ifs at h
    cases h
    exact Layout.record_aligned _
  | _ => simp [hkind] at h

theorem mapWith_aligned (hwidth : m.KnownWidth)
    (hlayout : ∀ t layout, layoutOf t = .ok layout → layout.Aligned) {ref : TypeRef}
    {position : Position} {name : Text} {mapped : Mapped}
    (h : m.mapWith layoutOf ref position name = .ok mapped) : mapped.native.layout.Aligned := by
  induction ref generalizing position name mapped with
  | unit =>
    obtain ⟨-, rfl⟩ := mapUnit_eq_ok_iff.mp h
    exact (by decide : (⟨0, 1⟩ : Layout).Aligned)
  | primitive p =>
    cases h
    exact Layout.ofPrimitive_aligned p hwidth
  | object id ownership isMutable =>
    obtain ⟨t, native, -, -, rfl, rfl⟩ := mapObject_eq_ok_iff.mp h
    exact Layout.pointer_aligned hwidth
  | record id byRef =>
    obtain ⟨t, layout, native, -, -, hrecord, rfl, rfl⟩ := mapRecord_eq_ok_iff.mp h
    cases byRef with
    | true => exact Layout.pointer_aligned hwidth
    | false => exact hlayout t layout hrecord
  | enumeration id =>
    obtain ⟨t, -, -, rfl⟩ := mapEnumeration_eq_ok_iff.mp h
    exact (by decide : Layout.enumeration.Aligned)
  | slice view isMutable =>
    obtain ⟨-, native, rfl, rfl⟩ := mapSlice_eq_ok_iff.mp h
    exact Layout.record_aligned _
  | writeable =>
    obtain ⟨-, -, native, rfl, rfl⟩ := mapWriteable_eq_ok_iff.mp h
    exact Layout.pointer_aligned hwidth
  | nullable inner ih =>
    obtain ⟨-, value, native, hvalue, hnative, rfl⟩ := mapWith_nullable_eq_ok_iff.mp h
    exact nullableNative_aligned (ih hvalue) hnative
  | fallible ok err ihOk ihErr =>
    obtain ⟨-, -, okValue, errValue, native, -, -, rfl, rfl⟩ := mapWith_fallible_eq_ok_iff.mp h
    exact resultLayout_aligned _ _

theorem layoutWithin_aligned {depth : Nat} {enclosing : List TypeId} {t : TypeDef}
    {layout : Layout} (h : m.layoutWithin depth enclosing t = .ok layout) : layout.Aligned := by
  cases depth with
  | zero => cases h
  | succ depth =>
    rw [layoutWithin_succ] at h
    split_ifs at h
    unfold layoutFrom at h
    split at h
    · cases h
    · cases h
      exact Layout.record_aligned _

end

end Mapper

namespace Strict

def places (types : List TypeDef) : List (TypeId × Nat) := types.zipIdx.map fun (t, i) => (t.id, i)

def findType (r : Registry) (id : TypeId) : Step (Option TypeDef) := do
  match (places r.types).lookup id with
  | none => return none
  | some i =>
    let t ← item r.types i
    return some t

def lookup (m : Mapper) (id : TypeId) (expected : Kind) : Step (Except MapFault TypeDef) := do
  match ← findType m.registry id with
  | none => return .error (.unknownId id)
  | some t =>
    if !m.enabled.contains id then return .error (.notEnabled t.name)
    else if t.kind = expected then return .ok t
    else return .error (.wrongKind t.name t.kind expected)

def fieldsOf (t : TypeDef) : Step (List Field) :=
  match t.shape with
  | .record fields _ => .ok fields
  | _ => .error .wrongForm

def variantsOf (t : TypeDef) : Step (List Variant) :=
  match t.shape with
  | .enumeration variants => .ok variants
  | _ => .error .wrongForm

def checkEnumeration (t : TypeDef) : Step (Except MapFault Unit) := do
  let variants ← variantsOf t
  return Mapper.checkVariants t.name variants

def mapObject (m : Mapper) (id : TypeId) (ownership : Ownership) (isMutable : Bool)
    (position : Position) : Step (Except MapFault Mapped) := do
  match ← lookup m id .object with
  | .error fault => return .error fault
  | .ok t =>
    if position = .field ∧ ownership = .owned then return .error (.ownedField t.name)
    else
      let native : Native :=
        ⟨Mapper.handleType t.name ownership isMutable, .handle, .pointer m.pointerWidth⟩
      return .ok ⟨m.dialect.object t.name ownership isMutable position native, native, [id]⟩

def mapRecord (m : Mapper) (layoutOf : TypeDef → Step (Except MapFault Layout)) (id : TypeId)
    (byRef : Bool) (position : Position) : Step (Except MapFault Mapped) := do
  match ← lookup m id .record with
  | .error fault => return .error fault
  | .ok t =>
    if byRef = true ∧ position ≠ .param then return .error (.recordRefPosition t.name)
    else
      match ← layoutOf t with
      | .error fault => return .error fault
      | .ok layout =>
        let native : Native :=
          if byRef then ⟨"const " ++ t.name ++ "*", .recordPtr, .pointer m.pointerWidth⟩
          else ⟨t.name, .record, layout⟩
        return .ok ⟨m.dialect.record t.name byRef native, native, [id]⟩

def mapEnumeration (m : Mapper) (id : TypeId) : Step (Except MapFault Mapped) := do
  match ← lookup m id .enumeration with
  | .error fault => return .error fault
  | .ok t =>
    match ← checkEnumeration t with
    | .error fault => return .error fault
    | .ok () =>
      return .ok ⟨m.dialect.enumeration t.name, ⟨t.name, .enumeration, .enumeration⟩, [id]⟩

def mapSlice (m : Mapper) (view : View) (isMutable : Bool) (position : Position) :
    Step (Except MapFault Mapped) := do
  match m.sliceFault? view isMutable position with
  | some fault => return .error fault
  | none =>
    let layout ← slice m.pointerWidth
    let native : Native := ⟨view.cName isMutable, .slice, layout⟩
    return .ok ⟨m.dialect.slice view isMutable native, native, []⟩

def optionType (inner : TypeRef) (mapped : Mapped) : Text :=
  match inner with
  | .primitive p => p.cOption
  | _ => optionName mapped.native.cType

def nullableNative (m : Mapper) (inner : TypeRef) (mapped : Mapped) :
    Step (Except MapFault Native) := do
  match mapped.native.kind with
  | .handle | .slice => return .ok mapped.native
  | .scalar | .enumeration | .record =>
    if !m.capabilities.nullableScalars then return .error .noNullableValues
    else
      let layout ← option mapped.native.layout
      return .ok ⟨optionType inner mapped, .option, layout⟩
  | _ => return .error (.nullableOther inner)

def resultLayout (ok err : Native) : Step Layout := do
  match ([ok, err].filter Native.isPayload).map Native.layout with
  | [] => record [.flag]
  | payloads =>
    let widest ← union payloads
    record [widest, .flag]

def mapWith (m : Mapper) (layoutOf : TypeDef → Step (Except MapFault Layout)) :
    TypeRef → Position → (resultName : Text) → Step (Except MapFault Mapped)
  | .unit, position, _ => return m.mapUnit position
  | .primitive p, _, _ => return .ok (m.mapPrimitive p)
  | .object id ownership isMutable, position, _ => mapObject m id ownership isMutable position
  | .record id byRef, position, _ => mapRecord m layoutOf id byRef position
  | .enumeration id, _, _ => mapEnumeration m id
  | .slice view isMutable, position, _ => mapSlice m view isMutable position
  | .writeable, position, _ => return m.mapWriteable position
  | .nullable inner, position, _ => do
    match Mapper.nullableFault? inner position with
    | some fault => return .error fault
    | none =>
      match ← mapWith m layoutOf inner .nullablePayload [] with
      | .error fault => return .error fault
      | .ok mapped =>
        match ← nullableNative m inner mapped with
        | .error fault => return .error fault
        | .ok native => return .ok ⟨m.dialect.nullable mapped native, native, mapped.deps⟩
  | .fallible ok err, position, resultName => do
    if position ≠ .result then
      return .error (if position.isPayload then .nestedFallible else .falliblePosition)
    else if err = .writeable then return .error .writeableError
    else
      match ← mapWith m layoutOf ok .okPayload [] with
      | .error fault => return .error fault
      | .ok okMapped =>
        match ← mapWith m layoutOf err .errPayload [] with
        | .error fault => return .error fault
        | .ok errMapped =>
          let layout ← resultLayout okMapped.native errMapped.native
          let native : Native := ⟨resultName, .result, layout⟩
          return .ok ⟨m.dialect.fallible okMapped errMapped native, native,
            okMapped.deps ++ errMapped.deps⟩

/-- Maps fields one after the other and places each at once. -/
def placeFields (mapField : TypeRef → Step (Except MapFault Mapped)) (owner : Text) :
    Layout.Running → List Field → Step (Except MapFault Layout)
  | placed, [] => do
    let layout ← finish placed
    return .ok layout
  | placed, f :: fs => do
    match ← mapField f.type with
    | .error fault => return .error (.inField owner f.name fault)
    | .ok mapped =>
      let placed ← place placed mapped.native.layout
      placeFields mapField owner placed fs

def layoutWithin (m : Mapper) :
    (depth : Nat) → (enclosing : List TypeId) → TypeDef → Step (Except MapFault Layout)
  | 0, _, t => return .error (.containsItself t.name)
  | depth + 1, enclosing, t => do
    if enclosing.contains t.id then return .error (.containsItself t.name)
    else
      let fields ← fieldsOf t
      let nested := layoutWithin m depth (t.id :: enclosing)
      placeFields (fun ref => mapWith m nested ref .field []) t.name .empty fields

def recordLayout (m : Mapper) (t : TypeDef) : Step (Except MapFault Layout) :=
  layoutWithin m (m.registry.size + 1) [] t

def map (m : Mapper) (ref : TypeRef) (position : Position) (resultName : Text) :
    Step (Except MapFault Mapped) :=
  mapWith m (recordLayout m) ref position resultName

theorem lookup_zipIdx (types : List TypeDef) (id : TypeId) (start : Nat) :
    ((types.zipIdx start).map fun (t, i) => (t.id, i)).lookup id =
      (types.findIdx? fun t => t.id == id).map (· + start) := by
  induction types generalizing start with
  | nil => rfl
  | cons t types ih =>
    rw [List.zipIdx_cons, List.map_cons, List.lookup_cons, List.findIdx?_cons, ih,
      BEq.comm (a := id)]
    cases t.id == id with
    | true => simp
    | false => simp [Function.comp_def, Nat.add_right_comm, Nat.add_assoc]

theorem findType_eq (r : Registry) (id : TypeId) : findType r id = .ok (r.find? id) := by
  have hplace := lookup_zipIdx r.types id 0
  rw [findType, places, hplace, Registry.find?, List.find?_eq_bind_findIdx?_getElem?]
  cases hfound : r.types.findIdx? fun t => t.id == id with
  | none => rfl
  | some i =>
    obtain ⟨hi, -, -⟩ := List.findIdx?_eq_some_iff_getElem.mp hfound
    simp [item_of_lt hi, hi]

theorem lookup_eq (m : Mapper) (id : TypeId) (expected : Kind) :
    lookup m id expected = .ok (m.lookup id expected) := by
  rw [lookup, findType_eq, ok_bind, Mapper.lookup]
  cases m.registry.find? id with
  | none => rfl
  | some t =>
    simp only
    split_ifs <;> rfl

theorem fieldsOf_eq {t : TypeDef} (h : t.kind = .record) : fieldsOf t = .ok t.fields := by
  unfold TypeDef.kind at h
  unfold fieldsOf TypeDef.fields
  cases hshape : t.shape with
  | record fields methods => rfl
  | _ => simp [hshape, Shape.kind] at h

theorem variantsOf_eq {t : TypeDef} (h : t.kind = .enumeration) :
    variantsOf t = .ok t.variants := by
  unfold TypeDef.kind at h
  unfold variantsOf TypeDef.variants
  cases hshape : t.shape with
  | enumeration variants => rfl
  | _ => simp [hshape, Shape.kind] at h

theorem checkEnumeration_eq {t : TypeDef} (h : t.kind = .enumeration) :
    checkEnumeration t = .ok (Mapper.checkEnumeration t) := by
  rw [checkEnumeration, variantsOf_eq h]
  rfl

section
variable {m : Mapper}

theorem mapObject_eq (m : Mapper) (id : TypeId) (ownership : Ownership) (isMutable : Bool)
    (position : Position) :
    mapObject m id ownership isMutable position =
      .ok (m.mapObject id ownership isMutable position) := by
  rw [mapObject, lookup_eq, ok_bind, Mapper.mapObject]
  cases m.lookup id .object with
  | error fault => rfl
  | ok t =>
    simp only
    split_ifs <;> rfl

theorem mapEnumeration_eq (m : Mapper) (id : TypeId) :
    mapEnumeration m id = .ok (m.mapEnumeration id) := by
  rw [mapEnumeration, lookup_eq, ok_bind, Mapper.mapEnumeration]
  cases hlookup : m.lookup id .enumeration with
  | error fault => rfl
  | ok t =>
    obtain ⟨-, -, hkind⟩ := Mapper.lookup_eq_ok_iff.mp hlookup
    simp only [checkEnumeration_eq hkind, ok_bind]
    cases Mapper.checkEnumeration t <;> rfl

theorem mapSlice_eq (hwidth : m.KnownWidth) (view : View) (isMutable : Bool)
    (position : Position) :
    mapSlice m view isMutable position = .ok (m.mapSlice view isMutable position) := by
  unfold mapSlice Mapper.mapSlice
  cases m.sliceFault? view isMutable position with
  | some fault => rfl
  | none =>
    rw [slice_eq hwidth, ok_bind]
    rfl

theorem nullableNative_eq (inner : TypeRef) {mapped : Mapped}
    (h : mapped.native.layout.Aligned) :
    nullableNative m inner mapped = .ok (m.nullableNative inner mapped) := by
  unfold nullableNative Mapper.nullableNative
  rw [option_eq h]
  cases mapped.native.kind with
  | scalar | enumeration | record => cases m.capabilities.nullableScalars <;> rfl
  | _ => rfl

theorem resultLayout_eq {ok err : Native} :
    resultLayout ok err = .ok (Mapper.resultLayout ok err) := by
  unfold resultLayout Mapper.resultLayout
  have hflag : ∀ m ∈ [Layout.flag], m.Aligned := by decide
  cases ([ok, err].filter Native.isPayload).map Native.layout with
  | nil => exact record_eq hflag
  | cons payload payloads =>
    simp only [union_eq, ok_bind]
    exact record_eq (List.forall_mem_cons.mpr ⟨Layout.union_aligned _, hflag⟩)

variable {layoutOf : TypeDef → Except MapFault Layout}
  {layoutOf' : TypeDef → Step (Except MapFault Layout)}

theorem mapRecord_eq (h : ∀ t, t.kind = .record → layoutOf' t = .ok (layoutOf t)) (id : TypeId)
    (byRef : Bool) (position : Position) :
    mapRecord m layoutOf' id byRef position = .ok (m.mapRecord layoutOf id byRef position) := by
  rw [mapRecord, lookup_eq, ok_bind, Mapper.mapRecord]
  cases hlookup : m.lookup id .record with
  | error fault => rfl
  | ok t =>
    obtain ⟨-, -, hkind⟩ := Mapper.lookup_eq_ok_iff.mp hlookup
    by_cases hplace : byRef = true ∧ position ≠ .param
    · simp only [if_pos hplace]
      rfl
    · simp only [if_neg hplace, h t hkind, ok_bind]
      cases layoutOf t <;> rfl

/-- Mapping breaks down nowhere, if laying out a record does not. -/
theorem mapWith_eq (hwidth : m.KnownWidth)
    (h : ∀ t, t.kind = .record → layoutOf' t = .ok (layoutOf t))
    (hlayout : ∀ t layout, layoutOf t = .ok layout → layout.Aligned) (ref : TypeRef)
    (position : Position) (name : Text) :
    mapWith m layoutOf' ref position name = .ok (m.mapWith layoutOf ref position name) := by
  induction ref generalizing position name with
  | unit | primitive | writeable => rfl
  | object id ownership isMutable => exact mapObject_eq m id ownership isMutable position
  | record id byRef => exact mapRecord_eq h id byRef position
  | enumeration id => exact mapEnumeration_eq m id
  | slice view isMutable => exact mapSlice_eq hwidth view isMutable position
  | nullable inner ih =>
    rw [mapWith, Mapper.mapWith]
    cases Mapper.nullableFault? inner position with
    | some fault => rfl
    | none =>
      simp only [ih, ok_bind]
      cases hvalue : m.mapWith layoutOf inner .nullablePayload [] with
      | error fault => rfl
      | ok value =>
        simp only [nullableNative_eq inner (Mapper.mapWith_aligned hwidth hlayout hvalue), ok_bind]
        cases m.nullableNative inner value <;> rfl
  | fallible ok err ihOk ihErr =>
    rw [mapWith, Mapper.mapWith]
    by_cases hposition : position ≠ .result
    · rw [if_pos hposition, if_pos hposition]
      rfl
    · by_cases herr : err = .writeable
      · rw [if_neg hposition, if_neg hposition, if_pos herr, if_pos herr]
        rfl
      · rw [if_neg hposition, if_neg hposition, if_neg herr, if_neg herr, ihOk, ok_bind]
        cases m.mapWith layoutOf ok .okPayload [] with
        | error fault => rfl
        | ok okMapped =>
          simp only [ihErr, ok_bind]
          cases m.mapWith layoutOf err .errPayload [] with
          | error fault => rfl
          | ok errMapped =>
            simp only [resultLayout_eq, ok_bind]
            rfl

theorem placeFields_eq {mapField : TypeRef → Except MapFault Mapped}
    {mapField' : TypeRef → Step (Except MapFault Mapped)}
    (h : ∀ ref, mapField' ref = .ok (mapField ref))
    (haligned : ∀ ref mapped, mapField ref = .ok mapped → mapped.native.layout.Aligned)
    (owner : Text) (fields : List Field) (placed : Layout.Running) (hplaced : placed.align ≠ 0) :
    placeFields mapField' owner placed fields =
      .ok ((Mapper.fieldLayouts mapField owner fields).map fun layouts =>
        (layouts.foldl Layout.Running.add placed).finish) := by
  induction fields generalizing placed with
  | nil =>
    rw [placeFields, finish_eq hplaced]
    rfl
  | cons f fs ih =>
    rw [placeFields, Mapper.fieldLayouts, h, ok_bind]
    cases hf : mapField f.type with
    | error fault => rfl
    | ok mapped =>
      have hnext : (placed.add mapped.native.layout).align ≠ 0 :=
        Layout.larger_ne_zero hplaced _
      simp only [place_eq placed (haligned f.type mapped hf), ok_bind, ih _ hnext]
      cases Mapper.fieldLayouts mapField owner fs <;> rfl

theorem layoutWithin_eq (hwidth : m.KnownWidth) (depth : Nat) (enclosing : List TypeId)
    {t : TypeDef} (ht : t.kind = .record) :
    layoutWithin m depth enclosing t = .ok (m.layoutWithin depth enclosing t) := by
  induction depth generalizing enclosing t with
  | zero => rfl
  | succ depth ih =>
    have hmap := mapWith_eq hwidth (fun s hs => ih (t.id :: enclosing) hs)
      fun s layout => Mapper.layoutWithin_aligned
    have hfields := placeFields_eq (fun ref => hmap ref .field [])
      (fun ref mapped => Mapper.mapWith_aligned hwidth fun s layout => Mapper.layoutWithin_aligned)
      t.name t.fields .empty (by decide)
    rw [layoutWithin, Mapper.layoutWithin_succ, Mapper.layoutFrom]
    by_cases hagain : t.id ∈ enclosing
    · simp [hagain]
    · simp only [List.contains_eq_mem, hagain, decide_false, Bool.false_eq_true, if_false,
        fieldsOf_eq ht, ok_bind, hfields]
      cases Mapper.fieldLayouts _ t.name t.fields <;> rfl

theorem recordLayout_eq (hwidth : m.KnownWidth) {t : TypeDef} (ht : t.kind = .record) :
    recordLayout m t = .ok (m.recordLayout t) := layoutWithin_eq hwidth _ [] ht

theorem map_eq (hwidth : m.KnownWidth) (ref : TypeRef) (position : Position) (name : Text) :
    map m ref position name = .ok (m.map ref position name) :=
  mapWith_eq hwidth (fun _ ht => recordLayout_eq hwidth ht)
    (fun _ _ => Mapper.layoutWithin_aligned) ref position name

end

end Strict

end Bindery
