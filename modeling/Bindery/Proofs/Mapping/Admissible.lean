import Bindery.Proofs.Mapping.Success

/-!
Which references may stand where. Admissibility is stated reference by reference and position by
position, without saying what a reference becomes; mapping succeeds on exactly the admissible ones.
What is asked of a record is a parameter: mapping asks for its layout.
-/

set_option autoImplicit false

namespace Bindery.Mapper

/-- What may be nullable. Handles and slices have a null of their own, other values need the
capability. -/
def MayBeNull (m : Mapper) : TypeRef → Prop
  | .primitive _ => m.capabilities.nullableScalars = true
  | .enumeration _ => m.capabilities.nullableScalars = true
  | .record _ byRef => byRef = false ∧ m.capabilities.nullableScalars = true
  | .object _ _ _ => True
  | .slice view _ => view ≠ .strings
  | _ => False

/-- What a field may not hold behind nullability, though other positions may. -/
def KeptFromFields : TypeRef → Prop
  | .slice _ _ => True
  | .object _ ownership _ => ownership = .owned
  | _ => False

/-- The reference may stand in the position, where `sound` is asked of every record it names. -/
def Admissible (m : Mapper) (sound : TypeDef → Prop) : TypeRef → Position → Prop
  | .unit, position => position = .result ∨ position = .okPayload ∨ position = .errPayload
  | .primitive _, _ => True
  | .object id ownership _, position =>
    (∃ t, m.Resolves id .object t) ∧ ¬ (position = .field ∧ ownership = .owned)
  | .record id byRef, position =>
    (∃ t, m.Resolves id .record t ∧ sound t) ∧ (byRef = true → position = .param)
  | .enumeration id, _ =>
    ∃ t, m.Resolves id .enumeration t ∧
      ∀ v ∈ t.variants, -2147483648 ≤ v.value.toInt ∧ v.value.toInt ≤ 2147483647
  | .slice view isMutable, position =>
    position ≠ .field ∧ (isMutable = true → ∃ element, view = .scalars element) ∧
      (view = .utf16 → m.capabilities.utf16Slices = true) ∧
      (view = .strings → m.capabilities.stringArrays = true ∧ position = .param)
  | .writeable, position =>
    m.capabilities.writeables = true ∧
      (position = .param ∨ position = .result ∨ position = .okPayload)
  | .nullable inner, position =>
    position ≠ .nullablePayload ∧ m.Admissible sound inner .nullablePayload ∧ m.MayBeNull inner ∧
      ¬ (position = .field ∧ KeptFromFields inner)
  | .fallible ok err, position =>
    position = .result ∧ m.Admissible sound ok .okPayload ∧ m.Admissible sound err .errPayload

def HasLayout (layoutOf : TypeDef → Except MapFault Layout) (t : TypeDef) : Prop :=
  ∃ layout, layoutOf t = .ok layout

variable {m : Mapper} {layoutOf : TypeDef → Except MapFault Layout} {position : Position}

theorem mapUnit_isOk_iff :
    (∃ mapped, m.mapUnit position = .ok mapped) ↔
      position = .result ∨ position = .okPayload ∨ position = .errPayload := by
  simp [mapUnit_eq_ok_iff]

theorem mapObject_isOk_iff {id : TypeId} {ownership : Ownership} {isMutable : Bool} :
    (∃ mapped, m.mapObject id ownership isMutable position = .ok mapped) ↔
      (∃ t, m.Resolves id .object t) ∧ ¬ (position = .field ∧ ownership = .owned) := by
  simp only [mapObject_eq_ok_iff]
  constructor
  · rintro ⟨mapped, t, native, ht, hplace, -, -⟩
    exact ⟨⟨t, ht⟩, hplace⟩
  · rintro ⟨⟨t, ht⟩, hplace⟩
    exact ⟨_, t, _, ht, hplace, rfl, rfl⟩

theorem mapRecord_isOk_iff {id : TypeId} {byRef : Bool} :
    (∃ mapped, m.mapRecord layoutOf id byRef position = .ok mapped) ↔
      (∃ t, m.Resolves id .record t ∧ HasLayout layoutOf t) ∧
        (byRef = true → position = .param) := by
  simp only [mapRecord_eq_ok_iff]
  constructor
  · rintro ⟨mapped, t, layout, native, ht, hplace, hlayout, -, -⟩
    exact ⟨⟨t, ht, layout, hlayout⟩, hplace⟩
  · rintro ⟨⟨t, ht, layout, hlayout⟩, hplace⟩
    exact ⟨_, t, layout, _, ht, hplace, hlayout, rfl, rfl⟩

theorem mapEnumeration_isOk_iff {id : TypeId} :
    (∃ mapped, m.mapEnumeration id = .ok mapped) ↔
      ∃ t, m.Resolves id .enumeration t ∧
        ∀ v ∈ t.variants, -2147483648 ≤ v.value.toInt ∧ v.value.toInt ≤ 2147483647 := by
  simp only [mapEnumeration_eq_ok_iff]
  constructor
  · rintro ⟨mapped, t, ht, hvariants, -⟩
    exact ⟨t, ht, hvariants⟩
  · rintro ⟨t, ht, hvariants⟩
    exact ⟨_, t, ht, hvariants, rfl⟩

theorem mapSlice_isOk_iff {view : View} {isMutable : Bool} :
    (∃ mapped, m.mapSlice view isMutable position = .ok mapped) ↔
      position ≠ .field ∧ (isMutable = true → ∃ element, view = .scalars element) ∧
        (view = .utf16 → m.capabilities.utf16Slices = true) ∧
        (view = .strings → m.capabilities.stringArrays = true ∧ position = .param) := by
  simp [mapSlice_eq_ok_iff, sliceFault?_eq_none_iff]

theorem mapWriteable_isOk_iff :
    (∃ mapped, m.mapWriteable position = .ok mapped) ↔
      m.capabilities.writeables = true ∧
        (position = .param ∨ position = .result ∨ position = .okPayload) := by
  simp [mapWriteable_eq_ok_iff]

theorem nullableNative_isOk_iff {inner : TypeRef} {mapped : Mapped}
    (h : m.mapWith layoutOf inner .nullablePayload [] = .ok mapped) :
    (∃ native, m.nullableNative inner mapped = .ok native) ↔ m.MayBeNull inner := by
  unfold nullableNative MayBeNull
  cases inner with
  | unit => exact absurd (mapUnit_eq_ok_iff.mp h).1 (by simp)
  | writeable => exact absurd (mapWriteable_eq_ok_iff.mp h).2.1 (by simp)
  | nullable inner => simp [mapWith, nullableFault?] at h
  | fallible ok err => exact absurd (mapWith_fallible_eq_ok_iff.mp h).1 (by simp)
  | primitive p =>
    cases h
    cases m.capabilities.nullableScalars <;> simp [mapPrimitive]
  | object id ownership isMutable =>
    obtain ⟨t, native, -, -, rfl, rfl⟩ := mapObject_eq_ok_iff.mp h
    simp
  | record id byRef =>
    obtain ⟨t, layout, native, -, hplace, -, rfl, rfl⟩ := mapRecord_eq_ok_iff.mp h
    cases byRef with
    | true => exact absurd (hplace rfl) (by simp)
    | false => cases m.capabilities.nullableScalars <;> simp
  | enumeration id =>
    obtain ⟨t, -, -, rfl⟩ := mapEnumeration_eq_ok_iff.mp h
    cases m.capabilities.nullableScalars <;> simp
  | slice view isMutable =>
    obtain ⟨hfault, native, rfl, rfl⟩ := mapSlice_eq_ok_iff.mp h
    have hview : view ≠ .strings := fun hview => by
      simpa using ((sliceFault?_eq_none_iff.mp hfault).2.2.2 hview).2
    simp [hview]

/-- Of what may be null, only the position can still forbid it. -/
theorem nullableFault?_eq_none_iff {inner : TypeRef} (h : m.MayBeNull inner) :
    nullableFault? inner position = none ↔
      position ≠ .nullablePayload ∧ ¬ (position = .field ∧ KeptFromFields inner) := by
  unfold nullableFault? KeptFromFields
  by_cases hpayload : position = .nullablePayload
  · simp [hpayload]
  · cases inner with
    | record id byRef =>
      obtain ⟨rfl, -⟩ := h
      simp [hpayload, nullableFieldHolds]
    | object id ownership isMutable =>
      cases ownership <;> simp [hpayload, nullableFieldHolds]
    | slice view isMutable =>
      have hview : view ≠ .strings := h
      by_cases hfield : position = .field
      · simp [hfield, nullableFieldHolds]
      · cases view <;> simp_all
    | primitive p => simp [hpayload, nullableFieldHolds]
    | enumeration id => simp [hpayload, nullableFieldHolds]
    | unit => exact h.elim
    | writeable => exact h.elim
    | nullable inner => exact h.elim
    | fallible ok err => exact h.elim

theorem mapWith_nullable_isOk_iff {inner : TypeRef} {name : Text} :
    (∃ mapped, m.mapWith layoutOf (.nullable inner) position name = .ok mapped) ↔
      position ≠ .nullablePayload ∧
        (∃ mapped, m.mapWith layoutOf inner .nullablePayload [] = .ok mapped) ∧
        m.MayBeNull inner ∧ ¬ (position = .field ∧ KeptFromFields inner) := by
  simp only [mapWith_nullable_eq_ok_iff]
  constructor
  · rintro ⟨mapped, hfault, value, native, hvalue, hnative, -⟩
    have hnull := (nullableNative_isOk_iff hvalue).mp ⟨native, hnative⟩
    obtain ⟨hposition, hfield⟩ := (nullableFault?_eq_none_iff hnull).mp hfault
    exact ⟨hposition, ⟨value, hvalue⟩, hnull, hfield⟩
  · rintro ⟨hposition, ⟨value, hvalue⟩, hnull, hfield⟩
    obtain ⟨native, hnative⟩ := (nullableNative_isOk_iff hvalue).mpr hnull
    have hfault := (nullableFault?_eq_none_iff hnull).mpr ⟨hposition, hfield⟩
    exact ⟨_, hfault, value, native, hvalue, hnative, rfl⟩

theorem mapWith_fallible_isOk_iff {ok err : TypeRef} {name : Text} :
    (∃ mapped, m.mapWith layoutOf (.fallible ok err) position name = .ok mapped) ↔
      position = .result ∧ (∃ mapped, m.mapWith layoutOf ok .okPayload [] = .ok mapped) ∧
        ∃ mapped, m.mapWith layoutOf err .errPayload [] = .ok mapped := by
  simp only [mapWith_fallible_eq_ok_iff]
  constructor
  · rintro ⟨mapped, hposition, -, okValue, errValue, native, hok, herr, -, -⟩
    exact ⟨hposition, ⟨okValue, hok⟩, errValue, herr⟩
  · rintro ⟨hposition, ⟨okValue, hok⟩, errValue, herr⟩
    -- the check for a writeable error refuses nothing that could be mapped as a payload
    have hne : err ≠ .writeable := by
      rintro rfl
      exact absurd (mapWriteable_eq_ok_iff.mp herr).2.1 (by simp)
    exact ⟨_, hposition, hne, okValue, errValue, _, hok, herr, rfl, rfl⟩

/-- Mapping succeeds on the admissible references, whatever layouts records are given. -/
theorem mapWith_isOk_iff (m : Mapper) (layoutOf : TypeDef → Except MapFault Layout) (ref : TypeRef)
    (position : Position) (name : Text) :
    (∃ mapped, m.mapWith layoutOf ref position name = .ok mapped) ↔
      m.Admissible (HasLayout layoutOf) ref position := by
  induction ref generalizing position name with
  | unit => exact mapUnit_isOk_iff
  | primitive p => simp [mapWith, Admissible]
  | object id ownership isMutable => exact mapObject_isOk_iff
  | record id byRef => exact mapRecord_isOk_iff
  | enumeration id => exact mapEnumeration_isOk_iff
  | slice view isMutable => exact mapSlice_isOk_iff
  | writeable => exact mapWriteable_isOk_iff
  | nullable inner ih => rw [mapWith_nullable_isOk_iff, ih, Admissible]
  | fallible ok err ihOk ihErr => rw [mapWith_fallible_isOk_iff, ihOk, ihErr, Admissible]

/-- A reference can be mapped in a position exactly if it is admissible there, a record being one
that can be laid out. -/
theorem map_isOk_iff_admissible (m : Mapper) (ref : TypeRef) (position : Position)
    (resultName : Text) :
    (∃ mapped, m.map ref position resultName = .ok mapped) ↔
      m.Admissible (fun t => ∃ layout, m.recordLayout t = .ok layout) ref position :=
  m.mapWith_isOk_iff m.recordLayout ref position resultName

end Bindery.Mapper
