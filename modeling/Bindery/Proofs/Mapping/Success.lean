import Bindery.Mapping.Mapper
import Mathlib.Tactic.SplitIfs
import Mathlib.Tactic.Tauto

/-!
When each kind of reference is mapped, and to what. Everything else about successful mappings is
read off these statements.
-/

set_option autoImplicit false

namespace Bindery.Mapper

/-- The id stands for the type, which is enabled and of the kind. -/
def Resolves (m : Mapper) (id : TypeId) (kind : Kind) (t : TypeDef) : Prop :=
  m.registry.find? id = some t ∧ id ∈ m.enabled ∧ t.kind = kind

variable {m : Mapper} {layoutOf : TypeDef → Except MapFault Layout} {position : Position}
  {mapped : Mapped}

theorem lookup_eq_ok_iff {id : TypeId} {kind : Kind} {t : TypeDef} :
    m.lookup id kind = .ok t ↔ m.Resolves id kind t := by
  unfold lookup Resolves
  cases hfind : m.registry.find? id with
  | none => simp
  | some found =>
    by_cases henabled : id ∈ m.enabled
    · by_cases hkind : found.kind = kind
      · simp only [List.contains_eq_mem, henabled, decide_true, Bool.not_true, hkind, if_true,
          Bool.false_eq_true, if_false, Except.ok.injEq, Option.some.injEq, true_and]
        constructor
        · rintro rfl
          exact ⟨rfl, hkind⟩
        · exact fun h => h.1
      · simp only [List.contains_eq_mem, henabled, decide_true, Bool.not_true, hkind,
          Bool.false_eq_true, if_false, reduceCtorEq, Option.some.injEq, true_and, false_iff]
        rintro ⟨rfl, h⟩
        exact hkind h
    · simp [henabled]

theorem mapUnit_eq_ok_iff :
    m.mapUnit position = .ok mapped ↔
      (position = .result ∨ position = .okPayload ∨ position = .errPayload) ∧
        mapped = ⟨m.dialect.unit position, ⟨"void", .void, ⟨0, 1⟩⟩, []⟩ := by
  unfold mapUnit
  cases position <;> simp [Position.isPayload, eq_comm]

theorem mapObject_eq_ok_iff {id : TypeId} {ownership : Ownership} {isMutable : Bool} :
    m.mapObject id ownership isMutable position = .ok mapped ↔
      ∃ t native, m.Resolves id .object t ∧ ¬ (position = .field ∧ ownership = .owned) ∧
        native = ⟨handleType t.name ownership isMutable, .handle, .pointer m.pointerWidth⟩ ∧
        mapped = ⟨m.dialect.object t.name ownership isMutable position native, native, [id]⟩ := by
  simp only [← lookup_eq_ok_iff]
  unfold mapObject
  cases hlookup : m.lookup id .object with
  | error fault => simp
  | ok t =>
    by_cases howned : position = .field ∧ ownership = .owned
    · simp [howned]
    · simp [howned, eq_comm]

theorem mapRecord_eq_ok_iff {id : TypeId} {byRef : Bool} :
    m.mapRecord layoutOf id byRef position = .ok mapped ↔
      ∃ t layout native, m.Resolves id .record t ∧ (byRef = true → position = .param) ∧
        layoutOf t = .ok layout ∧
        native = (if byRef then ⟨"const " ++ t.name ++ "*", .recordPtr, .pointer m.pointerWidth⟩
          else ⟨t.name, .record, layout⟩) ∧
        mapped = ⟨m.dialect.record t.name byRef native, native, [id]⟩ := by
  simp only [← lookup_eq_ok_iff]
  unfold mapRecord
  cases hlookup : m.lookup id .record with
  | error fault => simp
  | ok t =>
    by_cases hplace : byRef = true ∧ position ≠ .param
    · simp [hplace]
    · have hparam : byRef = true → position = .param := by tauto
      cases hlayout : layoutOf t with
      | error fault => simp [hplace, hlayout]
      | ok layout =>
        simp only [if_neg hplace, hlayout, Except.ok.injEq]
        constructor
        · rintro rfl
          exact ⟨t, layout, _, rfl, hparam, hlayout, rfl, rfl⟩
        · rintro ⟨s, layout', native, rfl, -, hsame, rfl, rfl⟩
          rw [hlayout, Except.ok.injEq] at hsame
          rw [hsame]

theorem checkVariants_eq_ok_iff (name : Text) (variants : List Variant) :
    checkVariants name variants = .ok () ↔
      ∀ v ∈ variants, -2147483648 ≤ v.value.toInt ∧ v.value.toInt ≤ 2147483647 := by
  unfold checkVariants
  have hfits : ∀ i : Int64, fitsInt32 i = true ↔
      -2147483648 ≤ i.toInt ∧ i.toInt ≤ 2147483647 := by
    intro i
    simp only [fitsInt32, Bool.and_eq_true, decide_eq_true_eq]
  cases hfind : variants.find? fun v => !fitsInt32 v.value with
  | none =>
    simp only [List.find?_eq_none, Bool.not_eq_true', Bool.not_eq_false, hfits] at hfind
    simpa using hfind
  | some v =>
    have hmem := List.mem_of_find?_eq_some hfind
    have hbad := List.find?_some hfind
    simp only [reduceCtorEq, false_iff]
    intro hall
    rw [(hfits v.value).mpr (hall v hmem)] at hbad
    exact absurd hbad (by decide)

theorem mapEnumeration_eq_ok_iff {id : TypeId} :
    m.mapEnumeration id = .ok mapped ↔
      ∃ t, m.Resolves id .enumeration t ∧
        (∀ v ∈ t.variants, -2147483648 ≤ v.value.toInt ∧ v.value.toInt ≤ 2147483647) ∧
        mapped = ⟨m.dialect.enumeration t.name, ⟨t.name, .enumeration, .enumeration⟩, [id]⟩ := by
  simp only [← lookup_eq_ok_iff]
  unfold mapEnumeration
  cases hlookup : m.lookup id .enumeration with
  | error fault => simp
  | ok t =>
    simp only [Except.ok.injEq, exists_eq_left', ← checkVariants_eq_ok_iff t.name]
    unfold checkEnumeration
    cases hcheck : checkVariants t.name t.variants with
    | error fault => simp
    | ok checked => simp [eq_comm]

theorem mapSlice_eq_ok_iff {view : View} {isMutable : Bool} :
    m.mapSlice view isMutable position = .ok mapped ↔
      m.sliceFault? view isMutable position = none ∧
        ∃ native, native = ⟨view.cName isMutable, .slice, .slice m.pointerWidth⟩ ∧
          mapped = ⟨m.dialect.slice view isMutable native, native, []⟩ := by
  unfold mapSlice
  cases m.sliceFault? view isMutable position <;> simp [eq_comm]

theorem sliceFault?_eq_none_iff {view : View} {isMutable : Bool} :
    m.sliceFault? view isMutable position = none ↔
      position ≠ .field ∧ (isMutable = true → ∃ element, view = .scalars element) ∧
        (view = .utf16 → m.capabilities.utf16Slices = true) ∧
        (view = .strings → m.capabilities.stringArrays = true ∧ position = .param) := by
  unfold sliceFault?
  by_cases hfield : position = .field
  · simp [hfield]
  · cases view with
    | scalars element => simp [hfield]
    | utf8 => cases isMutable <;> simp [hfield]
    | utf16 => cases m.capabilities.utf16Slices <;> cases isMutable <;> simp [hfield]
    | strings =>
      by_cases hparam : position = .param
      · cases m.capabilities.stringArrays <;> cases isMutable <;> simp [hparam]
      · cases m.capabilities.stringArrays <;> simp [hfield, hparam]

theorem mapWriteable_eq_ok_iff :
    m.mapWriteable position = .ok mapped ↔
      m.capabilities.writeables = true ∧
        (position = .param ∨ position = .result ∨ position = .okPayload) ∧
        ∃ native, native = ⟨"WeldWriteable*", .writeable, .pointer m.pointerWidth⟩ ∧
          mapped = ⟨m.dialect.writeable position native, native, []⟩ := by
  unfold mapWriteable
  cases m.capabilities.writeables <;> cases position <;> simp [eq_comm]

theorem mapWith_nullable_eq_ok_iff {inner : TypeRef} {name : Text} :
    m.mapWith layoutOf (.nullable inner) position name = .ok mapped ↔
      nullableFault? inner position = none ∧
        ∃ value native, m.mapWith layoutOf inner .nullablePayload [] = .ok value ∧
          m.nullableNative inner value = .ok native ∧
          mapped = ⟨m.dialect.nullable value native, native, value.deps⟩ := by
  rw [mapWith]
  cases hfault : nullableFault? inner position with
  | some fault => simp
  | none =>
    cases hinner : m.mapWith layoutOf inner .nullablePayload [] with
    | error fault => simp
    | ok value => cases hnative : m.nullableNative inner value <;> simp [hnative, eq_comm]

theorem mapWith_fallible_eq_ok_iff {ok err : TypeRef} {name : Text} :
    m.mapWith layoutOf (.fallible ok err) position name = .ok mapped ↔
      position = .result ∧ err ≠ .writeable ∧
        ∃ okValue errValue native, m.mapWith layoutOf ok .okPayload [] = .ok okValue ∧
          m.mapWith layoutOf err .errPayload [] = .ok errValue ∧
          native = ⟨name, .result, resultLayout okValue.native errValue.native⟩ ∧
          mapped = ⟨m.dialect.fallible okValue errValue native, native,
            okValue.deps ++ errValue.deps⟩ := by
  rw [mapWith]
  by_cases hposition : position = .result
  · by_cases herr : err = .writeable
    · simp [hposition, herr]
    · cases hok : m.mapWith layoutOf ok .okPayload [] with
      | error fault => simp [hposition, herr]
      | ok okMapped =>
        cases herrMapped : m.mapWith layoutOf err .errPayload [] <;>
          simp [hposition, herr, eq_comm]
  · simp [hposition]

end Bindery.Mapper
