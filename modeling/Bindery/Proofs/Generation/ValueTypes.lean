import Bindery.Proofs.Mapping.Spelling
import Bindery.Proofs.Generation.References
import Bindery.Proofs.Strict.Conversion

/-!
The C types of optional values and slices. They are spelled twice, by the mapper from the
definitions of a registry and by the conversions from the table of names. Both spell the same type,
so what a conversion builds is what the declaration it stands in takes.
-/

set_option autoImplicit false

namespace Bindery

namespace Conversion

def aggregateType (value : Text) : Text := value.takeWhile (· != Byte.openBrace)

def Unbraced (type : Text) : Prop := Byte.openBrace ∉ type

instance : DecidablePred Unbraced := fun type =>
  inferInstanceAs (Decidable (Byte.openBrace ∉ type))

theorem aggregateType_aggregate {type : Text} (h : Unbraced type) (first second : Text) :
    aggregateType (aggregate type first second) = type := by
  have hall : ∀ c ∈ type, (c != Byte.openBrace) = true := by
    intro c hc
    exact bne_iff_ne.mpr (ne_of_mem_of_not_mem hc h)
  have htext : aggregate type first second =
      type ++ Byte.openBrace :: (first ++ ", " ++ second ++ "\x7d") := by
    simp only [aggregate, List.append_assoc]
    rfl
  rw [aggregateType, htext, List.takeWhile_append_of_pos hall]
  simp

theorem unbraced_qualified {type : Text} (h : Unbraced type) : Unbraced ("::" ++ type) := by
  intro hmem
  rcases List.mem_append.mp hmem with hcolons | htype
  · exact absurd hcolons (by decide)
  · exact h htype

theorem unbraced_viewName (view : View) (isMutable : Bool) : Unbraced (view.cName isMutable) := by
  cases view with
  | scalars element => cases element <;> cases isMutable <;> decide
  | utf8 | utf16 | strings => cases isMutable <;> decide

theorem unbraced_cOption (p : Primitive) : Unbraced p.cOption := by cases p <;> decide

theorem unbraced_optionName {name : Text} (h : Identifier.isValid name = true) :
    Unbraced (optionName name) := by
  intro hmem
  rcases List.mem_append.mp hmem with hname | hsuffix
  · exact notMem_of_all_isPart (all_isPart_of_isValid h) (by decide) hname
  · exact absurd hsuffix (by decide)

theorem lowerSlice_value (view : View) (isMutable : Bool) (expr temp : Text) :
    ∃ data size, (lowerSlice view isMutable expr temp).value =
      aggregate ("::" ++ view.cName isMutable) data size := by
  cases view with
  | scalars element => exact ⟨_, _, rfl⟩
  | utf8 => exact ⟨_, _, rfl⟩
  | utf16 => exact ⟨_, _, rfl⟩
  | strings => exact ⟨_, _, rfl⟩

theorem aggregateType_lowerSlice (view : View) (isMutable : Bool) (expr temp : Text) :
    aggregateType (lowerSlice view isMutable expr temp).value = "::" ++ view.cName isMutable := by
  obtain ⟨data, size, hvalue⟩ := lowerSlice_value view isMutable expr temp
  rw [hvalue, aggregateType_aggregate (unbraced_qualified (unbraced_viewName view isMutable))]

end Conversion

def TypeRef.CrossesByValue : TypeRef → Prop
  | .primitive _ | .enumeration _ | .slice _ _ => True
  | .record _ byRef => byRef = false
  | _ => False

/-- The value is one of two aggregates of the type, chosen by whether the host value is there. -/
def Conversion.Chooses (type expr value : Text) : Prop :=
  ∃ present absent, value = "(" ++ expr ++ " ? " ++ present ++ " : " ++ absent ++ ")" ∧
    aggregateType present = type ∧ aggregateType absent = type

/-- A nullable value is lowered to aggregates of its option, or of its slice. -/
theorem Conversion.chooses_lower_nullable (names : Names) {inner : TypeRef}
    (hinner : inner.CrossesByValue) {type : Text} (htype : optionalType names inner = type)
    (hunbraced : Unbraced type) (position : Position) (expr temp : Text) :
    Chooses type expr (lower names (.nullable inner) position expr temp).value := by
  subst htype
  have hbraces := aggregateType_aggregate hunbraced
  cases inner with
  | slice view isMutable =>
    exact ⟨_, _, rfl, aggregateType_lowerSlice view isMutable _ _, hbraces _ _⟩
  | primitive | enumeration | record => exact ⟨_, _, rfl, hbraces _ _, hbraces _ _⟩
  | _ => exact hinner.elim

namespace Mapper

variable {m : Mapper} {layoutOf : TypeDef → Except MapFault Layout}

def table (m : Mapper) (target : Target) : NameTable :=
  nameTable target (enabledTypes m.registry m.enabled)

theorem find?_table (hr : m.registry.WellFormed) (target : Target) {id : TypeId} {t : TypeDef}
    (ht : m.registry.find? id = some t) (henabled : id ∈ m.enabled) :
    (m.table target).find? id = some (nameEntry target t) :=
  find?_nameTable_of_enabled hr ht henabled

theorem Resolves.name_eq (hr : m.registry.WellFormed) {id : TypeId} {kind : Kind} {t : TypeDef}
    (h : m.Resolves id kind t) (target : Target) : (m.table target).toNames.name id = t.name := by
  show ((m.table target).find? id |>.map NameEntry.name).getD [] = t.name
  rw [find?_table hr target h.1 h.2.1]
  rfl

def optionType (inner : TypeRef) (value : Mapped) : Text :=
  match inner with
  | .primitive p => p.cOption
  | _ => optionName value.native.cType

theorem nullableNative_cType {inner : TypeRef} {value : Mapped} {native : Native}
    (hkind : value.native.kind ∈ [NativeKind.scalar, .enumeration, .record])
    (h : m.nullableNative inner value = .ok native) : native.cType = optionType inner value := by
  simp only [List.mem_cons, List.not_mem_nil, or_false] at hkind
  rcases hkind with hkind | hkind | hkind <;>
  · simp only [nullableNative, hkind] at h
    split_ifs at h
    cases h
    rfl

/-- The mapper and the conversions agree on the C type of a nullable value, which has no brace. -/
theorem optionalType_eq (hr : m.registry.WellFormed) (target : Target) {inner : TypeRef}
    (hinner : inner.CrossesByValue) {position : Position} {name : Text} {mapped : Mapped}
    (h : m.mapWith layoutOf (.nullable inner) position name = .ok mapped) :
    Conversion.optionalType (m.table target).toNames inner = "::" ++ mapped.native.cType ∧
      Conversion.Unbraced mapped.native.cType := by
  obtain ⟨-, value, native, hvalue, hnative, rfl⟩ := mapWith_nullable_eq_ok_iff.mp h
  have hvalid : ∀ {id kind t}, m.Resolves id kind t → Identifier.isValid t.name = true :=
    fun ht => hr.name_valid _ (Registry.mem_of_find? ht.1)
  cases inner with
  | primitive p =>
    cases hvalue
    rw [nullableNative_cType (by simp [mapPrimitive]) hnative]
    exact ⟨rfl, Conversion.unbraced_cOption p⟩
  | record id byRef =>
    cases hinner
    obtain ⟨t, layout, native, ht, -, -, rfl, rfl⟩ := mapRecord_eq_ok_iff.mp hvalue
    rw [nullableNative_cType (by simp) hnative, Conversion.optionalType, ht.name_eq hr]
    exact ⟨rfl, Conversion.unbraced_optionName (hvalid ht)⟩
  | enumeration id =>
    obtain ⟨t, ht, -, rfl⟩ := mapEnumeration_eq_ok_iff.mp hvalue
    rw [nullableNative_cType (by simp) hnative, Conversion.optionalType, ht.name_eq hr]
    exact ⟨rfl, Conversion.unbraced_optionName (hvalid ht)⟩
  | slice view isMutable =>
    obtain ⟨-, native, rfl, rfl⟩ := mapSlice_eq_ok_iff.mp hvalue
    cases hnative
    exact ⟨rfl, Conversion.unbraced_viewName view isMutable⟩
  | _ => exact hinner.elim

theorem entryOf_serves (hr : m.registry.WellFormed) (target : Target) :
    (Strict.entryOf (m.table target)).Serves (m.table target).toNames m.Knows := by
  refine Strict.Lookup.serves_of_entries fun id hid => ?_
  obtain ⟨t, ht, henabled⟩ := hid
  have hentry := find?_table hr target ht henabled
  exact ⟨nameEntry target t, by rw [Strict.entryOf, hentry], hentry⟩

theorem map_slice_cType {view : View} {isMutable : Bool} {position : Position} {name : Text}
    {mapped : Mapped} (h : m.map (.slice view isMutable) position name = .ok mapped) :
    mapped.native.cType = view.cName isMutable := by
  obtain ⟨-, native, rfl, rfl⟩ := mapSlice_eq_ok_iff.mp h
  rfl

end Mapper

/-- Over every built registry, for any enabled types, dialect, capabilities and pointer width, the
mapper and the conversions agree on the C type of every reference that is mapped in any position.
A nullable primitive, enumeration, record by value or slice is lowered to a choice between two
aggregates of the mapped type, and a slice is lowered to an aggregate of it. -/
theorem Mapper.value_types_agree {library : Text} {types : List TypeDef} {r : Registry}
    (hr : Registry.build library types = .ok r) {m : Mapper} (hm : m.registry = r)
    (target : Target) {ref : TypeRef} {position : Position} {name : Text} {mapped : Mapped}
    (h : m.map ref position name = .ok mapped) :
    (∀ inner, ref = .nullable inner → inner.CrossesByValue →
      Strict.valueType (Strict.entryOf (m.table target)) ref =
          .ok ("::" ++ mapped.native.cType) ∧
        ∀ expr temp, ∃ lowered,
          Strict.lower (Strict.entryOf (m.table target)) ref position expr temp = .ok lowered ∧
            Conversion.Chooses ("::" ++ mapped.native.cType) expr lowered.value) ∧
    ∀ view isMutable, ref = .slice view isMutable →
      Strict.valueType (Strict.entryOf (m.table target)) ref =
          .ok ("::" ++ mapped.native.cType) ∧
        ∀ expr temp, ∃ lowered,
          Strict.lower (Strict.entryOf (m.table target)) ref position expr temp = .ok lowered ∧
            Conversion.aggregateType lowered.value = "::" ++ mapped.native.cType := by
  subst hm
  have hwf := Registry.build_wellFormed hr
  have hserves := entryOf_serves hwf target
  have hids := mapWith_knows h
  refine ⟨?nullable, ?slice⟩
  case nullable =>
    rintro inner rfl hinner
    obtain ⟨htype, hunbraced⟩ := optionalType_eq hwf target hinner h
    have hvalue : Strict.valueType (Strict.entryOf (m.table target)) (.nullable inner) =
        .ok (Conversion.optionalType (m.table target).toNames inner) :=
      Strict.valueType_eq hserves hids
    refine ⟨?_, fun expr temp => ⟨_, Strict.lower_eq hserves hids position expr temp, ?_⟩⟩
    · rw [hvalue, htype]
    · exact Conversion.chooses_lower_nullable _ hinner htype
        (Conversion.unbraced_qualified hunbraced) position expr temp
  case slice =>
    rintro view isMutable rfl
    rw [map_slice_cType h]
    exact ⟨rfl, fun expr temp => ⟨_, rfl, Conversion.aggregateType_lowerSlice ..⟩⟩

namespace Marina

def tide : TypeDef := ⟨1, "Tide", [], [], .record [⟨"height", [], .primitive .i32⟩] []⟩

def mood : TypeDef := ⟨2, "Mood", [], [], .enumeration [⟨"Calm", [], 0⟩, ⟨"Wild", [], 1⟩]⟩

def mapper : Mapper := ⟨⟨"marina", [tide, mood]⟩, [1, 2], .cpp, .full, 64⟩

end Marina

theorem Mapper.value_types_agree_marina :
    Registry.build "marina" [Marina.tide, Marina.mood] = .ok Marina.mapper.registry ∧
    (∃ tide, Marina.mapper.map (.nullable (.record 1 false)) .result [] = .ok tide ∧
      tide.native.cType = "Tide_option" ∧
      ∃ lowered, Strict.lower (Strict.entryOf (Marina.mapper.table .cpp))
          (.nullable (.record 1 false)) .result "value" [] = .ok lowered ∧
        Conversion.Chooses "::Tide_option" "value" lowered.value) ∧
    ∃ letters, Marina.mapper.map (.slice (.scalars .char) true) .param [] = .ok letters ∧
      letters.native.cType = "WeldSliceMut_char" ∧
      Strict.valueType (Strict.entryOf (Marina.mapper.table .cpp))
        (.slice (.scalars .char) true) = .ok "::WeldSliceMut_char" := by
  have hbuild : Registry.build "marina" [Marina.tide, Marina.mood] =
      .ok Marina.mapper.registry :=
    Registry.build_of_increasing _ (by decide) (by decide)
  refine ⟨hbuild, ⟨_, rfl, by decide, ?_⟩, _, rfl, by decide, ?_⟩
  · have hagree := Mapper.value_types_agree hbuild rfl .cpp
      (rfl : Marina.mapper.map (.nullable (.record 1 false)) .result [] = .ok _)
    exact (hagree.1 _ rfl rfl).2 "value" []
  · have hagree := Mapper.value_types_agree hbuild rfl .cpp
      (rfl : Marina.mapper.map (.slice (.scalars .char) true) .param [] = .ok _)
    exact (hagree.2 _ _ rfl).1

end Bindery
