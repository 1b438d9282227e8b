import Bindery.Proofs.Decimal
import Bindery.Proofs.Header.Directives
import Bindery.Proofs.Mapping.Success

/-!
How mapped types are spelled. Spellings are made of names, of words of the languages and of signs
between them; there is no hash among them, so none of them can begin a directive.
-/

set_option autoImplicit false

namespace Bindery

theorem all_isPart_of_isValid {name : Text} (h : Identifier.isValid name = true) :
    name.all Identifier.isPart = true := by
  cases name with
  | nil => rfl
  | cons c t =>
    simp only [Identifier.isValid, Bool.and_eq_true] at h
    simp [Identifier.isPart, h.1, h.2]

theorem notMem_of_all_isPart {name : Text} (h : name.all Identifier.isPart = true) {c : UInt8}
    (hc : Identifier.isPart c = false) : c ∉ name := by
  intro hmem
  rw [List.all_eq_true.mp h c hmem] at hc
  exact absurd hc (by decide)

theorem noHash_of_isValid {name : Text} (h : Identifier.isValid name = true) : NoHash name :=
  notMem_of_all_isPart (all_isPart_of_isValid h) (by decide)

theorem noHash_join {sep : Text} {parts : List Text} (hsep : NoHash sep)
    (h : ∀ part ∈ parts, NoHash part) : NoHash (Text.join sep parts) := by
  induction parts with
  | nil => exact noHash_nil
  | cons part parts ih =>
    have hrest := ih fun p hp => h p (List.mem_cons_of_mem _ hp)
    have hpart := h part List.mem_cons_self
    cases parts with
    | nil => simpa [Text.join] using hpart
    | cons next parts =>
      rw [Text.join, List.intercalate_cons_cons]
      exact noHash_append.mpr ⟨noHash_append.mpr ⟨hpart, hsep⟩, hrest⟩

theorem noHash_decimal (n : Nat) : NoHash (decimal n) := by
  intro hmem
  exact absurd (isDigit_of_mem_decimal hmem) (by decide)

theorem noHash_decimalInt (i : Int) : NoHash (decimalInt i) := by
  cases i with
  | ofNat n => exact noHash_decimal n
  | negSucc n =>
    intro hmem
    rcases List.mem_cons.mp hmem with heq | hmem
    · exact absurd heq (by decide)
    · exact noHash_decimal (n + 1) hmem

theorem noHash_escape {name : Text} (h : NoHash name) : NoHash (Identifier.escape name) := by
  rw [Identifier.escape]
  split_ifs
  · exact noHash_append.mpr ⟨h, noHash_ascii _ (by decide)⟩
  · exact h

theorem noHash_primitive (p : Primitive) : NoHash p.name := by
  cases p <;> exact noHash_ascii _ (by decide)

theorem noHash_cName (p : Primitive) : NoHash p.cName := by
  cases p <;> exact noHash_ascii _ (by decide)

theorem noHash_hostName (p : Primitive) : NoHash p.hostName := by
  rw [Primitive.hostName]
  split_ifs
  · exact noHash_ascii _ (by decide)
  · exact noHash_cName p

theorem noHash_constUnless (isMutable : Bool) : NoHash (constUnless isMutable) := by
  cases isMutable <;> exact noHash_ascii _ (by decide)

theorem noHash_cSlice (p : Primitive) (isMutable : Bool) : NoHash (p.cSlice isMutable) := by
  rw [Primitive.cSlice, noHash_append]
  refine ⟨?_, noHash_primitive p⟩
  cases isMutable <;> exact noHash_ascii _ (by decide)

theorem noHash_cOption (p : Primitive) : NoHash p.cOption :=
  noHash_append.mpr ⟨noHash_ascii _ (by decide), noHash_primitive p⟩

theorem noHash_viewName (view : View) (isMutable : Bool) : NoHash (view.cName isMutable) := by
  cases view with
  | scalars element => exact noHash_cSlice element isMutable
  | _ => exact noHash_ascii _ (by decide)

theorem noHash_optionName {name : Text} (h : NoHash name) : NoHash (optionName name) :=
  noHash_append.mpr ⟨h, noHash_ascii _ (by decide)⟩

structure Mapped.Plain (x : Mapped) : Prop where
  host : NoHash x.host
  cType : NoHash x.native.cType

/-- The spellings of a dialect have no hash where their parts have none. -/
structure Dialect.Plain (d : Dialect) : Prop where
  unit : ∀ position, NoHash (d.unit position)
  primitive : ∀ p, NoHash (d.primitive p)
  object : ∀ name ownership isMutable position native, NoHash name → NoHash native.cType →
    NoHash (d.object name ownership isMutable position native)
  record : ∀ name byRef native, NoHash name → NoHash native.cType →
    NoHash (d.record name byRef native)
  enumeration : ∀ name, NoHash name → NoHash (d.enumeration name)
  slice : ∀ view isMutable native, NoHash native.cType → NoHash (d.slice view isMutable native)
  writeable : ∀ position native, NoHash native.cType → NoHash (d.writeable position native)
  nullable : ∀ inner native, inner.Plain → NoHash native.cType → NoHash (d.nullable inner native)
  fallible : ∀ ok err native, ok.Plain → err.Plain → NoHash native.cType →
    NoHash (d.fallible ok err native)

theorem Dialect.c_plain : Dialect.c.Plain where
  unit _ := noHash_ascii _ (by decide)
  primitive := noHash_cName
  object _ _ _ _ _ _ h := h
  record _ _ _ _ h := h
  enumeration _ h := h
  slice _ _ _ h := h
  writeable _ _ h := h
  nullable _ _ _ h := h
  fallible _ _ _ _ _ h := h

theorem Dialect.cpp_plain : Dialect.cpp.Plain where
  unit position := by
    dsimp only [Dialect.cpp]
    split_ifs <;> exact noHash_ascii _ (by decide)
  primitive := noHash_hostName
  object name ownership isMutable position native hname _ := by
    cases ownership with
    | owned =>
      refine noHash_append.mpr ⟨noHash_append.mpr ⟨?_, hname⟩, ?_⟩ <;>
        exact noHash_ascii _ (by decide)
    | borrowed =>
      refine noHash_append.mpr ⟨noHash_append.mpr ⟨noHash_constUnless isMutable, hname⟩, ?_⟩
      split_ifs <;> exact noHash_ascii _ (by decide)
  record name byRef native hname _ := by
    cases byRef with
    | false => exact hname
    | true =>
      refine noHash_append.mpr ⟨noHash_append.mpr ⟨?_, hname⟩, ?_⟩ <;>
        exact noHash_ascii _ (by decide)
  enumeration _ h := h
  slice view isMutable _ _ := by
    cases view with
    | scalars element =>
      have hopen : NoHash (ascii "std::span<") := noHash_ascii _ (by decide)
      have hclose : NoHash (ascii ">") := noHash_ascii _ (by decide)
      simp [Dialect.cpp, hopen, hclose, noHash_constUnless, noHash_hostName]
    | _ => exact noHash_ascii _ (by decide)
  writeable position _ _ := by
    dsimp only [Dialect.cpp]
    split_ifs <;> exact noHash_ascii _ (by decide)
  nullable inner native hinner _ := by
    dsimp only [Dialect.cpp]
    split_ifs
    · exact hinner.host
    · refine noHash_append.mpr ⟨noHash_append.mpr ⟨?_, hinner.host⟩, ?_⟩ <;>
        exact noHash_ascii _ (by decide)
  fallible ok err _ hok herr _ := by
    have hopen : NoHash (ascii "weld_rt::Result<") := noHash_ascii _ (by decide)
    have hsep : NoHash (ascii ", ") := noHash_ascii _ (by decide)
    have hclose : NoHash (ascii ">") := noHash_ascii _ (by decide)
    simp [Dialect.cpp, hopen, hsep, hclose, hok.host, herr.host]

namespace Mapper

variable {m : Mapper} {layoutOf : TypeDef → Except MapFault Layout}

structure Plain (m : Mapper) : Prop where
  dialect : m.dialect.Plain
  names : ∀ t ∈ m.registry.types, NoHash t.name

theorem Plain.name (hm : m.Plain) {id : TypeId} {kind : Kind} {t : TypeDef}
    (h : m.Resolves id kind t) : NoHash t.name :=
  hm.names t (List.mem_of_find?_eq_some h.1)

theorem nullableNative_plain {inner : TypeRef} {value : Mapped} {native : Native}
    (hvalue : value.Plain) (h : m.nullableNative inner value = .ok native) :
    NoHash native.cType := by
  unfold nullableNative at h
  cases hkind : value.native.kind with
  | handle | slice =>
    simp only [hkind] at h
    cases h
    exact hvalue.cType
  | scalar | enumeration | record =>
    simp only [hkind] at h
    split_ifs at h
    cases h
    cases inner with
    | primitive p => exact noHash_cOption p
    | _ => exact noHash_optionName hvalue.cType
  | _ => simp [hkind] at h

theorem mapWith_plain (hm : m.Plain) {ref : TypeRef} {position : Position} {name : Text}
    {mapped : Mapped} (hname : NoHash name)
    (h : m.mapWith layoutOf ref position name = .ok mapped) : mapped.Plain := by
  induction ref generalizing position name mapped with
  | unit =>
    obtain ⟨-, rfl⟩ := mapUnit_eq_ok_iff.mp h
    exact ⟨hm.dialect.unit position, noHash_ascii _ (by decide)⟩
  | primitive p =>
    cases h
    exact ⟨hm.dialect.primitive p, noHash_cName p⟩
  | object id ownership isMutable =>
    obtain ⟨t, native, ht, -, rfl, rfl⟩ := mapObject_eq_ok_iff.mp h
    have hhandle : NoHash (handleType t.name ownership isMutable) := by
      rw [handleType]
      split_ifs
      · refine noHash_append.mpr ⟨noHash_append.mpr ⟨?_, hm.name ht⟩, ?_⟩ <;>
          exact noHash_ascii _ (by decide)
      · exact noHash_append.mpr ⟨hm.name ht, noHash_ascii _ (by decide)⟩
    exact ⟨hm.dialect.object _ _ _ _ _ (hm.name ht) hhandle, hhandle⟩
  | record id byRef =>
    obtain ⟨t, layout, native, ht, -, -, hnative, rfl⟩ := mapRecord_eq_ok_iff.mp h
    have hplain : NoHash native.cType := by
      subst hnative
      split_ifs
      · refine noHash_append.mpr ⟨noHash_append.mpr ⟨?_, hm.name ht⟩, ?_⟩ <;>
          exact noHash_ascii _ (by decide)
      · exact hm.name ht
    exact ⟨hm.dialect.record _ _ _ (hm.name ht) hplain, hplain⟩
  | enumeration id =>
    obtain ⟨t, ht, -, rfl⟩ := mapEnumeration_eq_ok_iff.mp h
    exact ⟨hm.dialect.enumeration _ (hm.name ht), hm.name ht⟩
  | slice view isMutable =>
    obtain ⟨-, native, rfl, rfl⟩ := mapSlice_eq_ok_iff.mp h
    have hview := noHash_viewName view isMutable
    exact ⟨hm.dialect.slice _ _ _ hview, hview⟩
  | writeable =>
    obtain ⟨-, -, native, rfl, rfl⟩ := mapWriteable_eq_ok_iff.mp h
    have hsink : NoHash (ascii "WeldWriteable*") := noHash_ascii _ (by decide)
    exact ⟨hm.dialect.writeable _ _ hsink, hsink⟩
  | nullable inner ih =>
    obtain ⟨-, value, native, hvalue, hnative, rfl⟩ := mapWith_nullable_eq_ok_iff.mp h
    have hinner := ih noHash_nil hvalue
    have hplain := nullableNative_plain hinner hnative
    exact ⟨hm.dialect.nullable _ _ hinner hplain, hplain⟩
  | fallible ok err ihOk ihErr =>
    obtain ⟨-, -, okValue, errValue, native, hok, herr, rfl, rfl⟩ :=
      mapWith_fallible_eq_ok_iff.mp h
    exact ⟨hm.dialect.fallible _ _ _ (ihOk noHash_nil hok) (ihErr noHash_nil herr) hname, hname⟩

end Mapper

end Bindery
