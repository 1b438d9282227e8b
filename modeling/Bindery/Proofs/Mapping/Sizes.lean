import Bindery.Proofs.Layout.Exact
import Bindery.Proofs.Mapping.Containment
import Bindery.Proofs.Mapping.Signatures

/-!
The layouts of references in natural numbers, at either width. They are those of mapped references
while they fit a word. Wider pointers at most double them, so what fits a narrow register fits a
wide one.
-/

set_option autoImplicit false

namespace Bindery

namespace TypeRef

/-- The native kind of a reference that is mapped. -/
def nativeKind : TypeRef → NativeKind
  | unit => .void
  | primitive _ => .scalar
  | object _ _ _ => .handle
  | record _ byRef => if byRef then .recordPtr else .record
  | enumeration _ => .enumeration
  | slice _ _ => .slice
  | writeable => .writeable
  | nullable inner =>
    match inner.nativeKind with
    | .handle => .handle
    | .slice => .slice
    | _ => .option
  | fallible _ _ => .result

/-- Whether the native type has a null of its own. -/
def hasNull (ref : TypeRef) : Bool := ref.nativeKind = .handle ∨ ref.nativeKind = .slice

def hasPayload (ref : TypeRef) : Bool := ref.nativeKind ≠ .void ∧ ref.nativeKind ≠ .writeable

end TypeRef

def Layout.result : List Layout → Layout
  | [] => record [flag]
  | payloads => record [union payloads, flag]

namespace ExactLayout

def result : List ExactLayout → ExactLayout
  | [] => record [flag]
  | payloads => record [union payloads, flag]

def ofRef (bytes : Nat) (recordOf : TypeId → ExactLayout) : TypeRef → ExactLayout
  | .unit => ⟨0, 1⟩
  | .primitive p => ofPrimitive p bytes
  | .object _ _ _ => pointer bytes
  | .record id byRef => if byRef then pointer bytes else recordOf id
  | .enumeration _ => enumeration
  | .slice _ _ => slice bytes
  | .writeable => pointer bytes
  | .nullable inner =>
    if inner.hasNull then ofRef bytes recordOf inner else option (ofRef bytes recordOf inner)
  | .fallible ok err =>
    result ((if ok.hasPayload then [ofRef bytes recordOf ok] else []) ++
      if err.hasPayload then [ofRef bytes recordOf err] else [])

end ExactLayout

namespace Registry

/-- The layout of the record under an id, with records nested at most `depth` deep. -/
def exactRecord (r : Registry) (bytes : Nat) : (depth : Nat) → TypeId → ExactLayout
  | 0, _ => ⟨0, 1⟩
  | depth + 1, id =>
    match r.find? id with
    | none => ⟨0, 1⟩
    | some t => .record (t.fields.map fun f => .ofRef bytes (r.exactRecord bytes depth) f.type)

/-- The layout of a reference, with pointers of so many bytes. Records that are accepted nest no
deeper than there are types. -/
def exactLayout (r : Registry) (bytes : Nat) (ref : TypeRef) : ExactLayout :=
  .ofRef bytes (r.exactRecord bytes (r.size + 1)) ref

/-- How a value is returned, going by its exact size. -/
def exactPassing (r : Registry) (bytes : Nat) (ref : TypeRef) : Passing :=
  match ref.nativeKind with
  | .void => .void
  | .writeable => .void
  | .result => .out
  | _ => if (r.exactLayout bytes ref).size ≤ bytes then .direct else .out

end Registry

namespace ExactLayout

theorem mem_payloads {p q : Bool} {a b l : ExactLayout}
    (h : l ∈ (if p then [a] else []) ++ if q then [b] else []) : l = a ∨ l = b := by
  cases p <;> cases q <;> simp at h <;> tauto

theorem regular_flag : flag.Regular := .inl rfl

theorem regular_pointer {bytes : Nat} (hbytes : bytes = 4 ∨ bytes = 8) : (pointer bytes).Regular :=
  .inr (.inr hbytes)

theorem regular_ofPrimitive {bytes : Nat} (hbytes : bytes = 4 ∨ bytes = 8) (p : Primitive) :
    (ofPrimitive p bytes).Regular := by
  cases p with
  | isize | usize => exact regular_pointer hbytes
  | _ => simp [Regular, ofPrimitive]

theorem regular_pair {l : ExactLayout} (hl : l.Regular) : ∀ m ∈ [l, flag], m.Regular := by
  simpa [regular_flag] using hl

theorem result_regular {payloads : List ExactLayout} (h : ∀ l ∈ payloads, l.Regular) :
    (result payloads).Regular := by
  unfold result
  split
  · exact record_regular (by simp [regular_flag])
  · exact record_regular (regular_pair (union_regular h))

theorem ofRef_regular {bytes : Nat} (hbytes : bytes = 4 ∨ bytes = 8)
    {recordOf : TypeId → ExactLayout} (hrecord : ∀ id, (recordOf id).Regular) (ref : TypeRef) :
    (ofRef bytes recordOf ref).Regular := by
  have hpointer := regular_pointer hbytes
  induction ref with
  | unit => exact regular_empty
  | primitive p => exact regular_ofPrimitive hbytes p
  | object => exact hpointer
  | record id byRef =>
    cases byRef with
    | true => exact hpointer
    | false => exact hrecord id
  | enumeration => exact .inr (.inr (.inl rfl))
  | slice => exact record_regular (by simpa using hpointer)
  | writeable => exact hpointer
  | nullable inner ih =>
    rw [ofRef]
    split_ifs
    · exact ih
    · exact record_regular (regular_pair ih)
  | fallible ok err ihOk ihErr =>
    refine result_regular fun l hl => ?_
    rcases mem_payloads hl with rfl | rfl
    · exact ihOk
    · exact ihErr

end ExactLayout

namespace Registry

variable (r : Registry)

theorem exactRecord_regular {bytes : Nat} (hbytes : bytes = 4 ∨ bytes = 8) (depth : Nat)
    (id : TypeId) : (r.exactRecord bytes depth id).Regular := by
  induction depth generalizing id with
  | zero => exact ExactLayout.regular_empty
  | succ depth ih =>
    rw [exactRecord]
    split
    · exact ExactLayout.regular_empty
    · refine ExactLayout.record_regular fun l hl => ?_
      obtain ⟨f, -, rfl⟩ := List.mem_map.mp hl
      exact ExactLayout.ofRef_regular hbytes ih f.type

end Registry

namespace ExactLayout

theorem pointer_widens : (pointer 4).Widens (pointer 8) := ⟨by decide, by decide, .inr rfl⟩

theorem option_widens {l l' : ExactLayout} (h : l.Widens l') (hregular : l.Regular) :
    (option l).Widens (option l') :=
  record_widens (.cons h (.cons (.refl flag) .nil)) (regular_pair hregular)

theorem result_widens {ls ls' : List ExactLayout} (h : List.Forall₂ Widens ls ls')
    (hregular : ∀ l ∈ ls, l.Regular) : (result ls).Widens (result ls') := by
  cases h with
  | nil => exact .refl _
  | cons hl hls =>
    have hunion := union_widens (.cons hl hls) hregular
    exact record_widens (.cons hunion (.cons (.refl flag) .nil))
      (regular_pair (union_regular hregular))

theorem ofRef_widens {recordOf recordOf' : TypeId → ExactLayout}
    (hregular : ∀ id, (recordOf id).Regular) (h : ∀ id, (recordOf id).Widens (recordOf' id))
    (ref : TypeRef) : (ofRef 4 recordOf ref).Widens (ofRef 8 recordOf' ref) := by
  have hofRef := ofRef_regular (.inl rfl) hregular
  induction ref with
  | unit => exact .refl _
  | primitive p =>
    cases p with
    | isize | usize => exact pointer_widens
    | _ => exact .refl _
  | object => exact pointer_widens
  | record id byRef =>
    cases byRef with
    | true => exact pointer_widens
    | false => exact h id
  | enumeration => exact .refl _
  | slice =>
    refine record_widens (.cons pointer_widens (.cons pointer_widens .nil)) ?_
    simp [regular_pointer]
  | writeable => exact pointer_widens
  | nullable inner ih =>
    rw [ofRef, ofRef]
    split_ifs
    · exact ih
    · exact option_widens ih (hofRef inner)
  | fallible ok err ihOk ihErr =>
    refine result_widens ?_ fun l hl => ?_
    · cases ok.hasPayload <;> cases err.hasPayload <;> simp [ihOk, ihErr]
    · rcases mem_payloads hl with rfl | rfl
      · exact hofRef ok
      · exact hofRef err

end ExactLayout

namespace Registry

variable (r : Registry)

theorem exactRecord_widens (depth : Nat) (id : TypeId) :
    (r.exactRecord 4 depth id).Widens (r.exactRecord 8 depth id) := by
  induction depth generalizing id with
  | zero => exact .refl _
  | succ depth ih =>
    have hregular := r.exactRecord_regular (.inl rfl) depth
    rw [exactRecord, exactRecord]
    split
    · exact .refl _
    · refine ExactLayout.record_widens ?_ fun l hl => ?_
      · rw [List.forall₂_map_left_iff, List.forall₂_map_right_iff, List.forall₂_same]
        exact fun f _ => ExactLayout.ofRef_widens hregular ih f.type
      · obtain ⟨f, -, rfl⟩ := List.mem_map.mp hl
        exact ExactLayout.ofRef_regular (.inl rfl) hregular f.type

/-- Nested records, options and unions included, a layout keeps its alignment or doubles it, and at
most doubles in size. -/
theorem exactLayout_widens (ref : TypeRef) :
    (r.exactLayout 4 ref).Widens (r.exactLayout 8 ref) :=
  ExactLayout.ofRef_widens (r.exactRecord_regular (.inl rfl) _) (r.exactRecord_widens _) ref

theorem exactPassing_eq_direct_iff {bytes : Nat} {ref : TypeRef} :
    r.exactPassing bytes ref = .direct ↔
      ref.nativeKind ≠ .void ∧ ref.nativeKind ≠ .writeable ∧ ref.nativeKind ≠ .result ∧
        (r.exactLayout bytes ref).size ≤ bytes := by
  unfold exactPassing
  cases ref.nativeKind <;> simp

theorem exactPassing_widens {ref : TypeRef} (h : r.exactPassing 4 ref = .direct) :
    r.exactPassing 8 ref = .direct := by
  have hdouble := (r.exactLayout_widens ref).size_le_double
  rw [exactPassing_eq_direct_iff] at h ⊢
  refine ⟨h.1, h.2.1, h.2.2.1, ?_⟩
  have hregister := h.2.2.2
  omega

end Registry

namespace Mapper

variable {m : Mapper} {layoutOf : TypeDef → Except MapFault Layout} {ref : TypeRef}
  {position : Position} {name : Text} {mapped : Mapped}

theorem nullableNative_cases {inner : TypeRef} {value : Mapped} {native : Native}
    (hkind : value.native.kind = inner.nativeKind) (h : m.nullableNative inner value = .ok native) :
    inner.hasNull = true ∧ native = value.native ∨
    inner.hasNull = false ∧ native.kind = .option ∧
      native.layout = .option value.native.layout := by
  unfold nullableNative at h
  unfold TypeRef.hasNull
  rw [hkind] at h
  cases hinner : inner.nativeKind with
  | handle | slice =>
    simp only [hinner, Except.ok.injEq] at h
    exact .inl ⟨by simp, h.symm⟩
  | scalar | enumeration | record =>
    simp only [hinner] at h
    split_ifs at h
    cases h
    exact .inr ⟨by simp, rfl, rfl⟩
  | _ => simp [hinner] at h

theorem nativeKind_nullable (inner : TypeRef) :
    (TypeRef.nullable inner).nativeKind = if inner.hasNull then inner.nativeKind else .option := by
  rw [TypeRef.nativeKind, TypeRef.hasNull]
  cases inner.nativeKind <;> rfl

theorem mapWith_nativeKind (h : m.mapWith layoutOf ref position name = .ok mapped) :
    mapped.native.kind = ref.nativeKind := by
  induction ref generalizing position name mapped with
  | unit =>
    obtain ⟨-, rfl⟩ := mapUnit_eq_ok_iff.mp h
    rfl
  | primitive p =>
    cases h
    rfl
  | object id ownership isMutable =>
    obtain ⟨t, native, -, -, rfl, rfl⟩ := mapObject_eq_ok_iff.mp h
    rfl
  | record id byRef =>
    obtain ⟨t, layout, native, -, -, -, rfl, rfl⟩ := mapRecord_eq_ok_iff.mp h
    cases byRef <;> rfl
  | enumeration id =>
    obtain ⟨t, -, -, rfl⟩ := mapEnumeration_eq_ok_iff.mp h
    rfl
  | slice view isMutable =>
    obtain ⟨-, native, rfl, rfl⟩ := mapSlice_eq_ok_iff.mp h
    rfl
  | writeable =>
    obtain ⟨-, -, native, rfl, rfl⟩ := mapWriteable_eq_ok_iff.mp h
    rfl
  | nullable inner ih =>
    obtain ⟨-, value, native, hvalue, hnative, rfl⟩ := mapWith_nullable_eq_ok_iff.mp h
    have hkind := ih hvalue
    rw [nativeKind_nullable]
    rcases nullableNative_cases hkind hnative with ⟨hnull, rfl⟩ | ⟨hnull, hoption, -⟩
    · rw [hnull, if_pos rfl]
      exact hkind
    · rw [hnull, if_neg Bool.false_ne_true]
      exact hoption
  | fallible ok err =>
    obtain ⟨-, -, okValue, errValue, native, -, -, rfl, rfl⟩ := mapWith_fallible_eq_ok_iff.mp h
    rfl

theorem isPayload_eq (h : m.mapWith layoutOf ref position name = .ok mapped) :
    mapped.native.isPayload = ref.hasPayload := by
  rw [Native.isPayload, mapWith_nativeKind h, TypeRef.hasPayload]
  cases ref.nativeKind <;> rfl

structure PointerBytes (m : Mapper) (bytes : Nat) : Prop where
  size : bytes = 4 ∨ bytes = 8
  width : m.pointerWidth = 8 * bytes

section
variable {bytes : Nat} {recordOf : TypeId → ExactLayout} (hm : m.PointerBytes bytes)

open ExactLayout (ofRef)

include hm in
theorem pointer_holds : (Layout.pointer m.pointerWidth).Holds (.pointer bytes) := by
  rw [hm.width]
  rcases hm.size with rfl | rfl <;> exact ⟨by decide, by decide⟩

include hm in
theorem ofPrimitive_holds (p : Primitive) :
    (Layout.ofPrimitive p m.pointerWidth).Holds (.ofPrimitive p bytes) := by
  cases p with
  | isize | usize => exact pointer_holds hm
  | _ => exact ⟨rfl, rfl⟩

theorem flag_holds : Layout.flag.Holds .flag := ⟨rfl, rfl⟩

theorem option_holds {l : Layout} {e : ExactLayout} (hregular : e.Regular)
    (hfits : (ExactLayout.option e).size < 2 ^ 64) (h : e.size < 2 ^ 64 → l.Holds e) :
    (Layout.option l).Holds (.option e) := by
  have hmembers := ExactLayout.regular_pair hregular
  have hle := ExactLayout.member_size_le_record hmembers (List.mem_cons_self ..)
  exact Layout.record_holds (.cons (h (Nat.lt_of_le_of_lt hle hfits)) (.cons flag_holds .nil))
    hmembers hfits

theorem result_holds {ls : List Layout} {es : List ExactLayout} (hregular : ∀ e ∈ es, e.Regular)
    (hfits : (ExactLayout.result es).size < 2 ^ 64)
    (h : (∀ e ∈ es, e.size < 2 ^ 64) → List.Forall₂ Layout.Holds ls es) :
    (Layout.result ls).Holds (.result es) := by
  cases es with
  | nil =>
    cases h (by simp)
    exact ⟨by decide, by decide⟩
  | cons e es =>
    have hmembers := ExactLayout.regular_pair (ExactLayout.union_regular hregular)
    have hle := ExactLayout.member_size_le_record hmembers (List.mem_cons_self ..)
    have hunion := Nat.lt_of_le_of_lt hle hfits
    have hpayloads := h fun e he =>
      Nat.lt_of_le_of_lt (ExactLayout.member_size_le_union hregular he) hunion
    have hholds := Layout.union_holds hpayloads hregular hunion
    cases hpayloads
    exact Layout.record_holds (.cons hholds (.cons flag_holds .nil)) hmembers hfits

theorem resultLayout_eq_result (ok err : Native) :
    resultLayout ok err = .result (([ok, err].filter Native.isPayload).map Native.layout) := rfl

theorem resultLayout_holds {ok err : Native} {e e' : ExactLayout} (he : e.Regular)
    (he' : e'.Regular)
    (hfits : (ExactLayout.result ((if ok.isPayload then [e] else []) ++
      if err.isPayload then [e'] else [])).size < 2 ^ 64)
    (hok : e.size < 2 ^ 64 → ok.layout.Holds e) (herr : e'.size < 2 ^ 64 → err.layout.Holds e') :
    (resultLayout ok err).Holds (.result ((if ok.isPayload then [e] else []) ++
      if err.isPayload then [e'] else [])) := by
  rw [resultLayout_eq_result]
  refine result_holds (fun l hl => ?_) hfits fun hpayloads => ?_
  · rcases ExactLayout.mem_payloads hl with rfl | rfl
    · exact he
    · exact he'
  · cases h : ok.isPayload <;> cases h' : err.isPayload <;> simp_all

include hm

theorem mapWith_holds (hregular : ∀ id, (recordOf id).Regular)
    (hrecord : ∀ id t l, m.registry.find? id = some t → layoutOf t = .ok l →
      (recordOf id).size < 2 ^ 64 → l.Holds (recordOf id))
    (h : m.mapWith layoutOf ref position name = .ok mapped)
    (hfits : (ofRef bytes recordOf ref).size < 2 ^ 64) :
    mapped.native.layout.Holds (ofRef bytes recordOf ref) := by
  have hpointer := pointer_holds hm
  have hofRef := ExactLayout.ofRef_regular hm.size hregular
  induction ref generalizing position name mapped with
  | unit =>
    obtain ⟨-, rfl⟩ := mapUnit_eq_ok_iff.mp h
    exact ⟨rfl, rfl⟩
  | primitive p =>
    cases h
    exact ofPrimitive_holds hm p
  | object id ownership isMutable =>
    obtain ⟨t, native, -, -, rfl, rfl⟩ := mapObject_eq_ok_iff.mp h
    exact hpointer
  | record id byRef =>
    obtain ⟨t, layout, native, hresolves, -, hlayout, rfl, rfl⟩ := mapRecord_eq_ok_iff.mp h
    cases byRef with
    | true => exact hpointer
    | false => exact hrecord id t layout hresolves.1 hlayout hfits
  | enumeration id =>
    obtain ⟨t, -, -, rfl⟩ := mapEnumeration_eq_ok_iff.mp h
    exact ⟨rfl, rfl⟩
  | slice view isMutable =>
    obtain ⟨-, native, rfl, rfl⟩ := mapSlice_eq_ok_iff.mp h
    refine Layout.record_holds (.cons hpointer (.cons hpointer .nil)) ?_ hfits
    simpa using ExactLayout.regular_pointer hm.size
  | writeable =>
    obtain ⟨-, -, native, rfl, rfl⟩ := mapWriteable_eq_ok_iff.mp h
    exact hpointer
  | nullable inner ih =>
    obtain ⟨-, value, native, hvalue, hnative, rfl⟩ := mapWith_nullable_eq_ok_iff.mp h
    rcases nullableNative_cases (mapWith_nativeKind hvalue) hnative with
      ⟨hnull, rfl⟩ | ⟨hnull, -, hoption⟩
    · rw [ofRef, if_pos hnull] at hfits ⊢
      have hinner := ih hvalue hfits
      exact hinner
    · rw [ofRef, if_neg (by simp [hnull])] at hfits ⊢
      rw [hoption]
      exact option_holds (hofRef inner) hfits (ih hvalue)
  | fallible ok err ihOk ihErr =>
    obtain ⟨-, -, okValue, errValue, native, hok, herr, rfl, rfl⟩ :=
      mapWith_fallible_eq_ok_iff.mp h
    rw [ofRef, ← isPayload_eq hok, ← isPayload_eq herr] at hfits ⊢
    exact resultLayout_holds (hofRef ok) (hofRef err) hfits (ihOk hok) (ihErr herr)

theorem layoutWithin_holds {depth : Nat} {enclosing : List TypeId} {id : TypeId} {t : TypeDef}
    {l : Layout}
    (hfind : m.registry.find? id = some t) (h : m.layoutWithin depth enclosing t = .ok l)
    (hfits : (m.registry.exactRecord bytes depth id).size < 2 ^ 64) :
    l.Holds (m.registry.exactRecord bytes depth id) := by
  induction depth generalizing enclosing id t l with
  | zero => simp [layoutWithin] at h
  | succ depth ih =>
    rw [layoutWithin_succ] at h
    split_ifs at h
    obtain ⟨mapped, hmapped, rfl⟩ := layoutFrom_eq_ok_iff.mp h
    have hrecords := m.registry.exactRecord_regular hm.size depth
    simp only [Registry.exactRecord, hfind] at hfits ⊢
    generalize m.registry.exactRecord bytes depth = recordOf at hrecords ih hfits ⊢
    have hregular : ∀ e ∈ t.fields.map fun f => ofRef bytes recordOf f.type, e.Regular := by
      intro e he
      obtain ⟨f, -, rfl⟩ := List.mem_map.mp he
      exact ExactLayout.ofRef_regular hm.size hrecords f.type
    have hsizes : ∀ f ∈ t.fields, (ofRef bytes recordOf f.type).size < 2 ^ 64 := fun f hf =>
      Nat.lt_of_le_of_lt
        (ExactLayout.member_size_le_record hregular (List.mem_map_of_mem hf)) hfits
    refine Layout.record_holds ?_ hregular hfits
    rw [List.forall₂_map_left_iff, List.forall₂_map_right_iff]
    refine (((List.forall₂_and_left _ _).mpr ⟨hsizes, hmapped⟩).imp ?_).flip
    rintro f x ⟨hsize, hx⟩
    exact mapWith_holds hm hrecords (fun id s l hfind hl => ih hfind hl) hx hsize

theorem map_holds (h : m.map ref position name = .ok mapped)
    (hfits : (m.registry.exactLayout bytes ref).size < 2 ^ 64) :
    mapped.native.layout.Holds (m.registry.exactLayout bytes ref) :=
  mapWith_holds hm (m.registry.exactRecord_regular hm.size _)
    (fun _ _ _ hfind hl => layoutWithin_holds hm hfind hl) h hfits

theorem signature_passing {owner : TypeDef} {method : Method} {s : Signature}
    (h : m.signature owner method = .ok s)
    (hfits : (m.registry.exactLayout bytes method.returns).size < 2 ^ 64) :
    s.passing = m.registry.exactPassing bytes method.returns := by
  obtain ⟨-, -, returns, -, -, -, hreturns, -, rfl⟩ := signature_eq_ok_iff.mp h
  have hmap := mapIn_eq_ok_iff.mp hreturns
  have hregister : returns.native.layout.fitsRegister m.pointerWidth =
      decide ((m.registry.exactLayout bytes method.returns).size ≤ bytes) := by
    have hpointer : (Layout.pointerBytes m.pointerWidth).toNat = bytes :=
      (pointer_holds hm).1
    rw [Layout.fitsRegister, ← (map_holds hm hmap hfits).1, decide_eq_decide,
      UInt64.le_iff_toNat_le, hpointer]
  dsimp only
  rw [passingOf, Registry.exactPassing, mapWith_nativeKind hmap, hregister]
  cases method.returns.nativeKind <;> simp

end

end Mapper

end Bindery
