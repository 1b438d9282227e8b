import Bindery.Proofs.Mapping.Sizes

/-!
The shape of a signature, read off the method alone: which parameters it has and in which order, how
it returns, and what the record of a fallible return holds. The sides of such a return are mapped
twice, once for the layout of the record and once for its members, and the two agree.
-/

set_option autoImplicit false

namespace Bindery

namespace TypeRef

theorem nativeKind_eq_void_iff {ref : TypeRef} : ref.nativeKind = .void ↔ ref = .unit := by
  cases ref with
  | record id byRef => cases byRef <;> simp [nativeKind]
  | nullable inner => cases h : inner.nativeKind <;> simp [nativeKind, h]
  | _ => simp [nativeKind]

theorem nativeKind_eq_writeable_iff {ref : TypeRef} :
    ref.nativeKind = .writeable ↔ ref = .writeable := by
  cases ref with
  | record id byRef => cases byRef <;> simp [nativeKind]
  | nullable inner => cases h : inner.nativeKind <;> simp [nativeKind, h]
  | _ => simp [nativeKind]

theorem nativeKind_eq_result_iff {ref : TypeRef} :
    ref.nativeKind = .result ↔ ∃ ok err, ref = .fallible ok err := by
  cases ref with
  | record id byRef => cases byRef <;> simp [nativeKind]
  | nullable inner => cases h : inner.nativeKind <;> simp [nativeKind, h]
  | _ => simp [nativeKind]

/-- Nothing to return, or text that is written while the method runs. -/
def IsVoid (ref : TypeRef) : Prop := ref = .unit ∨ ref = .writeable

instance (ref : TypeRef) : Decidable ref.IsVoid := inferInstanceAs (Decidable (_ ∨ _))

theorem hasPayload_eq (ref : TypeRef) : ref.hasPayload = !decide ref.IsVoid := by
  rw [hasPayload, ← decide_not, decide_eq_decide, IsVoid, not_or, ne_eq, ne_eq,
    nativeKind_eq_void_iff, nativeKind_eq_writeable_iff]

end TypeRef

/-- The member that a side of a fallible return takes up, as a list of at most one. -/
def TypeRef.members {α : Type} (ref : TypeRef) (member : α) : List α :=
  if ref.IsVoid then [] else [member]

/-- The layouts of a union that is left out where it would have no members. -/
def Layout.unionOfAny (members : List Layout) : List Layout :=
  if members.isEmpty then [] else [.union members]

namespace Outcome

/-- The outcome of a method that returns `ok` or `err`. -/
structure HasShape (m : Mapper) (name : Text) (ok err : TypeRef) (o : Outcome) : Prop where
  ok_mapped : m.map ok .okPayload [] = .ok o.ok
  err_mapped : m.map err .errPayload [] = .ok o.err
  record_name : o.record.name = name
  ok_member : o.record.ok.toList = ok.members o.ok.native.cType
  err_member : o.record.err.toList = err.members o.err.native.cType
  layout : o.record.layout = .record (Layout.unionOfAny
    (ok.members o.ok.native.layout ++ err.members o.err.native.layout) ++ [.flag])
  /-- The words of the layout are those of natural numbers as long as they can be. -/
  exact_layout : ∀ bytes, m.PointerBytes bytes →
    (m.registry.exactLayout bytes (.fallible ok err)).size < 2 ^ 64 →
      o.record.layout.Holds (m.registry.exactLayout bytes (.fallible ok err))

end Outcome

namespace Mapper

variable {m : Mapper} {owner : TypeDef} {method : Method}

theorem payloadMember_toList {ref : TypeRef} {position : Position} {x : Mapped}
    (h : m.map ref position [] = .ok x) :
    (payloadMember x).toList = ref.members x.native.cType := by
  rw [payloadMember, isPayload_eq h, TypeRef.hasPayload_eq, TypeRef.members]
  by_cases hvoid : ref.IsVoid <;> simp [hvoid]

theorem resultLayout_eq_members {ok err : TypeRef} {p q : Position} {x y : Mapped}
    (hok : m.map ok p [] = .ok x) (herr : m.map err q [] = .ok y) :
    resultLayout x.native y.native = .record (Layout.unionOfAny
      (ok.members x.native.layout ++ err.members y.native.layout) ++ [.flag]) := by
  have hx := (isPayload_eq hok).trans ok.hasPayload_eq
  have hy := (isPayload_eq herr).trans err.hasPayload_eq
  rw [resultLayout]
  by_cases hokVoid : ok.IsVoid <;> by_cases herrVoid : err.IsVoid <;>
    simp [hx, hy, hokVoid, herrVoid, TypeRef.members, Layout.unionOfAny]

/-- Once a fallible return is mapped, mapping its sides again succeeds. -/
theorem mapOutcome_of_map {ok err : TypeRef} {name : Text} {returns : Mapped}
    (h : m.map (.fallible ok err) .result name = .ok returns) :
    ∃ o, m.mapOutcome ok err returns.native = .ok o ∧ o.HasShape m name ok err := by
  obtain ⟨-, -, x, y, native, hx, hy, hnative, hreturns⟩ := mapWith_fallible_eq_ok_iff.mp h
  refine ⟨⟨resultRecord returns.native x y, x, y⟩, mapOutcome_eq_ok_iff.mpr ⟨hx, hy, rfl⟩, ?_⟩
  have hrecord : returns.native.layout = resultLayout x.native y.native := by
    rw [hreturns, hnative]
  exact {
    ok_mapped := hx
    err_mapped := hy
    record_name := by rw [resultRecord, hreturns, hnative]
    ok_member := payloadMember_toList hx
    err_member := payloadMember_toList hy
    layout := hrecord.trans (resultLayout_eq_members hx hy)
    exact_layout := fun _ hbytes hfits => map_holds hbytes h hfits }

theorem receiverRef_eq_none_iff {receiver : Receiver} {ref? : Option TypeRef}
    (h : receiverRef owner receiver = .ok ref?) : ref? = none ↔ receiver = .absent := by
  unfold receiverRef at h
  cases receiver <;> cases hkind : owner.kind <;> simp_all <;> simp [← h]

theorem mapReceiver_isSome_iff {receiver : Receiver} {self : Option Mapped}
    (h : m.mapReceiver owner receiver = .ok self) : self.isSome = true ↔ receiver ≠ .absent := by
  rcases mapReceiver_eq_ok_iff.mp h with ⟨href, rfl⟩ | ⟨ref, x, href, -, rfl⟩
  · simpa using (receiverRef_eq_none_iff href).mp rfl
  · simpa using mt (receiverRef_eq_none_iff href).mpr (by simp)

theorem writesText_iff {returns : TypeRef} : writesText returns = true ↔
    returns = .writeable ∨ ∃ err, returns = .fallible .writeable err := by
  cases returns with
  | fallible ok err => cases ok <;> simp [writesText]
  | _ => simp [writesText]

structure Declares (m : Mapper) (p : Param) (a : AbiParam) : Prop where
  name : a.name = p.name
  role : a.role = .declared
  cType : ∃ x, m.map p.type .param [] = .ok x ∧ a.cType = x.native.cType
  visible : p.name ∉ hiddenNames

theorem declares_zip {params : List Param} {declared : List Mapped}
    (h : m.mapParams params = .ok declared) :
    List.Forall₂ m.Declares params
      ((params.zip declared).map fun (p, d) => ⟨p.name, d.native.cType, .declared⟩) := by
  have hall := mapParams_eq_ok_iff.mp h
  induction hall with
  | nil => exact .nil
  | cons hx hrest ih =>
    exact .cons ⟨rfl, rfl, ⟨_, hx.2, rfl⟩, hx.1⟩ (ih (mapParams_eq_ok_iff.mpr hrest))

variable {returns : Mapped} {name : Text} (h : m.map method.returns .result name = .ok returns)

include h in
theorem passingOf_eq_void_iff :
    passingOf returns.native m.pointerWidth = .void ↔ method.returns.IsVoid := by
  have hkind : returns.native.kind = method.returns.nativeKind := mapWith_nativeKind h
  rw [TypeRef.IsVoid, ← TypeRef.nativeKind_eq_void_iff, ← TypeRef.nativeKind_eq_writeable_iff,
    ← hkind]
  unfold passingOf
  cases returns.native.kind <;> simp
  all_goals split_ifs <;> simp

include h in
theorem passingOf_eq_out_iff : passingOf returns.native m.pointerWidth = .out ↔
    (∃ ok err, method.returns = .fallible ok err) ∨
      ¬ method.returns.IsVoid ∧ ¬ returns.native.layout.fitsRegister m.pointerWidth := by
  have hkind : returns.native.kind = method.returns.nativeKind := mapWith_nativeKind h
  rw [TypeRef.IsVoid, ← TypeRef.nativeKind_eq_void_iff, ← TypeRef.nativeKind_eq_writeable_iff,
    ← TypeRef.nativeKind_eq_result_iff, ← hkind]
  unfold passingOf
  cases returns.native.kind <;> simp

theorem fitsRegister_iff (hwidth : m.pointerWidth = 32 ∨ m.pointerWidth = 64) (l : Layout) :
    l.fitsRegister m.pointerWidth = true ↔ (l.size.toNat : Int) ≤ m.pointerWidth / 8 := by
  rw [Layout.fitsRegister, decide_eq_true_iff, UInt64.le_iff_toNat_le]
  rcases hwidth with hw | hw <;> rw [hw]
  · rw [show (Layout.pointerBytes 32).toNat = 4 by decide]
    omega
  · rw [show (Layout.pointerBytes 64).toNat = 8 by decide]
    omega

end Mapper

namespace Signature

/-- The parameters behind the declared ones: the text to write, and the place for the result. -/
def hiddenParams (s : Signature) : List AbiParam :=
  (if s.hasWrite then [⟨writeParam, "WeldWriteable*", .write⟩] else []) ++
    if s.passing = .out then [⟨outParam, s.returns.native.cType ++ "*", .out⟩] else []

/-- The signature of a method, as its receiver, parameters and return make it. -/
structure HasShape (m : Mapper) (owner : TypeDef) (method : Method) (s : Signature) : Prop where
  params : ∃ declared, List.Forall₂ m.Declares method.params declared ∧
    s.params = s.receiver.toList.map (fun x => ⟨selfParam, x.native.cType, .self⟩) ++ declared ++
      s.hiddenParams
  receiver : s.receiver.isSome = true ↔ method.receiver ≠ .absent
  writes : s.hasWrite = true ↔
    method.returns = .writeable ∨ ∃ err, method.returns = .fallible .writeable err
  returns : m.map method.returns .result (resultName owner method) = .ok s.returns
  void_iff : s.passing = .void ↔ method.returns = .unit ∨ method.returns = .writeable
  out_iff : s.passing = .out ↔ (∃ ok err, method.returns = .fallible ok err) ∨
    ¬ (method.returns = .unit ∨ method.returns = .writeable) ∧
      m.pointerWidth / 8 < s.returns.native.layout.size.toNat
  cReturn : s.cReturn = if s.passing = .direct then s.returns.native.cType else "void"
  outcome_iff : s.outcome.isSome = true ↔ ∃ ok err, method.returns = .fallible ok err
  outcome : ∀ ok err o, method.returns = .fallible ok err → s.outcome = some o →
    o.HasShape m (owner.name ++ "_" ++ method.name ++ "_result") ok err

end Signature

namespace Mapper

/-- A method has a signature if its receiver, its parameters and its return are mapped; the sides of
a fallible return, which are mapped once more, have no say in it. -/
theorem signature_isOk_iff {m : Mapper} {owner : TypeDef} {method : Method} :
    (∃ s, m.signature owner method = .ok s) ↔
      (∃ self, m.mapReceiver owner method.receiver = .ok self) ∧
      (∃ declared, m.mapParams method.params = .ok declared) ∧
      ∃ returns, m.map method.returns .result (resultName owner method) = .ok returns := by
  constructor
  · rintro ⟨s, hs⟩
    obtain ⟨self, declared, returns, -, hself, hdeclared, hreturns, -⟩ := signature_eq_ok_iff.mp hs
    exact ⟨⟨self, hself⟩, ⟨declared, hdeclared⟩, returns, mapIn_eq_ok_iff.mp hreturns⟩
  · rintro ⟨⟨self, hself⟩, ⟨declared, hdeclared⟩, returns, hreturns⟩
    have houtcome : ∃ outcome, m.outcomeOf method.returns returns.native = .ok outcome := by
      by_cases hfallible : ∃ ok err, method.returns = .fallible ok err
      · obtain ⟨ok, err, heq⟩ := hfallible
        rw [heq] at hreturns
        obtain ⟨o, ho, -⟩ := mapOutcome_of_map hreturns
        exact ⟨some o, outcomeOf_eq_ok_iff.mpr (.inl ⟨ok, err, o, heq, ho, rfl⟩)⟩
      · exact ⟨none, outcomeOf_eq_ok_iff.mpr
          (.inr ⟨fun ok err heq => hfallible ⟨ok, err, heq⟩, rfl⟩)⟩
    obtain ⟨outcome, houtcome⟩ := houtcome
    exact ⟨_, signature_eq_ok_iff.mpr ⟨self, declared, returns, outcome, hself, hdeclared,
      mapIn_eq_ok_iff.mpr hreturns, houtcome, rfl⟩⟩

/-- Every signature has the shape its method asks for, and no signature is refused because the sides
of a fallible return could not be mapped a second time. -/
theorem signature_shape (m : Mapper) (hwidth : m.pointerWidth = 32 ∨ m.pointerWidth = 64)
    (owner : TypeDef) (method : Method) :
    (∀ s, m.signature owner method = .ok s → s.HasShape m owner method) ∧
    (∀ ok err returns, method.returns = .fallible ok err →
      m.map method.returns .result (resultName owner method) = .ok returns →
        ∃ o, m.mapOutcome ok err returns.native = .ok o) ∧
    ((∃ s, m.signature owner method = .ok s) ↔
      (∃ self, m.mapReceiver owner method.receiver = .ok self) ∧
      (∃ declared, m.mapParams method.params = .ok declared) ∧
      ∃ returns, m.map method.returns .result (resultName owner method) = .ok returns) := by
  refine ⟨fun s hs => ?_, fun ok err returns heq h => ?_, signature_isOk_iff⟩
  · obtain ⟨self, declared, returns, outcome, hself, hdeclared, hin, houtcome, rfl⟩ :=
      signature_eq_ok_iff.mp hs
    have hreturns := mapIn_eq_ok_iff.mp hin
    exact {
      params := ⟨_, declares_zip hdeclared, List.append_assoc ..⟩
      receiver := mapReceiver_isSome_iff hself
      writes := writesText_iff
      returns := hreturns
      void_iff := passingOf_eq_void_iff hreturns
      out_iff := by
        rw [passingOf_eq_out_iff hreturns, fitsRegister_iff hwidth, Int.not_le]
        rfl
      cReturn := rfl
      outcome_iff := by
        rcases outcomeOf_eq_ok_iff.mp houtcome with ⟨ok, err, o, heq, -, rfl⟩ | ⟨hother, rfl⟩
        · simp [heq]
        · simpa using hother
      outcome := by
        rintro ok err o heq rfl
        rw [heq] at hreturns houtcome
        obtain ⟨o', ho', hshape⟩ := mapOutcome_of_map hreturns
        rw [outcomeOf, ho'] at houtcome
        cases houtcome
        exact hshape }
  · rw [heq] at h
    obtain ⟨o, ho, -⟩ := mapOutcome_of_map h
    exact ⟨o, ho⟩

namespace Weather

def refusal : TypeDef :=
  ⟨1, "Refusal", [], [], .record [⟨"code", [], .primitive .u64⟩, ⟨"line", [], .primitive .u16⟩] []⟩

def describe : Method :=
  ⟨"describe", [], [], .shared, [⟨"label", .slice .utf8 false⟩],
    .fallible .writeable (.record 1 false)⟩

def station : TypeDef := ⟨2, "Station", [], [], .object [describe]⟩

def mapper : Mapper := ⟨⟨"weather", [refusal, station]⟩, [1, 2], .c, .full, 32⟩

end Weather

theorem signature_shape_describe :
    ∃ s, Weather.mapper.signature Weather.station Weather.describe = .ok s ∧
      s.params.map AbiParam.name = ["self", "label", "write", "out"] ∧ s.passing = .out ∧
      ∃ o, s.outcome = some o ∧ o.record.name = "Station_describe_result" ∧
        o.record.ok = none ∧ o.record.err = some "Refusal" ∧
        o.record.layout = .record [.union [⟨16, 8⟩], .flag] ∧ o.record.layout = ⟨24, 8⟩ := by
  obtain ⟨hshape, -, -⟩ :=
    signature_shape Weather.mapper (.inl rfl) Weather.station Weather.describe
  obtain ⟨s, hs, hparams⟩ : ∃ s,
      Weather.mapper.signature Weather.station Weather.describe = .ok s ∧
        s.params.map AbiParam.name = ["self", "label", "write", "out"] := ⟨_, rfl, rfl⟩
  have hs' := hshape s hs
  obtain ⟨o, ho⟩ := Option.isSome_iff_exists.mp (hs'.outcome_iff.mpr ⟨_, _, rfl⟩)
  have hrecord := hs'.outcome _ _ o rfl ho
  refine ⟨s, hs, hparams, hs'.out_iff.mpr (.inl ⟨_, _, rfl⟩), o, ho, hrecord.record_name, ?_⟩
  cases hs
  cases ho
  exact ⟨rfl, rfl, hrecord.layout, by decide⟩

end Mapper

end Bindery
