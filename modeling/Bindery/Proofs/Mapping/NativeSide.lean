import Bindery.Proofs.Mapping.Dependence
import Bindery.Signature

/-!
The native side of a mapping. In C the host types are the native types, so the C dialect makes of a
reference what any dialect makes of it once the host types are forgotten. A dialect has no say in
what is accepted, in native types or in layouts.
-/

set_option autoImplicit false

namespace Bindery

def Mapped.inC (x : Mapped) : Mapped := { x with host := x.native.cType }

def Outcome.inC (o : Outcome) : Outcome := { o with ok := o.ok.inC, err := o.err.inC }

def Signature.inC (s : Signature) : Signature :=
  { s with
    receiver := s.receiver.map Mapped.inC
    declared := s.declared.map Mapped.inC
    returns := s.returns.inC
    outcome := s.outcome.map Outcome.inC }

@[simp] theorem Mapped.native_inC (x : Mapped) : x.inC.native = x.native := rfl

@[simp] theorem Signature.deps_inC (s : Signature) : s.inC.deps = s.deps := by
  have hparts : s.inC.receiver.toList ++ s.inC.declared ++ [s.inC.returns] =
      (s.receiver.toList ++ s.declared ++ [s.returns]).map Mapped.inC := by
    cases h : s.receiver <;> simp [Signature.inC, h]
  rw [Signature.deps, hparts, List.flatMap_map]
  rfl

def Mapper.inC (m : Mapper) : Mapper := { m with dialect := .c }

namespace Mapper

variable (m : Mapper)

theorem lookup_inC (id : TypeId) (expected : Kind) :
    m.inC.lookup id expected = m.lookup id expected := rfl

theorem mapRecord_inC (layoutOf : TypeDef → Except MapFault Layout) (id : TypeId) (byRef : Bool)
    (position : Position) :
    m.inC.mapRecord layoutOf id byRef position =
      (m.mapRecord layoutOf id byRef position).map Mapped.inC := by
  rw [mapRecord, mapRecord, lookup_inC]
  cases m.lookup id .record with
  | error fault => rfl
  | ok t =>
    dsimp only
    split_ifs
    · rfl
    · cases layoutOf t <;> rfl
    · cases layoutOf t <;> rfl

theorem mapWith_inC (layoutOf : TypeDef → Except MapFault Layout) (ref : TypeRef)
    (position : Position) (name : Text) :
    m.inC.mapWith layoutOf ref position name =
      (m.mapWith layoutOf ref position name).map Mapped.inC := by
  induction ref generalizing position name with
  | unit =>
    rw [mapWith, mapWith, mapUnit, mapUnit]
    split_ifs <;> rfl
  | primitive p => rfl
  | object id ownership isMutable =>
    rw [mapWith, mapWith, mapObject, mapObject, lookup_inC]
    cases m.lookup id .object with
    | error fault => rfl
    | ok t =>
      dsimp only
      split_ifs <;> rfl
  | record id byRef => exact m.mapRecord_inC layoutOf id byRef position
  | enumeration id =>
    rw [mapWith, mapWith, mapEnumeration, mapEnumeration, lookup_inC]
    cases m.lookup id .enumeration with
    | error fault => rfl
    | ok t =>
      dsimp only
      cases checkEnumeration t <;> rfl
  | slice view isMutable =>
    have hfault : m.inC.sliceFault? view isMutable position =
        m.sliceFault? view isMutable position := rfl
    rw [mapWith, mapWith, mapSlice, mapSlice, hfault]
    cases m.sliceFault? view isMutable position <;> rfl
  | writeable =>
    rw [mapWith, mapWith, mapWriteable, mapWriteable]
    have hable : m.inC.capabilities = m.capabilities := rfl
    rw [hable]
    split_ifs <;> rfl
  | nullable inner ih =>
    rw [mapWith, mapWith, ih]
    cases nullableFault? inner position with
    | some fault => rfl
    | none =>
      cases m.mapWith layoutOf inner .nullablePayload [] with
      | error fault => rfl
      | ok value =>
        have hnative : m.inC.nullableNative inner value.inC = m.nullableNative inner value := rfl
        simp only [Except.map, hnative]
        cases m.nullableNative inner value <;> rfl
  | fallible ok err ihOk ihErr =>
    rw [mapWith, mapWith, ihOk, ihErr]
    split_ifs
    · rfl
    · rfl
    · rfl
    · cases m.mapWith layoutOf ok .okPayload [] with
      | error fault => rfl
      | ok okValue => cases m.mapWith layoutOf err .errPayload [] <;> rfl

theorem fieldLayouts_inC (mapField : TypeRef → Except MapFault Mapped) (owner : Text)
    (fields : List Field) :
    fieldLayouts (fun ref => (mapField ref).map Mapped.inC) owner fields =
      fieldLayouts mapField owner fields := by
  induction fields with
  | nil => rfl
  | cons f fs ih =>
    rw [fieldLayouts, fieldLayouts, ih]
    cases mapField f.type <;> rfl

theorem layoutWithin_inC (depth : Nat) (enclosing : List TypeId) (t : TypeDef) :
    m.inC.layoutWithin depth enclosing t = m.layoutWithin depth enclosing t := by
  induction depth generalizing enclosing t with
  | zero => rfl
  | succ depth ih =>
    have hnested : m.inC.layoutWithin depth (t.id :: enclosing) =
        m.layoutWithin depth (t.id :: enclosing) := funext fun s => ih (t.id :: enclosing) s
    rw [layoutWithin_succ, layoutWithin_succ, layoutFrom, layoutFrom, hnested]
    simp only [mapWith_inC, fieldLayouts_inC]

theorem recordLayout_inC (t : TypeDef) : m.inC.recordLayout t = m.recordLayout t :=
  m.layoutWithin_inC (m.registry.size + 1) [] t

theorem map_inC (ref : TypeRef) (position : Position) (name : Text) :
    m.inC.map ref position name = (m.map ref position name).map Mapped.inC := by
  have hlayout : m.inC.recordLayout = m.recordLayout := funext m.recordLayout_inC
  rw [map, map, hlayout, mapWith_inC]

theorem mapIn_inC (context : Text) (ref : TypeRef) (position : Position) (name : Text) :
    m.inC.mapIn context ref position name =
      (m.mapIn context ref position name).map Mapped.inC := by
  rw [mapIn, mapIn, map_inC]
  cases m.map ref position name <;> rfl

theorem mapReceiver_inC (owner : TypeDef) (receiver : Receiver) :
    m.inC.mapReceiver owner receiver =
      (m.mapReceiver owner receiver).map (Option.map Mapped.inC) := by
  unfold mapReceiver
  cases receiverRef owner receiver with
  | error fault => rfl
  | ok ref =>
    cases ref with
    | none => rfl
    | some ref =>
      simp only [mapIn_inC]
      cases m.mapIn "self: " ref .param [] <;> rfl

theorem mapParams_inC (params : List Param) :
    m.inC.mapParams params = (m.mapParams params).map (List.map Mapped.inC) := by
  have hparam : ∀ p, m.inC.mapParam p = (m.mapParam p).map Mapped.inC := by
    intro p
    rw [mapParam, mapParam, mapIn_inC]
    split_ifs <;> rfl
  induction params with
  | nil => rfl
  | cons p ps ih =>
    rw [mapParams, mapParams, hparam, ih]
    cases m.mapParam p with
    | error fault => rfl
    | ok value => cases m.mapParams ps <;> rfl

theorem outcomeOf_inC (returns : TypeRef) (native : Native) :
    m.inC.outcomeOf returns native =
      (m.outcomeOf returns native).map (Option.map Outcome.inC) := by
  cases returns with
  | fallible ok err =>
    rw [outcomeOf, outcomeOf, mapOutcome, mapOutcome, mapIn_inC, mapIn_inC]
    cases m.mapIn "return: " ok .okPayload [] with
    | error fault => rfl
    | ok okValue => cases m.mapIn "return: " err .errPayload [] <;> rfl
  | _ => rfl

theorem abiParams_inC (receiver : Option Mapped) (params : List Param) (declared : List Mapped)
    (hasWrite : Bool) (passing : Passing) (returns : Native) :
    abiParams (receiver.map Mapped.inC) params (declared.map Mapped.inC) hasWrite passing returns =
      abiParams receiver params declared hasWrite passing returns := by
  unfold abiParams
  rw [List.zip_map_right, List.map_map]
  cases receiver <;> rfl

theorem signature_inC (owner : TypeDef) (method : Method) :
    m.inC.signature owner method = (m.signature owner method).map Signature.inC := by
  have hwidth : m.inC.pointerWidth = m.pointerWidth := rfl
  rw [signature, signature, mapReceiver_inC, mapParams_inC, mapIn_inC, hwidth]
  cases m.mapReceiver owner method.receiver with
  | error fault => rfl
  | ok receiver =>
    cases m.mapParams method.params with
    | error fault => rfl
    | ok declared =>
      cases m.mapIn "return: " method.returns .result (resultName owner method) with
      | error fault => rfl
      | ok returns =>
        simp only [Except.map, Mapped.native_inC, outcomeOf_inC, abiParams_inC]
        cases m.outcomeOf method.returns returns.native <;> rfl

end Mapper

end Bindery
