import Bindery.Proofs.Strict.Mapping
import Bindery.Proofs.Mapping.Signatures
import Bindery.Transfer

/-!
Signatures and transfers step by step. How a method returns is read off the native kind of its
return, and the reference is taken apart on the strength of that: a return is represented by a
result record just when it is fallible.
-/

set_option autoImplicit false

namespace Bindery

namespace Mapper

variable {m : Mapper} {layoutOf : TypeDef → Except MapFault Layout}

theorem nullableNative_kind {inner : TypeRef} {value : Mapped} {native : Native}
    (h : m.nullableNative inner value = .ok native) :
    native.kind = .handle ∨ native.kind = .slice ∨ native.kind = .option := by
  unfold nullableNative at h
  cases hkind : value.native.kind with
  | handle | slice =>
    simp only [hkind, Except.ok.injEq] at h
    simp [← h, hkind]
  | scalar | enumeration | record =>
    simp only [hkind] at h
    split_ifs at h
    cases h
    exact .inr (.inr rfl)
  | _ => simp [hkind] at h

/-- The native kind of a mapped reference tells fallible references and texts to be written from
all others. -/
theorem mapWith_kind {ref : TypeRef} {position : Position} {name : Text} {mapped : Mapped}
    (h : m.mapWith layoutOf ref position name = .ok mapped) :
    (mapped.native.kind = .result ↔ ∃ ok err, ref = .fallible ok err) ∧
      (mapped.native.kind = .writeable ↔ ref = .writeable) := by
  cases ref with
  | unit =>
    obtain ⟨-, rfl⟩ := mapUnit_eq_ok_iff.mp h
    simp
  | primitive p =>
    cases h
    simp [mapPrimitive]
  | object id ownership isMutable =>
    obtain ⟨t, native, -, -, rfl, rfl⟩ := mapObject_eq_ok_iff.mp h
    simp
  | record id byRef =>
    obtain ⟨t, layout, native, -, -, -, rfl, rfl⟩ := mapRecord_eq_ok_iff.mp h
    cases byRef <;> simp
  | enumeration id =>
    obtain ⟨t, -, -, rfl⟩ := mapEnumeration_eq_ok_iff.mp h
    simp
  | slice view isMutable =>
    obtain ⟨-, native, rfl, rfl⟩ := mapSlice_eq_ok_iff.mp h
    simp
  | writeable =>
    obtain ⟨-, -, native, rfl, rfl⟩ := mapWriteable_eq_ok_iff.mp h
    simp
  | nullable inner =>
    obtain ⟨-, value, native, -, hnative, rfl⟩ := mapWith_nullable_eq_ok_iff.mp h
    rcases nullableNative_kind hnative with hkind | hkind | hkind <;> simp [hkind]
  | fallible ok err =>
    obtain ⟨-, -, okValue, errValue, native, -, -, rfl, rfl⟩ := mapWith_fallible_eq_ok_iff.mp h
    simp

end Mapper

namespace Strict

def mapIn (m : Mapper) (context : Text) (ref : TypeRef) (position : Position)
    (resultName : Text) : Step (Except SignatureFault Mapped) := do
  match ← map m ref position resultName with
  | .ok mapped => return .ok mapped
  | .error fault => return .error (.rejected context ref position fault)

def mapReceiver (m : Mapper) (owner : TypeDef) (receiver : Receiver) :
    Step (Except SignatureFault (Option Mapped)) := do
  match Mapper.receiverRef owner receiver with
  | .error fault => return .error fault
  | .ok none => return .ok none
  | .ok (some ref) =>
    match ← mapIn m "self: " ref .param [] with
    | .error fault => return .error fault
    | .ok mapped => return .ok (some mapped)

def mapParam (m : Mapper) (p : Param) : Step (Except SignatureFault Mapped) :=
  if hiddenNames.contains p.name then return .error (.hiddenName p.name)
  else mapIn m ("parameter " ++ Text.quoted p.name ++ ": ") p.type .param []

def mapParams (m : Mapper) : List Param → Step (Except SignatureFault (List Mapped))
  | [] => return .ok []
  | p :: ps => do
    match ← mapParam m p with
    | .error fault => return .error fault
    | .ok mapped =>
      match ← mapParams m ps with
      | .error fault => return .error fault
      | .ok rest => return .ok (mapped :: rest)

def sidesOf : TypeRef → Step (TypeRef × TypeRef)
  | .fallible ok err => .ok (ok, err)
  | _ => .error .wrongForm

/-- Whether text is written through a hidden parameter, by the native kind of the return. -/
def writesText (returns : TypeRef) (native : Native) : Step Bool := do
  match native.kind with
  | .writeable => return true
  | .result =>
    let (ok, _) ← sidesOf returns
    return ok = .writeable
  | _ => return false

def outcomeOf (m : Mapper) (returns : TypeRef) (native : Native) :
    Step (Except SignatureFault (Option Outcome)) := do
  match native.kind with
  | .result =>
    let (ok, err) ← sidesOf returns
    let okSide ← mapIn m "return: " ok .okPayload []
    let errSide ← mapIn m "return: " err .errPayload []
    match okSide, errSide with
    | .error fault, _ => return .error fault
    | _, .error fault => return .error fault
    | .ok okMapped, .ok errMapped =>
      return .ok (some ⟨Mapper.resultRecord native okMapped errMapped, okMapped, errMapped⟩)
  | _ => return .ok none

def signature (m : Mapper) (owner : TypeDef) (method : Method) :
    Step (Except SignatureFault Signature) := do
  match ← mapReceiver m owner method.receiver with
  | .error fault => return .error fault
  | .ok receiver =>
    match ← mapParams m method.params with
    | .error fault => return .error fault
    | .ok declared =>
      match ← mapIn m "return: " method.returns .result (resultName owner method) with
      | .error fault => return .error fault
      | .ok returns =>
        let hasWrite ← writesText method.returns returns.native
        match ← outcomeOf m method.returns returns.native with
        | .error fault => return .error fault
        | .ok outcome =>
          let passing := Mapper.passingOf returns.native m.pointerWidth
          return .ok {
            symbol := methodSymbol owner method
            cReturn := if passing = .direct then returns.native.cType else "void"
            params :=
              Mapper.abiParams receiver method.params declared hasWrite passing returns.native
            passing
            hasWrite
            receiver
            declared
            returns
            outcome }

section
variable {m : Mapper} (hwidth : m.KnownWidth)
include hwidth

theorem mapIn_eq (context : Text) (ref : TypeRef) (position : Position) (name : Text) :
    mapIn m context ref position name = .ok (m.mapIn context ref position name) := by
  rw [mapIn, map_eq hwidth, ok_bind, Mapper.mapIn]
  cases m.map ref position name <;> rfl

theorem mapReceiver_eq (owner : TypeDef) (receiver : Receiver) :
    mapReceiver m owner receiver = .ok (m.mapReceiver owner receiver) := by
  unfold mapReceiver Mapper.mapReceiver
  cases Mapper.receiverRef owner receiver with
  | error fault => rfl
  | ok ref? =>
    cases ref? with
    | none => rfl
    | some ref =>
      simp only [mapIn_eq hwidth, ok_bind]
      cases m.mapIn "self: " ref .param [] <;> rfl

theorem mapParams_eq (params : List Param) :
    mapParams m params = .ok (m.mapParams params) := by
  induction params with
  | nil => rfl
  | cons p ps ih =>
    have hp : mapParam m p = .ok (m.mapParam p) := by
      unfold mapParam Mapper.mapParam
      split_ifs
      · rfl
      · exact mapIn_eq hwidth _ _ _ _
    rw [mapParams, Mapper.mapParams, hp, ok_bind]
    cases m.mapParam p with
    | error fault => rfl
    | ok mapped =>
      simp only [ih, ok_bind]
      cases m.mapParams ps <;> rfl

omit hwidth in
theorem writesText_eq {returns : TypeRef} {position : Position} {name : Text} {mapped : Mapped}
    (h : m.map returns position name = .ok mapped) :
    writesText returns mapped.native = .ok (Mapper.writesText returns) := by
  obtain ⟨hresult, hwriteable⟩ := Mapper.mapWith_kind h
  cases returns with
  | fallible ok err =>
    rw [writesText, hresult.mpr ⟨ok, err, rfl⟩]
    cases ok <;> rfl
  | writeable =>
    rw [writesText, hwriteable.mpr rfl]
    rfl
  | _ =>
    unfold writesText
    split
    next hkind => exact absurd (hwriteable.mp hkind) (by simp)
    next hkind => exact absurd (hresult.mp hkind) (by simp)
    next => rfl

theorem outcomeOf_eq {returns : TypeRef} {position : Position} {name : Text} {mapped : Mapped}
    (h : m.map returns position name = .ok mapped) :
    outcomeOf m returns mapped.native = .ok (m.outcomeOf returns mapped.native) := by
  obtain ⟨hresult, -⟩ := Mapper.mapWith_kind h
  cases returns with
  | fallible ok err =>
    rw [outcomeOf, hresult.mpr ⟨ok, err, rfl⟩, Mapper.outcomeOf, Mapper.mapOutcome]
    simp only [sidesOf, mapIn_eq hwidth, ok_bind]
    cases m.mapIn "return: " ok .okPayload [] with
    | error fault => rfl
    | ok okMapped => cases m.mapIn "return: " err .errPayload [] <;> rfl
  | _ =>
    unfold outcomeOf
    split
    next hkind => exact absurd (hresult.mp hkind) (by simp)
    next => rfl

theorem signature_eq (owner : TypeDef) (method : Method) :
    signature m owner method = .ok (m.signature owner method) := by
  rw [signature, Mapper.signature, mapReceiver_eq hwidth, ok_bind]
  cases m.mapReceiver owner method.receiver with
  | error fault => rfl
  | ok receiver =>
    simp only [mapParams_eq hwidth, ok_bind]
    cases m.mapParams method.params with
    | error fault => rfl
    | ok declared =>
      simp only [mapIn_eq hwidth, ok_bind]
      cases hreturns : m.mapIn "return: " method.returns .result (resultName owner method) with
      | error fault => rfl
      | ok returns =>
        have hmap := Mapper.mapIn_eq_ok_iff.mp hreturns
        simp only [writesText_eq hmap, outcomeOf_eq hwidth hmap, ok_bind]
        cases m.outcomeOf method.returns returns.native <;> rfl

end

def holdsBorrowWithin (r : Registry) :
    (depth : Nat) → (enclosing : List TypeId) → TypeId → Step Bool
  | 0, _, _ => return false
  | depth + 1, enclosing, id => do
    match ← findType r id with
    | none => return false
    | some t =>
      if t.kind ≠ .record ∨ enclosing.contains id then return false
      else
        let fields ← fieldsOf t
        fields.anyM fun f =>
          match f.type.underNullable with
          | .object _ _ _ => return true
          | .record inner _ => holdsBorrowWithin r depth (id :: enclosing) inner
          | _ => return false

def outputTransfer (r : Registry) : TypeRef → Step Transfer
  | .record id _ => do
    if ← holdsBorrowWithin r (r.size + 1) [] id then return .borrow else return .copy
  | .nullable inner => outputTransfer r inner
  | ref => return r.outputTransfer ref

def output (r : Registry) (borrowed : List Text) (what : Text) (ref : TypeRef) :
    Step (Except Text OutputTransfer) := do
  let transfer ← outputTransfer r ref
  if transfer ≠ .borrow then return .ok ⟨transfer, []⟩
  else if borrowed.isEmpty then
    return .error
      (what ++ " is borrowed but the method takes no borrowed input it could borrow from")
  else return .ok ⟨.borrow, borrowed⟩

def planOutputs (r : Registry) (inputs : List InputTransfer) (returns : TypeRef) :
    Step (Except Text TransferPlan) := do
  let borrowed := Registry.borrowedNames inputs
  match returns with
  | .fallible ok err =>
    match ← output r borrowed "the success value" ok with
    | .error message => return .error message
    | .ok okSide =>
      match ← output r borrowed "the error value" err with
      | .error message => return .error message
      | .ok errSide => return .ok ⟨inputs, .nothing, some (okSide, errSide)⟩
  | ref =>
    match ← output r borrowed "the return value" ref with
    | .error message => return .error message
    | .ok whole => return .ok ⟨inputs, whole, none⟩

def planTransfers (r : Registry) (owner : TypeDef) (m : Method) :
    Step (Except Diagnostic TransferPlan) := do
  match ← planOutputs r (Registry.inputsOf owner m) m.returns with
  | .ok plan => return .ok plan
  | .error message => return .error (.ofMethod .unsupportedType owner m.name message)

def destructorProblem? (r : Registry) (table : List (TypeId × Text)) (owner : TypeDef)
    (id : TypeId) : Step (Option Diagnostic) := do
  match ← findType r id with
  | none => return none
  | some t =>
    if t.kind = .object ∧ (table.lookup id).isNone then
      return some (.ofType .unresolvedReference owner
        ("opaque type " ++ Text.quoted t.name ++ " has no destructor entry"))
    else return none

def checkDestructors (r : Registry) (enabled : List TypeId) (owner : TypeDef)
    (ids : List TypeId) : Step (List Diagnostic) := do
  let found ← ids.mapM (destructorProblem? r (r.destructors enabled) owner)
  return found.filterMap id

theorem holdsBorrowWithin_eq (r : Registry) (depth : Nat) (enclosing : List TypeId)
    (id : TypeId) :
    holdsBorrowWithin r depth enclosing id = .ok (r.holdsBorrowWithin depth enclosing id) := by
  induction depth generalizing enclosing id with
  | zero => rfl
  | succ depth ih =>
    rw [holdsBorrowWithin, findType_eq, ok_bind, Registry.holdsBorrowWithin]
    cases r.find? id with
    | none => rfl
    | some t =>
      by_cases hskip : t.kind ≠ .record ∨ enclosing.contains id
      · simp only [if_pos hskip]
        rfl
      · have hkind : t.kind = .record := by
          by_contra hne
          exact hskip (.inl hne)
        simp only [if_neg hskip, fieldsOf_eq hkind, ok_bind]
        refine anyM_eq_ok fun f _ => ?_
        cases f.type.underNullable with
        | record inner byRef => exact ih (id :: enclosing) inner
        | _ => rfl

theorem outputTransfer_eq (r : Registry) (ref : TypeRef) :
    outputTransfer r ref = .ok (r.outputTransfer ref) := by
  induction ref with
  | record id byRef =>
    rw [outputTransfer, holdsBorrowWithin_eq, ok_bind, Registry.outputTransfer,
      Registry.holdsBorrow]
    split_ifs <;> rfl
  | nullable inner ih => exact ih
  | _ => rfl

theorem output_eq (r : Registry) (borrowed : List Text) (what : Text) (ref : TypeRef) :
    output r borrowed what ref = .ok (r.output borrowed what ref) := by
  rw [output, outputTransfer_eq, ok_bind, Registry.output]
  split_ifs <;> rfl

theorem planTransfers_eq (r : Registry) (owner : TypeDef) (m : Method) :
    planTransfers r owner m = .ok (r.planTransfers owner m) := by
  have houtputs : planOutputs r (Registry.inputsOf owner m) m.returns =
      .ok (r.planOutputs (Registry.inputsOf owner m) m.returns) := by
    unfold planOutputs Registry.planOutputs
    cases m.returns with
    | fallible ok err =>
      simp only [output_eq, ok_bind]
      cases r.output _ "the success value" ok with
      | error message => rfl
      | ok okSide => cases r.output _ "the error value" err <;> rfl
    | _ =>
      simp only [output_eq, ok_bind]
      cases r.output _ "the return value" _ <;> rfl
  rw [planTransfers, houtputs, ok_bind, Registry.planTransfers]
  cases r.planOutputs (Registry.inputsOf owner m) m.returns <;> rfl

theorem checkDestructors_eq (r : Registry) (enabled : List TypeId) (owner : TypeDef)
    (ids : List TypeId) :
    checkDestructors r enabled owner ids = .ok (r.checkDestructors enabled owner ids) := by
  have hproblem : ∀ id ∈ ids, destructorProblem? r (r.destructors enabled) owner id =
      .ok (match r.find? id with
        | none => none
        | some t =>
          if t.kind = .object ∧ ((r.destructors enabled).lookup id).isNone then
            some (.ofType .unresolvedReference owner
              ("opaque type " ++ Text.quoted t.name ++ " has no destructor entry"))
          else none) := by
    intro id _
    rw [destructorProblem?, findType_eq, ok_bind]
    cases r.find? id with
    | none => rfl
    | some t =>
      simp only
      split_ifs <;> rfl
  rw [checkDestructors, mapM_eq_ok hproblem, ok_bind, List.filterMap_map]
  rfl

end Strict

end Bindery
