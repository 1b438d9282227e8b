import Bindery.Signature

/-!
Who owns what across a call. Inputs are copied, borrowed, moved or written to; outputs are copied,
adopted, or borrowed from the borrowed inputs.
-/

set_option autoImplicit false

namespace Bindery

inductive Transfer where
  | none
  | copy
  | borrow
  | borrowMut
  | move
  | sink
  | adopt
  deriving DecidableEq, Repr

namespace Transfer

def name : Transfer → Text
  | none => "none"
  | copy => "copy"
  | borrow => "borrow"
  | borrowMut => "borrow-mut"
  | move => "move"
  | sink => "sink"
  | adopt => "adopt"

def isBorrow : Transfer → Bool
  | borrow | borrowMut => true
  | _ => false

def ofInput : TypeRef → Transfer
  | .unit => none
  | .primitive _ => copy
  | .object _ .owned _ => move
  | .object _ .borrowed isMutable => if isMutable then borrowMut else borrow
  | .record _ byRef => if byRef then borrow else copy
  | .enumeration _ => copy
  | .slice _ isMutable => if isMutable then borrowMut else borrow
  | .writeable => sink
  | .nullable inner => ofInput inner
  | .fallible _ _ => none

end Transfer

namespace Registry

/-- Whether a record holds a handle in some field, directly or in a record inside it. Records
already being looked into, `enclosing`, are not entered again; entering deeper than there are types
repeats one. -/
def holdsBorrowWithin (r : Registry) :
    (depth : Nat) → (enclosing : List TypeId) → TypeId → Bool
  | 0, _, _ => false
  | depth + 1, enclosing, id =>
    match r.find? id with
    | none => false
    | some t =>
      if t.kind ≠ .record ∨ enclosing.contains id then false
      else
        t.fields.any fun f =>
          match f.type.underNullable with
          | .object _ _ _ => true
          | .record inner _ => r.holdsBorrowWithin depth (id :: enclosing) inner
          | _ => false

def holdsBorrow (r : Registry) (id : TypeId) : Bool := r.holdsBorrowWithin (r.size + 1) [] id

def outputTransfer (r : Registry) : TypeRef → Transfer
  | .unit => .none
  | .primitive _ => .copy
  | .object _ .owned _ => .adopt
  | .object _ .borrowed _ => .borrow
  | .record id _ => if r.holdsBorrow id then .borrow else .copy
  | .enumeration _ => .copy
  | .slice _ _ => .borrow
  | .writeable => .copy
  | .nullable inner => r.outputTransfer inner
  | .fallible _ _ => .none

end Registry

structure InputTransfer where
  name : Text
  transfer : Transfer
  deriving DecidableEq, Repr

/-- A borrowed output borrows from the named inputs. -/
structure OutputTransfer where
  transfer : Transfer
  sources : List Text
  deriving DecidableEq, Repr

def OutputTransfer.nothing : OutputTransfer := ⟨.none, []⟩

/-- The transfers of a call. A fallible return has nothing as a whole and an output on each side. -/
structure TransferPlan where
  inputs : List InputTransfer
  returns : OutputTransfer
  sides : Option (OutputTransfer × OutputTransfer)
  deriving DecidableEq, Repr

namespace TransferPlan

def ticked (name : Text) : Text := "`" ++ name ++ "`"

def inputLine (i : InputTransfer) : Option Text :=
  match i.transfer with
  | .borrow => some (ticked i.name ++ " is borrowed for the duration of the call.")
  | .borrowMut => some (ticked i.name ++ " is borrowed mutably for the duration of the call.")
  | .move => some (ticked i.name ++ " is consumed; the caller must not destroy it.")
  | _ => none

def outputLine (what : Text) (o : OutputTransfer) : Option Text :=
  match o.transfer with
  | .adopt => some (what ++ " is owned by the caller.")
  | .borrow =>
    some (what ++ " borrows from " ++ Text.join ", " (o.sources.map ticked) ++
      " and must not outlive it.")
  | _ => none

def describe (p : TransferPlan) : List Text :=
  p.inputs.filterMap inputLine ++ (outputLine "The returned value" p.returns).toList ++
    match p.sides with
    | none => []
    | some (ok, err) =>
      (outputLine "The success value" ok).toList ++ (outputLine "The error value" err).toList

end TransferPlan

namespace Registry

def receiverInput (owner : TypeDef) : Receiver → Option InputTransfer
  | .absent => none
  | .shared => some ⟨selfParam, if owner.kind = .object then .borrow else .copy⟩
  | .exclusive => some ⟨selfParam, .borrowMut⟩
  | .byValue => some ⟨selfParam, if owner.kind = .object then .move else .copy⟩

def inputsOf (owner : TypeDef) (m : Method) : List InputTransfer :=
  (receiverInput owner m.receiver).toList ++
    m.params.map fun p => ⟨p.name, .ofInput p.type⟩

def borrowedNames (inputs : List InputTransfer) : List Text :=
  (inputs.filter fun i => i.transfer.isBorrow).map InputTransfer.name

/-- A borrowed output needs something to borrow from. -/
def output (r : Registry) (borrowed : List Text) (what : Text) (ref : TypeRef) :
    Except Text OutputTransfer :=
  let transfer := r.outputTransfer ref
  if transfer ≠ .borrow then .ok ⟨transfer, []⟩
  else if borrowed.isEmpty then
    .error (what ++ " is borrowed but the method takes no borrowed input it could borrow from")
  else .ok ⟨.borrow, borrowed⟩

def planOutputs (r : Registry) (inputs : List InputTransfer) (returns : TypeRef) :
    Except Text TransferPlan :=
  let borrowed := borrowedNames inputs
  match returns with
  | .fallible ok err =>
    match r.output borrowed "the success value" ok with
    | .error message => .error message
    | .ok okSide =>
      match r.output borrowed "the error value" err with
      | .error message => .error message
      | .ok errSide => .ok ⟨inputs, .nothing, some (okSide, errSide)⟩
  | ref =>
    match r.output borrowed "the return value" ref with
    | .error message => .error message
    | .ok whole => .ok ⟨inputs, whole, none⟩

def planTransfers (r : Registry) (owner : TypeDef) (m : Method) :
    Except Diagnostic TransferPlan :=
  match r.planOutputs (inputsOf owner m) m.returns with
  | .ok plan => .ok plan
  | .error message => .error (.ofMethod .unsupportedType owner m.name message)

def destructors (r : Registry) (enabled : List TypeId) : List (TypeId × Text) :=
  (r.types.filter fun t => t.kind = .object ∧ enabled.contains t.id).map
    fun t => (t.id, destructorSymbol t)

def checkDestructors (r : Registry) (enabled : List TypeId) (owner : TypeDef)
    (ids : List TypeId) : List Diagnostic :=
  let table := r.destructors enabled
  ids.filterMap fun id =>
    match r.find? id with
    | none => none
    | some t =>
      if t.kind = .object ∧ (table.lookup id).isNone then
        some (.ofType .unresolvedReference owner
          ("opaque type " ++ Text.quoted t.name ++ " has no destructor entry"))
      else none

end Registry

end Bindery
