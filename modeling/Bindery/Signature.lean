import Bindery.Mapping.Mapper
import Bindery.Sorted

/-!
The C signature of a method: the receiver, the declared parameters, and the hidden parameters for
text that is written and for values that do not fit a register.
-/

set_option autoImplicit false

namespace Bindery

def methodSymbol (owner : TypeDef) (m : Method) : Text := owner.name ++ "_" ++ m.name

def destructorSymbol (t : TypeDef) : Text := t.name ++ "_destroy"

def resultName (owner : TypeDef) (m : Method) : Text := methodSymbol owner m ++ "_result"

def selfParam : Text := "self"

def writeParam : Text := "write"

def outParam : Text := "out"

def hiddenNames : List Text := [selfParam, writeParam, outParam]

inductive ParamRole where
  | self
  | declared
  | write
  | out
  deriving DecidableEq, Repr

structure AbiParam where
  name : Text
  cType : Text
  role : ParamRole
  deriving DecidableEq, Repr

inductive Passing where
  | void
  | direct
  | out
  deriving DecidableEq, Repr

/-- The record a fallible method fills in; a side without a value has no member. -/
structure ResultRecord where
  name : Text
  ok : Option Text
  err : Option Text
  layout : Layout
  deriving DecidableEq, Repr

structure Outcome where
  record : ResultRecord
  ok : Mapped
  err : Mapped
  deriving DecidableEq, Repr

structure Signature where
  symbol : Text
  cReturn : Text
  params : List AbiParam
  passing : Passing
  hasWrite : Bool
  receiver : Option Mapped
  declared : List Mapped
  returns : Mapped
  outcome : Option Outcome
  deriving DecidableEq, Repr

namespace Signature

def parameterText (p : AbiParam) : Text := p.cType ++ " " ++ Identifier.escape p.name

def prototype (s : Signature) : Text :=
  s.cReturn ++ " " ++ s.symbol ++ "(" ++
    (if s.params.isEmpty then ascii "void" else Text.join ", " (s.params.map parameterText)) ++ ")"

def idBefore (a b : TypeId) : Bool := a < b

/-- The types a signature refers to, each once, in increasing order. -/
def deps (s : Signature) : List TypeId :=
  Sorted.ofList idBefore
    ((s.receiver.toList ++ s.declared ++ [s.returns]).flatMap Mapped.deps)

end Signature

inductive SignatureFault where
  | exclusiveRecord
  | noMethods (kind : Kind)
  | hiddenName (name : Text)
  | rejected (context : Text) (ref : TypeRef) (position : Position) (fault : MapFault)
  deriving DecidableEq, Repr

namespace SignatureFault

def kind : SignatureFault → ErrorKind
  | exclusiveRecord => .unsupportedType
  | noMethods _ => .unsupportedType
  | hiddenName _ => .namingConflict
  | rejected _ _ _ fault => fault.kind

def message : SignatureFault → Text
  | exclusiveRecord => "struct methods cannot take self by mutable reference"
  | noMethods kind => kind.name ++ " types cannot have methods"
  | hiddenName name =>
    "parameter name " ++ Text.quoted name ++ " is reserved for a hidden parameter"
  | rejected context _ _ fault => context ++ fault.message

def diagnostic (f : SignatureFault) (owner : TypeDef) (m : Method) : Diagnostic :=
  .ofMethod f.kind owner m.name f.message

end SignatureFault

namespace Mapper

def receiverRef (owner : TypeDef) (receiver : Receiver) :
    Except SignatureFault (Option TypeRef) :=
  match receiver, owner.kind with
  | .absent, _ => .ok none
  | .shared, .object => .ok (some (.object owner.id .borrowed false))
  | .exclusive, .object => .ok (some (.object owner.id .borrowed true))
  | .byValue, .object => .ok (some (.object owner.id .owned false))
  | .exclusive, .record => .error .exclusiveRecord
  | _, .record => .ok (some (.record owner.id false))
  | _, kind => .error (.noMethods kind)

def mapIn (m : Mapper) (context : Text) (ref : TypeRef) (position : Position)
    (resultName : Text) : Except SignatureFault Mapped :=
  match m.map ref position resultName with
  | .ok mapped => .ok mapped
  | .error fault => .error (.rejected context ref position fault)

def mapReceiver (m : Mapper) (owner : TypeDef) (receiver : Receiver) :
    Except SignatureFault (Option Mapped) :=
  match receiverRef owner receiver with
  | .error fault => .error fault
  | .ok none => .ok none
  | .ok (some ref) =>
    match m.mapIn "self: " ref .param [] with
    | .error fault => .error fault
    | .ok mapped => .ok (some mapped)

def mapParam (m : Mapper) (p : Param) : Except SignatureFault Mapped :=
  if hiddenNames.contains p.name then .error (.hiddenName p.name)
  else m.mapIn ("parameter " ++ Text.quoted p.name ++ ": ") p.type .param []

def mapParams (m : Mapper) : List Param → Except SignatureFault (List Mapped)
  | [] => .ok []
  | p :: ps =>
    match m.mapParam p with
    | .error fault => .error fault
    | .ok mapped =>
      match m.mapParams ps with
      | .error fault => .error fault
      | .ok rest => .ok (mapped :: rest)

def payloadMember (mapped : Mapped) : Option Text :=
  if mapped.native.isPayload then some mapped.native.cType else none

def mapOutcome (m : Mapper) (ok err : TypeRef) (native : Native) :
    Except SignatureFault Outcome :=
  match m.mapIn "return: " ok .okPayload [] with
  | .error fault => .error fault
  | .ok okMapped =>
    match m.mapIn "return: " err .errPayload [] with
    | .error fault => .error fault
    | .ok errMapped =>
      .ok ⟨⟨native.cType, payloadMember okMapped, payloadMember errMapped, native.layout⟩,
        okMapped, errMapped⟩

def outcomeOf (m : Mapper) (returns : TypeRef) (native : Native) :
    Except SignatureFault (Option Outcome) :=
  match returns with
  | .fallible ok err =>
    match m.mapOutcome ok err native with
    | .error fault => .error fault
    | .ok outcome => .ok (some outcome)
  | _ => .ok none

def writesText : TypeRef → Bool
  | .writeable => true
  | .fallible .writeable _ => true
  | _ => false

def passingOf (native : Native) (pointerWidth : Int) : Passing :=
  match native.kind with
  | .void => .void
  | .writeable => .void
  | .result => .out
  | _ => if native.layout.fitsRegister pointerWidth then .direct else .out

/-- The parameters in order: receiver, declared ones, text to write, place for the result. -/
def abiParams (receiver : Option Mapped) (params : List Param) (declared : List Mapped)
    (hasWrite : Bool) (passing : Passing) (returns : Native) : List AbiParam :=
  receiver.toList.map (fun r => ⟨selfParam, r.native.cType, .self⟩) ++
    (params.zip declared).map (fun (p, d) => ⟨p.name, d.native.cType, .declared⟩) ++
    (if hasWrite then [⟨writeParam, "WeldWriteable*", .write⟩] else []) ++
    (if passing = .out then [⟨outParam, returns.cType ++ "*", .out⟩] else [])

def signature (m : Mapper) (owner : TypeDef) (method : Method) :
    Except SignatureFault Signature :=
  match m.mapReceiver owner method.receiver with
  | .error fault => .error fault
  | .ok receiver =>
    match m.mapParams method.params with
    | .error fault => .error fault
    | .ok declared =>
      match m.mapIn "return: " method.returns .result (resultName owner method) with
      | .error fault => .error fault
      | .ok returns =>
        match m.outcomeOf method.returns returns.native with
        | .error fault => .error fault
        | .ok outcome =>
          let hasWrite := writesText method.returns
          let passing := passingOf returns.native m.pointerWidth
          .ok {
            symbol := methodSymbol owner method
            cReturn := if passing = .direct then returns.native.cType else "void"
            params := abiParams receiver method.params declared hasWrite passing returns.native
            passing
            hasWrite
            receiver
            declared
            returns
            outcome }

end Mapper

/-- Symbols of a type's methods that repeat an earlier one or the destructor. -/
def symbolProblems (owner : TypeDef) : (seen : List Text) → List Method → List Diagnostic
  | _, [] => []
  | seen, m :: ms =>
    let symbol := methodSymbol owner m
    if owner.kind = .object ∧ symbol = destructorSymbol owner then
      .ofMethod .namingConflict owner m.name
        ("symbol " ++ Text.quoted symbol ++ " collides with the destructor") ::
        symbolProblems owner seen ms
    else if seen.contains symbol then
      .ofMethod .namingConflict owner m.name
        ("symbol " ++ Text.quoted symbol ++ " is defined twice") :: symbolProblems owner seen ms
    else symbolProblems owner (symbol :: seen) ms

def checkSymbols (owner : TypeDef) (methods : List Method) : List Diagnostic :=
  symbolProblems owner [] methods

end Bindery
