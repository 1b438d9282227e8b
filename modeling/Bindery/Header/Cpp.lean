import Bindery.Header.Basic
import Bindery.Header.Conversion

/-!
Declarations of the C++ headers: forward declarations, classes over handles, structures over
records, enumerations, synonyms, and the inline definitions that call the C functions.
-/

set_option autoImplicit false

namespace Bindery

def asFFI : Text := "AsFFI"

def fromFFI : Text := "FromFFI"

/-- The host name of a member or parameter of a type: escaped, and kept apart from the type, its
conversions, generated locals and the other types. -/
def hostIdentifier (names : Names) (owner name : Text) : Text :=
  let id := Identifier.escape name
  if id = owner ∨ id = asFFI ∨ id = fromFFI ∨ Text.startsWith id "ffi_" ∨ names.hasType id then
    id ++ "_"
  else id

structure HostParam where
  type : Text
  name : Text
  deriving DecidableEq, Repr

structure HostMethod where
  name : Text
  returns : Text
  params : List HostParam
  isStatic : Bool
  isConst : Bool
  deriving DecidableEq, Repr

structure HostField where
  docs : Text
  type : Text
  name : Text
  deriving DecidableEq, Repr

structure HostVariant where
  docs : Text
  name : Text
  value : Int64
  deriving DecidableEq, Repr

structure HostMethodDecl where
  docs : Text
  contract : List Text
  method : HostMethod
  deriving DecidableEq, Repr

inductive CppDecl where
  /-- Types announced before they are defined. -/
  | forwards (types : List (Kind × Text))
  | handleClass (docs name : Text) (methods : List HostMethodDecl)
  | record (docs name : Text) (fields : List HostField) (methods : List HostMethodDecl)
  | enumeration (docs name : Text) (variants : List HostVariant)
  | synonym (docs name target : Text)
  /-- The definition of a method, with the locals and the lines of its body. -/
  | definition (owner : Text) (method : HostMethod) (locals : List Text) (body : List Text)
  | handleConversions (name : Text) (destructor : Option Text)
  | recordConversions (name : Text) (lowered lifted : List Text)
  | support (lines : List Text)
  deriving DecidableEq, Repr

namespace CppDecl

def margin : Text := "    "

def paramText (p : HostParam) : Text := p.type ++ " " ++ p.name

/-- Name, parameters and qualifier of a method, `owner` coming before the name. -/
def signatureText (owner : Text) (m : HostMethod) : Text :=
  m.returns ++ " " ++ owner ++ m.name ++ "(" ++ Text.join ", " (m.params.map paramText) ++ ")" ++
    (if m.isConst then " const" else "")

def methodText (d : HostMethodDecl) : Text :=
  docComment margin d.docs d.contract ++ margin ++ (if d.method.isStatic then "static " else "") ++
    signatureText [] d.method ++ ";\n\n"

def fieldText (f : HostField) : Text :=
  docComment margin f.docs [] ++ margin ++ f.type ++ " " ++ f.name ++ ";\n"

def variantText (v : HostVariant) : Text :=
  docComment margin v.docs [] ++ margin ++ v.name ++ " = " ++ decimalInt v.value.toInt ++ ",\n"

/-- A synonym cannot be announced. -/
def forwardText (t : Kind × Text) : Text :=
  match t.1 with
  | .object => "class " ++ t.2 ++ ";\n"
  | .record => "struct " ++ t.2 ++ ";\n"
  | .enumeration => "enum class " ++ t.2 ++ " : int32_t;\n"
  | .synonym => []

/-- The end of a class over a handle: its conversions, and no way to make, copy or move one. -/
def handleClassEnd (n : Text) : List Text :=
  ["    inline const ::" ++ n ++ "* AsFFI() const;",
    "    inline ::" ++ n ++ "* AsFFI();",
    "    inline static const " ++ n ++ "* FromFFI(const ::" ++ n ++ "* ptr);",
    "    inline static " ++ n ++ "* FromFFI(::" ++ n ++ "* ptr);",
    "",
    "private:",
    "    " ++ n ++ "() = delete;",
    "    " ++ n ++ "(const " ++ n ++ "&) = delete;",
    "    " ++ n ++ "(" ++ n ++ "&&) noexcept = delete;",
    "    " ++ n ++ "& operator=(const " ++ n ++ "&) = delete;",
    "    " ++ n ++ "& operator=(" ++ n ++ "&&) noexcept = delete;",
    "    static void operator delete(void* ptr);",
    "",
    "    friend struct std::default_delete<" ++ n ++ ">;",
    "\x7d;",
    ""]

def handleConversionLines (n : Text) : List Text :=
  ["inline const ::" ++ n ++ "* " ++ n ++ "::AsFFI() const \x7b",
    "    return reinterpret_cast<const ::" ++ n ++ "*>(this);",
    "\x7d",
    "",
    "inline ::" ++ n ++ "* " ++ n ++ "::AsFFI() \x7b",
    "    return reinterpret_cast<::" ++ n ++ "*>(this);",
    "\x7d",
    "",
    "inline const " ++ n ++ "* " ++ n ++ "::FromFFI(const ::" ++ n ++ "* ptr) \x7b",
    "    return reinterpret_cast<const " ++ n ++ "*>(ptr);",
    "\x7d",
    "",
    "inline " ++ n ++ "* " ++ n ++ "::FromFFI(::" ++ n ++ "* ptr) \x7b",
    "    return reinterpret_cast<" ++ n ++ "*>(ptr);",
    "\x7d",
    ""]

def deleteLines (n destructor : Text) : List Text :=
  ["inline void " ++ n ++ "::operator delete(void* ptr) \x7b",
    "    ::" ++ destructor ++ "(reinterpret_cast<::" ++ n ++ "*>(ptr));",
    "\x7d",
    ""]

def itemLine (item : Text) : Text := "        " ++ item ++ ",\n"

def aggregateFunction (head type : Text) (items : List Text) : Text :=
  head ++ " \x7b\n    return " ++ type ++ "\x7b\n" ++ items.flatMap itemLine ++
    "    \x7d;\n\x7d\n\n"

def bodyLine (line : Text) : Text := margin ++ line ++ "\n"

def text : CppDecl → Text
  | forwards types => if types.isEmpty then [] else types.flatMap forwardText ++ "\n"
  | handleClass docs name methods =>
    docComment [] docs [] ++ "class " ++ name ++ " \x7b\npublic:\n" ++ methods.flatMap methodText ++
      (handleClassEnd name).flatMap Text.closed
  | record docs name fields methods =>
    docComment [] docs [] ++ "struct " ++ name ++ " \x7b\n" ++ fields.flatMap fieldText ++ "\n" ++
      methods.flatMap methodText ++ "    inline ::" ++ name ++ " AsFFI() const;\n" ++
      "    inline static " ++ name ++ " FromFFI(::" ++ name ++ " c_struct);\n\x7d;\n\n"
  | enumeration docs name variants =>
    docComment [] docs [] ++ "enum class " ++ name ++ " : int32_t \x7b\n" ++
      variants.flatMap variantText ++ "\x7d;\n\n"
  | synonym docs name target =>
    docComment [] docs [] ++ "using " ++ name ++ " = " ++ target ++ ";\n\n"
  | definition owner method _ body =>
    "inline " ++ signatureText (owner ++ "::") method ++ " \x7b\n" ++ body.flatMap bodyLine ++
      "\x7d\n\n"
  | handleConversions name destructor =>
    (handleConversionLines name ++ destructor.toList.flatMap (deleteLines name)).flatMap Text.closed
  | recordConversions n lowered lifted =>
    aggregateFunction ("inline ::" ++ n ++ " " ++ n ++ "::AsFFI() const") ("::" ++ n) lowered ++
      aggregateFunction ("inline " ++ n ++ " " ++ n ++ "::FromFFI(::" ++ n ++ " c_struct)") n lifted
  | support lines => lines.flatMap Text.closed ++ "\n"

end CppDecl

abbrev CppHeader := Header CppDecl

def CppHeader.text (h : CppHeader) : Text := Header.render CppDecl.text h

namespace HostMethod

/-- An object passed by value leaves its owner, so the method is static and takes it first. -/
def ofPlan (names : Names) (owner : TypeDef) (p : MethodPlan) : HostMethod :=
  let consumed : List HostParam :=
    if p.method.receiver = .byValue ∧ owner.kind = .object then
      p.signature.receiver.toList.map fun r => ⟨r.host, selfParam⟩
    else []
  { name := hostIdentifier names owner.name p.method.name
    returns := p.signature.returns.host
    params := consumed ++ (p.method.params.zip p.signature.declared).map fun (param, mapped) =>
      ⟨mapped.host, hostIdentifier names owner.name param.name⟩
    isStatic := p.method.receiver = .absent ∨
      (p.method.receiver = .byValue ∧ owner.kind = .object)
    isConst := p.method.receiver = .shared ∨
      (p.method.receiver = .byValue ∧ owner.kind ≠ .object) }

end HostMethod

namespace MethodBody

def resultLocal : Text := "ffi_result"

def outputLocal : Text := "ffi_output"

def writerLocal : Text := "ffi_writer"

def argLocal (hostName : Text) : Text := "ffi_arg_" ++ hostName

def lowerParams (names : Names) (owner : TypeDef) (params : List Param) : List Lowered :=
  params.map fun p =>
    let hostName := hostIdentifier names owner.name p.name
    Conversion.lower names p.type .param hostName (argLocal hostName)

def receiverArg (owner : TypeDef) (receiver : Receiver) : List Text :=
  match receiver with
  | .absent => []
  | .byValue =>
    if owner.kind = .object then [Conversion.lowerObject .owned .param selfParam]
    else ["this->AsFFI()"]
  | _ => ["this->AsFFI()"]

def callText (names : Names) (owner : TypeDef) (p : MethodPlan) : Text :=
  let args :=
    receiverArg owner p.method.receiver ++
      (lowerParams names owner p.method.params).map Lowered.value ++
      (if p.signature.hasWrite then [ascii "&ffi_writer"] else []) ++
      (if p.signature.passing = .out then [ascii "&ffi_result"] else [])
  "::" ++ p.signature.symbol ++ "(" ++ Text.join ", " args ++ ")"

def callLines (names : Names) (owner : TypeDef) (p : MethodPlan) : List Text :=
  let call := callText names owner p
  match p.signature.passing with
  | .void => [call ++ ";"]
  | .direct => ["auto ffi_result = " ++ call ++ ";"]
  | .out => [p.signature.returns.native.qualified ++ " ffi_result\x7b\x7d;", call ++ ";"]

def payload (names : Names) (ref : TypeRef) (mapped : Mapped) (position : Position)
    (expr : Text) : Text :=
  match mapped.native.kind with
  | .void => Conversion.emptyValue
  | .writeable => "std::move(ffi_output)"
  | _ => Conversion.lift names ref mapped.host position expr

def outcomeLines (names : Names) (returns : TypeRef) (o : Outcome) : List Text :=
  match returns with
  | .fallible ok err =>
    ["if (ffi_result.is_ok) \x7b",
      "    return weld_rt::Ok<" ++ o.ok.host ++ ">(" ++
        payload names ok o.ok .okPayload "ffi_result.ok" ++ ");",
      "\x7d",
      "return weld_rt::Err<" ++ o.err.host ++ ">(" ++
        payload names err o.err .errPayload "ffi_result.err" ++ ");"]
  | _ => []

def returnLines (names : Names) (p : MethodPlan) : List Text :=
  match p.signature.outcome with
  | some o => outcomeLines names p.method.returns o
  | none =>
    match p.signature.returns.native.kind with
    | .writeable => ["return ffi_output;"]
    | .void => []
    | _ =>
      ["return " ++ Conversion.lift names p.method.returns p.signature.returns.host .result
        "ffi_result" ++ ";"]

def writerLines (hasWrite : Bool) : List Text :=
  if hasWrite then
    ["std::string ffi_output;",
      "::WeldWriteable ffi_writer = weld_rt::WriteToString(ffi_output);"]
  else []

def flushLines (hasWrite : Bool) : List Text :=
  if hasWrite then ["::weld_writeable_flush(&ffi_writer);"] else []

def locals (names : Names) (owner : TypeDef) (p : MethodPlan) : List Text :=
  (lowerParams names owner p.method.params).flatMap Lowered.locals ++
    (if p.signature.hasWrite then [outputLocal, writerLocal] else []) ++
    (if p.signature.passing = .void then [] else [resultLocal])

def lines (names : Names) (owner : TypeDef) (p : MethodPlan) : List Text :=
  let lowered := lowerParams names owner p.method.params
  lowered.flatMap Lowered.before ++ writerLines p.signature.hasWrite ++
    callLines names owner p ++ lowered.flatMap Lowered.after ++
    flushLines p.signature.hasWrite ++ returnLines names p

end MethodBody

def MethodPlan.declaration (names : Names) (owner : TypeDef) (p : MethodPlan) : HostMethodDecl :=
  ⟨p.method.docs, p.transfers.describe, .ofPlan names owner p⟩

def MethodPlan.definition (names : Names) (owner : TypeDef) (p : MethodPlan) : CppDecl :=
  .definition owner.name (.ofPlan names owner p) (MethodBody.locals names owner p)
    (MethodBody.lines names owner p)

end Bindery
