import Bindery.Generation.Plan

/-!
Values crossing between C++ and C. Lowering a host expression may need statements before and after
the call and a local between them; lifting a C value is an expression alone.
-/

set_option autoImplicit false

namespace Bindery

/-- A lowered value: the C expression, the statements around the call, and the locals they
declare. -/
structure Lowered where
  value : Text
  before : List Text
  after : List Text
  locals : List Text
  deriving DecidableEq, Repr

namespace Lowered

def plain (value : Text) : Lowered := ⟨value, [], [], []⟩

def wrap (l : Lowered) (f : Text → Text) : Lowered := { l with value := f l.value }

end Lowered

/-- The C spelling with `::` before the name, so that it never means the host type of that name. -/
def Native.qualified (n : Native) : Text :=
  match n.kind with
  | .handle | .recordPtr =>
    match Text.after? "const " n.cType with
    | some rest => "const ::" ++ rest
    | none => "::" ++ n.cType
  | .enumeration | .record | .slice | .option | .writeable | .result => "::" ++ n.cType
  | .void | .scalar => n.cType

namespace Conversion

def aggregate (type first second : Text) : Text :=
  type ++ "\x7b" ++ first ++ ", " ++ second ++ "\x7d"

def optionalType (names : Names) : (inner : TypeRef) → Text
  | .slice view isMutable => "::" ++ view.cName isMutable
  | .primitive p => "::" ++ p.cOption
  | .record id _ => "::" ++ optionName (names.name id)
  | .enumeration id => "::" ++ optionName (names.name id)
  | _ => []

def elementPointer (element : Primitive) (isMutable : Bool) (data : Text) : Text :=
  if element = .char then
    "reinterpret_cast<" ++ constUnless isMutable ++ "uint32_t*>(" ++ data ++ ")"
  else data

def lowerStrings (expr temp : Text) : Lowered where
  value := aggregate "::WeldStringsView" (temp ++ ".data()") (temp ++ ".size()")
  before :=
    ["std::vector<::WeldStringView> " ++ temp ++ ";",
      temp ++ ".reserve(" ++ expr ++ ".size());",
      "for (std::string_view ffi_item : " ++ expr ++ ") \x7b",
      "    " ++ temp ++ ".push_back(" ++
        aggregate "::WeldStringView" "ffi_item.data()" "ffi_item.size()" ++ ");",
      "\x7d"]
  after := []
  locals := [temp]

def lowerSlice (view : View) (isMutable : Bool) (expr temp : Text) : Lowered :=
  let size : Text := expr ++ ".size()"
  let data : Text := expr ++ ".data()"
  match view with
  | .utf8 => .plain (aggregate "::WeldStringView" data size)
  | .utf16 =>
    .plain (aggregate "::WeldString16View" ("reinterpret_cast<const uint16_t*>(" ++ data ++ ")")
      size)
  | .strings => lowerStrings expr temp
  | .scalars element =>
    .plain (aggregate ("::" ++ element.cSlice isMutable) (elementPointer element isMutable data)
      size)

def lowerObject (ownership : Ownership) (position : Position) (expr : Text) : Text :=
  match ownership with
  | .owned => "(" ++ expr ++ " ? " ++ expr ++ ".release()->AsFFI() : nullptr)"
  | .borrowed =>
    if position = .param then expr ++ ".AsFFI()"
    else "(" ++ expr ++ " ? " ++ expr ++ "->AsFFI() : nullptr)"

def lowerRecordRef (name expr temp : Text) : Lowered where
  value := "&" ++ temp
  before := ["::" ++ name ++ " " ++ temp ++ " = " ++ expr ++ ".AsFFI();"]
  after := []
  locals := [temp]

def lowerWriteable (expr temp : Text) : Lowered where
  value := "&" ++ temp
  before := ["::WeldWriteable " ++ temp ++ " = weld_rt::WriteToString(" ++ expr ++ ");"]
  after := ["::weld_writeable_flush(&" ++ temp ++ ");"]
  locals := [temp]

/-- The C value of the host expression `expr`; `temp` names the local, where one is needed. -/
def lower (names : Names) : TypeRef → Position → (expr temp : Text) → Lowered
  | .unit, _, _, _ => .plain []
  | .primitive p, _, expr, _ =>
    .plain (if p = .char then "static_cast<uint32_t>(" ++ expr ++ ")" else expr)
  | .object _ ownership _, position, expr, _ => .plain (lowerObject ownership position expr)
  | .record id byRef, _, expr, temp =>
    if byRef then lowerRecordRef (names.name id) expr temp else .plain (expr ++ ".AsFFI()")
  | .enumeration id, _, expr, _ =>
    .plain ("static_cast<::" ++ names.name id ++ ">(" ++ expr ++ ")")
  | .slice view isMutable, _, expr, temp => lowerSlice view isMutable expr temp
  | .writeable, _, expr, temp => lowerWriteable expr temp
  | .nullable inner, _, expr, temp =>
    let type := optionalType names inner
    let dereferenced : Text := "(*" ++ expr ++ ")"
    match inner with
    | .object _ _ _ => lower names inner .nullablePayload expr temp
    | .slice _ _ =>
      (lower names inner .nullablePayload dereferenced temp).wrap fun value =>
        "(" ++ expr ++ " ? " ++ value ++ " : " ++ aggregate type "nullptr" "0" ++ ")"
    | _ =>
      (lower names inner .nullablePayload dereferenced temp).wrap fun value =>
        "(" ++ expr ++ " ? " ++ aggregate type value "true" ++ " : " ++
          aggregate type "\x7b\x7d" "false" ++ ")"
  | .fallible _ _, _, expr, _ => .plain expr

def liftSlice (view : View) (isMutable : Bool) (expr : Text) : Text :=
  let data : Text := expr ++ ".data"
  let len : Text := expr ++ ".len"
  match view with
  | .utf8 => "std::string_view(" ++ data ++ ", " ++ len ++ ")"
  | .utf16 =>
    "std::u16string_view(reinterpret_cast<const char16_t*>(" ++ data ++ "), " ++ len ++ ")"
  | .strings => []
  | .scalars element =>
    let qualifier := constUnless isMutable
    let pointer : Text :=
      if element = .char then "reinterpret_cast<" ++ qualifier ++ "char32_t*>(" ++ data ++ ")"
      else data
    "std::span<" ++ qualifier ++ element.hostName ++ ">(" ++ pointer ++ ", " ++ len ++ ")"

def liftObject (name : Text) (ownership : Ownership) (position : Position) (expr : Text) : Text :=
  match ownership with
  | .owned => "std::unique_ptr<" ++ name ++ ">(" ++ name ++ "::FromFFI(" ++ expr ++ "))"
  | .borrowed =>
    (if position = .result then ascii "*" else []) ++ name ++ "::FromFFI(" ++ expr ++ ")"

def emptyValue : Text := "std::monostate\x7b\x7d"

def lift (names : Names) : TypeRef → (host : Text) → Position → (expr : Text) → Text
  | .unit, _, _, _ => emptyValue
  | .primitive p, _, _, expr =>
    if p = .char then "static_cast<char32_t>(" ++ expr ++ ")" else expr
  | .object id ownership _, _, position, expr =>
    liftObject (names.name id) ownership position expr
  | .record id _, _, _, expr => names.name id ++ "::FromFFI(" ++ expr ++ ")"
  | .enumeration id, _, _, expr => "static_cast<" ++ names.name id ++ ">(" ++ expr ++ ")"
  | .slice view isMutable, _, _, expr => liftSlice view isMutable expr
  | .writeable, _, _, _ => "std::move(ffi_output)"
  | .nullable inner, host, _, expr =>
    match inner with
    | .object _ _ _ => lift names inner host .nullablePayload expr
    | .slice _ _ =>
      "(" ++ expr ++ ".data ? " ++ host ++ "(" ++
        lift names inner [] .nullablePayload expr ++ ") : " ++ host ++ "(std::nullopt))"
    | _ =>
      "(" ++ expr ++ ".is_some ? " ++ host ++ "(" ++
        lift names inner [] .nullablePayload (expr ++ ".value") ++ ") : " ++ host ++
        "(std::nullopt))"
  | .fallible _ _, _, _, expr => expr

end Conversion

end Bindery
