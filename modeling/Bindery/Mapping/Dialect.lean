import Bindery.Mapping.Basic

/-!
The host language's spelling of mapped types. Each spelling may look at the native representation,
which the C dialect simply repeats.
-/

set_option autoImplicit false

namespace Bindery

structure Dialect where
  unit : Position → Text
  primitive : Primitive → Text
  object : (name : Text) → Ownership → (isMutable : Bool) → Position → Native → Text
  record : (name : Text) → (byRef : Bool) → Native → Text
  enumeration : (name : Text) → Text
  slice : View → (isMutable : Bool) → Native → Text
  writeable : Position → Native → Text
  nullable : (inner : Mapped) → Native → Text
  fallible : (ok err : Mapped) → Native → Text

namespace Dialect

/-- In C the host types are the native types. -/
def c : Dialect where
  unit _ := "void"
  primitive p := p.cName
  object _ _ _ _ native := native.cType
  record _ _ native := native.cType
  enumeration name := name
  slice _ _ native := native.cType
  writeable _ native := native.cType
  nullable _ native := native.cType
  fallible _ _ native := native.cType

end Dialect

/-- Unicode scalar values have a type of their own in C++. -/
def Primitive.hostName (p : Primitive) : Text := if p = .char then "char32_t" else p.cName

def constUnless (isMutable : Bool) : Text := if isMutable then "" else "const "

namespace Dialect

/-- Owned objects are held by smart pointers, borrowed ones by references, or by pointers where
none may stand; slices are views and optional values are optional. -/
def cpp : Dialect where
  unit position := if position = .result then "void" else "std::monostate"
  primitive p := p.hostName
  object name ownership isMutable position _ :=
    match ownership with
    | .owned => "std::unique_ptr<" ++ name ++ ">"
    | .borrowed =>
      constUnless isMutable ++ name ++
        (if position = .param ∨ position = .result then "&" else "*")
  record name byRef _ := if byRef then "const " ++ name ++ "&" else name
  enumeration name := name
  slice view isMutable _ :=
    match view with
    | .utf8 => "std::string_view"
    | .utf16 => "std::u16string_view"
    | .strings => "std::span<const std::string_view>"
    | .scalars element => "std::span<" ++ constUnless isMutable ++ element.hostName ++ ">"
  writeable position _ := if position = .param then "std::string&" else "std::string"
  nullable inner native :=
    if native.kind = .handle then inner.host else "std::optional<" ++ inner.host ++ ">"
  fallible ok err _ := "weld_rt::Result<" ++ ok.host ++ ", " ++ err.host ++ ">"

end Dialect

end Bindery
