import Bindery.Mapping.Basic
import Bindery.Diagnostic.Basic

/-!
Why a reference cannot be mapped.
-/

set_option autoImplicit false

namespace Bindery

inductive MapFault where
  | unknownId (id : TypeId)
  | notEnabled (name : Text)
  | wrongKind (name : Text) (found expected : Kind)
  | unitAt (position : Position)
  | ownedField (name : Text)
  | recordRefPosition (name : Text)
  | containsItself (name : Text)
  | discriminant (name variant : Text) (value : Int64)
  | sliceField
  | noUtf16
  | noStringArrays
  | stringsPosition
  | mutableText
  | noWriteables
  | writeableAt (position : Position)
  | nestedNullable
  | nullableFallible
  | nullableWriteable
  | nullableUnit
  | nullableField (inner : TypeRef)
  | nullableRecordRef
  | nullableStrings
  | noNullableValues
  | nullableOther (inner : TypeRef)
  | nestedFallible
  | falliblePosition
  | writeableError
  | inField (owner field : Text) (inner : MapFault)
  deriving DecidableEq, Repr

namespace MapFault

def kind : MapFault → ErrorKind
  | unknownId _ => .unknownId
  | notEnabled _ => .unresolvedReference
  | wrongKind _ _ _ => .unresolvedReference
  | inField _ _ inner => inner.kind
  | _ => .unsupportedType

def message : MapFault → Text
  | unknownId id => "reference to unknown type id " ++ decimal id
  | notEnabled name =>
    "reference to type " ++ Text.quoted name ++ ", which is not enabled for this backend"
  | wrongKind name found expected =>
    "type " ++ Text.quoted name ++ " is " ++ found.name ++ ", expected " ++ expected.name
  | unitAt position => "unit is not valid as a " ++ position.name
  | ownedField name =>
    "owned opaque " ++ Text.quoted name ++ " cannot be stored in a struct field"
  | recordRefPosition name =>
    "struct reference to " ++ Text.quoted name ++ " is only valid as a parameter"
  | containsItself name => "struct " ++ Text.quoted name ++ " contains itself by value"
  | discriminant name variant value =>
    "discriminant of " ++ name ++ "::" ++ variant ++ " (" ++ decimalInt value.toInt ++
      ") does not fit in int32_t"
  | sliceField => "slices cannot be stored in a struct field"
  | noUtf16 => "UTF-16 slices are not supported by this backend"
  | noStringArrays => "string arrays are not supported by this backend"
  | stringsPosition => "string arrays are only valid as parameters"
  | mutableText => "text slices cannot be mutable"
  | noWriteables => "writeables are not supported by this backend"
  | writeableAt position => "writeable is not valid as a " ++ position.name
  | nestedNullable => "nullable of nullable is not supported"
  | nullableFallible => "nullable of fallible is not supported"
  | nullableWriteable => "nullable of writeable is not supported"
  | nullableUnit => "nullable of unit is not supported"
  | nullableField inner => "nullable " ++ inner.text ++ " cannot be stored in a struct field"
  | nullableRecordRef => "nullable struct references are not supported"
  | nullableStrings => "nullable string arrays are not supported"
  | noNullableValues => "nullable values are not supported by this backend"
  | nullableOther inner => "nullable " ++ inner.text ++ " is not supported"
  | nestedFallible => "nested fallible is not supported"
  | falliblePosition => "fallible is only valid as a return type"
  | writeableError => "a writeable cannot be a fallible error payload"
  | inField owner field inner =>
    "field " ++ Text.quoted (owner ++ "." ++ field) ++ ": " ++ inner.message

end MapFault

end Bindery
