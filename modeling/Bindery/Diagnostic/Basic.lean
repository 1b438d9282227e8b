import Bindery.Interface.Types

/-!
What a run has to say: errors, each of a kind with a stable code, and omissions, items left out on
purpose by an availability rule.
-/

set_option autoImplicit false

namespace Bindery

inductive ErrorKind where
  | unresolvedReference
  | namingConflict
  | unsupportedType
  | ruleConflict
  | lowering
  | unknownId
  deriving DecidableEq, Repr

namespace ErrorKind

def all : List ErrorKind :=
  [unresolvedReference, namingConflict, unsupportedType, ruleConflict, lowering, unknownId]

def code : ErrorKind → Text
  | unresolvedReference => "G001"
  | namingConflict => "G002"
  | unsupportedType => "G003"
  | ruleConflict => "G004"
  | lowering => "G005"
  | unknownId => "G006"

def name : ErrorKind → Text
  | unresolvedReference => "UnresolvedTypeReference"
  | namingConflict => "NamingConflict"
  | unsupportedType => "UnsupportedType"
  | ruleConflict => "AttributeResolutionError"
  | lowering => "LoweringError"
  | unknownId => "UnknownTypeId"

def ofName? (t : Text) : Option ErrorKind := all.find? fun k => k.name == t

end ErrorKind

/-- An error. The type is zero and unnamed where the error is not about one type, and the method is
empty where it is about the type as a whole. -/
structure Diagnostic where
  kind : ErrorKind
  typeId : TypeId
  typeName : Text
  method : Text
  message : Text
  deriving DecidableEq, Repr

/-- An item left out; the method is empty where the whole type is. -/
structure Omission where
  typeId : TypeId
  typeName : Text
  method : Text
  reason : Text
  deriving DecidableEq, Repr

namespace Diagnostic

def general (kind : ErrorKind) (message : Text) : Diagnostic := ⟨kind, 0, [], [], message⟩

def ofType (kind : ErrorKind) (t : TypeDef) (message : Text) : Diagnostic :=
  ⟨kind, t.id, t.name, [], message⟩

def ofMethod (kind : ErrorKind) (t : TypeDef) (method message : Text) : Diagnostic :=
  ⟨kind, t.id, t.name, method, message⟩

/-- `Type::method`, or the type alone. -/
def place (d : Diagnostic) : Text :=
  if d.method.isEmpty then d.typeName else d.typeName ++ "::" ++ d.method

def placed (d : Diagnostic) : Text :=
  if d.place.isEmpty then d.message else d.place ++ ": " ++ d.message

def text (d : Diagnostic) : Text := "error[" ++ d.kind.code ++ "]: " ++ d.placed

end Diagnostic

end Bindery
