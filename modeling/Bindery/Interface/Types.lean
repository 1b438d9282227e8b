import Bindery.Identifier

/-!
The interface of a native library: its types, and how fields, parameters and returns refer to
them. Objects live behind handles, records are copied, enumerations and synonyms stand for scalars.
-/

set_option autoImplicit false

namespace Bindery

inductive Primitive where
  | bool | char | i8 | i16 | i32 | i64 | u8 | u16 | u32 | u64 | isize | usize | f32 | f64
  deriving DecidableEq, Repr

namespace Primitive

def all : List Primitive :=
  [bool, char, i8, i16, i32, i64, u8, u16, u32, u64, isize, usize, f32, f64]

def name : Primitive → Text
  | bool => "bool"
  | char => "char"
  | i8 => "i8"
  | i16 => "i16"
  | i32 => "i32"
  | i64 => "i64"
  | u8 => "u8"
  | u16 => "u16"
  | u32 => "u32"
  | u64 => "u64"
  | isize => "isize"
  | usize => "usize"
  | f32 => "f32"
  | f64 => "f64"

def ofName? (t : Text) : Option Primitive := all.find? fun p => p.name == t

def isFloat : Primitive → Bool
  | f32 | f64 => true
  | _ => false

def isSigned : Primitive → Bool
  | i8 | i16 | i32 | i64 | isize | f32 | f64 => true
  | _ => false

end Primitive

/-- Zero stands for no type. -/
abbrev TypeId := Nat

inductive Ownership where
  | owned
  | borrowed
  deriving DecidableEq, Repr

inductive View where
  | scalars (element : Primitive)
  | utf8
  | utf16
  | strings
  deriving DecidableEq, Repr

/-- How a value crosses the boundary. -/
inductive TypeRef where
  | unit
  | primitive (p : Primitive)
  | object (id : TypeId) (ownership : Ownership) (isMutable : Bool)
  | record (id : TypeId) (byRef : Bool)
  | enumeration (id : TypeId)
  | slice (view : View) (isMutable : Bool)
  | writeable
  | nullable (inner : TypeRef)
  | fallible (ok err : TypeRef)
  deriving DecidableEq, Repr

namespace View

def name : View → Text
  | scalars element => element.name
  | utf8 => "utf8"
  | utf16 => "utf16"
  | strings => "strings"

end View

namespace TypeRef

def text : TypeRef → Text
  | unit => "()"
  | primitive p => p.name
  | object id .owned _ => "Opaque#" ++ decimal id ++ " owned"
  | object id .borrowed isMutable =>
    "Opaque#" ++ decimal id ++ (if isMutable then " &mut" else " &")
  | record id byRef => "Struct#" ++ decimal id ++ (if byRef then " &" else "")
  | enumeration id => "Enum#" ++ decimal id
  | slice view isMutable => "Slice<" ++ view.name ++ (if isMutable then "> mut" else ">")
  | writeable => "Writeable"
  | nullable inner => "Nullable<" ++ inner.text ++ ">"
  | fallible ok err => "Fallible<" ++ ok.text ++ ", " ++ err.text ++ ">"

/-- The types a reference mentions, from left to right. -/
def ids : TypeRef → List TypeId
  | object id _ _ => [id]
  | record id _ => [id]
  | enumeration id => [id]
  | nullable inner => inner.ids
  | fallible ok err => ok.ids ++ err.ids
  | _ => []

def underNullable : TypeRef → TypeRef
  | nullable inner => inner
  | ref => ref

end TypeRef

/-- Makes an item available or unavailable for a target, `*` being every target, while all the
features are active. -/
structure Rule where
  target : Text
  features : List Text
  enabled : Bool
  deriving DecidableEq, Repr

inductive Receiver where
  | absent
  | byValue
  | shared
  | exclusive
  deriving DecidableEq, Repr

def Receiver.name : Receiver → Text
  | absent => "none"
  | byValue => "value"
  | shared => "ref"
  | exclusive => "mut_ref"

structure Param where
  name : Text
  type : TypeRef
  deriving DecidableEq, Repr

structure Method where
  name : Text
  docs : Text
  rules : List Rule
  receiver : Receiver
  params : List Param
  returns : TypeRef
  deriving DecidableEq, Repr

structure Field where
  name : Text
  docs : Text
  type : TypeRef
  deriving DecidableEq, Repr

structure Variant where
  name : Text
  docs : Text
  value : Int64
  deriving DecidableEq, Repr

inductive Shape where
  | object (methods : List Method)
  | record (fields : List Field) (methods : List Method)
  | enumeration (variants : List Variant)
  | synonym (p : Primitive)
  deriving DecidableEq, Repr

inductive Kind where
  | object
  | record
  | enumeration
  | synonym
  deriving DecidableEq, Repr

def Kind.name : Kind → Text
  | object => "opaque"
  | record => "struct"
  | enumeration => "enum"
  | synonym => "primitive"

def Kind.all : List Kind := [object, record, enumeration, synonym]

def Kind.ofName? (t : Text) : Option Kind := all.find? fun k => k.name == t

def Shape.kind : Shape → Kind
  | object _ => .object
  | record _ _ => .record
  | enumeration _ => .enumeration
  | synonym _ => .synonym

structure TypeDef where
  id : TypeId
  name : Text
  docs : Text
  rules : List Rule
  shape : Shape
  deriving DecidableEq, Repr

namespace TypeDef

def kind (t : TypeDef) : Kind := t.shape.kind

/-- Only objects and records have methods. -/
def methods (t : TypeDef) : List Method :=
  match t.shape with
  | .object methods => methods
  | .record _ methods => methods
  | _ => []

def fields (t : TypeDef) : List Field :=
  match t.shape with
  | .record fields _ => fields
  | _ => []

def variants (t : TypeDef) : List Variant :=
  match t.shape with
  | .enumeration variants => variants
  | _ => []

end TypeDef

end Bindery
