import Bindery.Layout

/-!
What a type reference becomes: a native representation in C and a spelling in the host language.
-/

set_option autoImplicit false

namespace Bindery

inductive Position where
  | param
  | result
  | field
  | okPayload
  | errPayload
  | nullablePayload
  deriving DecidableEq, Repr

namespace Position

def all : List Position := [param, result, field, okPayload, errPayload, nullablePayload]

def name : Position → Text
  | param => "parameter"
  | result => "return"
  | field => "field"
  | okPayload => "fallible ok payload"
  | errPayload => "fallible error payload"
  | nullablePayload => "nullable payload"

def ofName? (t : Text) : Option Position := all.find? fun p => p.name == t

def isPayload : Position → Bool
  | okPayload | errPayload => true
  | _ => false

end Position

/-- What a target can express beyond the common core. -/
structure Capabilities where
  utf16Slices : Bool
  stringArrays : Bool
  writeables : Bool
  nullableScalars : Bool
  deriving DecidableEq, Repr

def Capabilities.full : Capabilities := ⟨true, true, true, true⟩

inductive NativeKind where
  | void
  | scalar
  | enumeration
  | record
  | recordPtr
  | handle
  | slice
  | option
  | writeable
  | result
  deriving DecidableEq, Repr

def NativeKind.name : NativeKind → Text
  | void => "void"
  | scalar => "scalar"
  | enumeration => "enum"
  | record => "struct"
  | recordPtr => "struct_ptr"
  | handle => "handle"
  | slice => "slice"
  | option => "option"
  | writeable => "writeable"
  | result => "result"

structure Native where
  cType : Text
  kind : NativeKind
  layout : Layout
  deriving DecidableEq, Repr

def Native.isPayload (n : Native) : Bool :=
  match n.kind with
  | .void | .writeable => false
  | _ => true

/-- A reference as both languages see it, with the types its spelling mentions. -/
structure Mapped where
  host : Text
  native : Native
  deps : List TypeId
  deriving DecidableEq, Repr

def Primitive.cName : Primitive → Text
  | bool => "bool"
  | char => "uint32_t"
  | i8 => "int8_t"
  | i16 => "int16_t"
  | i32 => "int32_t"
  | i64 => "int64_t"
  | u8 => "uint8_t"
  | u16 => "uint16_t"
  | u32 => "uint32_t"
  | u64 => "uint64_t"
  | isize => "intptr_t"
  | usize => "size_t"
  | f32 => "float"
  | f64 => "double"

def Primitive.cSlice (element : Primitive) (isMutable : Bool) : Text :=
  (if isMutable then "WeldSliceMut_" else "WeldSlice_") ++ element.name

def Primitive.cOption (p : Primitive) : Text := "WeldOption_" ++ p.name

def View.cName (view : View) (isMutable : Bool) : Text :=
  match view with
  | scalars element => element.cSlice isMutable
  | utf8 => "WeldStringView"
  | utf16 => "WeldString16View"
  | strings => "WeldStringsView"

def optionName (name : Text) : Text := name ++ "_option"

end Bindery
