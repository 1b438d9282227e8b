import Bindery.Interface.Document
import Mathlib.Data.List.Forall2

/-!
What an interface document says, apart from how it is read: which definition a node describes. The
relations speak of the node alone; neither paths nor faults nor an order of reading occur in them.
-/

set_option autoImplicit false

namespace Bindery

/-- The integer a number stands for, whichever way it is kept. -/
def Number.integer? : Number → Option Int
  | int i => some i.toInt
  | nat n => some n.toNat
  | real _ => none

namespace Document

section
variable {α : Type}

def Says (R : Json → α → Prop) (v : Json) (key : Text) (x : α) : Prop :=
  ∃ child, v.get? key = some child ∧ R child x

/-- The member under `key` means `x`, an absent one means `fallback`. -/
def SaysOr (R : Json → α → Prop) (v : Json) (key : Text) (fallback x : α) : Prop :=
  Says R v key x ∨ v.get? key = none ∧ x = fallback

def IsList (R : Json → α → Prop) (v : Json) (xs : List α) : Prop :=
  ∃ items, v = .array items ∧ List.Forall₂ R items xs

end

def IsText (v : Json) (s : Text) : Prop := v = .string s

def IsFlag (v : Json) (b : Bool) : Prop := v = .bool b

def IsId (v : Json) (id : TypeId) : Prop :=
  ∃ n, v = .number n ∧ n.integer? = some (id : Int) ∧ 0 < id ∧ id ≤ 4294967295

def IsInteger (v : Json) (i : Int64) : Prop := ∃ n, v = .number n ∧ n.integer? = some i.toInt

def IsPrimitive (v : Json) (p : Primitive) : Prop := v = .string p.name

/-- The empty word is another one for no receiver. -/
def IsReceiver (v : Json) (receiver : Receiver) : Prop :=
  v = .string receiver.name ∨ v = .string [] ∧ receiver = .absent

def ownershipWord : Ownership → Text
  | .owned => "owned"
  | .borrowed => "borrowed"

def IsOwnership (v : Json) (ownership : Ownership) : Prop := v = .string (ownershipWord ownership)

inductive Form where
  | primitive | object | record | enumeration | slice | writeable | nullable | fallible
  deriving DecidableEq

namespace Form

def key : Form → Text
  | primitive => "primitive"
  | object => "opaque"
  | record => "struct"
  | enumeration => "enum"
  | slice => "slice"
  | writeable => "writeable"
  | nullable => "nullable"
  | fallible => "fallible"

/-- Where a node has the keys of several forms, the first of these counts. -/
def all : List Form :=
  [primitive, object, record, enumeration, slice, writeable, nullable, fallible]

end Form

def form? (v : Json) : Option (Form × Json) :=
  Form.all.findSome? fun form => (v.get? form.key).map fun child => (form, child)

/-- The form of the reference in `v`, with the member under its key. -/
def HasForm (v : Json) (form : Form) (child : Json) : Prop := form? v = some (form, child)

def viewWord : View → Text
  | .scalars _ => "primitive"
  | .utf8 => "utf8"
  | .utf16 => "utf16"
  | .strings => "strings"

/-- A view is named by `word`; one of scalars has its element in `v`, beside the word. -/
structure IsView (v word : Json) (view : View) : Prop where
  word : IsText word (viewWord view)
  element : ∀ p, view = .scalars p → Says IsPrimitive v "element" p

/-- The reference a node means. An absent side of a fallible one is read as null. -/
inductive Denotes : Json → TypeRef → Prop
  | unit : Denotes .null .unit
  | primitive {v child : Json} {p : Primitive} (form : HasForm v .primitive child)
      (name : IsPrimitive child p) : Denotes v (.primitive p)
  | object {v child : Json} {id : TypeId} {ownership : Ownership} {isMutable : Bool}
      (form : HasForm v .object child) (number : IsId child id)
      (owner : SaysOr IsOwnership v "ownership" .borrowed ownership)
      (mutability : SaysOr IsFlag v "mut" false isMutable) :
      Denotes v (.object id ownership isMutable)
  | record {v child : Json} {id : TypeId} {byRef : Bool} (form : HasForm v .record child)
      (number : IsId child id) (passing : SaysOr IsFlag v "by_ref" false byRef) :
      Denotes v (.record id byRef)
  | enumeration {v child : Json} {id : TypeId} (form : HasForm v .enumeration child)
      (number : IsId child id) : Denotes v (.enumeration id)
  | slice {v child : Json} {view : View} {isMutable : Bool} (form : HasForm v .slice child)
      (elements : IsView v child view) (mutability : SaysOr IsFlag v "mut" false isMutable) :
      Denotes v (.slice view isMutable)
  | writeable {v child : Json} (form : HasForm v .writeable child) : Denotes v .writeable
  | nullable {v child : Json} {inner : TypeRef} (form : HasForm v .nullable child)
      (inside : Denotes child inner) : Denotes v (.nullable inner)
  | fallible {v : Json} {sides : List (Text × Json)} {ok err : TypeRef}
      (form : HasForm v .fallible (.object sides))
      (success : Denotes (((Json.object sides).get? "ok").getD .null) ok)
      (failure : Denotes (((Json.object sides).get? "err").getD .null) err) :
      Denotes v (.fallible ok err)

structure DescribesRule (v : Json) (rule : Rule) : Prop where
  target : Says IsText v "backend" rule.target
  enabled : Says IsFlag v "enabled" rule.enabled
  features : SaysOr (IsList IsText) v "features" [] rule.features

structure DescribesParam (v : Json) (p : Param) : Prop where
  name : Says IsText v "name" p.name
  type : Says Denotes v "type" p.type

structure DescribesMethod (v : Json) (m : Method) : Prop where
  name : Says IsText v "name" m.name
  docs : SaysOr IsText v "docs" [] m.docs
  rules : SaysOr (IsList DescribesRule) v "attrs" [] m.rules
  receiver : SaysOr IsReceiver v "self" .absent m.receiver
  params : SaysOr (IsList DescribesParam) v "params" [] m.params
  returns : SaysOr Denotes v "returns" .unit m.returns

structure DescribesField (v : Json) (f : Field) : Prop where
  name : Says IsText v "name" f.name
  docs : SaysOr IsText v "docs" [] f.docs
  type : Says Denotes v "type" f.type

structure DescribesVariant (v : Json) (variant : Variant) : Prop where
  name : Says IsText v "name" variant.name
  docs : SaysOr IsText v "docs" [] variant.docs
  value : Says IsInteger v "value" variant.value

/-- The members that go with the kind of a type. -/
def DescribesShape (v : Json) : Shape → Prop
  | .object methods => SaysOr (IsList DescribesMethod) v "methods" [] methods
  | .record fields methods =>
    SaysOr (IsList DescribesField) v "fields" [] fields ∧
      SaysOr (IsList DescribesMethod) v "methods" [] methods
  | .enumeration variants => Says (IsList DescribesVariant) v "variants" variants
  | .synonym p => Says IsPrimitive v "primitive" p

structure DescribesType (v : Json) (t : TypeDef) : Prop where
  id : Says IsId v "id" t.id
  name : Says IsText v "name" t.name
  docs : SaysOr IsText v "docs" [] t.docs
  rules : SaysOr (IsList DescribesRule) v "attrs" [] t.rules
  kind : Says IsText v "kind" t.kind.name
  shape : DescribesShape v t.shape

/-- The document as a whole: the name of the library and the types in order. -/
structure Describes (v : Json) (library : Text) (types : List TypeDef) : Prop where
  library : SaysOr IsText v "library" [] library
  types : Says (IsList DescribesType) v "types" types

end Document

end Bindery
