import Bindery.Transfer
import Bindery.Availability

/-!
What is known about a type before any text is written: its mapped fields, the signatures and
transfers of its methods, its destructor, and the types it depends on.
-/

set_option autoImplicit false

namespace Bindery

structure MethodPlan where
  method : Method
  signature : Signature
  transfers : TransferPlan
  deriving DecidableEq, Repr

structure FieldPlan where
  field : Field
  mapped : Mapped
  deriving DecidableEq, Repr

structure TypePlan where
  type : TypeDef
  methods : List MethodPlan
  fields : List FieldPlan
  destructor : Option Text
  /-- Records that have to be defined before this type is. -/
  definitionDeps : List TypeId
  /-- Types that fields and signatures refer to, without this type. -/
  deps : List TypeId
  deriving DecidableEq, Repr

structure Names where
  name : TypeId → Text
  kind : TypeId → Option Kind
  hasType : Text → Bool

structure NameEntry where
  name : Text
  kind : Text
  files : List Text
  deriving DecidableEq, Repr

structure NameTable where
  entries : List (TypeId × NameEntry)
  deriving DecidableEq, Repr

namespace NameTable

def empty : NameTable := ⟨[]⟩

def add (t : NameTable) (id : TypeId) (entry : NameEntry) : NameTable :=
  ⟨Sorted.put Signature.idBefore id entry t.entries⟩

def find? (t : NameTable) (id : TypeId) : Option NameEntry := t.entries.lookup id

def contains (t : NameTable) (id : TypeId) : Bool := (t.find? id).isSome

def hasType (t : NameTable) (name : Text) : Bool := t.entries.any fun e => e.2.name == name

/-- The view that headers get; an unknown id has no name and no kind. -/
def toNames (t : NameTable) : Names where
  name id := ((t.find? id).map NameEntry.name).getD []
  kind id := (t.find? id).bind fun e => Kind.ofName? e.kind
  hasType := t.hasType

end NameTable

def idSet (ids : List TypeId) : List TypeId := Sorted.ofList Signature.idBefore ids

/-- The types the fields refer to, without the type itself. -/
def TypePlan.fieldDeps (p : TypePlan) : List TypeId :=
  (idSet (p.fields.flatMap fun f => f.mapped.deps)).filter (· != p.type.id)

end Bindery
