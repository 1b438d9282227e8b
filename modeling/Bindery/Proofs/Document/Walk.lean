import Bindery.Proofs.Document.Reading

/-!
Reading a document by walking through it. All readers add to one list of faults and none of them
stops the walk: where something cannot be read it is replaced by a default or left out, and reading
goes on. A definition and a method are given up at their end, if the list has become longer since
their beginning.
-/

set_option autoImplicit false

namespace Bindery.Document

/-- A reader, with the list of faults it shares with all others. -/
abbrev Walk (α : Type) := StateM (List Fault) α

namespace Walk

section
variable {α β : Type}

def report (path : Path) (problem : Problem) : Walk Unit := modify (· ++ [⟨path, problem⟩])

def reject (path : Path) (problem : Problem) : Walk (Option α) := do
  report path problem
  return none

def withDefault (w : Walk (Option α)) (fallback : α) : Walk α := do
  return (← w).getD fallback

/-- Goes on with what has been read, if there is something. -/
def andThen (w : Walk (Option α)) (k : α → Walk (Option β)) : Walk (Option β) := do
  match ← w with
  | some a => k a
  | none => return none

/-- Gives up what has been read if anything has been reported meanwhile. Only the lengths of the
list before and after are compared. -/
def tested (w : Walk (Option α)) : Walk (Option α) := do
  let before := (← get).length
  match ← w with
  | none => return none
  | some a =>
    if (← get).length ≠ before then return none
    else return some a

/-- Gives what has been read if nothing at all has been reported. -/
def settled (w : Walk α) : Walk (Option α) := do
  let a ← w
  if (← get).isEmpty then return some a
  else return none

def require (path : Path) (v : Json) (key : Text) : Walk (Option Json) :=
  match v.get? key with
  | some child => return some child
  | none => reject path (.missingKey key)

/-- The elements one after the other, from position `i` on; those that give nothing are skipped. -/
def readEach (item : Path → Json → Walk (Option α)) (path : Path) :
    List Json → (i : Nat) → Walk (List α)
  | [], _ => return []
  | v :: vs, i => do
    let found ← item (path ++ [.index i]) v
    let others ← readEach item path vs (i + 1)
    return found.toList ++ others

def readArray (item : Path → Json → Walk (Option α)) (path : Path) : Json → Walk (List α)
  | .array vs => readEach item path vs 0
  | v => do
    report path (.expected "array" v.kindName)
    return []

def readList (item : Path → Json → Walk (Option α)) (path : Path) (v : Json) (key : Text) :
    Walk (List α) :=
  match v.get? key with
  | some child => readArray item (path.at key) child
  | none => return []

/-- An array that has to be there. -/
def readNeededList (item : Path → Json → Walk (Option α)) (path : Path) (v : Json) (key : Text) :
    Walk (List α) := do
  match ← require path v key with
  | some child => readArray item (path.at key) child
  | none => return []

def readObject (item : Path → Json → Walk (Option α)) (path : Path) : Json → Walk (Option α)
  | .object members => item path (.object members)
  | v => reject path (.expected "object" v.kindName)

end

def readString (path : Path) (v : Json) (key : Text) (needed : Bool) : Walk (Option Text) :=
  match v.get? key with
  | none => if needed then reject path (.missingKey key) else return none
  | some (.string s) => return some s
  | some child => reject (path.at key) (.expected "string" child.kindName)

def readBool (path : Path) (v : Json) (key : Text) (fallback : Bool) : Walk Bool :=
  match v.get? key with
  | none => return fallback
  | some (.bool b) => return b
  | some child => do
    report (path.at key) (.expected "bool" child.kindName)
    return fallback

def readTypeId (path : Path) (v : Json) : Walk (Option TypeId) :=
  match v with
  | .number n =>
    if n.isInteger then
      match n.nat? with
      | some id =>
        if 0 < id.toNat ∧ id.toNat ≤ 4294967295 then return some id.toNat
        else reject path .idRange
      | none => reject path .idRange
    else reject path (.expected "type id" v.kindName)
  | _ => reject path (.expected "type id" v.kindName)

def readPrimitive (path : Path) (name : Text) : Walk (Option Primitive) :=
  match Primitive.ofName? name with
  | some p => return some p
  | none => reject path (.unknownPrimitive name)

def readOwnership (path : Path) (word : Text) : Walk (Option Ownership) :=
  if word = "owned" then return some .owned
  else if word = "borrowed" then return some .borrowed
  else reject path .ownershipWord

/-- The word for the ownership is judged before the id is asked for. -/
def readObjectRef (path : Path) (v id : Json) : Walk (Option TypeRef) := do
  let id ← readTypeId (path.at "opaque") id
  let word ← (readString path v "ownership" false).withDefault "borrowed"
  let isMutable ← readBool path v "mut" false
  andThen (readOwnership (path.at "ownership") word) fun ownership =>
  return id.map fun id => TypeRef.object id ownership isMutable

def readRecordRef (path : Path) (v id : Json) : Walk (Option TypeRef) := do
  let id ← readTypeId (path.at "struct") id
  let byRef ← readBool path v "by_ref" false
  return id.map fun id => TypeRef.record id byRef

def readView (path : Path) (v : Json) (name : Text) : Walk (Option View) :=
  if name = "utf8" then return some .utf8
  else if name = "utf16" then return some .utf16
  else if name = "strings" then return some .strings
  else if name = "primitive" then
    andThen (readString path v "element" true) fun element =>
    andThen (readPrimitive (path.at "element") element) fun p =>
    return some (.scalars p)
  else reject (path.at "slice") (.unknownView name)

def readSliceRef (path : Path) (v : Json) : Json → Walk (Option TypeRef)
  | .string name => do
    let isMutable ← readBool path v "mut" false
    andThen (readView path v name) fun view => return some (.slice view isMutable)
  | _ => reject (path.at "slice") .viewName

/-- Both sides of a fallible reference are read, also when the first one gives nothing. -/
def readTypeRef (path : Path) (v : Json) : Walk (Option TypeRef) :=
  match v with
  | .null => return some .unit
  | .object ms =>
    match (Json.object ms).get? "primitive" with
    | some (.string name) =>
      andThen (readPrimitive (path.at "primitive") name) fun p => return some (.primitive p)
    | some _ => reject (path.at "primitive") .primitiveName
    | none =>
    match (Json.object ms).get? "opaque" with
    | some id => readObjectRef path (.object ms) id
    | none =>
    match (Json.object ms).get? "struct" with
    | some id => readRecordRef path (.object ms) id
    | none =>
    match (Json.object ms).get? "enum" with
    | some id => andThen (readTypeId (path.at "enum") id) fun id => return some (.enumeration id)
    | none =>
    match (Json.object ms).get? "slice" with
    | some view => readSliceRef path (.object ms) view
    | none =>
    match (Json.object ms).get? "writeable" with
    | some _ => return some .writeable
    | none =>
    match _ : (Json.object ms).get? "nullable" with
    | some inner =>
      andThen (readTypeRef (path.at "nullable") inner) fun ref => return some (.nullable ref)
    | none =>
    match _ : (Json.object ms).get? "fallible" with
    | some (.object sides) => do
      let f := Json.object sides
      let ok ← readTypeRef ((path.at "fallible").at "ok") ((f.get? "ok").getD .null)
      let err ← readTypeRef ((path.at "fallible").at "err") ((f.get? "err").getD .null)
      return TypeRef.fallible <$> ok <*> err
    | some _ => reject (path.at "fallible") .fallibleShape
    | none => reject path .unrecognizedReference
  | v => reject path (.expected "type reference" v.kindName)
termination_by v.depth
decreasing_by
  · exact depth_lt_of_get? ‹_›
  · exact depth_side_lt (depth_lt_of_get? ‹_›) "ok"
  · exact depth_side_lt (depth_lt_of_get? ‹_›) "err"

/-- The first element that is no name ends the list. -/
def readNames (path : Path) : List Json → Walk (List Text)
  | [] => return []
  | .string name :: vs => do
    let names ← readNames path vs
    return name :: names
  | _ :: _ => do
    report path .featureNames
    return []

def readFeatures (path : Path) (v : Json) : Walk (List Text) :=
  match v.get? "features" with
  | none => return []
  | some (.array vs) => readNames (path.at "features") vs
  | some _ => do
    report (path.at "features") .featureNames
    return []

def readEnabled (path : Path) (v : Json) : Walk Bool := do
  if (v.get? "enabled").isNone then report path (.missingKey "enabled")
  readBool path v "enabled" true

def readRule : Path → Json → Walk (Option Rule) :=
  readObject fun path v => do
    let target ← (readString path v "backend" true).withDefault ""
    let enabled ← readEnabled path v
    let features ← readFeatures path v
    return some ⟨target, features, enabled⟩

def readRules (path : Path) (v : Json) : Walk (List Rule) := readList readRule path v "attrs"

/-- A type that cannot be read is the unit for the rest of the walk. -/
def readType (path : Path) (v : Json) : Walk TypeRef :=
  (andThen (require path v "type") (readTypeRef (path.at "type"))).withDefault .unit

def readParam : Path → Json → Walk (Option Param) :=
  readObject fun path v => do
    let name ← (readString path v "name" true).withDefault ""
    let type ← readType path v
    return some ⟨name, type⟩

def readField : Path → Json → Walk (Option Field) :=
  readObject fun path v => do
    let name ← (readString path v "name" true).withDefault ""
    let docs ← (readString path v "docs" false).withDefault ""
    let type ← readType path v
    return some ⟨name, docs, type⟩

def readValue (path : Path) : Json → Walk (Option Int64)
  | .number n =>
    match n.int? with
    | some i => return some i
    | none => reject path .variantValue
  | _ => reject path .variantValue

def readVariant : Path → Json → Walk (Option Variant) :=
  readObject fun path v => do
    let name ← (readString path v "name" true).withDefault ""
    let docs ← (readString path v "docs" false).withDefault ""
    let value ← (andThen (require path v "value") (readValue (path.at "value"))).withDefault 0
    return some ⟨name, docs, value⟩

def readReceiver (path : Path) (word : Text) : Walk Receiver :=
  if word = "" ∨ word = "none" then return .absent
  else if word = "value" then return .byValue
  else if word = "ref" then return .shared
  else if word = "mut_ref" then return .exclusive
  else do
    report path (.unknownReceiver word)
    return .absent

def readReturns (path : Path) (v : Json) : Walk TypeRef :=
  match v.get? "returns" with
  | some child => (readTypeRef (path.at "returns") child).withDefault .unit
  | none => return .unit

def readMethod : Path → Json → Walk (Option Method) :=
  readObject fun path v => tested do
    let name ← (readString path v "name" true).withDefault ""
    let docs ← (readString path v "docs" false).withDefault ""
    let rules ← readRules path v
    let word ← (readString path v "self" false).withDefault ""
    let receiver ← readReceiver (path.at "self") word
    let params ← readList readParam path v "params"
    let returns ← readReturns path v
    return some ⟨name, docs, rules, receiver, params, returns⟩

def readMethods (path : Path) (v : Json) : Walk (List Method) :=
  readList readMethod path v "methods"

def readShape (path : Path) (v : Json) (kind : Text) : Walk (Option Shape) :=
  if kind = "opaque" then do
    let methods ← readMethods path v
    return some (.object methods)
  else if kind = "struct" then do
    let fields ← readList readField path v "fields"
    let methods ← readMethods path v
    return some (.record fields methods)
  else if kind = "enum" then do
    let variants ← readNeededList readVariant path v "variants"
    return some (.enumeration variants)
  else if kind = "primitive" then
    andThen (readString path v "primitive" true) fun name =>
    andThen (readPrimitive (path.at "primitive") name) fun p =>
    return some (.synonym p)
  else reject (path.at "kind") (.unknownKind kind)

def readTypeDef : Path → Json → Walk (Option TypeDef) :=
  readObject fun path v => tested do
    let id ← (andThen (require path v "id") (readTypeId (path.at "id"))).withDefault 0
    let name ← (readString path v "name" true).withDefault ""
    let docs ← (readString path v "docs" false).withDefault ""
    let rules ← readRules path v
    andThen (readString path v "kind" true) fun kind =>
    andThen (readShape path v kind) fun shape =>
    return some ⟨id, name, docs, rules, shape⟩

def readRoot : Json → Walk (Option (Text × List TypeDef))
  | .object members => settled do
    let library ← (readString [] (.object members) "library" false).withDefault ""
    let types ← readNeededList readTypeDef [] (.object members) "types"
    return (library, types)
  | _ => reject [] .documentShape

def load (v : Json) : Except (List Diagnostic) Registry :=
  match (readRoot v).run [] with
  | (some (library, types), _) => Registry.build library types
  | (none, faults) => .error (faults.map Fault.diagnostic)

end Walk

end Bindery.Document
