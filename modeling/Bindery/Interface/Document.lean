import Bindery.Interface.Registry
import Bindery.Json.Parser

/-!
Reading an interface document. Every problem is reported with the path of the node it is about, and
a problem in one element never hides those of another: reading is applicative, the problems of all
parts are collected in document order.
-/

set_option autoImplicit false

namespace Bindery

namespace Document

inductive Step where
  | key (name : Text)
  | index (i : Nat)
  deriving DecidableEq, Repr

abbrev Path := List Step

def Step.text : Step → Text
  | key name => "." ++ name
  | index i => "[" ++ decimal i ++ "]"

def Path.text (path : Path) : Text := "$" ++ path.flatMap Step.text

def Path.at (path : Path) (key : Text) : Path := path ++ [.key key]

inductive Problem where
  | documentShape
  | missingKey (key : Text)
  | expected (what found : Text)
  | idRange
  | unknownPrimitive (name : Text)
  | unknownKind (name : Text)
  | unknownReceiver (name : Text)
  | featureNames
  | variantValue
  | primitiveName
  | ownershipWord
  | viewName
  | unknownView (name : Text)
  | fallibleShape
  | unrecognizedReference
  deriving DecidableEq, Repr

def Problem.message : Problem → Text
  | documentShape => "IR document must be an object"
  | missingKey key => "missing required key " ++ Text.quoted key
  | expected what found => "expected " ++ what ++ ", found " ++ found
  | idRange => "type id must be in 1..4294967295"
  | unknownPrimitive name => "unknown primitive " ++ Text.quoted name
  | unknownKind name => "unknown type kind " ++ Text.quoted name
  | unknownReceiver name => "unknown self kind " ++ Text.quoted name
  | featureNames => "expected array of feature names"
  | variantValue => "expected 64-bit signed integer"
  | primitiveName => "expected primitive name"
  | ownershipWord => "expected \"owned\" or \"borrowed\""
  | viewName => "expected slice encoding"
  | unknownView name => "unknown slice encoding " ++ Text.quoted name
  | fallibleShape => "expected object with 'ok' and 'err'"
  | unrecognizedReference => "unrecognized type reference"

structure Fault where
  path : Path
  problem : Problem
  deriving DecidableEq, Repr

def Fault.message (f : Fault) : Text := "at " ++ f.path.text ++ ": " ++ f.problem.message

def Fault.diagnostic (f : Fault) : Diagnostic := .general .lowering f.message

/-- A part of the document as read, or what is wrong with it. -/
inductive Checked (α : Type) where
  | good (value : α)
  | bad (faults : List Fault)

namespace Checked

variable {α β : Type}

def fault (path : Path) (problem : Problem) : Checked α := bad [⟨path, problem⟩]

def faults : Checked α → List Fault
  | good _ => []
  | bad fs => fs

/-- Both parts are looked at, also when the first one is bad. -/
def both : Checked (α → β) → Checked α → Checked β
  | good f, good a => good (f a)
  | good _, bad fs => bad fs
  | bad fs, good _ => bad fs
  | bad fs, bad gs => bad (fs ++ gs)

instance : Applicative Checked where
  pure := good
  seq f a := both f (a ())

/-- The second part is looked at only once the first one is known. -/
def andThen (a : Checked α) (f : α → Checked β) : Checked β :=
  match a with
  | good a => f a
  | bad fs => bad fs

def all : List (Checked α) → Checked (List α)
  | [] => good []
  | c :: cs => both (both (good List.cons) c) (all cs)

end Checked

open Checked

def expected {α : Type} (path : Path) (what : Text) (found : Json) : Checked α :=
  fault path (.expected what found.kindName)

def required (path : Path) (v : Json) (key : Text) : Checked Json :=
  match v.get? key with
  | some child => good child
  | none => fault path (.missingKey key)

def asString (path : Path) : Json → Checked Text
  | .string s => good s
  | v => expected path "string" v

def asBool (path : Path) : Json → Checked Bool
  | .bool b => good b
  | v => expected path "bool" v

def requiredString (path : Path) (v : Json) (key : Text) : Checked Text :=
  (required path v key).andThen (asString (path.at key))

def optionalString (path : Path) (v : Json) (key fallback : Text) : Checked Text :=
  match v.get? key with
  | some child => asString (path.at key) child
  | none => good fallback

def optionalBool (path : Path) (v : Json) (key : Text) (fallback : Bool) : Checked Bool :=
  match v.get? key with
  | some child => asBool (path.at key) child
  | none => good fallback

def requiredBool (path : Path) (v : Json) (key : Text) : Checked Bool :=
  (required path v key).andThen (asBool (path.at key))

def asList {α : Type} (item : Path → Json → Checked α) (path : Path) : Json → Checked (List α)
  | .array vs => all (vs.zipIdx.map fun (v, i) => item (path ++ [.index i]) v)
  | v => expected path "array" v

/-- An absent array is empty. -/
def optionalList {α : Type} (item : Path → Json → Checked α) (path : Path) (v : Json)
    (key : Text) : Checked (List α) :=
  match v.get? key with
  | some child => asList item (path.at key) child
  | none => good []

def asObject {α : Type} (item : Path → Json → Checked α) (path : Path) : Json → Checked α
  | .object ms => item path (.object ms)
  | v => expected path "object" v

def asTypeId (path : Path) (v : Json) : Checked TypeId :=
  match v with
  | .number n =>
    if n.isInteger then
      match n.nat? with
      | some id =>
        if 0 < id.toNat ∧ id.toNat ≤ 4294967295 then good id.toNat else fault path .idRange
      | none => fault path .idRange
    else expected path "type id" v
  | _ => expected path "type id" v

def asPrimitive (path : Path) (name : Text) : Checked Primitive :=
  match Primitive.ofName? name with
  | some p => good p
  | none => fault path (.unknownPrimitive name)

def primitiveRef (path : Path) : Json → Checked TypeRef
  | .string name => TypeRef.primitive <$> asPrimitive path name
  | _ => fault path .primitiveName

def ownershipOf (path : Path) (word : Text) : Checked Ownership :=
  if word = "owned" then good .owned
  else if word = "borrowed" then good .borrowed
  else fault path .ownershipWord

/-- The word for the ownership is judged after all keys have been looked at; one that could not be
read has been reported by then. -/
def objectRef (path : Path) (v id : Json) : Checked TypeRef :=
  let word := optionalString path v "ownership" "borrowed"
  let judged :=
    match word with
    | good w => ownershipOf (path.at "ownership") w
    | bad _ => good .borrowed
  (fun id _ isMutable ownership => TypeRef.object id ownership isMutable) <$>
    asTypeId (path.at "opaque") id <*> word <*> optionalBool path v "mut" false <*> judged

def recordRef (path : Path) (v id : Json) : Checked TypeRef :=
  TypeRef.record <$> asTypeId (path.at "struct") id <*> optionalBool path v "by_ref" false

def scalarView (path : Path) (v : Json) : Checked View :=
  View.scalars <$> (requiredString path v "element").andThen (asPrimitive (path.at "element"))

/-- Only a view of scalars keeps its element. Nothing asks for that of the others, which is `u8` for
text and strings and `u16` for text in units of sixteen bits. -/
def viewOf (path : Path) (v : Json) (name : Text) : Checked View :=
  if name = "utf8" then good .utf8
  else if name = "utf16" then good .utf16
  else if name = "strings" then good .strings
  else if name = "primitive" then scalarView path v
  else fault (path.at "slice") (.unknownView name)

def sliceRef (path : Path) (v : Json) : Json → Checked TypeRef
  | .string name =>
    (fun isMutable view => TypeRef.slice view isMutable) <$> optionalBool path v "mut" false <*>
      viewOf path v name
  | _ => fault (path.at "slice") .viewName

/-- Reads a reference with `nested` for the references inside it. The first key that names a form
decides. -/
def referenceWith (nested : Path → Json → Checked TypeRef) (path : Path) : Json → Checked TypeRef
  | .null => good .unit
  | .object ms =>
    let v := Json.object ms
    match v.get? "primitive" with
    | some p => primitiveRef (path.at "primitive") p
    | none =>
    match v.get? "opaque" with
    | some id => objectRef path v id
    | none =>
    match v.get? "struct" with
    | some id => recordRef path v id
    | none =>
    match v.get? "enum" with
    | some id => TypeRef.enumeration <$> asTypeId (path.at "enum") id
    | none =>
    match v.get? "slice" with
    | some view => sliceRef path v view
    | none =>
    match v.get? "writeable" with
    | some _ => good .writeable
    | none =>
    match v.get? "nullable" with
    | some inner => TypeRef.nullable <$> nested (path.at "nullable") inner
    | none =>
    match v.get? "fallible" with
    | some (.object sides) =>
      let f := Json.object sides
      let side (key : Text) := nested ((path.at "fallible").at key) ((f.get? key).getD .null)
      TypeRef.fallible <$> side "ok" <*> side "err"
    | some _ => fault (path.at "fallible") .fallibleShape
    | none => fault path .unrecognizedReference
  | v => expected path "type reference" v

def referenceAt : (depth : Nat) → Path → Json → Checked TypeRef
  | 0 => referenceWith fun path _ => fault path .unrecognizedReference
  | depth + 1 => referenceWith (referenceAt depth)

/-- Reads a reference. A nested one stands in a container of its own, so the depth of the value
bounds the nesting. -/
def reference (path : Path) (v : Json) : Checked TypeRef := referenceAt v.depth path v

def featureList (path : Path) : List Json → Checked (List Text)
  | [] => good []
  | .string s :: vs => List.cons s <$> featureList path vs
  | _ :: _ => fault path .featureNames

def features (path : Path) (v : Json) : Checked (List Text) :=
  match v.get? "features" with
  | none => good []
  | some (.array vs) => featureList (path.at "features") vs
  | some _ => fault (path.at "features") .featureNames

def rule : Path → Json → Checked Rule :=
  asObject fun path v =>
    (fun target enabled features => ⟨target, features, enabled⟩) <$>
      requiredString path v "backend" <*> requiredBool path v "enabled" <*> features path v

def rules (path : Path) (v : Json) : Checked (List Rule) := optionalList rule path v "attrs"

def param : Path → Json → Checked Param :=
  asObject fun path v =>
    Param.mk <$> requiredString path v "name" <*>
      (required path v "type").andThen (reference (path.at "type"))

def receiverOf (path : Path) (name : Text) : Checked Receiver :=
  if name = "" ∨ name = "none" then good .absent
  else if name = "value" then good .byValue
  else if name = "ref" then good .shared
  else if name = "mut_ref" then good .exclusive
  else fault path (.unknownReceiver name)

def returns (path : Path) (v : Json) : Checked TypeRef :=
  match v.get? "returns" with
  | some child => reference (path.at "returns") child
  | none => good .unit

def method : Path → Json → Checked Method :=
  asObject fun path v =>
    Method.mk <$> requiredString path v "name" <*> optionalString path v "docs" "" <*>
      rules path v <*>
      (optionalString path v "self" "").andThen (receiverOf (path.at "self")) <*>
      optionalList param path v "params" <*> returns path v

def methods (path : Path) (v : Json) : Checked (List Method) := optionalList method path v "methods"

def recordField : Path → Json → Checked Field :=
  asObject fun path v =>
    Field.mk <$> requiredString path v "name" <*> optionalString path v "docs" "" <*>
      (required path v "type").andThen (reference (path.at "type"))

def variantValue (path : Path) : Json → Checked Int64
  | .number n =>
    match n.int? with
    | some i => good i
    | none => fault path .variantValue
  | _ => fault path .variantValue

def variant : Path → Json → Checked Variant :=
  asObject fun path v =>
    Variant.mk <$> requiredString path v "name" <*> optionalString path v "docs" "" <*>
      (required path v "value").andThen (variantValue (path.at "value"))

def shapeOf (path : Path) (v : Json) (kind : Text) : Checked Shape :=
  if kind = "opaque" then Shape.object <$> methods path v
  else if kind = "struct" then
    Shape.record <$> optionalList recordField path v "fields" <*> methods path v
  else if kind = "enum" then
    Shape.enumeration <$> (required path v "variants").andThen (asList variant (path.at "variants"))
  else if kind = "primitive" then
    Shape.synonym <$>
      (requiredString path v "primitive").andThen (asPrimitive (path.at "primitive"))
  else fault (path.at "kind") (.unknownKind kind)

def typeDef : Path → Json → Checked TypeDef :=
  asObject fun path v =>
    TypeDef.mk <$> (required path v "id").andThen (asTypeId (path.at "id")) <*>
      requiredString path v "name" <*> optionalString path v "docs" "" <*> rules path v <*>
      (requiredString path v "kind").andThen (shapeOf path v)

def root : Json → Checked (Text × List TypeDef)
  | .object ms =>
    let v := Json.object ms
    Prod.mk <$> optionalString [] v "library" "" <*>
      (required [] v "types").andThen (asList typeDef [.key "types"])
  | _ => fault [] .documentShape

def ofJson (v : Json) : Except (List Diagnostic) Registry :=
  match root v with
  | good (library, types) => Registry.build library types
  | bad faults => .error (faults.map Fault.diagnostic)

def read (text : Text) : Except (List Diagnostic) Registry :=
  match Json.parse text with
  | .ok v => ofJson v
  | .error e => .error [.general .lowering ("invalid JSON: " ++ e.text)]

end Document

end Bindery
