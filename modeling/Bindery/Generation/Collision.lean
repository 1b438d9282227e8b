import Bindery.Generation.Unit

/-!
Clashes between and within types: a C identifier that is declared more than once, or two files
whose names differ at most in case. Every type involved is withdrawn.
-/

set_option autoImplicit false

namespace Bindery

structure DeclaredKey where
  key : Text
  owner : TypeId
  ownerName : Text
  deriving DecidableEq, Repr

namespace TypeOutcome

def keysBy (keys : GeneratedUnit → List Text) (o : TypeOutcome) : List DeclaredKey :=
  match o.generated with
  | none => []
  | some u => (keys u).map fun key => ⟨key, o.type.id, o.type.name⟩

end TypeOutcome

/-- File names that differ in case only are one file on some systems. -/
def GeneratedUnit.fileKeys (u : GeneratedUnit) : List Text :=
  u.artifacts.map fun a => Text.lower a.path

def isRepeated (declared : List DeclaredKey) (key : Text) : Bool :=
  2 ≤ (declared.filter fun c => c.key == key).length

/-- The repeated keys in order, each once. -/
def repeatedKeys (declared : List DeclaredKey) : List Text :=
  (Sorted.ofList Text.before (declared.map DeclaredKey.key)).filter (isRepeated declared)

def ownerBefore (a b : TypeId × Text) : Bool := a.1 < b.1

def ownersOf (declared : List DeclaredKey) (key : Text) : List (TypeId × Text) :=
  Sorted.ofList ownerBefore
    ((declared.filter fun c => c.key == key).map fun c => (c.owner, c.ownerName))

structure Clash where
  key : Text
  owners : List (TypeId × Text)
  deriving DecidableEq, Repr

def clashes (declared : List DeclaredKey) : List Clash :=
  (repeatedKeys declared).map fun key => ⟨key, ownersOf declared key⟩

namespace Clash

def involves (c : Clash) (id : TypeId) : Bool := c.owners.any fun o => o.1 == id

def message (what : Text) (c : Clash) : Text :=
  what ++ " " ++ Text.quoted c.key ++ " is declared more than once (" ++
    Text.join ", " (c.owners.map Prod.snd) ++ ")"

def messagesFor (what : Text) (found : List Clash) (id : TypeId) : List Text :=
  (found.filter fun c => c.involves id).map (message what)

end Clash

def withdrawClashing (identifiers files : List Clash) (o : TypeOutcome) : TypeOutcome :=
  match Clash.messagesFor "C identifier" identifiers o.type.id ++
      Clash.messagesFor "file name" files o.type.id with
  | [] => o
  | messages =>
    { o with
      errors := o.errors ++ messages.map (.ofType .namingConflict o.type)
      generated := none }

def resolveCollisions (outcomes : List TypeOutcome) : List TypeOutcome :=
  let identifiers := clashes (outcomes.flatMap (TypeOutcome.keysBy GeneratedUnit.names))
  let files := clashes (outcomes.flatMap (TypeOutcome.keysBy GeneratedUnit.fileKeys))
  outcomes.map (withdrawClashing identifiers files)

end Bindery
