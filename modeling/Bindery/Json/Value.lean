import Bindery.Binary64.Decimal
import Bindery.Sorted

/-!
JSON values. Integers that fit sixty-four bits are kept exactly, other numbers are binary64. The
members of an object are kept in increasing order of their keys; `Json.put` is the only way the
library adds one.
-/

set_option autoImplicit false

namespace Bindery

inductive Number where
  | int (i : Int64)
  | nat (n : UInt64)
  | real (x : Binary64)
  deriving DecidableEq, Repr

namespace Number

def isInteger : Number → Bool
  | real _ => false
  | _ => true

def int? : Number → Option Int64
  | int i => some i
  | nat n => if n.toNat < twoTo 63 then some (Int64.ofNat n.toNat) else none
  | real _ => none

def nat? : Number → Option UInt64
  | int i => if 0 ≤ i.toInt then some (UInt64.ofNat i.toInt.toNat) else none
  | nat n => some n
  | real _ => none

def toReal : Number → Binary64
  | int i => .ofInt i.toInt
  | nat n => .ofInt n.toNat
  | real x => x

/-- Numbers of one kind compare exactly, numbers of two kinds as binary64. -/
def same : Number → Number → Bool
  | int i, int j => i == j
  | nat m, nat n => m == n
  | real x, real y => x.sameValue y
  | a, b => a.toReal.sameValue b.toReal

end Number

inductive Json where
  | null
  | bool (b : Bool)
  | number (n : Number)
  | string (s : Text)
  | array (items : List Json)
  | object (members : List (Text × Json))

namespace Json

def kindName : Json → Text
  | null => "null"
  | bool _ => "bool"
  | number _ => "number"
  | string _ => "string"
  | array _ => "array"
  | object _ => "object"

def isInteger : Json → Bool
  | number n => n.isInteger
  | _ => false

def get? (v : Json) (key : Text) : Option Json :=
  match v with
  | object members => members.lookup key
  | _ => none

/-- Binds a member of an object; other values have no members to bind. -/
def put? (v : Json) (key : Text) (value : Json) : Option Json :=
  match v with
  | object members => some (object (Sorted.put Text.before key value members))
  | _ => none

/-- Appends to an array; other values have no end to append to. -/
def push? (v value : Json) : Option Json :=
  match v with
  | array items => some (array (items ++ [value]))
  | _ => none

/-- An object from its members, a later binding of a key replacing an earlier one. -/
def ofMembers (members : List (Text × Json)) : Json :=
  object (members.foldl (fun obj m => Sorted.put Text.before m.1 m.2 obj) [])

mutual

/-- Equality of values: arrays element by element, objects by equal values under the same keys. -/
def same : Json → Json → Bool
  | null, null => true
  | bool a, bool b => a == b
  | number a, number b => a.same b
  | string a, string b => a == b
  | array as, array bs => sameItems as bs
  | object as, object bs => as.length == bs.length && sameMembers as bs
  | _, _ => false

def sameItems : List Json → List Json → Bool
  | [], [] => true
  | a :: as, b :: bs => same a b && sameItems as bs
  | _, _ => false

def sameMembers : List (Text × Json) → List (Text × Json) → Bool
  | [], _ => true
  | (key, a) :: as, bs =>
    match bs.lookup key with
    | some b => same a b && sameMembers as bs
    | none => false

end

mutual

/-- The number of containers around the innermost value, counting a container itself. -/
def depth : Json → Nat
  | array items => depthItems items + 1
  | object members => depthMembers members + 1
  | _ => 0

def depthItems : List Json → Nat
  | [] => 0
  | v :: vs => max (depth v) (depthItems vs)

def depthMembers : List (Text × Json) → Nat
  | [] => 0
  | (_, v) :: vs => max (depth v) (depthMembers vs)

end

end Json

end Bindery
