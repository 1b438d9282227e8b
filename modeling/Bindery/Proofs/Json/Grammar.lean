import Bindery.Json.Parser
import Bindery.Proofs.Sorted
import Mathlib.Data.Nat.Digits.Defs

/-!
The grammar of JSON over bytes, with the value every text stands for. A rule relates the whole of
what is written to its meaning; none looks at what follows. Containers are counted: `Value depth`
holds of values that nest at most `depth` of them.
-/

set_option autoImplicit false

namespace Bindery.Json.Grammar

/-- Any number of blanks, tabs and line breaks. -/
def Blank (s : Text) : Prop := ∀ c ∈ s, c = 32 ∨ c = 9 ∨ c = 10 ∨ c = 13

inductive HexDigit : UInt8 → Nat → Prop where
  | decimal {c : UInt8} : 48 ≤ c.toNat → c.toNat ≤ 57 → HexDigit c (c.toNat - 48)
  | lower {c : UInt8} : 97 ≤ c.toNat → c.toNat ≤ 102 → HexDigit c (c.toNat - 97 + 10)
  | upper {c : UInt8} : 65 ≤ c.toNat → c.toNat ≤ 70 → HexDigit c (c.toNat - 65 + 10)

/-- Four hexadecimal digits and the number they stand for. -/
inductive HexQuad : Text → Nat → Prop where
  | digits {a b c d : UInt8} {w x y z : Nat} :
    HexDigit a w → HexDigit b x → HexDigit c y → HexDigit d z →
    HexQuad [a, b, c, d] (4096 * w + 256 * x + 16 * y + z)

inductive Shorthand : UInt8 → UInt8 → Prop where
  | quote : Shorthand 34 34
  | backslash : Shorthand 92 92
  | slash : Shorthand 47 47
  | backspace : Shorthand 98 8
  | formFeed : Shorthand 102 12
  | lineFeed : Shorthand 110 10
  | carriageReturn : Shorthand 114 13
  | tab : Shorthand 116 9

/-- A character as it is written in a string, and the bytes it stands for. A surrogate is no
character, so a number in that range has to come as a pair. -/
inductive Character : Text → Text → Prop where
  | plain {c : UInt8} : 32 ≤ c → c ≠ 34 → c ≠ 92 → Character [c] [c]
  | short {c d : UInt8} : Shorthand c d → Character [92, c] [d]
  | scalar {h : Text} {ch : Char} :
    HexQuad h ch.toNat → Character (92 :: 117 :: h) (String.utf8EncodeChar ch)
  | pair {h l : Text} {high low : Nat} {ch : Char} :
    HexQuad h high → 0xD800 ≤ high → high ≤ 0xDBFF →
    HexQuad l low → 0xDC00 ≤ low → low ≤ 0xDFFF →
    ch.toNat = 0x10000 + 0x400 * (high - 0xD800) + (low - 0xDC00) →
    Character (92 :: 117 :: h ++ 92 :: 117 :: l) (String.utf8EncodeChar ch)

inductive Characters : Text → Text → Prop where
  | nil : Characters [] []
  | cons {s bytes more t : Text} :
    Character s bytes → Characters more t → Characters (s ++ more) (bytes ++ t)

inductive Quoted : Text → Text → Prop where
  | quotes {s t : Text} : Characters s t → Quoted (34 :: s ++ [34]) t

def Digits (ds : Text) : Prop := ∀ c ∈ ds, 48 ≤ c.toNat ∧ c.toNat ≤ 57

inductive Whole : Text → Prop where
  | zero : Whole [48]
  | positive {c : UInt8} {ds : Text} :
    49 ≤ c.toNat → c.toNat ≤ 57 → Digits ds → Whole (c :: ds)

inductive Minus : Text → Bool → Prop where
  | absent : Minus [] false
  | present : Minus [45] true

inductive Fraction : Text → Option Text → Prop where
  | absent : Fraction [] none
  | digits {ds : Text} : ds ≠ [] → Digits ds → Fraction (46 :: ds) (some ds)

inductive ExponentSign : Text → Bool → Prop where
  | absent : ExponentSign [] false
  | plus : ExponentSign [43] false
  | minus : ExponentSign [45] true

inductive Exponent : Text → Option (Bool × Text) → Prop where
  | absent : Exponent [] none
  | digits {e : UInt8} {sign ds : Text} {minus : Bool} :
    e = 101 ∨ e = 69 → ExponentSign sign minus → ds ≠ [] → Digits ds →
    Exponent (e :: sign ++ ds) (some (minus, ds))

inductive Written : Text → Numeral → Prop where
  | parts {sign whole point power : Text} {negative : Bool} {fraction : Option Text}
      {exponent : Option (Bool × Text)} :
    Minus sign negative → Whole whole → Fraction point fraction → Exponent power exponent →
    Written (sign ++ whole ++ point ++ power) ⟨negative, whole, fraction, exponent⟩

/-- The integer of a numeral without fraction and exponent. -/
def IntegerValue (n : Numeral) (z : Int) : Prop :=
  n.fraction = none ∧ n.exponent = none ∧
    z = (if n.negative then -1 else 1) *
      (Nat.ofDigits 10 (n.whole.reverse.map Byte.digitValue) : Nat)

/-- The number a numeral stands for. What sixty-four bits cannot hold, and what is no integer, is
the nearest binary64. -/
inductive Denotes (n : Numeral) : Number → Prop where
  | int {i : Int64} : IntegerValue n i.toInt → Denotes n (.int i)
  | nat {m : UInt64} : IntegerValue n m.toNat → 2 ^ 63 ≤ m.toNat → Denotes n (.nat m)
  | wide {z : Int} : IntegerValue n z → z < -2 ^ 63 ∨ 2 ^ 64 ≤ z → Denotes n (.real n.toReal)
  | real : n.fraction ≠ none ∨ n.exponent ≠ none → Denotes n (.real n.toReal)

inductive Scalar : Text → Json → Prop where
  | null : Scalar "null" .null
  | false : Scalar "false" (.bool Bool.false)
  | true : Scalar "true" (.bool Bool.true)
  | string {s t : Text} : Quoted s t → Scalar s (.string t)
  | number {s : Text} {n : Numeral} {x : Number} :
    Written s n → Denotes n x → Scalar s (.number x)

inductive Separated {α : Type} (item : Text → α → Prop) : Text → List α → Prop where
  | one {s : Text} {a : α} : item s a → Separated item s [a]
  | more {s rest : Text} {a : α} {as : List α} :
    item s a → Separated item rest as → Separated item (s ++ 44 :: rest) (a :: as)

/-- What the members of an object come to: each key once, in increasing order, with the last value
written for it. -/
structure Merged (written members : List (Text × Json)) : Prop where
  increasing : Sorted.KeysIncrease Text.before members
  last (key : Text) : members.lookup key = written.reverse.lookup key

section
variable (value : Text → Json → Prop)

inductive Padded : Text → Json → Prop where
  | blanks {before s after : Text} {v : Json} :
    Blank before → value s v → Blank after → Padded (before ++ s ++ after) v

inductive Member : Text → Text × Json → Prop where
  | binding {before name after s : Text} {key : Text} {v : Json} :
    Blank before → Quoted name key → Blank after → Padded value s v →
    Member (before ++ name ++ after ++ 58 :: s) (key, v)

inductive Container : Text → Json → Prop where
  | emptyArray {s : Text} : Blank s → Container (91 :: s ++ [93]) (.array [])
  | array {s : Text} {vs : List Json} :
    Separated (Padded value) s vs → Container (91 :: s ++ [93]) (.array vs)
  | emptyObject {s : Text} : Blank s → Container (123 :: s ++ [125]) (.object [])
  | object {s : Text} {written members : List (Text × Json)} :
    Separated (Member value) s written → Merged written members →
    Container (123 :: s ++ [125]) (.object members)

end

/-- A value in which at most `depth` containers are open at once. -/
def Value : (depth : Nat) → Text → Json → Prop
  | 0, s, v => Scalar s v
  | depth + 1, s, v => Scalar s v ∨ Container (Value depth) s v

def Document (depth : Nat) : Text → Json → Prop := Padded (Value depth)

end Bindery.Json.Grammar
