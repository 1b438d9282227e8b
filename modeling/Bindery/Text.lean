/-!
Text is a list of bytes. Everything the generator reads and writes is text in this sense: names,
documents, headers, messages. Literals are written as strings and coerced.
-/

set_option autoImplicit false

namespace Bindery

abbrev Text := List UInt8

/-- The bytes of a literal; every literal of the library is ASCII. -/
def ascii (s : String) : Text := s.toList.map fun c => c.toNat.toUInt8

instance : Coe String Text := ⟨ascii⟩

namespace Byte

abbrev tab : UInt8 := 9
abbrev newline : UInt8 := 10
abbrev carriageReturn : UInt8 := 13
abbrev space : UInt8 := 32
abbrev quote : UInt8 := 34
abbrev hash : UInt8 := 35
abbrev plus : UInt8 := 43
abbrev comma : UInt8 := 44
abbrev minus : UInt8 := 45
abbrev dot : UInt8 := 46
abbrev slash : UInt8 := 47
abbrev zero : UInt8 := 48
abbrev colon : UInt8 := 58
abbrev equals : UInt8 := 61
abbrev openBracket : UInt8 := 91
abbrev backslash : UInt8 := 92
abbrev closeBracket : UInt8 := 93
abbrev underscore : UInt8 := 95
abbrev openBrace : UInt8 := 123
abbrev closeBrace : UInt8 := 125

def isDigit (c : UInt8) : Bool := 48 ≤ c && c ≤ 57

def isUpper (c : UInt8) : Bool := 65 ≤ c && c ≤ 90

def isLower (c : UInt8) : Bool := 97 ≤ c && c ≤ 122

def isAlpha (c : UInt8) : Bool := isUpper c || isLower c

def isAlphanumeric (c : UInt8) : Bool := isAlpha c || isDigit c

def isSpace (c : UInt8) : Bool := c == 32 || (9 ≤ c && c ≤ 13)

def toUpper (c : UInt8) : UInt8 := if isLower c then c - 32 else c

def toLower (c : UInt8) : UInt8 := if isUpper c then c + 32 else c

def digitValue (c : UInt8) : Nat := c.toNat - 48

def ofDigit (d : Nat) : UInt8 := UInt8.ofNat (48 + d)

end Byte

namespace Text

def lower (t : Text) : Text := t.map Byte.toLower

def upper (t : Text) : Text := t.map Byte.toUpper

/-- Bytewise lexicographic order. -/
def before : Text → Text → Bool
  | _, [] => false
  | [], _ :: _ => true
  | a :: s, b :: t =>
    if a.toNat < b.toNat then true
    else if b.toNat < a.toNat then false
    else before s t

def notAfter (a b : Text) : Bool := !before b a

def startsWith (t start : Text) : Bool := start.isPrefixOf t

def after? : (start t : Text) → Option Text
  | [], t => some t
  | _ :: _, [] => none
  | a :: start, b :: t => if a = b then after? start t else none

/-- The pieces between the occurrences of a byte; one more piece than occurrences. -/
def splitOn (sep : UInt8) : Text → List Text
  | [] => [[]]
  | c :: t =>
    if c = sep then [] :: splitOn sep t
    else
      match splitOn sep t with
      | [] => [[c]]
      | piece :: pieces => (c :: piece) :: pieces

def join (sep : Text) (parts : List Text) : Text := sep.intercalate parts

def untilZero (t : Text) : Text := t.takeWhile (· != 0)

def quoted (t : Text) : Text := "'" ++ t ++ "'"

def closed (t : Text) : Text := t ++ [Byte.newline]

def padLeft (width : Nat) (t : Text) : Text := List.replicate (width - t.length) Byte.space ++ t

def padRight (width : Nat) (t : Text) : Text := t ++ List.replicate (width - t.length) Byte.space

end Text

/-- Pushes the decimal digits of `n` onto `acc`; `fuel` exceeds the number of digits. -/
def decimalOnto : (fuel n : Nat) → (acc : Text) → Text
  | 0, _, acc => acc
  | fuel + 1, n, acc =>
    if n < 10 then Byte.ofDigit n :: acc
    else decimalOnto fuel (n / 10) (Byte.ofDigit (n % 10) :: acc)

def decimal (n : Nat) : Text := decimalOnto (n + 1) n []

def decimalInt : Int → Text
  | .ofNat n => decimal n
  | .negSucc n => Byte.minus :: decimal (n + 1)

def digitsValue (t : Text) : Nat := t.foldl (fun n c => 10 * n + Byte.digitValue c) 0

end Bindery
