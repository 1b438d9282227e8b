import Bindery.Json.Value
import Bindery.Json.Location

/-!
Reading JSON text. Every reader takes the bytes still to come and returns what it read with the
rest, or stops with a fault and the bytes that were still to come when it stopped, from which the
place of the fault follows. Containers nest at most `maxDepth` deep: `value fuel limit` may open
`limit` of them. Every reader with a `fuel` consumes a byte at each step, so any fuel above the
number of bytes to come is as good as any other.
-/

set_option autoImplicit false

namespace Bindery.Json

inductive Fault where
  | unexpectedEnd
  | trailing (c : UInt8)
  | unexpected (c : UInt8)
  | tooDeep
  | expectedKey
  | expectedColon
  | unterminatedObject
  | expectedMemberEnd
  | unterminatedArray
  | expectedItemEnd
  | unterminatedString
  | controlByte
  | unterminatedEscape
  | invalidUnicodeEscape
  | unpairedSurrogate
  | invalidLowSurrogate
  | invalidEscape (c : UInt8)
  | expectedDigit
  | leadingZero
  | expectedFraction
  | expectedExponent
  | invalidLiteral
  deriving DecidableEq, Repr

def Fault.message : Fault → Text
  | unexpectedEnd => "Unexpected end of input"
  | trailing c => "Unexpected trailing character " ++ Text.quoted [c]
  | unexpected c => "Unexpected character " ++ Text.quoted [c]
  | tooDeep => "Maximum nesting depth exceeded"
  | expectedKey => "Expected string key in object"
  | expectedColon => "Expected ':' after object key"
  | unterminatedObject => "Unterminated object"
  | expectedMemberEnd => "Expected ',' or '\x7d' in object"
  | unterminatedArray => "Unterminated array"
  | expectedItemEnd => "Expected ',' or ']' in array"
  | unterminatedString => "Unterminated string"
  | controlByte => "Control character in string"
  | unterminatedEscape => "Unterminated escape sequence"
  | invalidUnicodeEscape => "Invalid \\u escape"
  | unpairedSurrogate => "Unpaired surrogate in \\u escape"
  | invalidLowSurrogate => "Invalid low surrogate in \\u escape"
  | invalidEscape c => "Invalid escape character " ++ Text.quoted [c]
  | expectedDigit => "Expected digit"
  | leadingZero => "Leading zeros are not allowed"
  | expectedFraction => "Expected digit after decimal point"
  | expectedExponent => "Expected digit in exponent"
  | invalidLiteral => "Invalid literal"

/-- Where reading stopped: the fault and the bytes not yet consumed. -/
structure Stop where
  fault : Fault
  rest : Text
  deriving DecidableEq, Repr

abbrev Read (α : Type) := Except Stop (α × Text)

def maxDepth : Nat := 512

def isBlank (c : UInt8) : Bool := c == 32 || c == 9 || c == 10 || c == 13

def skipBlank (s : Text) : Text := s.dropWhile isBlank

def hexValue? (c : UInt8) : Option Nat :=
  if Byte.isDigit c then some (c.toNat - 48)
  else if 97 ≤ c && c ≤ 102 then some (c.toNat - 87)
  else if 65 ≤ c && c ≤ 70 then some (c.toNat - 55)
  else none

/-- Reads exactly `count` hexadecimal digits onto `acc`; a failure leaves the rest after the
offending byte. -/
def hexDigits : (count acc : Nat) → Text → Except Text (Nat × Text)
  | 0, acc, s => .ok (acc, s)
  | _ + 1, _, [] => .error []
  | count + 1, acc, c :: s =>
    match hexValue? c with
    | some d => hexDigits count (16 * acc + d) s
    | none => .error s

def utf8 (cp : Nat) : Text :=
  if cp < 0x80 then [UInt8.ofNat cp]
  else if cp < 0x800 then [UInt8.ofNat (0xC0 + cp / 64), UInt8.ofNat (0x80 + cp % 64)]
  else if cp < 0x10000 then
    [UInt8.ofNat (0xE0 + cp / 4096), UInt8.ofNat (0x80 + cp / 64 % 64),
      UInt8.ofNat (0x80 + cp % 64)]
  else
    [UInt8.ofNat (0xF0 + cp / 262144), UInt8.ofNat (0x80 + cp / 4096 % 64),
      UInt8.ofNat (0x80 + cp / 64 % 64), UInt8.ofNat (0x80 + cp % 64)]

def isHighSurrogate (cp : Nat) : Bool := 0xD800 ≤ cp && cp ≤ 0xDBFF

def isLowSurrogate (cp : Nat) : Bool := 0xDC00 ≤ cp && cp ≤ 0xDFFF

/-- The low half of a surrogate pair, which has to follow at once as an escape of its own. -/
def lowSurrogate (high : Nat) : Text → Read Text
  | 92 :: 117 :: s =>
    match hexDigits 4 0 s with
    | .ok (low, rest) =>
      if isLowSurrogate low then
        .ok (utf8 (0x10000 + (high - 0xD800) * 1024 + (low - 0xDC00)), rest)
      else .error ⟨.invalidLowSurrogate, rest⟩
    | .error rest => .error ⟨.invalidLowSurrogate, rest⟩
  | 92 :: s => .error ⟨.unpairedSurrogate, s⟩
  | s => .error ⟨.unpairedSurrogate, s⟩

def unicodeEscape (s : Text) : Read Text :=
  match hexDigits 4 0 s with
  | .error rest => .error ⟨.invalidUnicodeEscape, rest⟩
  | .ok (cp, rest) =>
    if isHighSurrogate cp then lowSurrogate cp rest
    else if isLowSurrogate cp then .error ⟨.unpairedSurrogate, rest⟩
    else .ok (utf8 cp, rest)

def simpleEscape? (c : UInt8) : Option UInt8 :=
  if c = 34 then some 34
  else if c = 92 then some 92
  else if c = 47 then some 47
  else if c = 98 then some 8
  else if c = 102 then some 12
  else if c = 110 then some 10
  else if c = 114 then some 13
  else if c = 116 then some 9
  else none

def escape : Text → Read Text
  | [] => .error ⟨.unterminatedEscape, []⟩
  | c :: s =>
    if c = 117 then unicodeEscape s
    else
      match simpleEscape? c with
      | some d => .ok ([d], s)
      | none => .error ⟨.invalidEscape c, s⟩

/-- One step inside a string: the bytes that a character or escape stands for, or `none` for the
closing quote. -/
def stringItem : Text → Read (Option Text)
  | [] => .error ⟨.unterminatedString, []⟩
  | c :: s =>
    if c = Byte.quote then .ok (none, s)
    else if c < 32 then .error ⟨.controlByte, s⟩
    else if c = Byte.backslash then
      match escape s with
      | .ok (bytes, rest) => .ok (some bytes, rest)
      | .error stop => .error stop
    else .ok (some [c], s)

def stringBody : (fuel : Nat) → Text → Read Text
  | 0, s => .error ⟨.unterminatedString, s⟩
  | fuel + 1, s =>
    match stringItem s with
    | .error stop => .error stop
    | .ok (none, rest) => .ok ([], rest)
    | .ok (some bytes, rest) =>
      match stringBody fuel rest with
      | .error stop => .error stop
      | .ok (more, rest) => .ok (bytes ++ more, rest)

structure Numeral where
  negative : Bool
  whole : Text
  fraction : Option Text
  exponent : Option (Bool × Text)
  deriving DecidableEq, Repr

def digitRow (s : Text) : Text × Text := (s.takeWhile Byte.isDigit, s.dropWhile Byte.isDigit)

def wholePart : Text → Read Text
  | [] => .error ⟨.expectedDigit, []⟩
  | c :: s =>
    if !Byte.isDigit c then .error ⟨.expectedDigit, c :: s⟩
    else if c = Byte.zero then
      match s with
      | d :: _ => if Byte.isDigit d then .error ⟨.leadingZero, s⟩ else .ok ([c], s)
      | [] => .ok ([c], s)
    else .ok (c :: (digitRow s).1, (digitRow s).2)

def digitsOr (fault : Fault) (s : Text) : Read Text :=
  match digitRow s with
  | ([], rest) => .error ⟨fault, rest⟩
  | (ds, rest) => .ok (ds, rest)

def fractionPart : Text → Read (Option Text)
  | 46 :: s =>
    match digitsOr .expectedFraction s with
    | .ok (ds, rest) => .ok (some ds, rest)
    | .error stop => .error stop
  | s => .ok (none, s)

/-- The sign of an exponent, plus unless a minus is written. -/
def exponentSign : Text → Bool × Text
  | 43 :: s => (false, s)
  | 45 :: s => (true, s)
  | s => (false, s)

def exponentPart : Text → Read (Option (Bool × Text))
  | [] => .ok (none, [])
  | c :: s =>
    if c = 101 ∨ c = 69 then
      match digitsOr .expectedExponent (exponentSign s).2 with
      | .ok (ds, rest) => .ok (some ((exponentSign s).1, ds), rest)
      | .error stop => .error stop
    else .ok (none, c :: s)

def minusSign : Text → Bool × Text
  | 45 :: s => (true, s)
  | s => (false, s)

def numeral (s : Text) : Read Numeral :=
  match wholePart (minusSign s).2 with
  | .error stop => .error stop
  | .ok (whole, rest) =>
    match fractionPart rest with
    | .error stop => .error stop
    | .ok (fraction, rest) =>
      match exponentPart rest with
      | .error stop => .error stop
      | .ok (exponent, rest) => .ok (⟨(minusSign s).1, whole, fraction, exponent⟩, rest)

namespace Numeral

/-- The exponent of ten that is written, zero if none is. -/
def exponentValue (n : Numeral) : Int :=
  match n.exponent with
  | none => 0
  | some (minus, ds) => if minus then -(digitsValue ds : Int) else digitsValue ds

def toReal (n : Numeral) : Binary64 :=
  let fraction := n.fraction.getD []
  Binary64.ofDecimal n.negative (digitsValue (n.whole ++ fraction))
    (n.exponentValue - fraction.length)

/-- A numeral without fraction and exponent is an integer if sixty-four bits hold it; every other
one is a binary64. -/
def value (n : Numeral) : Number :=
  let size := digitsValue n.whole
  if n.fraction.isSome || n.exponent.isSome then .real n.toReal
  else if n.negative then
    if size ≤ twoTo 63 then .int (Int64.ofInt (-size)) else .real n.toReal
  else if size < twoTo 63 then .int (Int64.ofNat size)
  else if size < twoTo 64 then .nat (UInt64.ofNat size)
  else .real n.toReal

end Numeral

def keyword (s : Text) : Read Json :=
  match Text.after? "true" s with
  | some rest => .ok (.bool true, rest)
  | none =>
    match Text.after? "false" s with
    | some rest => .ok (.bool false, rest)
    | none =>
      match Text.after? "null" s with
      | some rest => .ok (.null, rest)
      | none => .error ⟨.invalidLiteral, s⟩

def items (item : Text → Read Json) : (fuel : Nat) → Text → Read (List Json)
  | 0, s => .error ⟨.unterminatedArray, s⟩
  | fuel + 1, s =>
    match item s with
    | .error stop => .error stop
    | .ok (v, rest) =>
      match skipBlank rest with
      | [] => .error ⟨.unterminatedArray, []⟩
      | c :: rest =>
        if c = Byte.closeBracket then .ok ([v], rest)
        else if c = Byte.comma then
          match items item fuel rest with
          | .error stop => .error stop
          | .ok (vs, rest) => .ok (v :: vs, rest)
        else .error ⟨.expectedItemEnd, rest⟩

def arrayBody (item : Text → Read Json) (fuel : Nat) (s : Text) : Read (List Json) :=
  match skipBlank s with
  | 93 :: rest => .ok ([], rest)
  | rest => items item fuel rest

def memberKey (fuel : Nat) (s : Text) : Read Text :=
  match skipBlank s with
  | 34 :: rest =>
    match stringBody fuel rest with
    | .error stop => .error stop
    | .ok (key, rest) =>
      match skipBlank rest with
      | 58 :: rest => .ok (key, rest)
      | rest => .error ⟨.expectedColon, rest⟩
  | rest => .error ⟨.expectedKey, rest⟩

def members (item : Text → Read Json) : (fuel : Nat) → Text → Read (List (Text × Json))
  | 0, s => .error ⟨.unterminatedObject, s⟩
  | fuel + 1, s =>
    match memberKey (fuel + 1) s with
    | .error stop => .error stop
    | .ok (key, rest) =>
      match item rest with
      | .error stop => .error stop
      | .ok (v, rest) =>
        match skipBlank rest with
        | [] => .error ⟨.unterminatedObject, []⟩
        | c :: rest =>
          if c = Byte.closeBrace then .ok ([(key, v)], rest)
          else if c = Byte.comma then
            match members item fuel rest with
            | .error stop => .error stop
            | .ok (ms, rest) => .ok ((key, v) :: ms, rest)
          else .error ⟨.expectedMemberEnd, rest⟩

def objectBody (item : Text → Read Json) (fuel : Nat) (s : Text) : Read (List (Text × Json)) :=
  match skipBlank s with
  | 125 :: rest => .ok ([], rest)
  | rest => members item fuel rest

/-- A value whose containers are read with `nested`, or refused where none may be opened. -/
def valueWith (fuel : Nat) (nested : Option (Text → Read Json)) (s : Text) : Read Json :=
  match skipBlank s with
  | [] => .error ⟨.unexpectedEnd, []⟩
  | c :: rest =>
    if c = Byte.openBrace then
      match nested with
      | none => .error ⟨.tooDeep, c :: rest⟩
      | some item =>
        match objectBody item fuel rest with
        | .error stop => .error stop
        | .ok (ms, rest) => .ok (ofMembers ms, rest)
    else if c = Byte.openBracket then
      match nested with
      | none => .error ⟨.tooDeep, c :: rest⟩
      | some item =>
        match arrayBody item fuel rest with
        | .error stop => .error stop
        | .ok (vs, rest) => .ok (.array vs, rest)
    else if c = Byte.quote then
      match stringBody fuel rest with
      | .error stop => .error stop
      | .ok (t, rest) => .ok (.string t, rest)
    else if c = 116 ∨ c = 102 ∨ c = 110 then keyword (c :: rest)
    else if c = Byte.minus ∨ Byte.isDigit c then
      match numeral (c :: rest) with
      | .error stop => .error stop
      | .ok (n, rest) => .ok (.number n.value, rest)
    else .error ⟨.unexpected c, c :: rest⟩

/-- A value in which at most `limit` containers are open at once. -/
def value (fuel : Nat) : (limit : Nat) → Text → Read Json
  | 0 => valueWith fuel none
  | limit + 1 => valueWith fuel (some (value fuel limit))

def document (s : Text) : Except Stop Json :=
  match value (s.length + 1) maxDepth s with
  | .error stop => .error stop
  | .ok (v, rest) =>
    match skipBlank rest with
    | [] => .ok v
    | c :: rest => .error ⟨.trailing c, c :: rest⟩

structure Error where
  message : Text
  line : Nat
  column : Nat
  offset : Nat
  deriving DecidableEq, Repr

def Error.text (e : Error) : Text :=
  if 0 < e.line ∧ 0 < e.column then
    "line " ++ decimal e.line ++ ", column " ++ decimal e.column ++ ": " ++ e.message
  else if 0 < e.line then "line " ++ decimal e.line ++ ": " ++ e.message
  else e.message

/-- The place of a stop is the one reached after the bytes consumed before it. -/
def Stop.error (stop : Stop) (text : Text) : Error :=
  let place := Location.after (text.take (text.length - stop.rest.length))
  ⟨stop.fault.message, place.line, place.column, place.offset⟩

def parse (text : Text) : Except Error Json :=
  match document text with
  | .ok v => .ok v
  | .error stop => .error (stop.error text)

end Bindery.Json
