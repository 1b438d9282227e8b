import Bindery.Json.Parser

/-!
Reading JSON with a cursor. The text stays as it is and a place in it moves: line and column are
counted as bytes are taken, a byte is taken without asking whether there is one, and a loop goes
round until it is told to stop. Two things can then go wrong that have nothing to do with the text:
the cursor may run past the end, and a loop may go round for more times than there are bytes. Both
end the reading here with a halt of their own.
-/

set_option autoImplicit false

namespace Bindery.Json.Cursor

/-- What ends a reading early. Only the first is about the text. -/
inductive Halt where
  | failed (e : Error)
  | pastEnd
  | endless
  deriving DecidableEq, Repr

abbrev Scan := StateT Location (Except Halt)

section
variable (text : Text)

def atEnd : Scan Bool := fun here => .ok (decide (text.length ≤ here.offset), here)

/-- The byte at the cursor; at the end, where there is none, a zero. -/
def peek : Scan UInt8 := fun here => .ok (text.getD here.offset 0, here)

def advance : Scan UInt8 := fun here =>
  match text[here.offset]? with
  | some c => .ok (c, here.step c)
  | none => .error .pastEnd

def fail {α : Type} (fault : Fault) : Scan α := fun here =>
  .error (.failed ⟨fault.message, here.line, here.column, here.offset⟩)

def skipBlanks : (rounds : Nat) → Scan Unit
  | 0 => throw .endless
  | rounds + 1 => do
    if ← atEnd text then return ()
    else
      let c ← peek text
      if isBlank c then
        let _ ← advance text
        skipBlanks rounds
      else return ()

/-- No loop has to go round more often than once for every byte, and once more to find the end. -/
def skip : Scan Unit := skipBlanks text (text.length + 1)

def hexDigits : (count acc : Nat) → Scan (Option Nat)
  | 0, acc => return some acc
  | count + 1, acc => do
    if ← atEnd text then return none
    else
      let c ← advance text
      match hexValue? c with
      | some d => hexDigits count (16 * acc + d)
      | none => return none

def lowSurrogate (high : Nat) : Scan Text := do
  let backslash ← peek text
  if backslash = 92 then
    let _ ← advance text
    let u ← peek text
    if u = 117 then
      let _ ← advance text
      match ← hexDigits text 4 0 with
      | some low =>
        if isLowSurrogate low then
          return utf8 (0x10000 + (high - 0xD800) * 1024 + (low - 0xDC00))
        else fail .invalidLowSurrogate
      | none => fail .invalidLowSurrogate
    else fail .unpairedSurrogate
  else fail .unpairedSurrogate

def unicodeEscape : Scan Text := do
  match ← hexDigits text 4 0 with
  | none => fail .invalidUnicodeEscape
  | some cp =>
    if isHighSurrogate cp then lowSurrogate text cp
    else if isLowSurrogate cp then fail .unpairedSurrogate
    else return utf8 cp

def escape : Scan Text := do
  if ← atEnd text then fail .unterminatedEscape
  else
    let c ← advance text
    if c = 117 then unicodeEscape text
    else
      match simpleEscape? c with
      | some d => return [d]
      | none => fail (.invalidEscape c)

def stringItem : Scan (Option Text) := do
  if ← atEnd text then fail .unterminatedString
  else
    let c ← advance text
    if c = Byte.quote then return none
    else if c < 32 then fail .controlByte
    else if c = Byte.backslash then
      let bytes ← escape text
      return some bytes
    else return some [c]

def stringBody : (rounds : Nat) → Scan Text
  | 0 => throw .endless
  | rounds + 1 => do
    match ← stringItem text with
    | none => return []
    | some bytes =>
      let more ← stringBody rounds
      return bytes ++ more

def string : Scan Text := do
  let _ ← advance text
  stringBody text (text.length + 1)

def digitRow : (rounds : Nat) → Scan Text
  | 0 => throw .endless
  | rounds + 1 => do
    if ← atEnd text then return []
    else
      let c ← peek text
      if Byte.isDigit c then
        let c ← advance text
        let more ← digitRow rounds
        return c :: more
      else return []

def digitsOr (fault : Fault) : Scan Text := do
  if ← atEnd text then fail fault
  else
    let c ← peek text
    if Byte.isDigit c then digitRow text (text.length + 1) else fail fault

def wholePart : Scan Text := do
  if ← atEnd text then fail .expectedDigit
  else
    let c ← peek text
    if !Byte.isDigit c then fail .expectedDigit
    else if c = Byte.zero then
      let c ← advance text
      if ← atEnd text then return [c]
      else
        let d ← peek text
        if Byte.isDigit d then fail .leadingZero else return [c]
    else digitRow text (text.length + 1)

def fractionPart : Scan (Option Text) := do
  if ← atEnd text then return none
  else
    let c ← peek text
    if c = Byte.dot then
      let _ ← advance text
      let ds ← digitsOr text .expectedFraction
      return some ds
    else return none

def exponentSign : Scan Bool := do
  if ← atEnd text then return false
  else
    let c ← peek text
    if c = Byte.plus ∨ c = Byte.minus then
      let c ← advance text
      return c == Byte.minus
    else return false

def exponentPart : Scan (Option (Bool × Text)) := do
  if ← atEnd text then return none
  else
    let c ← peek text
    if c = 101 ∨ c = 69 then
      let _ ← advance text
      let minus ← exponentSign text
      let ds ← digitsOr text .expectedExponent
      return some (minus, ds)
    else return none

def minusSign : Scan Bool := do
  let c ← peek text
  if c = Byte.minus then
    let _ ← advance text
    return true
  else return false

def numeral : Scan Numeral := do
  let negative ← minusSign text
  let whole ← wholePart text
  let fraction ← fractionPart text
  let exponent ← exponentPart text
  return ⟨negative, whole, fraction, exponent⟩

def comes (word : Text) : Scan Bool := fun here =>
  if here.offset ≤ text.length then .ok (word.isPrefixOf (text.drop here.offset), here)
  else .error .pastEnd

def consume : (count : Nat) → Scan Unit
  | 0 => return ()
  | count + 1 => do
    let _ ← advance text
    consume count

def keyword : Scan Json := do
  if ← comes text "true" then
    consume text 4
    return .bool true
  else if ← comes text "false" then
    consume text 5
    return .bool false
  else if ← comes text "null" then
    consume text 4
    return .null
  else fail .invalidLiteral

def items (item : Scan Json) : (rounds : Nat) → Scan (List Json)
  | 0 => throw .endless
  | rounds + 1 => do
    let v ← item
    skip text
    if ← atEnd text then fail .unterminatedArray
    else
      let c ← advance text
      if c = Byte.closeBracket then return [v]
      else if c = Byte.comma then
        let vs ← items item rounds
        return v :: vs
      else fail .expectedItemEnd

def arrayBody (item : Scan Json) : Scan (List Json) := do
  skip text
  let c ← peek text
  if c = Byte.closeBracket then
    let _ ← advance text
    return []
  else items text item (text.length + 1)

def memberKey : Scan Text := do
  skip text
  let quote ← peek text
  if quote = Byte.quote then
    let key ← string text
    skip text
    let colon ← peek text
    if colon = Byte.colon then
      let _ ← advance text
      return key
    else fail .expectedColon
  else fail .expectedKey

def members (item : Scan Json) : (rounds : Nat) → Scan (List (Text × Json))
  | 0 => throw .endless
  | rounds + 1 => do
    let key ← memberKey text
    let v ← item
    skip text
    if ← atEnd text then fail .unterminatedObject
    else
      let c ← advance text
      if c = Byte.closeBrace then return [(key, v)]
      else if c = Byte.comma then
        let ms ← members item rounds
        return (key, v) :: ms
      else fail .expectedMemberEnd

def objectBody (item : Scan Json) : Scan (List (Text × Json)) := do
  skip text
  let c ← peek text
  if c = Byte.closeBrace then
    let _ ← advance text
    return []
  else members text item (text.length + 1)

def valueWith (nested : Option (Scan Json)) : Scan Json := do
  skip text
  if ← atEnd text then fail .unexpectedEnd
  else
    let c ← peek text
    if c = Byte.openBrace then
      match nested with
      | none => fail .tooDeep
      | some item =>
        let _ ← advance text
        let ms ← objectBody text item
        return ofMembers ms
    else if c = Byte.openBracket then
      match nested with
      | none => fail .tooDeep
      | some item =>
        let _ ← advance text
        let vs ← arrayBody text item
        return .array vs
    else if c = Byte.quote then
      let t ← string text
      return .string t
    else if c = 116 ∨ c = 102 ∨ c = 110 then keyword text
    else if c = Byte.minus ∨ Byte.isDigit c then
      let n ← numeral text
      return .number n.value
    else fail (.unexpected c)

def value : (limit : Nat) → Scan Json
  | 0 => valueWith text none
  | limit + 1 => valueWith text (some (value limit))

def document : Scan Json := do
  skip text
  if ← atEnd text then fail .unexpectedEnd
  else
    let v ← value text maxDepth
    skip text
    if ← atEnd text then return v
    else
      let c ← peek text
      fail (.trailing c)

def parse : Except Halt Json :=
  match document text Location.start with
  | .ok (v, _) => .ok v
  | .error halt => .error halt

end

end Bindery.Json.Cursor
