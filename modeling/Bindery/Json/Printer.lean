import Bindery.Json.Value

/-!
The text of a JSON value, compact or indented. Only quotes, backslashes and control bytes are
escaped; a number without a JSON form is written as null.
-/

set_option autoImplicit false

namespace Bindery

def hexDigit (n : Nat) : UInt8 := if n < 10 then Byte.ofDigit n else UInt8.ofNat (87 + n)

namespace Json

def escapeByte (c : UInt8) : Text :=
  if c = 34 then "\\\""
  else if c = 92 then "\\\\"
  else if c = 8 then "\\b"
  else if c = 12 then "\\f"
  else if c = 10 then "\\n"
  else if c = 13 then "\\r"
  else if c = 9 then "\\t"
  else if c < 32 then "\\u00" ++ [hexDigit (c.toNat / 16), hexDigit (c.toNat % 16)]
  else [c]

def quote (s : Text) : Text := [Byte.quote] ++ s.flatMap escapeByte ++ [Byte.quote]

def numberText : Number → Text
  | .int i => decimalInt i.toInt
  | .nat n => decimal n.toNat
  | .real x => if x.isFinite then x.text else "null"

def lineBreak (indent depth : Nat) : Text :=
  if indent = 0 then [] else Byte.newline :: List.replicate (indent * depth) Byte.space

def separator (indent : Nat) : Text := if indent = 0 then ":" else ": "

mutual

/-- Writes a value in front of a text. `indent` is the number of blanks for each level; zero prints
on one line. -/
def renderOnto (indent depth : Nat) : Json → Text → Text
  | null, tail => "null" ++ tail
  | bool b, tail => (if b then ascii "true" else ascii "false") ++ tail
  | number n, tail => numberText n ++ tail
  | string s, tail => quote s ++ tail
  | array [], tail => "[]" ++ tail
  | array (v :: vs), tail =>
    Byte.openBracket :: (lineBreak indent (depth + 1) ++
      renderOnto indent (depth + 1) v (itemsOnto indent (depth + 1) vs
        (lineBreak indent depth ++ Byte.closeBracket :: tail)))
  | object [], tail => Byte.openBrace :: Byte.closeBrace :: tail
  | object ((key, v) :: members), tail =>
    Byte.openBrace :: (lineBreak indent (depth + 1) ++ (quote key ++ (separator indent ++
      renderOnto indent (depth + 1) v (membersOnto indent (depth + 1) members
        (lineBreak indent depth ++ Byte.closeBrace :: tail)))))

def itemsOnto (indent depth : Nat) : List Json → Text → Text
  | [], tail => tail
  | v :: vs, tail =>
    Byte.comma :: (lineBreak indent depth ++
      renderOnto indent depth v (itemsOnto indent depth vs tail))

def membersOnto (indent depth : Nat) : List (Text × Json) → Text → Text
  | [], tail => tail
  | (key, v) :: members, tail =>
    Byte.comma :: (lineBreak indent depth ++ (quote key ++ (separator indent ++
      renderOnto indent depth v (membersOnto indent depth members tail))))

end

def compact (v : Json) : Text := renderOnto 0 0 v []

/-- Printing with an indentation ends in a line break, also where the indentation is not positive
and the rest is compact. -/
def pretty (indent : Int) (v : Json) : Text := renderOnto indent.toNat 0 v [Byte.newline]

end Json

end Bindery
