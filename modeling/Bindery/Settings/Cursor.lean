import Bindery.Text

/-!
A place in a settings file: the bytes still to come and the number of the line. Lines are counted
where blanks are skipped. The count is not bounded; a counter of thirty-two bits with a sign keeps
up with it in files of fewer than `2 ^ 31 - 1` line breaks.
-/

set_option autoImplicit false

namespace Bindery.Settings

structure Cursor where
  rest : Text
  line : Nat
  deriving DecidableEq, Repr

namespace Cursor

def start (content : Text) : Cursor := ⟨content, 1⟩

def atEnd (c : Cursor) : Bool := c.rest.isEmpty

def peek? (c : Cursor) : Option UInt8 := c.rest.head?

def nextIs (c : Cursor) (byte : UInt8) : Bool := c.peek? == some byte

/-- Steps over a byte; the line stays. -/
def skipOne (c : Cursor) : Cursor := ⟨c.rest.drop 1, c.line⟩

def countBreak (byte : UInt8) (line : Nat) : Nat := if byte = Byte.newline then line + 1 else line

def skipSpaceFrom (line : Nat) : Text → Cursor
  | [] => ⟨[], line⟩
  | b :: rest =>
    if Byte.isSpace b then skipSpaceFrom (countBreak b line) rest else ⟨b :: rest, line⟩

def skipSpace (c : Cursor) : Cursor := skipSpaceFrom c.line c.rest

def skipComment (c : Cursor) : Cursor :=
  if c.nextIs Byte.hash then ⟨c.rest.dropWhile (· != Byte.newline), c.line⟩ else c

/-- Blanks, one comment, blanks. -/
def skipLead (c : Cursor) : Cursor := c.skipSpace.skipComment.skipSpace

def skipInline (c : Cursor) : Cursor :=
  ⟨c.rest.dropWhile fun b => b == Byte.space || b == Byte.tab, c.line⟩

/-- Blanks and comments in any number; `comment` tells whether a comment has begun. -/
def skipTriviaFrom : (comment : Bool) → (line : Nat) → Text → Cursor
  | _, line, [] => ⟨[], line⟩
  | true, line, b :: rest =>
    if b = Byte.newline then skipTriviaFrom false (line + 1) rest
    else skipTriviaFrom true line rest
  | false, line, b :: rest =>
    if Byte.isSpace b then skipTriviaFrom false (countBreak b line) rest
    else if b = Byte.hash then skipTriviaFrom true line rest
    else ⟨b :: rest, line⟩

def skipTrivia (c : Cursor) : Cursor := skipTriviaFrom false c.line c.rest

end Cursor

end Bindery.Settings
