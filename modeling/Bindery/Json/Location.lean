import Bindery.Text

/-!
Places in a text: byte offset, line and column, the last two counted from one.
-/

set_option autoImplicit false

namespace Bindery

structure Location where
  line : Nat
  column : Nat
  offset : Nat
  deriving DecidableEq, Repr

namespace Location

def start : Location := ⟨1, 1, 0⟩

/-- A line break starts the next line, every other byte moves one column on. -/
def step (l : Location) (c : UInt8) : Location :=
  if c = Byte.newline then ⟨l.line + 1, 1, l.offset + 1⟩ else ⟨l.line, l.column + 1, l.offset + 1⟩

def after (consumed : Text) : Location := consumed.foldl step start

end Location

end Bindery
