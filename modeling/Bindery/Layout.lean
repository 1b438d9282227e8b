import Bindery.Interface.Types

/-!
Size and alignment of native values under the layout rules of C, in words of sixty-four bits. Sums
and products wrap, as they do on the machine that compiles the headers.
-/

set_option autoImplicit false

namespace Bindery

structure Layout where
  size : UInt64
  align : UInt64
  deriving DecidableEq, Repr

namespace Layout

/-- The least multiple of `align` not below `offset`, while nothing wraps. -/
def alignTo (offset align : UInt64) : UInt64 := (offset + align - 1) / align * align

def larger (a b : UInt64) : UInt64 := if a < b then b else a

/-- The bytes of a pointer; a negative width counts as a word. -/
def pointerBytes (width : Int) : UInt64 := UInt64.ofInt width / 8

def pointer (width : Int) : Layout := ⟨pointerBytes width, pointerBytes width⟩

def ofPrimitive (p : Primitive) (width : Int) : Layout :=
  match p with
  | .bool | .i8 | .u8 => ⟨1, 1⟩
  | .i16 | .u16 => ⟨2, 2⟩
  | .char | .i32 | .u32 | .f32 => ⟨4, 4⟩
  | .i64 | .u64 | .f64 => ⟨8, 8⟩
  | .isize | .usize => pointer width

def enumeration : Layout := ⟨4, 4⟩

def flag : Layout := ⟨1, 1⟩

/-- The members of a record placed so far: where the last one ends, and the largest alignment. -/
structure Running where
  stop : UInt64
  align : UInt64
  deriving DecidableEq, Repr

namespace Running

def empty : Running := ⟨0, 1⟩

def place (r : Running) (member : Layout) : UInt64 := alignTo r.stop member.align

def add (r : Running) (member : Layout) : Running :=
  ⟨r.place member + member.size, larger r.align member.align⟩

/-- The size is rounded up to the alignment; a record of nothing takes one byte. -/
def finish (r : Running) : Layout :=
  if r.stop = 0 then ⟨1, 1⟩ else ⟨alignTo r.stop r.align, r.align⟩

def offsets : Running → List Layout → List UInt64
  | _, [] => []
  | r, m :: ms => r.place m :: offsets (r.add m) ms

end Running

def record (members : List Layout) : Layout := (members.foldl Running.add Running.empty).finish

def union (members : List Layout) : Layout :=
  let widest : Layout :=
    members.foldl (fun l m => ⟨larger l.size m.size, larger l.align m.align⟩) ⟨0, 1⟩
  ⟨alignTo widest.size widest.align, widest.align⟩

def slice (width : Int) : Layout := record [pointer width, pointer width]

/-- A value and a flag that tells whether it is there. -/
def option (value : Layout) : Layout := record [value, flag]

def fitsRegister (l : Layout) (width : Int) : Bool := l.size ≤ pointerBytes width

end Layout

end Bindery
