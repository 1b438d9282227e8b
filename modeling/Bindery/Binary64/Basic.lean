import Bindery.Power
import Bindery.Text

/-!
IEEE 754 binary64 numbers as bit patterns. A finite number has magnitude
`significand * 2 ^ scale`; rounding into the format is exact arithmetic on naturals, to nearest
with ties to even.
-/

set_option autoImplicit false

namespace Bindery

structure Binary64 where
  bits : UInt64
  deriving DecidableEq, Repr

/-- The quotient rounded to nearest, a tie to the even neighbour. -/
def roundDiv (num den : Nat) : Nat :=
  let q := num / den
  let r := num % den
  if 2 * r < den then q
  else if den < 2 * r then q + 1
  else if q % 2 = 0 then q else q + 1

namespace Binary64

def negative (x : Binary64) : Bool := x.bits >>> 63 == 1

def exponentField (x : Binary64) : Nat := ((x.bits >>> 52) &&& 0x7ff).toNat

def fraction (x : Binary64) : Nat := (x.bits &&& 0xfffffffffffff).toNat

def isFinite (x : Binary64) : Bool := x.exponentField != 0x7ff

def isNaN (x : Binary64) : Bool := x.exponentField == 0x7ff && x.fraction != 0

def significand (x : Binary64) : Nat :=
  if x.exponentField = 0 then x.fraction else twoTo 52 + x.fraction

def scale (x : Binary64) : Int :=
  if x.exponentField = 0 then -1074 else (x.exponentField : Int) - 1075

def isZero (x : Binary64) : Bool := x.isFinite && x.significand == 0

/-- Numerical equality: zeros of both signs agree, a NaN agrees with nothing. -/
def sameValue (x y : Binary64) : Bool :=
  !x.isNaN && !y.isNaN && (x == y || (x.isZero && y.isZero))

/-- Puts a sign on a magnitude given by its bit pattern; patterns past the finite range are
infinite. -/
def withSign (negative : Bool) (magnitude : Nat) : Binary64 :=
  let finite := Nat.min magnitude (0x7ff * twoTo 52)
  ⟨UInt64.ofNat (if negative then twoTo 63 + finite else finite)⟩

/-- The number nearest to `num / den`. With `2 ^ 52 ≤ num / den / 2 ^ e < 2 ^ 53` and `e` not below
the least scale, the pattern of the magnitude is the rounded significand above `e + 1074` binades;
a significand that rounds up to `2 ^ 53` carries into the exponent by itself. -/
def ofRatio (negative : Bool) (num den : Nat) : Binary64 :=
  if num = 0 then withSign negative 0
  else
    let estimate : Int := (num.log2 : Int) - (den.log2 : Int) - 53
    let scaled (e : Int) : Nat × Nat := (num * twoTo (-e).toNat, den * twoTo e.toNat)
    let wide := scaled estimate
    let fitted := if wide.2 * twoTo 53 ≤ wide.1 then estimate + 1 else estimate
    let e := if fitted < -1074 then -1074 else fitted
    let ratio := scaled e
    withSign negative ((e + 1074).toNat * twoTo 52 + roundDiv ratio.1 ratio.2)

def ofInt (i : Int) : Binary64 := ofRatio (i < 0) i.natAbs 1

end Binary64

end Bindery
