import Bindery.Binary64.Basic

/-!
Decimal numerals and binary64. Reading rounds `digits * 10 ^ exponent` correctly; writing gives
seventeen significant digits, which always read back.
-/

set_option autoImplicit false

namespace Bindery.Binary64

/-- The number nearest to `digits * 10 ^ exponent`. A numeral beyond `10 ^ 310` is infinite and one
below `10 ^ -330` is zero, so no power larger than that is computed. -/
def ofDecimal (negative : Bool) (digits : Nat) (exponent : Int) : Binary64 :=
  let magnitude : Int := (decimal digits).length + exponent
  if digits = 0 then withSign negative 0
  else if 311 < magnitude then withSign negative (0x7ff * twoTo 52)
  else if magnitude < -330 then withSign negative 0
  else ofRatio negative (digits * tenTo exponent.toNat) (tenTo (-exponent).toNat)

/-- The exponent of the leading decimal digit of a positive finite number. No finite number is
below `10 ^ -400`, so scaling by `10 ^ 400` keeps the leading digit in the whole part. -/
def decimalExponent (x : Binary64) : Int :=
  let whole := x.significand * twoTo x.scale.toNat * tenTo 400 / twoTo (-x.scale).toNat
  (decimal whole).length - 1 - 400

def seventeenDigits (x : Binary64) : Text × Int :=
  let e := x.decimalExponent
  let num := x.significand * twoTo x.scale.toNat * tenTo (16 - e).toNat
  let den := twoTo (-x.scale).toNat * tenTo (e - 16).toNat
  let digits := roundDiv num den
  if digits < tenTo 17 then (decimal digits, e) else (decimal (digits / 10), e + 1)

def dropTrailingZeros (t : Text) : Text := (t.reverse.dropWhile (· == Byte.zero)).reverse

def withFraction (whole fraction : Text) : Text :=
  if fraction.isEmpty then whole else whole ++ "." ++ fraction

/-- Positional from `10 ^ -4` up to seventeen digits before the point, otherwise with an exponent
of at least two digits; zeros at the end of a fraction are dropped. -/
def positiveText (x : Binary64) : Text :=
  let (digits, e) := x.seventeenDigits
  if e < -4 ∨ 17 ≤ e then
    let mantissa := withFraction (digits.take 1) (dropTrailingZeros (digits.drop 1))
    let size := decimal e.natAbs
    let padded := if size.length < 2 then "0" ++ size else size
    mantissa ++ (if e < 0 then "e-" else "e+") ++ padded
  else if e < 0 then
    withFraction "0" (List.replicate ((-e).toNat - 1) Byte.zero ++ dropTrailingZeros digits)
  else
    withFraction (digits.take (e.toNat + 1)) (dropTrailingZeros (digits.drop (e.toNat + 1)))

/-- The text of a finite number; a negative zero keeps its sign. -/
def text (x : Binary64) : Text :=
  let magnitude : Text := if x.isZero then "0" else x.positiveText
  if x.negative then "-" ++ magnitude else magnitude

end Bindery.Binary64
