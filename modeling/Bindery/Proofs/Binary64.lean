import Bindery.Binary64.Basic
import Mathlib.Data.Nat.Log
import Mathlib.Tactic.Ring

/-!
Integers as binary64 numbers. An integer of at most sixty-four bits is rounded to fifty-three
binary digits and is finite, so two of them become the same number just when they round alike and
have one sign.
-/

set_option autoImplicit false

namespace Bindery

theorem roundDiv_one (n : Nat) : roundDiv n 1 = n := by
  simp [roundDiv, Nat.mod_one]

theorem le_roundDiv (num den : Nat) : num / den ≤ roundDiv num den := by
  unfold roundDiv
  dsimp only
  split_ifs <;> omega

theorem roundDiv_le (num den : Nat) : roundDiv num den ≤ num / den + 1 := by
  unfold roundDiv
  dsimp only
  split_ifs <;> omega

/-- The number rounded to fifty-three binary digits. What is behind them is cut off or filled up,
whichever is nearer, and half a unit goes to the even neighbour. -/
def nearest (n : Nat) : Nat :=
  let unit := 2 ^ (n.log2 - 52)
  let rest := n % unit
  if 2 * rest < unit ∨ 2 * rest = unit ∧ n / unit % 2 = 0 then n - rest else n - rest + unit

theorem nearest_eq_roundDiv (n : Nat) :
    nearest n = roundDiv n (2 ^ (n.log2 - 52)) * 2 ^ (n.log2 - 52) := by
  unfold nearest
  generalize 2 ^ (n.log2 - 52) = unit
  have hcut : n / unit * unit = n - n % unit := by
    have hdiv := Nat.div_add_mod' n unit
    omega
  have hfill : (n / unit + 1) * unit = n - n % unit + unit := by
    rw [Nat.add_mul, Nat.one_mul, hcut]
  unfold roundDiv
  dsimp only
  split_ifs <;> omega

theorem log2_le_of_lt {n k : Nat} (h : n < 2 ^ (k + 1)) : n.log2 ≤ k := by
  rcases Nat.eq_zero_or_pos n with rfl | hn
  · simp
  · have hlog := (Nat.log2_lt (by omega)).mpr h
    omega

theorem nearest_of_lt {n : Nat} (h : n < 2 ^ 53) : nearest n = n := by
  have hlog : n.log2 - 52 = 0 := Nat.sub_eq_zero_of_le (log2_le_of_lt h)
  rw [nearest_eq_roundDiv, hlog, pow_zero, roundDiv_one, Nat.mul_one]

namespace Binary64

def digits (n : Nat) : Nat := roundDiv (n * 2 ^ (52 - n.log2)) (2 ^ (n.log2 - 52))

theorem digits_bounds {n : Nat} (hn : 0 < n) : 2 ^ 52 ≤ digits n ∧ digits n ≤ 2 ^ 53 := by
  have hne : n ≠ 0 := by omega
  have hlow := Nat.log2_self_le hne
  have hhigh := Nat.lt_log2_self (n := n)
  have hpow : 2 ^ (52 - n.log2) * 2 ^ n.log2 = 2 ^ 52 * 2 ^ (n.log2 - 52) := by
    rw [← pow_add, ← pow_add]
    congr 1
    omega
  have hunit := Nat.two_pow_pos (n.log2 - 52)
  have hquot : 2 ^ 52 ≤ n * 2 ^ (52 - n.log2) / 2 ^ (n.log2 - 52) := by
    rw [Nat.le_div_iff_mul_le hunit, ← hpow, Nat.mul_comm]
    exact Nat.mul_le_mul_right _ hlow
  have hquot' : n * 2 ^ (52 - n.log2) / 2 ^ (n.log2 - 52) < 2 ^ 53 := by
    rw [Nat.div_lt_iff_lt_mul hunit]
    calc n * 2 ^ (52 - n.log2)
        < 2 ^ (n.log2 + 1) * 2 ^ (52 - n.log2) :=
          Nat.mul_lt_mul_of_pos_right hhigh (Nat.two_pow_pos _)
      _ = 2 * (2 ^ (52 - n.log2) * 2 ^ n.log2) := by ring
      _ = 2 ^ 53 * 2 ^ (n.log2 - 52) := by rw [hpow]; ring
  have hle := le_roundDiv (n * 2 ^ (52 - n.log2)) (2 ^ (n.log2 - 52))
  have hge := roundDiv_le (n * 2 ^ (52 - n.log2)) (2 ^ (n.log2 - 52))
  exact ⟨hquot.trans hle, hge.trans hquot'⟩

theorem nearest_mul (n : Nat) : nearest n * 2 ^ 52 = digits n * 2 ^ n.log2 := by
  rw [nearest_eq_roundDiv, digits]
  rcases Nat.le_total n.log2 52 with h | h
  · rw [Nat.sub_eq_zero_of_le h, pow_zero, roundDiv_one, roundDiv_one, Nat.mul_one, Nat.mul_assoc,
      ← pow_add, Nat.sub_add_cancel h]
  · rw [Nat.sub_eq_zero_of_le h, pow_zero, Nat.mul_one, Nat.mul_assoc, ← pow_add,
      Nat.sub_add_cancel h]

theorem nearest_eq_iff {m n : Nat} :
    nearest m = nearest n ↔ digits m * 2 ^ m.log2 = digits n * 2 ^ n.log2 := by
  rw [← nearest_mul, ← nearest_mul, Nat.mul_left_inj (Nat.two_pow_pos 52).ne']

theorem le_nearest {n : Nat} (hn : 0 < n) : 2 ^ n.log2 ≤ nearest n := by
  have hdigits := Nat.mul_le_mul_right (2 ^ n.log2) (digits_bounds hn).1
  rw [← nearest_mul, Nat.mul_comm] at hdigits
  exact Nat.le_of_mul_le_mul_right hdigits (Nat.two_pow_pos 52)

/-- The binades below a number and its digits, as the bits of a magnitude. -/
def magnitude (n : Nat) : Nat := if n = 0 then 0 else (n.log2 + 1022) * 2 ^ 52 + digits n

theorem magnitude_lt {n : Nat} (hn : n < 2 ^ 64) : magnitude n < 2047 * 2 ^ 52 := by
  unfold magnitude
  split
  · decide
  · rename_i hne
    have hlog := log2_le_of_lt hn
    have hdigits := (digits_bounds (Nat.pos_of_ne_zero hne)).2
    omega

theorem magnitude_eq_zero_iff {n : Nat} : magnitude n = 0 ↔ n = 0 := by
  unfold magnitude
  split
  · simp [*]
  · rename_i hn
    have hdigits := (digits_bounds (Nat.pos_of_ne_zero hn)).1
    omega

theorem nearest_eq_zero_iff {n : Nat} : nearest n = 0 ↔ n = 0 := by
  constructor
  · intro h
    by_contra hn
    have hle := le_nearest (Nat.pos_of_ne_zero hn)
    have hpos := Nat.two_pow_pos n.log2
    omega
  · rintro rfl
    exact nearest_of_lt (by decide)

/-- With the digits in their range, a number of binades apart is made up for by the digits only
where one row of digits is full and the other just begins. -/
theorem binades_eq_iff {d e k l : Nat} (hd : 2 ^ 52 ≤ d ∧ d ≤ 2 ^ 53) (he : 2 ^ 52 ≤ e ∧ e ≤ 2 ^ 53)
    (hkl : k ≤ l) : k * 2 ^ 52 + d = l * 2 ^ 52 + e ↔ d * 2 ^ k = e * 2 ^ l := by
  obtain ⟨j, rfl⟩ := Nat.exists_eq_add_of_le hkl
  have hpow : d * 2 ^ k = e * 2 ^ (k + j) ↔ d = e * 2 ^ j := by
    rw [pow_add, Nat.mul_comm (2 ^ k), ← Nat.mul_assoc]
    exact Nat.mul_left_inj (Nat.two_pow_pos k).ne'
  rw [hpow]
  -- two binades are more than the range of the digits
  match j with
  | 0 => omega
  | 1 => omega
  | j + 2 =>
    have hfour : 4 ≤ 2 ^ (j + 2) := by
      rw [pow_add]
      have := Nat.two_pow_pos j
      omega
    have hmul := Nat.mul_le_mul he.1 hfour
    omega

theorem magnitude_eq_iff {m n : Nat} : magnitude m = magnitude n ↔ nearest m = nearest n := by
  wlog h : m.log2 ≤ n.log2 generalizing m n
  · rw [eq_comm, this (Nat.le_of_not_le h), eq_comm]
  rcases Nat.eq_zero_or_pos m with rfl | hm
  · rw [magnitude_eq_zero_iff.mpr rfl, nearest_eq_zero_iff.mpr rfl, @eq_comm _ 0, @eq_comm _ 0,
      magnitude_eq_zero_iff, nearest_eq_zero_iff]
  rcases Nat.eq_zero_or_pos n with rfl | hn
  · rw [magnitude_eq_zero_iff.mpr rfl, nearest_eq_zero_iff.mpr rfl, magnitude_eq_zero_iff,
      nearest_eq_zero_iff]
  rw [nearest_eq_iff, ← binades_eq_iff (digits_bounds hm) (digits_bounds hn) h, magnitude,
    magnitude, if_neg hm.ne', if_neg hn.ne', Nat.add_mul, Nat.add_mul]
  omega

theorem ofRatio_one (negative : Bool) (n : Nat) :
    ofRatio negative n 1 = withSign negative (magnitude n) := by
  rw [ofRatio, magnitude]
  split
  · rfl
  · rename_i hn
    extract_lets estimate scaled wide fitted e ratio
    have hestimate : estimate = (n.log2 : Int) - 53 := by
      show (n.log2 : Int) - (Nat.log2 1 : Int) - 53 = _
      rw [show Nat.log2 1 = 0 by decide]
      omega
    have hwide : wide.2 * twoTo 53 ≤ wide.1 := by
      show 1 * 2 ^ estimate.toNat * 2 ^ 53 ≤ n * 2 ^ (-estimate).toNat
      calc 1 * 2 ^ estimate.toNat * 2 ^ 53
          = 2 ^ n.log2 * 2 ^ (-estimate).toNat := by
            rw [Nat.one_mul, ← pow_add, ← pow_add]
            congr 1
            omega
        _ ≤ n * 2 ^ (-estimate).toNat := Nat.mul_le_mul_right _ (Nat.log2_self_le hn)
    have hfitted : fitted = (n.log2 : Int) - 52 := by
      show (if wide.2 * twoTo 53 ≤ wide.1 then estimate + 1 else estimate) = _
      rw [if_pos hwide]
      omega
    have he : e = (n.log2 : Int) - 52 := by
      show (if fitted < -1074 then -1074 else fitted) = _
      rw [if_neg (by omega), hfitted]
    have hratio : roundDiv ratio.1 ratio.2 = digits n := by
      show roundDiv (n * 2 ^ (-e).toNat) (1 * 2 ^ e.toNat) = _
      rw [digits, Nat.one_mul, show (-e).toNat = 52 - n.log2 by omega,
        show e.toNat = n.log2 - 52 by omega]
    have hbinades : (e + 1074).toNat = n.log2 + 1022 := by omega
    rw [hratio, hbinades]
    rfl

section
variable {s t : Bool} {m n : Nat} (hm : m < 2047 * 2 ^ 52) (hn : n < 2047 * 2 ^ 52)
include hm

theorem toNat_bits_withSign : (withSign s m).bits.toNat = (if s then 2 ^ 63 else 0) + m := by
  have hfinite : Nat.min m (2047 * 2 ^ 52) = m := Nat.min_eq_left hm.le
  have hbits : (withSign s m).bits = UInt64.ofNat (if s then 2 ^ 63 + m else m) := by
    show UInt64.ofNat (if s then 2 ^ 63 + Nat.min m (2047 * 2 ^ 52) else
      Nat.min m (2047 * 2 ^ 52)) = _
    rw [hfinite]
  rw [hbits, UInt64.toNat_ofNat']
  cases s <;> simp <;> omega

theorem exponentField_withSign : (withSign s m).exponentField = m / 2 ^ 52 := by
  have hshift : (52 : UInt64).toNat % 64 = 52 := by decide
  have hmask : (2047 : UInt64).toNat = 2 ^ 11 - 1 := by decide
  rw [exponentField, UInt64.toNat_and, UInt64.toNat_shiftRight, toNat_bits_withSign hm, hmask,
    Nat.and_two_pow_sub_one_eq_mod, hshift, Nat.shiftRight_eq_div_pow]
  cases s <;> simp only [Bool.false_eq_true, if_false, if_true] <;> omega

theorem fraction_withSign : (withSign s m).fraction = m % 2 ^ 52 := by
  have hmask : (4503599627370495 : UInt64).toNat = 2 ^ 52 - 1 := by decide
  rw [fraction, UInt64.toNat_and, toNat_bits_withSign hm, hmask, Nat.and_two_pow_sub_one_eq_mod]
  cases s <;> simp only [Bool.false_eq_true, if_false, if_true] <;> omega

theorem isFinite_withSign : (withSign s m).isFinite = true := by
  rw [isFinite, exponentField_withSign hm, bne_iff_ne]
  omega

theorem isNaN_withSign : (withSign s m).isNaN = false := by
  have hfinite := isFinite_withSign (s := s) hm
  rw [isFinite, bne_iff_ne] at hfinite
  simp [isNaN, hfinite]

theorem isZero_withSign : (withSign s m).isZero = true ↔ m = 0 := by
  rw [isZero, isFinite_withSign hm, Bool.true_and, beq_iff_eq, significand,
    exponentField_withSign hm, fraction_withSign hm]
  show (if m / 2 ^ 52 = 0 then m % 2 ^ 52 else 2 ^ 52 + m % 2 ^ 52) = 0 ↔ m = 0
  split_ifs <;> omega

include hn

theorem withSign_eq_iff : withSign s m = withSign t n ↔ s = t ∧ m = n := by
  refine ⟨fun h => ?_, fun ⟨hst, hmn⟩ => by rw [hst, hmn]⟩
  have hbits := congrArg (fun x => x.bits.toNat) h
  simp only [toNat_bits_withSign hm, toNat_bits_withSign hn] at hbits
  cases s <;> cases t <;> simp at hbits ⊢ <;> omega

theorem sameValue_withSign :
    (withSign s m).sameValue (withSign t n) = true ↔ (s = t ∧ m = n) ∨ (m = 0 ∧ n = 0) := by
  rw [sameValue, isNaN_withSign hm, isNaN_withSign hn, Bool.not_false, Bool.true_and,
    Bool.true_and, Bool.or_eq_true, Bool.and_eq_true, beq_iff_eq, withSign_eq_iff hm hn,
    isZero_withSign hm, isZero_withSign hn]

end

theorem sameValue_comm (x y : Binary64) : x.sameValue y = y.sameValue x := by
  rw [sameValue, sameValue, Bool.and_comm (!x.isNaN), Bool.and_comm x.isZero, BEq.comm]

/-- Integers of at most sixty-four bits are the same binary64 just when they have the same sign and
round to the same number. -/
theorem sameValue_ofInt {x y : Int} (hx : x.natAbs < 2 ^ 64) (hy : y.natAbs < 2 ^ 64) :
    (ofInt x).sameValue (ofInt y) = true ↔
      (x < 0 ↔ y < 0) ∧ nearest x.natAbs = nearest y.natAbs := by
  rw [ofInt, ofInt, ofRatio_one, ofRatio_one,
    sameValue_withSign (magnitude_lt hx) (magnitude_lt hy), magnitude_eq_iff, decide_eq_decide,
    magnitude_eq_zero_iff, magnitude_eq_zero_iff]
  constructor
  · rintro (h | ⟨hx, hy⟩)
    · exact h
    · rw [hx, hy]
      omega
  · exact .inl

end Binary64

end Bindery
