import Bindery.Text
import Mathlib.Data.Nat.Digits.Lemmas

/-!
Decimal digits as bytes. What `decimal` writes are the digits of the number, most significant
first, and `digitsValue` reads them back.
-/

set_option autoImplicit false

namespace Bindery

namespace Byte

theorem isDigit_iff {c : UInt8} : isDigit c = true ↔ 48 ≤ c.toNat ∧ c.toNat ≤ 57 := by
  simp [isDigit, UInt8.le_iff_toNat_le]

theorem toNat_ofDigit {d : Nat} (h : d < 10) : (ofDigit d).toNat = 48 + d := by
  simp only [ofDigit, UInt8.toNat_ofNat']
  omega

theorem isDigit_ofDigit {d : Nat} (h : d < 10) : isDigit (ofDigit d) = true := by
  rw [isDigit_iff, toNat_ofDigit h]
  omega

theorem digitValue_ofDigit {d : Nat} (h : d < 10) : digitValue (ofDigit d) = d := by
  rw [digitValue, toNat_ofDigit h]
  omega

theorem ofDigit_ne_zero {d : Nat} (h : d < 10) (hd : d ≠ 0) : ofDigit d ≠ zero := by
  intro he
  have hv := congrArg UInt8.toNat he
  have hz : zero.toNat = 48 := rfl
  rw [toNat_ofDigit h, hz] at hv
  omega

end Byte

/-- The number of a row of digits in terms of its digits, the least significant one first. -/
theorem digitsValue_eq_ofDigits (t : Text) :
    digitsValue t = Nat.ofDigits 10 (t.reverse.map Byte.digitValue) := by
  induction t using List.reverseRecOn with
  | nil => rfl
  | append_singleton t c ih =>
    have h : digitsValue (t ++ [c]) = 10 * digitsValue t + Byte.digitValue c := by
      simp [digitsValue]
    rw [h, ih, List.reverse_append, List.reverse_singleton, List.singleton_append, List.map_cons,
      Nat.ofDigits_cons]
    omega

theorem decimalOnto_eq {fuel n : Nat} (hn : 0 < n) (hf : n < fuel) (acc : Text) :
    decimalOnto fuel n acc = ((Nat.digits 10 n).reverse.map Byte.ofDigit) ++ acc := by
  induction fuel generalizing n acc with
  | zero => omega
  | succ fuel ih =>
    rw [decimalOnto, Nat.digits_def' (by decide) hn]
    split
    · rename_i hlt
      have hd : n / 10 = 0 := by omega
      have hm : n % 10 = n := by omega
      simp [hd, hm]
    · rw [ih (by omega) (by omega)]
      simp

theorem decimal_zero : decimal 0 = [Byte.zero] := rfl

theorem decimal_of_pos {n : Nat} (hn : 0 < n) :
    decimal n = (Nat.digits 10 n).reverse.map Byte.ofDigit := by
  rw [decimal, decimalOnto_eq hn (by omega), List.append_nil]

theorem isDigit_of_mem_decimal {n : Nat} {c : UInt8} (hc : c ∈ decimal n) :
    Byte.isDigit c = true := by
  rcases Nat.eq_zero_or_pos n with rfl | hn
  · rw [decimal_zero, List.mem_singleton] at hc
    subst hc
    rfl
  · rw [decimal_of_pos hn] at hc
    obtain ⟨d, hd, rfl⟩ := List.mem_map.mp hc
    exact Byte.isDigit_ofDigit (Nat.digits_lt_base (by decide) (List.mem_reverse.mp hd))

theorem digitsValue_decimal (n : Nat) : digitsValue (decimal n) = n := by
  rcases Nat.eq_zero_or_pos n with rfl | hn
  · rfl
  · have hd : ((Nat.digits 10 n).map Byte.ofDigit).map Byte.digitValue = Nat.digits 10 n := by
      rw [List.map_map]
      conv_rhs => rw [← List.map_id (Nat.digits 10 n)]
      apply List.map_congr_left
      intro d hd
      exact Byte.digitValue_ofDigit (Nat.digits_lt_base (by decide) hd)
    rw [digitsValue_eq_ofDigits, decimal_of_pos hn]
    simp only [List.map_reverse, List.reverse_reverse]
    rw [hd, Nat.ofDigits_digits]

theorem decimal_injective : Function.Injective decimal :=
  Function.LeftInverse.injective digitsValue_decimal

theorem decimal_eq_cons (n : Nat) :
    ∃ c t, decimal n = c :: t ∧ Byte.isDigit c = true ∧ (c = Byte.zero → t = []) := by
  rcases Nat.eq_zero_or_pos n with rfl | hn
  · exact ⟨Byte.zero, [], rfl, rfl, fun _ => rfl⟩
  · have hne : Nat.digits 10 n ≠ [] := Nat.digits_ne_nil_iff_ne_zero.mpr (by omega)
    have hlast := Nat.getLast_digit_ne_zero 10 (m := n) (by omega)
    have hlt := Nat.digits_lt_base (by decide) (List.getLast_mem hne)
    refine ⟨Byte.ofDigit ((Nat.digits 10 n).getLast hne),
      (Nat.digits 10 n).dropLast.reverse.map Byte.ofDigit, ?_, Byte.isDigit_ofDigit hlt, ?_⟩
    · rw [decimal_of_pos hn]
      conv_lhs => rw [← List.dropLast_append_getLast hne]
      simp
    · intro h0
      exact absurd h0 (Byte.ofDigit_ne_zero hlt hlast)

end Bindery
