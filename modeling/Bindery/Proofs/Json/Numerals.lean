import Bindery.Proofs.Decimal
import Bindery.Proofs.Json.Grammar
import Mathlib.Data.List.TakeWhile

/-!
The readers of numbers and literals against the grammar. A numeral goes on as long as it can, so
reading gives back what was written only if the rest does not continue it.
-/

set_option autoImplicit false

namespace Bindery.Json

open Grammar

theorem isDigit_of_mem {ds : Text} (h : Digits ds) {c : UInt8} (hc : c ∈ ds) :
    Byte.isDigit c = true :=
  Byte.isDigit_iff.mpr (h c hc)

def NoDigit (rest : Text) : Prop := ∀ c ∈ rest.head?, Byte.isDigit c = false

theorem digits_digitRow (s : Text) : Digits (digitRow s).1 := by
  intro c hc
  exact Byte.isDigit_iff.mp (List.mem_takeWhile_imp hc)

theorem digitRow_append_rest (s : Text) : (digitRow s).1 ++ (digitRow s).2 = s :=
  List.takeWhile_append_dropWhile

theorem digitRow_of_noDigit {rest : Text} (h : NoDigit rest) : digitRow rest = ([], rest) := by
  cases rest with
  | nil => rfl
  | cons c rest => simp [digitRow, h c (by simp)]

theorem digitRow_append {ds rest : Text} (hd : Digits ds) (hr : NoDigit rest) :
    digitRow (ds ++ rest) = (ds, rest) := by
  have h := digitRow_of_noDigit hr
  simp only [digitRow, Prod.mk.injEq] at h ⊢
  constructor
  · rw [List.takeWhile_append_of_pos fun c hc => isDigit_of_mem hd hc, h.1, List.append_nil]
  · rw [List.dropWhile_append_of_pos fun c hc => isDigit_of_mem hd hc, h.2]

theorem digitsOr_sound {fault : Fault} {s ds rest : Text}
    (h : digitsOr fault s = .ok (ds, rest)) : ds ≠ [] ∧ Digits ds ∧ s = ds ++ rest := by
  unfold digitsOr at h
  split at h
  · cases h
  · rename_i ds' rest' hne heq
    cases h
    have hd := digits_digitRow s
    have hs := digitRow_append_rest s
    rw [heq] at hd hs
    refine ⟨?_, hd, hs.symm⟩
    rintro rfl
    exact hne rfl

theorem digitsOr_complete {ds rest : Text} (fault : Fault) (hne : ds ≠ []) (hd : Digits ds)
    (hr : NoDigit rest) : digitsOr fault (ds ++ rest) = .ok (ds, rest) := by
  rw [digitsOr, digitRow_append hd hr]
  cases ds with
  | nil => exact absurd rfl hne
  | cons c ds => rfl

theorem wholePart_sound {s whole rest : Text} (h : wholePart s = .ok (whole, rest)) :
    Whole whole ∧ s = whole ++ rest := by
  cases s with
  | nil => simp [wholePart] at h
  | cons c s =>
    simp only [wholePart] at h
    split_ifs at h with hdigit hzero
    · subst hzero
      have hw : whole = [Byte.zero] ∧ rest = s := by
        cases s with
        | nil => simpa [eq_comm] using h
        | cons d s =>
          by_cases hd : Byte.isDigit d
          · simp [hd] at h
          · simpa [hd, eq_comm] using h
      obtain ⟨rfl, rfl⟩ := hw
      exact ⟨.zero, rfl⟩
    · cases h
      have hc : 48 ≤ c.toNat ∧ c.toNat ≤ 57 := Byte.isDigit_iff.mp (by simpa using hdigit)
      have hne : c.toNat ≠ 48 := fun he => hzero (UInt8.toNat_inj.mp he)
      exact ⟨.positive (by omega) hc.2 (digits_digitRow s), by simp [digitRow_append_rest]⟩

theorem wholePart_complete {whole rest : Text} (h : Whole whole) (hr : NoDigit rest) :
    wholePart (whole ++ rest) = .ok (whole, rest) := by
  cases h with
  | zero =>
    cases rest with
    | nil => rfl
    | cons d rest =>
      have hd := hr d (by simp)
      have h48 : Byte.isDigit 48 = true := rfl
      simp [wholePart, hd, h48]
  | @positive c ds h₁ h₂ hds =>
    have hc : Byte.isDigit c = true := Byte.isDigit_iff.mpr ⟨by omega, h₂⟩
    have hne : c ≠ Byte.zero := by
      rintro rfl
      exact absurd h₁ (by decide)
    simp [wholePart, hc, hne, digitRow_append hds hr]

theorem fractionPart_sound {s rest : Text} {fraction : Option Text}
    (h : fractionPart s = .ok (fraction, rest)) :
    ∃ src, Fraction src fraction ∧ s = src ++ rest := by
  unfold fractionPart at h
  split at h
  · rename_i s
    cases hd : digitsOr .expectedFraction s with
    | error stop => simp [hd] at h
    | ok result =>
      obtain ⟨ds, rest'⟩ := result
      simp [hd] at h
      obtain ⟨rfl, rfl⟩ := h
      obtain ⟨hne, hds, rfl⟩ := digitsOr_sound hd
      exact ⟨46 :: ds, .digits hne hds, rfl⟩
  · cases h
    exact ⟨[], .absent, rfl⟩

theorem fractionPart_complete {src rest : Text} {fraction : Option Text}
    (h : Fraction src fraction) (hr : NoDigit rest) (hdot : ∀ c ∈ rest.head?, c ≠ 46) :
    fractionPart (src ++ rest) = .ok (fraction, rest) := by
  cases h with
  | absent =>
    cases rest with
    | nil => rfl
    | cons c rest => simp [fractionPart, hdot c (by simp)]
  | @digits ds hne hds => simp [fractionPart, digitsOr_complete .expectedFraction hne hds hr]

theorem exponentSign_sound (s : Text) :
    ∃ src, ExponentSign src (exponentSign s).1 ∧ s = src ++ (exponentSign s).2 := by
  unfold exponentSign
  split
  · exact ⟨[43], .plus, rfl⟩
  · exact ⟨[45], .minus, rfl⟩
  · exact ⟨[], .absent, rfl⟩

theorem exponentSign_complete {src ds rest : Text} {minus : Bool} (h : ExponentSign src minus)
    (hne : ds ≠ []) (hd : Digits ds) :
    exponentSign (src ++ (ds ++ rest)) = (minus, ds ++ rest) := by
  cases h with
  | absent =>
    cases ds with
    | nil => exact absurd rfl hne
    | cons c ds =>
      have hc := hd c (by simp)
      have h43 : c ≠ 43 := by rintro rfl; exact absurd hc.1 (by decide)
      have h45 : c ≠ 45 := by rintro rfl; exact absurd hc.1 (by decide)
      simp [exponentSign, h43, h45]
  | plus => rfl
  | minus => rfl

theorem exponentPart_sound {s rest : Text} {exponent : Option (Bool × Text)}
    (h : exponentPart s = .ok (exponent, rest)) :
    ∃ src, Exponent src exponent ∧ s = src ++ rest := by
  cases s with
  | nil =>
    cases h
    exact ⟨[], .absent, rfl⟩
  | cons c s =>
    simp only [exponentPart] at h
    split_ifs at h with he
    · obtain ⟨sign, hsign, hs⟩ := exponentSign_sound s
      cases hd : digitsOr .expectedExponent (exponentSign s).2 with
      | error stop => simp [hd] at h
      | ok result =>
        obtain ⟨ds, rest'⟩ := result
        simp [hd] at h
        obtain ⟨rfl, rfl⟩ := h
        obtain ⟨hne, hds, hrest⟩ := digitsOr_sound hd
        refine ⟨c :: sign ++ ds, .digits he hsign hne hds, ?_⟩
        simp [List.append_assoc, ← hrest, ← hs]
    · cases h
      exact ⟨[], .absent, rfl⟩

theorem exponentPart_complete {src rest : Text} {exponent : Option (Bool × Text)}
    (h : Exponent src exponent) (hr : NoDigit rest) (he : ∀ c ∈ rest.head?, c ≠ 101 ∧ c ≠ 69) :
    exponentPart (src ++ rest) = .ok (exponent, rest) := by
  cases h with
  | absent =>
    cases rest with
    | nil => rfl
    | cons c rest => simp [exponentPart, he c (by simp)]
  | @digits e sign ds minus hc hsign hne hds =>
    rw [List.append_assoc, List.cons_append]
    simp [exponentPart, hc, exponentSign_complete hsign hne hds,
      digitsOr_complete .expectedExponent hne hds hr]

theorem minusSign_sound (s : Text) :
    ∃ src, Minus src (minusSign s).1 ∧ s = src ++ (minusSign s).2 := by
  unfold minusSign
  split
  · exact ⟨[45], .present, rfl⟩
  · exact ⟨[], .absent, rfl⟩

theorem minusSign_complete {src whole rest : Text} {negative : Bool} (h : Minus src negative)
    (hw : Whole whole) :
    minusSign (src ++ (whole ++ rest)) = (negative, whole ++ rest) := by
  cases h with
  | absent =>
    cases hw with
    | zero => rfl
    | @positive c ds h₁ _ _ =>
      have h45 : c ≠ 45 := by rintro rfl; exact absurd h₁ (by decide)
      simp [minusSign, h45]
  | present => rfl

theorem numeral_sound {s rest : Text} {n : Numeral} (h : numeral s = .ok (n, rest)) :
    ∃ src, Written src n ∧ s = src ++ rest := by
  obtain ⟨sign, hsign, hs⟩ := minusSign_sound s
  unfold numeral at h
  cases hw : wholePart (minusSign s).2 with
  | error stop => simp [hw] at h
  | ok result =>
    obtain ⟨whole, rest₁⟩ := result
    cases hf : fractionPart rest₁ with
    | error stop => simp [hw, hf] at h
    | ok result =>
      obtain ⟨fraction, rest₂⟩ := result
      cases he : exponentPart rest₂ with
      | error stop => simp [hw, hf, he] at h
      | ok result =>
        obtain ⟨exponent, rest₃⟩ := result
        simp [hw, hf, he] at h
        obtain ⟨rfl, rfl⟩ := h
        obtain ⟨hwhole, hs₁⟩ := wholePart_sound hw
        obtain ⟨point, hpoint, rfl⟩ := fractionPart_sound hf
        obtain ⟨power, hpower, rfl⟩ := exponentPart_sound he
        refine ⟨sign ++ whole ++ point ++ power, .parts hsign hwhole hpoint hpower, ?_⟩
        rw [hs, hs₁]
        simp

/-- What may follow a number without becoming part of it. -/
def EndsNumber (rest : Text) : Prop :=
  ∀ c ∈ rest.head?, Byte.isDigit c = false ∧ c ≠ 46 ∧ c ≠ 101 ∧ c ≠ 69

theorem EndsNumber.noDigit {rest : Text} (h : EndsNumber rest) : NoDigit rest :=
  fun c hc => (h c hc).1

/-- Neither a digit nor a point can follow a fraction: an exponent starts with its letter. -/
theorem exponent_head {power rest : Text} {exponent : Option (Bool × Text)}
    (h : Exponent power exponent) (hr : EndsNumber rest) :
    ∀ c ∈ (power ++ rest).head?, Byte.isDigit c = false ∧ c ≠ 46 := by
  intro c hc
  cases h with
  | absent => exact ⟨(hr c hc).1, (hr c hc).2.1⟩
  | digits he =>
    simp at hc
    subst hc
    rcases he with rfl | rfl <;> exact ⟨rfl, by decide⟩

theorem fraction_head {point power rest : Text} {fraction : Option Text}
    (h : Fraction point fraction) (hpower : ∀ c ∈ (power ++ rest).head?, Byte.isDigit c = false) :
    NoDigit (point ++ (power ++ rest)) := by
  intro c hc
  cases h with
  | absent => exact hpower c hc
  | digits _ _ =>
    simp at hc
    subst hc
    rfl

theorem numeral_complete {src rest : Text} {n : Numeral} (h : Written src n)
    (hr : EndsNumber rest) : numeral (src ++ rest) = .ok (n, rest) := by
  cases h with
  | @parts sign whole point power negative fraction exponent hsign hwhole hpoint hpower =>
    have hhead := exponent_head hpower hr
    have hw := wholePart_complete hwhole (fraction_head hpoint fun c hc => (hhead c hc).1)
    have hf := fractionPart_complete hpoint (fun c hc => (hhead c hc).1) fun c hc => (hhead c hc).2
    have he := exponentPart_complete hpower hr.noDigit fun c hc => (hr c hc).2.2
    simp only [List.append_assoc]
    simp [numeral, minusSign_complete hsign hwhole, hw, hf, he]

theorem integerValue_iff {n : Numeral} {z : Int} :
    IntegerValue n z ↔ n.fraction = none ∧ n.exponent = none ∧
      z = if n.negative then -(digitsValue n.whole : Int) else digitsValue n.whole := by
  unfold IntegerValue
  rw [← digitsValue_eq_ofDigits]
  cases n.negative <;> simp

theorem value_of_integer {n : Numeral} (hf : n.fraction = none) (he : n.exponent = none) :
    n.value =
      if n.negative then
        if digitsValue n.whole ≤ 2 ^ 63 then .int (Int64.ofInt (-digitsValue n.whole))
        else .real n.toReal
      else if digitsValue n.whole < 2 ^ 63 then .int (Int64.ofNat (digitsValue n.whole))
      else if digitsValue n.whole < 2 ^ 64 then .nat (UInt64.ofNat (digitsValue n.whole))
      else .real n.toReal := by
  simp only [Numeral.value, hf, he]
  rfl

theorem value_of_real {n : Numeral} (h : n.fraction ≠ none ∨ n.exponent ≠ none) :
    n.value = .real n.toReal := by
  have hs : (n.fraction.isSome || n.exponent.isSome) = true := by
    simpa [Option.isSome_iff_ne_none] using h
  simp [Numeral.value, hs]

theorem denotes_value (n : Numeral) : Denotes n n.value := by
  by_cases hreal : n.fraction ≠ none ∨ n.exponent ≠ none
  · rw [value_of_real hreal]
    exact .real hreal
  · obtain ⟨hf, he⟩ : n.fraction = none ∧ n.exponent = none := by simpa using hreal
    rw [value_of_integer hf he]
    split_ifs with hneg h₁ h₂ h₃
    · refine .int (integerValue_iff.mpr ⟨hf, he, ?_⟩)
      rw [Int64.toInt_ofInt_of_le (by omega) (by omega), if_pos hneg]
    · refine .wide (integerValue_iff.mpr ⟨hf, he, rfl⟩) (.inl ?_)
      rw [if_pos hneg]
      omega
    · refine .int (integerValue_iff.mpr ⟨hf, he, ?_⟩)
      rw [Int64.toInt_ofNat_of_lt h₂, if_neg hneg]
    · have hm : (UInt64.ofNat (digitsValue n.whole)).toNat = digitsValue n.whole :=
        UInt64.toNat_ofNat_of_lt h₃
      refine .nat (integerValue_iff.mpr ⟨hf, he, ?_⟩) (by omega)
      rw [hm, if_neg hneg]
    · refine .wide (integerValue_iff.mpr ⟨hf, he, rfl⟩) (.inr ?_)
      rw [if_neg hneg]
      omega

theorem value_eq_of_denotes {n : Numeral} {x : Number} (h : Denotes n x) : n.value = x := by
  cases h with
  | @int i hi =>
    obtain ⟨hf, he, hz⟩ := integerValue_iff.mp hi
    have hlo := i.le_toInt
    have hhi := i.toInt_lt
    rw [value_of_integer hf he]
    split_ifs at hz ⊢ with hneg h₁ h₂ h₃
    · rw [← hz, Int64.ofInt_toInt]
    · omega
    · rw [← Int64.ofInt_eq_ofNat, ← hz, Int64.ofInt_toInt]
    · omega
    · omega
  | @nat m hm hge =>
    obtain ⟨hf, he, hz⟩ := integerValue_iff.mp hm
    have hlt := m.toNat_lt
    rw [value_of_integer hf he]
    split_ifs at hz ⊢ with hneg h₁ h₂ h₃
    · omega
    · omega
    · omega
    · have hv : digitsValue n.whole = m.toNat := by omega
      rw [hv, UInt64.ofNat_toNat]
    · omega
  | @wide z hw hz =>
    obtain ⟨hf, he, hv⟩ := integerValue_iff.mp hw
    rw [value_of_integer hf he]
    split_ifs at hv ⊢ with hneg h₁ h₂ h₃
    · omega
    · rfl
    · omega
    · omega
    · rfl
  | real h => exact value_of_real h

theorem after?_eq_some_iff {start s rest : Text} :
    Text.after? start s = some rest ↔ s = start ++ rest := by
  induction start generalizing s with
  | nil => simp [Text.after?]
  | cons a start ih =>
    cases s with
    | nil => simp [Text.after?]
    | cons b s =>
      by_cases hab : a = b
      · subst hab
        simp [Text.after?, ih]
      · simp [Text.after?, hab, Ne.symm hab]

theorem keyword_sound {s rest : Text} {v : Json} (h : keyword s = .ok (v, rest)) :
    ∃ src, Scalar src v ∧ s = src ++ rest := by
  unfold keyword at h
  split at h
  · rename_i rest' htrue
    cases h
    exact ⟨"true", .true, after?_eq_some_iff.mp htrue⟩
  · split at h
    · rename_i rest' hfalse
      cases h
      exact ⟨"false", .false, after?_eq_some_iff.mp hfalse⟩
    · split at h
      · rename_i rest' hnull
        cases h
        exact ⟨"null", .null, after?_eq_some_iff.mp hnull⟩
      · cases h

end Bindery.Json
