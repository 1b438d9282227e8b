import Bindery.Proofs.Json.Grammar
import Mathlib.Data.List.DropRight

/-!
The readers of blanks and strings against the grammar. A string reader stops at the closing quote,
so what it accepts does not depend on what follows, and both directions are stated for every rest.
-/

set_option autoImplicit false

namespace Bindery.Json

open Grammar

theorem isBlank_iff {c : UInt8} : isBlank c = true ↔ c = 32 ∨ c = 9 ∨ c = 10 ∨ c = 13 := by
  simp [isBlank, or_assoc]

theorem skipBlank_append {w : Text} (hw : Blank w) (s : Text) :
    skipBlank (w ++ s) = skipBlank s :=
  List.dropWhile_append_of_pos fun c hc => isBlank_iff.mpr (hw c hc)

theorem skipBlank_blank {w : Text} (hw : Blank w) : skipBlank w = [] := by
  simpa [skipBlank] using skipBlank_append hw []

theorem skipBlank_cons {c : UInt8} (hc : isBlank c = false) (s : Text) :
    skipBlank (c :: s) = c :: s := by
  simp [skipBlank, hc]

theorem exists_blank_append_skipBlank (s : Text) : ∃ w, Blank w ∧ s = w ++ skipBlank s := by
  refine ⟨s.takeWhile isBlank, ?_, List.takeWhile_append_dropWhile.symm⟩
  intro c hc
  exact isBlank_iff.mp (List.mem_takeWhile_imp hc)

theorem hexValue?_eq_some_iff {c : UInt8} {d : Nat} : hexValue? c = some d ↔ HexDigit c d := by
  constructor
  · intro h
    unfold hexValue? at h
    split at h
    · rename_i hc
      simp only [Byte.isDigit, Bool.and_eq_true, decide_eq_true_eq, UInt8.le_iff_toNat_le] at hc
      cases h
      exact .decimal hc.1 hc.2
    · split at h
      · rename_i hc
        simp only [Bool.and_eq_true, decide_eq_true_eq, UInt8.le_iff_toNat_le] at hc
        cases h
        rw [show c.toNat - 87 = c.toNat - 97 + 10 by have := hc.1; simp at this; omega]
        exact .lower hc.1 hc.2
      · split at h
        · rename_i hc
          simp only [Bool.and_eq_true, decide_eq_true_eq, UInt8.le_iff_toNat_le] at hc
          cases h
          rw [show c.toNat - 55 = c.toNat - 65 + 10 by have := hc.1; simp at this; omega]
          exact .upper hc.1 hc.2
        · cases h
  · intro h
    cases h with
    | decimal h₁ h₂ => simp [hexValue?, Byte.isDigit, UInt8.le_iff_toNat_le, h₁, h₂]
    | lower h₁ h₂ =>
      have hd : ¬ c.toNat ≤ 57 := by omega
      simp [hexValue?, Byte.isDigit, UInt8.le_iff_toNat_le, h₁, h₂, hd]
      omega
    | upper h₁ h₂ =>
      have hd : ¬ c.toNat ≤ 57 := by omega
      have hl : ¬ 97 ≤ c.toNat := by omega
      simp [hexValue?, Byte.isDigit, UInt8.le_iff_toNat_le, h₁, h₂, hd, hl]
      omega

theorem hexDigits_succ {count acc n : Nat} {s rest : Text}
    (h : hexDigits (count + 1) acc s = .ok (n, rest)) :
    ∃ c d t, s = c :: t ∧ HexDigit c d ∧ hexDigits count (16 * acc + d) t = .ok (n, rest) := by
  cases s with
  | nil => simp [hexDigits] at h
  | cons c t =>
    cases hd : hexValue? c with
    | none => simp [hexDigits, hd] at h
    | some d => exact ⟨c, d, t, rfl, hexValue?_eq_some_iff.mp hd, by simpa [hexDigits, hd] using h⟩

theorem hexDigits_sound {s rest : Text} {n : Nat} (h : hexDigits 4 0 s = .ok (n, rest)) :
    ∃ q, HexQuad q n ∧ s = q ++ rest := by
  obtain ⟨a, w, s, rfl, ha, h⟩ := hexDigits_succ h
  obtain ⟨b, x, s, rfl, hb, h⟩ := hexDigits_succ h
  obtain ⟨c, y, s, rfl, hc, h⟩ := hexDigits_succ h
  obtain ⟨d, z, s, rfl, hd, h⟩ := hexDigits_succ h
  simp only [hexDigits, Except.ok.injEq, Prod.mk.injEq] at h
  obtain ⟨hn, rfl⟩ := h
  refine ⟨[a, b, c, d], ?_, rfl⟩
  have hq : 4096 * w + 256 * x + 16 * y + z = n := by omega
  rw [← hq]
  exact .digits ha hb hc hd

theorem hexDigits_complete {q : Text} {n : Nat} (h : HexQuad q n) (rest : Text) :
    hexDigits 4 0 (q ++ rest) = .ok (n, rest) := by
  cases h with
  | digits ha hb hc hd =>
    simp only [← hexValue?_eq_some_iff] at ha hb hc hd
    simp [hexDigits, ha, hb, hc, hd]
    omega

theorem char_toNat_range (ch : Char) :
    ch.toNat < 0xD800 ∨ 0xDFFF < ch.toNat ∧ ch.toNat < 0x110000 := ch.valid

/-- Code points are encoded as the characters of strings are. -/
theorem utf8_toNat (ch : Char) : utf8 ch.toNat = String.utf8EncodeChar ch := by
  have hrange := char_toNat_range ch
  simp only [utf8, String.utf8EncodeChar, Char.toNat] at hrange ⊢
  generalize ch.val.toNat = v at hrange
  by_cases h₁ : v < 0x80
  · rw [if_pos h₁, if_pos (show v ≤ 0x7f by omega)]
  rw [if_neg h₁, if_neg (show ¬ v ≤ 0x7f by omega)]
  by_cases h₂ : v < 0x800
  · rw [if_pos h₂, if_pos (show v ≤ 0x7ff by omega),
      Nat.mod_eq_of_lt (show v / 64 < 0x20 by omega)]
    simp only [Nat.add_comm]
  rw [if_neg h₂, if_neg (show ¬ v ≤ 0x7ff by omega)]
  by_cases h₃ : v < 0x10000
  · rw [if_pos h₃, if_pos (show v ≤ 0xffff by omega),
      Nat.mod_eq_of_lt (show v / 4096 < 0x10 by omega)]
    simp only [Nat.add_comm]
  · rw [if_neg h₃, if_neg (show ¬ v ≤ 0xffff by omega),
      Nat.mod_eq_of_lt (show v / 262144 < 0x08 by omega)]
    simp only [Nat.add_comm]

theorem exists_char {n : Nat} (h : n < 0xD800 ∨ 0xDFFF < n ∧ n < 0x110000) :
    ∃ ch : Char, ch.toNat = n :=
  ⟨Char.ofNatAux n h, rfl⟩

theorem hexDigit_lt {c : UInt8} {d : Nat} (h : HexDigit c d) : d < 16 := by
  cases h <;> omega

theorem hexQuad_lt {q : Text} {n : Nat} (h : HexQuad q n) : n < 0x10000 := by
  cases h with
  | digits ha hb hc hd =>
    have := hexDigit_lt ha
    have := hexDigit_lt hb
    have := hexDigit_lt hc
    have := hexDigit_lt hd
    omega

theorem lowSurrogate_sound {high : Nat} {s bytes rest : Text}
    (h : lowSurrogate high s = .ok (bytes, rest)) :
    ∃ q low, HexQuad q low ∧ 0xDC00 ≤ low ∧ low ≤ 0xDFFF ∧ s = 92 :: 117 :: q ++ rest ∧
      bytes = utf8 (0x10000 + (high - 0xD800) * 1024 + (low - 0xDC00)) := by
  unfold lowSurrogate at h
  split at h
  · rename_i s
    cases hd : hexDigits 4 0 s with
    | error rest => simp [hd] at h
    | ok result =>
      obtain ⟨low, rest'⟩ := result
      obtain ⟨q, hq, rfl⟩ := hexDigits_sound hd
      by_cases hl : isLowSurrogate low
      · simp [hd, hl] at h
        obtain ⟨rfl, rfl⟩ := h
        simp only [isLowSurrogate, Bool.and_eq_true, decide_eq_true_eq] at hl
        exact ⟨q, low, hq, hl.1, hl.2, rfl, rfl⟩
      · simp [hd, hl] at h
  · cases h
  · cases h

theorem lowSurrogate_complete (high : Nat) {q : Text} {low : Nat} (hq : HexQuad q low)
    (hlo : 0xDC00 ≤ low) (hhi : low ≤ 0xDFFF) (rest : Text) :
    lowSurrogate high (92 :: 117 :: q ++ rest) =
      .ok (utf8 (0x10000 + (high - 0xD800) * 1024 + (low - 0xDC00)), rest) := by
  simp [lowSurrogate, hexDigits_complete hq, isLowSurrogate, hlo, hhi]

theorem unicodeEscape_sound {s bytes rest : Text} (h : unicodeEscape s = .ok (bytes, rest)) :
    ∃ src, s = src ++ rest ∧ Character (92 :: 117 :: src) bytes := by
  unfold unicodeEscape at h
  cases hd : hexDigits 4 0 s with
  | error rest => simp [hd] at h
  | ok result =>
    obtain ⟨n, rest'⟩ := result
    obtain ⟨q, hq, rfl⟩ := hexDigits_sound hd
    have hn := hexQuad_lt hq
    simp only [hd] at h
    split at h
    · rename_i hhigh
      simp only [isHighSurrogate, Bool.and_eq_true, decide_eq_true_eq] at hhigh
      obtain ⟨l, low, hl, hlo, hhi, hs, hbytes⟩ := lowSurrogate_sound h
      obtain ⟨ch, hch⟩ :=
        exists_char (n := 0x10000 + (n - 0xD800) * 1024 + (low - 0xDC00)) (by omega)
      refine ⟨q ++ 92 :: 117 :: l, by simp [hs], ?_⟩
      rw [hbytes, ← hch, utf8_toNat]
      exact .pair hq hhigh.1 hhigh.2 hl hlo hhi (by omega)
    · rename_i hhigh
      split at h
      · cases h
      · rename_i hlow
        simp [isHighSurrogate, isLowSurrogate] at hhigh hlow
        obtain ⟨ch, rfl⟩ := exists_char (show n < 0xD800 ∨ 0xDFFF < n ∧ n < 0x110000 by omega)
        simp only [Except.ok.injEq, Prod.mk.injEq] at h
        obtain ⟨rfl, rfl⟩ := h
        rw [utf8_toNat]
        exact ⟨q, rfl, .scalar hq⟩

theorem simpleEscape?_eq_some_iff {c d : UInt8} : simpleEscape? c = some d ↔ Shorthand c d := by
  constructor
  · intro h
    unfold simpleEscape? at h
    split_ifs at h <;> subst_vars <;> cases h <;> constructor
  · intro h
    cases h <;> rfl

theorem shorthand_ne {c d : UInt8} (h : Shorthand c d) : c ≠ 117 := by
  cases h <;> decide

theorem escape_sound {s bytes rest : Text} (h : escape s = .ok (bytes, rest)) :
    ∃ src, s = src ++ rest ∧ Character (92 :: src) bytes := by
  cases s with
  | nil => simp [escape] at h
  | cons c s =>
    by_cases hc : c = 117
    · subst hc
      obtain ⟨src, rfl, hsrc⟩ := unicodeEscape_sound (by simpa [escape] using h)
      exact ⟨117 :: src, rfl, hsrc⟩
    · cases hd : simpleEscape? c with
      | none => simp [escape, hc, hd] at h
      | some d =>
        simp [escape, hc, hd] at h
        obtain ⟨rfl, rfl⟩ := h
        exact ⟨[c], rfl, .short (simpleEscape?_eq_some_iff.mp hd)⟩

theorem stringItem_eq_none_iff {s rest : Text} :
    stringItem s = .ok (none, rest) ↔ s = 34 :: rest := by
  constructor
  · intro h
    cases s with
    | nil => simp [stringItem] at h
    | cons c s =>
      simp only [stringItem] at h
      split_ifs at h with h₁ h₂ h₃
      · cases h
        rw [h₁]
      · split at h <;> cases h
      · cases h
  · rintro rfl
    rfl

theorem stringItem_sound {s bytes rest : Text} (h : stringItem s = .ok (some bytes, rest)) :
    ∃ src, Character src bytes ∧ s = src ++ rest := by
  cases s with
  | nil => simp [stringItem] at h
  | cons c s =>
    simp only [stringItem] at h
    split_ifs at h with h₁ h₂ h₃
    · cases h
    · cases he : escape s with
      | error stop => simp [he] at h
      | ok result =>
        obtain ⟨bytes', rest'⟩ := result
        simp [he] at h
        obtain ⟨rfl, rfl⟩ := h
        obtain ⟨src, rfl, hsrc⟩ := escape_sound he
        subst h₃
        exact ⟨92 :: src, hsrc, rfl⟩
    · cases h
      exact ⟨[c], .plain (UInt8.not_lt.mp h₂) h₁ h₃, rfl⟩

theorem stringItem_escape {s bytes rest : Text} (h : escape s = .ok (bytes, rest)) :
    stringItem (92 :: s) = .ok (some bytes, rest) := by
  rw [stringItem, if_neg (by decide), if_neg (by decide), if_pos rfl, h]

theorem stringItem_complete {src bytes : Text} (h : Character src bytes) (rest : Text) :
    stringItem (src ++ rest) = .ok (some bytes, rest) := by
  cases h with
  | plain h₁ h₂ h₃ => simp [stringItem, h₂, h₃, UInt8.not_lt.mpr h₁]
  | short hs =>
    apply stringItem_escape
    simp [escape, shorthand_ne hs, simpleEscape?_eq_some_iff.mpr hs]
  | @scalar q ch hq =>
    have hrange := char_toNat_range ch
    have hhigh : isHighSurrogate ch.toNat = false := by
      simp [isHighSurrogate]; omega
    have hlow : isLowSurrogate ch.toNat = false := by
      simp [isLowSurrogate]; omega
    apply stringItem_escape
    simp [escape, unicodeEscape, hexDigits_complete hq, hhigh, hlow, utf8_toNat]
  | @pair q l high low ch hq h₁ h₂ hl h₃ h₄ hch =>
    have hhigh : isHighSurrogate high = true := by
      simp [isHighSurrogate, h₁, h₂]
    have hlow := lowSurrogate_complete high hl h₃ h₄ rest
    have hcode : 0x10000 + (high - 0xD800) * 1024 + (low - 0xDC00) = ch.toNat := by omega
    rw [hcode, utf8_toNat] at hlow
    simp only [List.cons_append, List.append_assoc] at hlow ⊢
    apply stringItem_escape
    simp [escape, unicodeEscape, hexDigits_complete hq, hhigh, hlow]

theorem character_length_pos {src bytes : Text} (h : Character src bytes) : 0 < src.length := by
  cases h <;> simp

theorem stringBody_sound {fuel : Nat} {s t rest : Text} (h : stringBody fuel s = .ok (t, rest)) :
    ∃ src, Characters src t ∧ s = src ++ 34 :: rest := by
  induction fuel generalizing s t rest with
  | zero => simp [stringBody] at h
  | succ fuel ih =>
    unfold stringBody at h
    cases hi : stringItem s with
    | error stop => simp [hi] at h
    | ok result =>
      obtain ⟨item, rest'⟩ := result
      cases item with
      | none =>
        simp [hi] at h
        obtain ⟨rfl, rfl⟩ := h
        exact ⟨[], .nil, stringItem_eq_none_iff.mp hi⟩
      | some bytes =>
        cases hb : stringBody fuel rest' with
        | error stop => simp [hi, hb] at h
        | ok result =>
          obtain ⟨more, rest''⟩ := result
          simp [hi, hb] at h
          obtain ⟨rfl, rfl⟩ := h
          obtain ⟨src, hsrc, rfl⟩ := stringItem_sound hi
          obtain ⟨tail, htail, rfl⟩ := ih hb
          exact ⟨src ++ tail, .cons hsrc htail, by simp⟩

theorem stringBody_complete {fuel : Nat} {src t : Text} (h : Characters src t)
    (hf : src.length < fuel) (rest : Text) :
    stringBody fuel (src ++ 34 :: rest) = .ok (t, rest) := by
  induction h generalizing fuel with
  | nil =>
    cases fuel with
    | zero => simp at hf
    | succ fuel => simp [stringBody, stringItem_eq_none_iff.mpr rfl]
  | @cons src bytes more t hc _ ih =>
    cases fuel with
    | zero => simp at hf
    | succ fuel =>
      have hpos := character_length_pos hc
      have hmore := @ih fuel (by simp at hf; omega)
      rw [List.append_assoc]
      simp [stringBody, stringItem_complete hc, hmore]

end Bindery.Json
