import Bindery.Proofs.Header.Identifiers
import Bindery.Proofs.Strict.Generation

/-!
The namespaces that a run takes. A namespace is a row of segments with double colons between them,
and a segment is a name that is neither reserved nor in use. Names have no colon, so the cuts at the
double colons, taken from the left, find just the segments that were joined.
-/

set_option autoImplicit false

namespace Bindery.Namespace

/-- An ASCII letter or an underscore. -/
def Initial (c : UInt8) : Prop :=
  65 ≤ c.toNat ∧ c.toNat ≤ 90 ∨ 97 ≤ c.toNat ∧ c.toNat ≤ 122 ∨ c.toNat = 95

/-- A decimal digit. -/
def Digit (c : UInt8) : Prop := 48 ≤ c.toNat ∧ c.toNat ≤ 57

/-- A letter or underscore, and letters, digits and underscores behind it. -/
inductive Word : Text → Prop where
  | starts {c : UInt8} {t : Text} (first : Initial c) (rest : ∀ d ∈ t, Initial d ∨ Digit d) :
    Word (c :: t)

/-- A name for one namespace: not reserved, and not one that the generated headers use. -/
structure Segment (s : Text) : Prop where
  word : Word s
  unescaped : Identifier.escape s = s
  ne_std : s ≠ "std"
  ne_support : s ≠ "weld_rt"

theorem isStart_iff {c : UInt8} : Identifier.isStart c = true ↔ Initial c := by
  simp only [Identifier.isStart, Byte.isAlpha, Byte.isUpper, Byte.isLower, Initial,
    Bool.or_eq_true, Bool.and_eq_true, decide_eq_true_eq, beq_iff_eq, UInt8.le_iff_toNat_le,
    ← UInt8.toNat_inj, or_assoc]
  rfl

theorem isPart_iff {c : UInt8} : Identifier.isPart c = true ↔ Initial c ∨ Digit c := by
  rw [Identifier.isPart, Bool.or_eq_true, isStart_iff, Byte.isDigit_iff, Digit]

theorem isValid_iff_word {s : Text} : Identifier.isValid s = true ↔ Word s := by
  cases s with
  | nil => exact iff_of_false (by simp [Identifier.isValid]) nofun
  | cons c t =>
    simp only [Identifier.isValid, Bool.and_eq_true, List.all_eq_true, isStart_iff, isPart_iff]
    constructor
    · intro h
      exact .starts h.1 h.2
    · intro h
      cases h with
      | starts first rest => exact ⟨first, rest⟩

theorem escape_eq_self_iff {s : Text} :
    Identifier.escape s = s ↔ Identifier.isReserved s = false := by
  cases h : Identifier.isReserved s with
  | false => simp [Identifier.escape_of_not_isReserved h]
  | true =>
    rw [Identifier.escape_of_isReserved h]
    simp [ascii]

theorem isSegment_iff {s : Text} : isSegment s = true ↔ Segment s := by
  simp only [isSegment, CppRuntime.scope, Bool.and_eq_true, Bool.not_eq_true', bne_iff_ne,
    isValid_iff_word, ← escape_eq_self_iff]
  constructor
  · intro h
    exact ⟨h.1.1.1, h.1.1.2, h.1.2, h.2⟩
  · intro h
    exact ⟨⟨⟨h.word, h.unescaped⟩, h.ne_std⟩, h.ne_support⟩

theorem Segment.colon_notMem {s : Text} (h : Segment s) : Byte.colon ∉ s := by
  have hcolon : Byte.colon.toNat = 58 := rfl
  cases h.word with
  | starts first rest =>
    intro hmem
    rcases List.mem_cons.mp hmem with heq | hmem
    · rw [← heq, Initial] at first
      omega
    · have hpart := rest _ hmem
      rw [Initial, Digit] at hpart
      omega

theorem segments_of_notMem {s : Text} (h : Byte.colon ∉ s) : segments s = [s] := by
  induction s with
  | nil => rfl
  | cons c s ih =>
    rw [List.mem_cons, not_or] at h
    rw [segments, ih h.2]
    rintro t rfl
    simp at h

theorem segments_append {s : Text} (h : Byte.colon ∉ s) (t : Text) :
    segments (s ++ "::" ++ t) = s :: segments t := by
  induction s with
  | nil => rfl
  | cons c s ih =>
    rw [List.mem_cons, not_or] at h
    rw [List.cons_append, List.cons_append, segments, ih h.2]
    rintro u rfl
    simp at h

theorem segments_join {parts : List Text} (hne : parts ≠ [])
    (h : ∀ s ∈ parts, Byte.colon ∉ s) : segments (Text.join "::" parts) = parts := by
  induction parts with
  | nil => exact absurd rfl hne
  | cons s parts ih =>
    have hs := h s List.mem_cons_self
    cases parts with
    | nil => simpa [Text.join] using segments_of_notMem hs
    | cons s' parts =>
      have hrest := ih (by simp) fun u hu => h u (List.mem_cons_of_mem _ hu)
      rw [Text.join, List.intercalate_cons_cons, segments_append hs, ← Text.join, hrest]

/-- The walk along the double colons comes to its end, and a namespace passes exactly if it is
joined from segments. -/
theorem isValid_iff_joined (ns : Text) :
    Strict.segmentsValid ns 0 = .ok (isValid ns) ∧
      (isValid ns = true ↔
        ∃ parts : List Text, parts ≠ [] ∧ ns = Text.join "::" parts ∧ ∀ s ∈ parts, Segment s) := by
  refine ⟨Strict.segmentsValid_eq ns (Nat.zero_le _), ?_⟩
  simp only [isValid, List.all_eq_true, isSegment_iff]
  constructor
  · intro h
    exact ⟨segments ns, segments_ne_nil ns, (join_segments ns).symm, h⟩
  · rintro ⟨parts, hne, rfl, hparts⟩
    rwa [segments_join hne fun s hs => (hparts s hs).colon_notMem]

end Bindery.Namespace
