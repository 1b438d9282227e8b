import Bindery.Layout
import Mathlib.Algebra.Order.Group.Nat
import Mathlib.Data.List.Forall2
import Mathlib.Tactic.SplitIfs

/-!
Layouts in natural numbers, where nothing wraps. Words hold the exact layout as long as its size
fits one. What pointers of twice the size do to a layout: it keeps its alignment or doubles it, and
at most doubles in size.
-/

set_option autoImplicit false

namespace Bindery

structure ExactLayout where
  size : Nat
  align : Nat
  deriving DecidableEq, Repr

namespace ExactLayout

def roundUp (offset align : Nat) : Nat := (offset + align - 1) / align * align

def pointer (bytes : Nat) : ExactLayout := ⟨bytes, bytes⟩

def ofPrimitive (p : Primitive) (bytes : Nat) : ExactLayout :=
  match p with
  | .bool | .i8 | .u8 => ⟨1, 1⟩
  | .i16 | .u16 => ⟨2, 2⟩
  | .char | .i32 | .u32 | .f32 => ⟨4, 4⟩
  | .i64 | .u64 | .f64 => ⟨8, 8⟩
  | .isize | .usize => pointer bytes

def enumeration : ExactLayout := ⟨4, 4⟩

def flag : ExactLayout := ⟨1, 1⟩

def add (placed member : ExactLayout) : ExactLayout :=
  ⟨roundUp placed.size member.align + member.size, max placed.align member.align⟩

def finish (placed : ExactLayout) : ExactLayout :=
  if placed.size = 0 then ⟨1, 1⟩ else ⟨roundUp placed.size placed.align, placed.align⟩

def record (members : List ExactLayout) : ExactLayout := (members.foldl add ⟨0, 1⟩).finish

def widen (l member : ExactLayout) : ExactLayout :=
  ⟨max l.size member.size, max l.align member.align⟩

def widest (members : List ExactLayout) : ExactLayout := members.foldl widen ⟨0, 1⟩

def union (members : List ExactLayout) : ExactLayout :=
  ⟨roundUp (widest members).size (widest members).align, (widest members).align⟩

def slice (bytes : Nat) : ExactLayout := record [pointer bytes, pointer bytes]

def option (value : ExactLayout) : ExactLayout := record [value, flag]

theorem le_roundUp {a : Nat} (ha : 0 < a) (n : Nat) : n ≤ roundUp n a := by
  have hdiv := Nat.div_add_mod (n + a - 1) a
  have hmod := Nat.mod_lt (n + a - 1) ha
  rw [roundUp, Nat.mul_comm]
  omega

theorem dvd_roundUp (n a : Nat) : a ∣ roundUp n a := Nat.dvd_mul_left a _

theorem roundUp_le {n a q : Nat} (ha : 0 < a) (hle : n ≤ q) (hdvd : a ∣ q) : roundUp n a ≤ q := by
  obtain ⟨k, rfl⟩ := hdvd
  rw [roundUp, Nat.mul_comm]
  refine Nat.mul_le_mul_left a (Nat.lt_succ_iff.mp ?_)
  rw [Nat.div_lt_iff_lt_mul ha, Nat.succ_mul, Nat.mul_comm k]
  omega

theorem roundUp_mono {n n' a a' : Nat} (ha : 0 < a) (ha' : 0 < a') (hle : n ≤ n') (hdvd : a ∣ a') :
    roundUp n a ≤ roundUp n' a' :=
  roundUp_le ha (hle.trans (le_roundUp ha' n')) (Nat.dvd_trans hdvd (dvd_roundUp n' a'))

/-- Where the limit is a multiple as well, the sum that is rounded down to the result is below it
with the result. -/
theorem sum_lt_of_roundUp_lt {n a limit : Nat} (ha : 0 < a) (hdvd : a ∣ limit)
    (h : roundUp n a < limit) : n + a - 1 < limit := by
  obtain ⟨k, rfl⟩ := hdvd
  obtain ⟨q, hq⟩ := dvd_roundUp n a
  have hle := le_roundUp ha n
  rw [hq] at h hle
  have hstep : a * (q + 1) ≤ a * k := Nat.mul_le_mul_left a (Nat.lt_of_mul_lt_mul_left h)
  rw [Nat.mul_succ] at hstep
  omega

def Regular (l : ExactLayout) : Prop :=
  l.align = 1 ∨ l.align = 2 ∨ l.align = 4 ∨ l.align = 8

theorem Regular.pos {l : ExactLayout} (h : l.Regular) : 0 < l.align := by
  unfold Regular at h
  omega

theorem Regular.dvd_word {l : ExactLayout} (h : l.Regular) : l.align ∣ 2 ^ 64 := by
  rcases h with h | h | h | h <;> rw [h] <;> decide

theorem regular_max {l m : ExactLayout} (hl : l.Regular) (hm : m.Regular) (size : Nat) :
    (⟨size, max l.align m.align⟩ : ExactLayout).Regular := by
  rcases Nat.le_total l.align m.align with hle | hle
  · simpa only [Regular, Nat.max_eq_right hle] using hm
  · simpa only [Regular, Nat.max_eq_left hle] using hl

section
variable {placed l : ExactLayout} {members : List ExactLayout}

theorem regular_empty : (⟨0, 1⟩ : ExactLayout).Regular := .inl rfl

theorem foldl_add_regular (hplaced : placed.Regular) (h : ∀ m ∈ members, m.Regular) :
    (members.foldl add placed).Regular := by
  induction members generalizing placed with
  | nil => exact hplaced
  | cons m members ih =>
    rw [List.forall_mem_cons] at h
    exact ih (regular_max hplaced h.1 _) h.2

theorem foldl_widen_regular (hl : l.Regular) (h : ∀ m ∈ members, m.Regular) :
    (members.foldl widen l).Regular := by
  induction members generalizing l with
  | nil => exact hl
  | cons m members ih =>
    rw [List.forall_mem_cons] at h
    exact ih (regular_max hl h.1 _) h.2

theorem record_regular (h : ∀ m ∈ members, m.Regular) : (record members).Regular := by
  have hplaced := foldl_add_regular regular_empty h
  unfold record finish
  split_ifs
  · exact .inl rfl
  · exact hplaced

theorem union_regular (h : ∀ m ∈ members, m.Regular) : (union members).Regular :=
  foldl_widen_regular regular_empty h

end

section
variable {members : List ExactLayout}

theorem size_le_foldl_add_of_pos (placed : ExactLayout) (h : ∀ m ∈ members, 0 < m.align) :
    placed.size ≤ (members.foldl add placed).size := by
  induction members generalizing placed with
  | nil => exact Nat.le_refl _
  | cons m members ih =>
    rw [List.forall_mem_cons] at h
    have hround := le_roundUp h.1 placed.size
    have hrest := ih (add placed m) h.2
    simp only [add] at hrest
    exact (hround.trans (Nat.le_add_right _ _)).trans hrest

theorem size_le_foldl_add (placed : ExactLayout) (h : ∀ m ∈ members, m.Regular) :
    placed.size ≤ (members.foldl add placed).size :=
  size_le_foldl_add_of_pos placed fun m hm => (h m hm).pos

theorem member_size_le_foldl_add (placed : ExactLayout) (h : ∀ m ∈ members, m.Regular)
    {member : ExactLayout} (hmem : member ∈ members) :
    member.size ≤ (members.foldl add placed).size := by
  induction members generalizing placed with
  | nil => exact absurd hmem List.not_mem_nil
  | cons m members ih =>
    rw [List.forall_mem_cons] at h
    rcases List.mem_cons.mp hmem with rfl | hmem
    · exact (Nat.le_add_left member.size _).trans (size_le_foldl_add (add placed member) h.2)
    · exact ih (add placed m) h.2 hmem

theorem stop_le_record (h : ∀ m ∈ members, m.Regular) :
    (members.foldl add ⟨0, 1⟩).size ≤ (record members).size := by
  have hplaced := foldl_add_regular regular_empty h
  unfold record finish
  split_ifs with hzero
  · omega
  · exact le_roundUp hplaced.pos _

theorem member_size_le_record (h : ∀ m ∈ members, m.Regular) {member : ExactLayout}
    (hmem : member ∈ members) : member.size ≤ (record members).size :=
  (member_size_le_foldl_add _ h hmem).trans (stop_le_record h)

theorem size_le_foldl_widen (l : ExactLayout) (members : List ExactLayout) :
    l.size ≤ (members.foldl widen l).size ∧
      ∀ m ∈ members, m.size ≤ (members.foldl widen l).size := by
  induction members generalizing l with
  | nil => simp
  | cons m members ih =>
    obtain ⟨hle, hmembers⟩ := ih (widen l m)
    simp only [List.foldl_cons, List.forall_mem_cons]
    exact ⟨(Nat.le_max_left _ _).trans hle, (Nat.le_max_right _ _).trans hle, hmembers⟩

theorem member_size_le_union (h : ∀ m ∈ members, m.Regular) {member : ExactLayout}
    (hmem : member ∈ members) : member.size ≤ (union members).size :=
  ((size_le_foldl_widen _ _).2 member hmem).trans
    (le_roundUp (foldl_widen_regular regular_empty h).pos _)

end

end ExactLayout

namespace Layout

/-- The words are the numbers. -/
def Holds (l : Layout) (e : ExactLayout) : Prop := l.size.toNat = e.size ∧ l.align.toNat = e.align

open ExactLayout (roundUp)

theorem alignTo_toNat_of_sum {offset align : UInt64} (hpos : 0 < align.toNat)
    (hsum : offset.toNat + align.toNat - 1 < 2 ^ 64) :
    (alignTo offset align).toNat = roundUp offset.toNat align.toNat := by
  have hwords : (offset + align - 1).toNat = offset.toNat + align.toNat - 1 := by
    have hlt := align.toNat_lt
    rw [UInt64.toNat_sub, UInt64.toNat_add, UInt64.toNat_one]
    omega
  have hle : roundUp offset.toNat align.toNat ≤ offset.toNat + align.toNat - 1 :=
    Nat.div_mul_le_self _ _
  rw [alignTo, UInt64.toNat_mul, UInt64.toNat_div, hwords]
  exact Nat.mod_eq_of_lt (Nat.lt_of_le_of_lt hle hsum)

/-- Rounding up passes by no larger number than its result on the way. -/
theorem alignTo_toNat {offset align : UInt64} {e : ExactLayout} (halign : align.toNat = e.align)
    (hregular : e.Regular) (hfits : roundUp offset.toNat e.align < 2 ^ 64) :
    (alignTo offset align).toNat = roundUp offset.toNat e.align := by
  have hsum := ExactLayout.sum_lt_of_roundUp_lt hregular.pos hregular.dvd_word hfits
  rw [← halign] at hsum ⊢
  exact alignTo_toNat_of_sum (halign ▸ hregular.pos) hsum

theorem larger_toNat (a b : UInt64) : (larger a b).toNat = max a.toNat b.toNat := by
  unfold larger
  split_ifs with h
  · exact (Nat.max_eq_right (Nat.le_of_lt (UInt64.lt_iff_toNat_lt.mp h))).symm
  · exact (Nat.max_eq_left (UInt64.not_lt.mp h)).symm

def Running.Holds (r : Running) (placed : ExactLayout) : Prop :=
  r.stop.toNat = placed.size ∧ r.align.toNat = placed.align

theorem Running.place_toNat {r : Running} {placed e : ExactLayout} {l : Layout}
    (hr : r.Holds placed) (hl : l.Holds e) (hpos : 0 < e.align)
    (hsum : placed.size + e.align - 1 < 2 ^ 64) :
    (r.place l).toNat = roundUp placed.size e.align := by
  rw [← hr.1, ← hl.2] at hsum ⊢
  exact alignTo_toNat_of_sum (hl.2 ▸ hpos) hsum

/-- A member is placed as in natural numbers, as long as the sum that is rounded down and the new
end fit a word. -/
theorem Running.add_holds_of_sum {r : Running} {placed e : ExactLayout} {l : Layout}
    (hr : r.Holds placed) (hl : l.Holds e) (hpos : 0 < e.align)
    (hsum : placed.size + e.align - 1 < 2 ^ 64) (hstop : (placed.add e).size < 2 ^ 64) :
    (r.add l).Holds (placed.add e) := by
  constructor
  · show (r.place l + l.size).toNat = _
    rw [UInt64.toNat_add, place_toNat hr hl hpos hsum, hl.1]
    exact Nat.mod_eq_of_lt hstop
  · show (larger r.align l.align).toNat = _
    rw [larger_toNat, hr.2, hl.2]
    rfl

theorem Running.add_holds {r : Running} {placed e : ExactLayout} {l : Layout}
    (hr : r.Holds placed) (hl : l.Holds e) (hregular : e.Regular)
    (hfits : (placed.add e).size < 2 ^ 64) : (r.add l).Holds (placed.add e) := by
  have hround : roundUp placed.size e.align < 2 ^ 64 :=
    Nat.lt_of_le_of_lt (Nat.le_add_right _ _) hfits
  exact add_holds_of_sum hr hl hregular.pos
    (ExactLayout.sum_lt_of_roundUp_lt hregular.pos hregular.dvd_word hround) hfits

theorem Running.foldl_add_holds {r : Running} {placed : ExactLayout} {ls : List Layout}
    {es : List ExactLayout} (hr : r.Holds placed) (h : List.Forall₂ Layout.Holds ls es)
    (hregular : ∀ e ∈ es, e.Regular) (hfits : (es.foldl ExactLayout.add placed).size < 2 ^ 64) :
    (ls.foldl Running.add r).Holds (es.foldl ExactLayout.add placed) := by
  induction h generalizing r placed with
  | nil => exact hr
  | @cons l e _ _ hl _ ih =>
    rw [List.forall_mem_cons] at hregular
    have hstep := ExactLayout.size_le_foldl_add (placed.add e) hregular.2
    exact ih (add_holds hr hl hregular.1 (Nat.lt_of_le_of_lt hstep hfits)) hregular.2 hfits

theorem record_holds {ls : List Layout} {es : List ExactLayout} (h : List.Forall₂ Holds ls es)
    (hregular : ∀ e ∈ es, e.Regular) (hfits : (ExactLayout.record es).size < 2 ^ 64) :
    (record ls).Holds (.record es) := by
  have hstop := Nat.lt_of_le_of_lt (ExactLayout.stop_le_record hregular) hfits
  have hplaced : (ls.foldl Running.add .empty).Holds (es.foldl ExactLayout.add ⟨0, 1⟩) :=
    Running.foldl_add_holds ⟨rfl, rfl⟩ h hregular hstop
  have halign := ExactLayout.foldl_add_regular ExactLayout.regular_empty hregular
  unfold record ExactLayout.record at *
  generalize ls.foldl Running.add .empty = r at hplaced
  generalize es.foldl ExactLayout.add ⟨0, 1⟩ = placed at *
  have hzero : r.stop = 0 ↔ placed.size = 0 := by
    rw [← UInt64.toNat_inj, hplaced.1]
    rfl
  unfold Running.finish ExactLayout.finish at *
  by_cases hempty : placed.size = 0
  · rw [if_pos hempty, if_pos (hzero.mpr hempty)]
    exact ⟨rfl, rfl⟩
  · rw [if_neg hempty] at hfits
    rw [if_neg hempty, if_neg (mt hzero.mp hempty)]
    refine ⟨?_, hplaced.2⟩
    rw [← hplaced.1] at hfits ⊢
    exact alignTo_toNat hplaced.2 halign hfits

theorem union_holds {ls : List Layout} {es : List ExactLayout} (h : List.Forall₂ Holds ls es)
    (hregular : ∀ e ∈ es, e.Regular) (hfits : (ExactLayout.union es).size < 2 ^ 64) :
    (union ls).Holds (.union es) := by
  have hfold : ∀ {l : Layout} {e : ExactLayout}, l.Holds e → Holds
      (ls.foldl (fun l m => ⟨larger l.size m.size, larger l.align m.align⟩) l)
      (es.foldl ExactLayout.widen e) := by
    clear hregular hfits
    induction h with
    | nil => exact fun h => h
    | cons hm _ ih =>
      intro l e hl
      refine ih ⟨?_, ?_⟩
      · exact (larger_toNat _ _).trans (by rw [hl.1, hm.1]; rfl)
      · exact (larger_toNat _ _).trans (by rw [hl.2, hm.2]; rfl)
  obtain ⟨hsize, halign⟩ := hfold (⟨rfl, rfl⟩ : Holds ⟨0, 1⟩ ⟨0, 1⟩)
  have hwidest := ExactLayout.foldl_widen_regular ExactLayout.regular_empty hregular
  rw [ExactLayout.union, ExactLayout.widest] at hfits ⊢
  refine ⟨?_, halign⟩
  rw [← hsize] at hfits ⊢
  exact alignTo_toNat halign hwidest hfits

end Layout

namespace ExactLayout

/-- What wider pointers make of a layout. -/
structure Widens (narrow wide : ExactLayout) : Prop where
  size_le : narrow.size ≤ wide.size
  size_le_double : wide.size ≤ 2 * narrow.size
  align : wide.align = narrow.align ∨ wide.align = 2 * narrow.align

theorem Widens.refl (l : ExactLayout) : l.Widens l := ⟨Nat.le_refl _, by omega, .inl rfl⟩

section
variable {l l' m m' : ExactLayout}

theorem Widens.align_dvd (h : l.Widens l') : l.align ∣ l'.align := by
  rcases h.align with ha | ha
  · exact ha ▸ Nat.dvd_refl l.align
  · exact ha ▸ Nat.dvd_mul_left l.align 2

theorem Widens.align_pos (h : l.Widens l') (hregular : l.Regular) : 0 < l'.align := by
  have hpos := hregular.pos
  have halign := h.align
  omega

theorem Widens.max_align (hl : l.Regular) (hm : m.Regular) (h : l.Widens l') (h' : m.Widens m') :
    max l'.align m'.align = max l.align m.align ∨
      max l'.align m'.align = 2 * max l.align m.align := by
  -- of two powers of two the larger is at least twice the smaller
  have hl' := h.align
  have hm' := h'.align
  unfold Regular at hl hm
  omega

theorem Widens.roundUp {n n' : Nat} (h : m.Widens m') (hregular : m.Regular) (hle : n ≤ n')
    (hdouble : n' ≤ 2 * n) :
    ExactLayout.roundUp n m.align ≤ ExactLayout.roundUp n' m'.align ∧
      ExactLayout.roundUp n' m'.align ≤ 2 * ExactLayout.roundUp n m.align := by
  have hpos := h.align_pos hregular
  refine ⟨roundUp_mono hregular.pos hpos hle h.align_dvd, roundUp_le hpos ?_ ?_⟩
  · exact hdouble.trans (Nat.mul_le_mul_left 2 (le_roundUp hregular.pos n))
  · rcases h.align with ha | ha <;> rw [ha]
    · exact Nat.dvd_mul_left_of_dvd (dvd_roundUp n m.align) 2
    · exact Nat.mul_dvd_mul_left 2 (dvd_roundUp n m.align)

theorem Widens.add (hl : l.Regular) (hm : m.Regular) (h : l.Widens l') (h' : m.Widens m') :
    (l.add m).Widens (l'.add m') := by
  obtain ⟨hle, hdouble⟩ := h'.roundUp hm h.size_le h.size_le_double
  have hsize := h'.size_le
  have hsize' := h'.size_le_double
  refine ⟨?_, ?_, max_align hl hm h h'⟩
  · simp only [ExactLayout.add]
    omega
  · simp only [ExactLayout.add]
    omega

theorem Widens.finish (hl : l.Regular) (h : l.Widens l') : l.finish.Widens l'.finish := by
  have hle := h.size_le
  have hdouble := h.size_le_double
  unfold ExactLayout.finish
  by_cases hzero : l.size = 0
  · rw [if_pos hzero, if_pos (by omega)]
    exact .refl _
  · rw [if_neg hzero, if_neg (by omega)]
    obtain ⟨hround, hround'⟩ := h.roundUp hl hle hdouble
    exact ⟨hround, hround', h.align⟩

theorem Widens.widen (hl : l.Regular) (hm : m.Regular) (h : l.Widens l') (h' : m.Widens m') :
    (l.widen m).Widens (l'.widen m') := by
  have hle := h.size_le
  have hdouble := h.size_le_double
  have hle' := h'.size_le
  have hdouble' := h'.size_le_double
  refine ⟨?_, ?_, max_align hl hm h h'⟩
  · simp only [ExactLayout.widen]
    omega
  · simp only [ExactLayout.widen]
    omega

end

theorem record_widens {ls ls' : List ExactLayout} (h : List.Forall₂ Widens ls ls')
    (hregular : ∀ l ∈ ls, l.Regular) : (record ls).Widens (record ls') := by
  have hfold : ∀ {placed placed' : ExactLayout}, placed.Regular → placed.Widens placed' →
      (ls.foldl add placed).Widens (ls'.foldl add placed') := by
    induction h with
    | nil => exact fun _ h => h
    | cons hm _ ih =>
      rw [List.forall_mem_cons] at hregular
      intro placed placed' hplaced hwidens
      exact ih hregular.2 (regular_max hplaced hregular.1 _) (.add hplaced hregular.1 hwidens hm)
  exact (hfold regular_empty (.refl _)).finish (foldl_add_regular regular_empty hregular)

theorem union_widens {ls ls' : List ExactLayout} (h : List.Forall₂ Widens ls ls')
    (hregular : ∀ l ∈ ls, l.Regular) : (union ls).Widens (union ls') := by
  have hfold : ∀ {l l' : ExactLayout}, l.Regular → l.Widens l' →
      (ls.foldl widen l).Widens (ls'.foldl widen l') := by
    induction h with
    | nil => exact fun _ h => h
    | cons hm _ ih =>
      rw [List.forall_mem_cons] at hregular
      intro l l' hl hwidens
      exact ih hregular.2 (regular_max hl hregular.1 _) (.widen hl hregular.1 hwidens hm)
  have hwidest := hfold regular_empty (.refl _)
  have hwidestRegular := foldl_widen_regular regular_empty hregular
  obtain ⟨hle, hdouble⟩ := hwidest.roundUp hwidestRegular hwidest.size_le hwidest.size_le_double
  exact ⟨hle, hdouble, hwidest.align⟩

end ExactLayout

end Bindery
