import Bindery.Proofs.Layout.Exact
import Mathlib.Order.Bounds.Basic

/-!
The layout rules of C, as they are written down: each member stands at the least multiple of its
alignment behind the one before it, and a record or union takes the largest alignment of its members
and the least multiple of it that has room for them. Words keep these rules as long as the same
computation in natural numbers meets no number that does not fit one.
-/

set_option autoImplicit false

namespace Bindery

namespace ExactLayout

theorem roundUp_isLeast {a : Nat} (ha : 0 < a) (n : Nat) :
    IsLeast {k | n ≤ k ∧ a ∣ k} (roundUp n a) :=
  ⟨⟨le_roundUp ha n, dvd_roundUp n a⟩, fun _ hk => roundUp_le ha hk.1 hk.2⟩

/-- The numbers met when members are placed behind others: for each of them the sum that is rounded
down to a multiple of its alignment, and its end. -/
def placing : ExactLayout → List ExactLayout → List Nat
  | _, [] => []
  | placed, m :: ms =>
    (placed.size + m.align - 1) :: (placed.add m).size :: placing (placed.add m) ms

/-- Where the limit is a multiple of every alignment, it is enough that the members end below it. -/
theorem placing_lt {limit : Nat} {placed : ExactLayout} {members : List ExactLayout}
    (hpos : ∀ m ∈ members, 0 < m.align) (hdvd : ∀ m ∈ members, m.align ∣ limit)
    (h : (members.foldl add placed).size < limit) : ∀ n ∈ placing placed members, n < limit := by
  induction members generalizing placed with
  | nil => simp [placing]
  | cons m members ih =>
    rw [List.forall_mem_cons] at hpos hdvd
    have hstop : (placed.add m).size < limit :=
      Nat.lt_of_le_of_lt (size_le_foldl_add_of_pos (placed.add m) hpos.2) h
    have hround : roundUp placed.size m.align < limit :=
      Nat.lt_of_le_of_lt (Nat.le_add_right _ _) hstop
    rw [placing, List.forall_mem_cons, List.forall_mem_cons]
    exact ⟨sum_lt_of_roundUp_lt hpos.1 hdvd.1 hround, hstop, ih hpos.2 hdvd.2 h⟩

end ExactLayout

namespace Layout

def exact (l : Layout) : ExactLayout := ⟨l.size.toNat, l.align.toNat⟩

theorem exact_holds (l : Layout) : l.Holds l.exact := ⟨rfl, rfl⟩

/-- Members stand one behind the other from `stop` to `last`, each at the least multiple of its
alignment that is not below the end of the one before it. -/
inductive Laid : (stop : Nat) → List Layout → List UInt64 → (last : Nat) → Prop where
  | nil (stop : Nat) : Laid stop [] [] stop
  | cons {stop last : Nat} {member : Layout} {members : List Layout} {offset : UInt64}
    {offsets : List UInt64}
    (least : IsLeast {k | stop ≤ k ∧ member.align.toNat ∣ k} offset.toNat)
    (rest : Laid (offset.toNat + member.size.toNat) members offsets last) :
    Laid stop (member :: members) (offset :: offsets) last

section
variable {stop last : Nat} {members : List Layout} {offsets : List UInt64}

theorem Laid.stop_le_last (h : Laid stop members offsets last) : stop ≤ last := by
  induction h with
  | nil => exact Nat.le_refl _
  | cons least _ ih => exact (least.1.1.trans (Nat.le_add_right _ _)).trans ih

/-- Each member has its own bytes between the ends. -/
theorem Laid.within (h : Laid stop members offsets last) :
    ∀ x ∈ members.zip offsets, stop ≤ x.2.toNat ∧ x.2.toNat + x.1.size.toNat ≤ last := by
  induction h with
  | nil => simp
  | cons least rest ih =>
    rw [List.zip_cons_cons, List.forall_mem_cons]
    refine ⟨⟨least.1.1, rest.stop_le_last⟩, fun x hx => ?_⟩
    exact ⟨(least.1.1.trans (Nat.le_add_right _ _)).trans (ih x hx).1, (ih x hx).2⟩

theorem Laid.disjoint (h : Laid stop members offsets last) :
    (members.zip offsets).Pairwise fun x y => x.2.toNat + x.1.size.toNat ≤ y.2.toNat := by
  induction h with
  | nil => exact .nil
  | cons _ rest ih => exact .cons (fun y hy => (rest.within y hy).1) ih

end

theorem foldl_larger_isGreatest (f : Layout → UInt64) (start : UInt64) (members : List Layout) :
    IsGreatest {n | n = start.toNat ∨ ∃ m ∈ members, n = (f m).toNat}
      (members.foldl (fun most m => larger most (f m)) start).toNat := by
  induction members generalizing start with
  | nil => exact ⟨.inl rfl, by rintro n (rfl | ⟨m, hm, -⟩); exacts [Nat.le_refl _, by simp at hm]⟩
  | cons m members ih =>
    obtain ⟨hmem, hupper⟩ := ih (larger start (f m))
    have hmax := larger_toNat start (f m)
    rw [List.foldl_cons]
    constructor
    · rcases hmem with hstart | ⟨m', hm', heq⟩
      · rcases Nat.le_total start.toNat (f m).toNat with hle | hle
        · exact .inr ⟨m, List.mem_cons_self, by rw [hstart, hmax, Nat.max_eq_right hle]⟩
        · exact .inl (by rw [hstart, hmax, Nat.max_eq_left hle])
      · exact .inr ⟨m', List.mem_cons_of_mem m hm', heq⟩
    · -- what the rest starts from bounds both the start and the first member
      have hfirst := hupper (.inl rfl)
      rw [hmax, Nat.max_le] at hfirst
      rintro n (rfl | ⟨m', hm', rfl⟩)
      · exact hfirst.1
      · rcases List.mem_cons.mp hm' with rfl | hm'
        · exact hfirst.2
        · exact hupper (.inr ⟨m', hm', rfl⟩)

theorem foldl_add_align (r : Running) (members : List Layout) :
    (members.foldl Running.add r).align =
      members.foldl (fun most m => larger most m.align) r.align := by
  induction members generalizing r with
  | nil => rfl
  | cons m members ih => exact ih (r.add m)

theorem foldl_widest (l : Layout) (members : List Layout) :
    members.foldl (fun l m => (⟨larger l.size m.size, larger l.align m.align⟩ : Layout)) l =
      ⟨members.foldl (fun most m => larger most m.size) l.size,
        members.foldl (fun most m => larger most m.align) l.align⟩ := by
  induction members generalizing l with
  | nil => rfl
  | cons m members ih => exact ih _

/-- Placing members in words is placing them in natural numbers. -/
theorem laid_offsets {r : Running} {placed : ExactLayout} {members : List Layout}
    (hr : r.Holds placed) (hpos : ∀ m ∈ members, 1 ≤ m.align.toNat)
    (hfits : ∀ n ∈ ExactLayout.placing placed (members.map exact), n < 2 ^ 64) :
    Laid placed.size members (r.offsets members)
        ((members.map exact).foldl ExactLayout.add placed).size ∧
      (members.foldl Running.add r).Holds ((members.map exact).foldl ExactLayout.add placed) := by
  induction members generalizing r placed with
  | nil => exact ⟨.nil _, hr⟩
  | cons m members ih =>
    rw [List.forall_mem_cons] at hpos
    rw [List.map_cons, ExactLayout.placing, List.forall_mem_cons, List.forall_mem_cons] at hfits
    obtain ⟨hsum, hstop, hrest⟩ := hfits
    have hplace := Running.place_toNat hr m.exact_holds hpos.1 hsum
    -- words and numbers go on from the same end
    obtain ⟨hlaid, hfold⟩ :=
      ih (Running.add_holds_of_sum hr m.exact_holds hpos.1 hsum hstop) hpos.2 hrest
    refine ⟨.cons ?_ ?_, hfold⟩
    · rw [hplace]
      exact ExactLayout.roundUp_isLeast hpos.1 placed.size
    · rw [hplace]
      exact hlaid

/-- The members of a record stand at the offsets and end at `last`, and the record has the layout.
Its size leaves the least room behind them, as long as the sum that is rounded down to it fits a
word. -/
structure IsRecord (members : List Layout) (offsets : List UInt64) (last : Nat) (l : Layout) :
    Prop where
  laid : Laid 0 members offsets last
  disjoint : (members.zip offsets).Pairwise fun x y => x.2.toNat + x.1.size.toNat ≤ y.2.toNat
  align : last ≠ 0 → IsGreatest {n | n = 1 ∨ ∃ m ∈ members, n = m.align.toNat} l.align.toNat
  size : last ≠ 0 → last + l.align.toNat - 1 < 2 ^ 64 →
    IsLeast {k | last ≤ k ∧ l.align.toNat ∣ k} l.size.toNat
  nothing : last = 0 → l = ⟨1, 1⟩

theorem isRecord_record {members : List Layout} (hpos : ∀ m ∈ members, 1 ≤ m.align.toNat)
    (hfits : ∀ n ∈ ExactLayout.placing ⟨0, 1⟩ (members.map exact), n < 2 ^ 64) :
    IsRecord members (Running.empty.offsets members)
      ((members.map exact).foldl ExactLayout.add ⟨0, 1⟩).size (record members) := by
  have hempty : Running.empty.Holds ⟨0, 1⟩ := ⟨rfl, rfl⟩
  obtain ⟨hlaid, hholds⟩ := laid_offsets hempty hpos hfits
  have hgreatest := foldl_larger_isGreatest Layout.align Running.empty.align members
  rw [← foldl_add_align] at hgreatest
  rw [record]
  generalize members.foldl Running.add .empty = r at hholds hgreatest
  have hzero : r.stop = 0 ↔ ((members.map exact).foldl ExactLayout.add ⟨0, 1⟩).size = 0 := by
    rw [← hholds.1, ← UInt64.toNat_inj]
    rfl
  refine ⟨hlaid, hlaid.disjoint, fun hne => ?_, fun hne hsum => ?_, fun hnone => ?_⟩
  · rw [Running.finish, if_neg (mt hzero.mp hne)]
    exact hgreatest
  · rw [Running.finish, if_neg (mt hzero.mp hne), ← hholds.1] at hsum ⊢
    have halign : 0 < r.align.toNat := hgreatest.2 (.inl rfl)
    rw [alignTo_toNat_of_sum halign hsum]
    exact ExactLayout.roundUp_isLeast halign _
  · rw [Running.finish, if_pos (hzero.mpr hnone)]

structure IsUnion (members : List Layout) (l : Layout) : Prop where
  align : IsGreatest {n | n = 1 ∨ ∃ m ∈ members, n = m.align.toNat} l.align.toNat
  size : ∀ most, IsGreatest {n | n = 0 ∨ ∃ m ∈ members, n = m.size.toNat} most →
    most + l.align.toNat - 1 < 2 ^ 64 → IsLeast {k | most ≤ k ∧ l.align.toNat ∣ k} l.size.toNat

theorem isUnion_union (members : List Layout) : IsUnion members (union members) := by
  have halign := foldl_larger_isGreatest Layout.align 1 members
  have hsize := foldl_larger_isGreatest Layout.size 0 members
  rw [union, foldl_widest]
  refine ⟨halign, fun most hmost hsum => ?_⟩
  obtain rfl := hmost.unique hsize
  have hpos := halign.2 (.inl rfl)
  dsimp only at hsum ⊢
  rw [alignTo_toNat_of_sum hpos hsum]
  exact ExactLayout.roundUp_isLeast hpos _

end Layout

end Bindery
