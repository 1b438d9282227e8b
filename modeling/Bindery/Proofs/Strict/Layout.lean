import Bindery.Layout
import Bindery.Proofs.Strict.Steps

/-!
Layouts with the division that rounds a size up checked. Members that have an alignment are placed
without a division by zero, and what they make up has an alignment in turn.
-/

set_option autoImplicit false

namespace Bindery

namespace Layout

def Aligned (l : Layout) : Prop := l.align ≠ 0

instance (l : Layout) : Decidable l.Aligned := inferInstanceAs (Decidable (l.align ≠ 0))

theorem larger_ne_zero {a : UInt64} (ha : a ≠ 0) (b : UInt64) : larger a b ≠ 0 := by
  unfold larger
  split_ifs with hlt
  · rintro rfl
    exact absurd hlt UInt64.not_lt_zero
  · exact ha

theorem pointer_aligned {width : Int} (h : width = 32 ∨ width = 64) : (pointer width).Aligned := by
  rcases h with rfl | rfl <;> decide

theorem ofPrimitive_aligned (p : Primitive) {width : Int} (h : width = 32 ∨ width = 64) :
    (ofPrimitive p width).Aligned := by
  cases p with
  | isize | usize => exact pointer_aligned h
  | _ => simp [ofPrimitive, Aligned]

namespace Running

theorem foldl_add_align_ne_zero (members : List Layout) {r : Running} (h : r.align ≠ 0) :
    (members.foldl add r).align ≠ 0 := by
  induction members generalizing r with
  | nil => exact h
  | cons member members ih => exact ih (larger_ne_zero h member.align)

theorem finish_aligned {r : Running} (h : r.align ≠ 0) : r.finish.Aligned := by
  unfold finish
  split_ifs
  · decide
  · exact h

end Running

theorem record_aligned (members : List Layout) : (record members).Aligned :=
  Running.finish_aligned (Running.foldl_add_align_ne_zero members (by decide))

def widest (members : List Layout) : Layout :=
  members.foldl (fun l m => ⟨larger l.size m.size, larger l.align m.align⟩) ⟨0, 1⟩

theorem widest_aligned (members : List Layout) : (widest members).Aligned := by
  have hfold : ∀ l : Layout, l.Aligned → (members.foldl
      (fun l m => ⟨larger l.size m.size, larger l.align m.align⟩) l).Aligned := by
    induction members with
    | nil => exact fun _ h => h
    | cons member members ih => exact fun l h => ih _ (larger_ne_zero h member.align)
  exact hfold _ (by decide)

theorem union_aligned (members : List Layout) : (union members).Aligned := widest_aligned members

end Layout

namespace Strict

def divide (a b : UInt64) : Step UInt64 := if b = 0 then .error .zeroDivisor else .ok (a / b)

def alignTo (offset align : UInt64) : Step UInt64 := do
  let quotient ← divide (offset + align - 1) align
  return quotient * align

def place (r : Layout.Running) (member : Layout) : Step Layout.Running := do
  let offset ← alignTo r.stop member.align
  return ⟨offset + member.size, Layout.larger r.align member.align⟩

def finish (r : Layout.Running) : Step Layout := do
  if r.stop = 0 then return ⟨1, 1⟩
  else
    let size ← alignTo r.stop r.align
    return ⟨size, r.align⟩

def record (members : List Layout) : Step Layout := do
  let placed ← members.foldlM place .empty
  finish placed

def union (members : List Layout) : Step Layout := do
  let widest := Layout.widest members
  let size ← alignTo widest.size widest.align
  return ⟨size, widest.align⟩

def slice (width : Int) : Step Layout := record [.pointer width, .pointer width]

def option (value : Layout) : Step Layout := record [value, .flag]

theorem alignTo_eq (offset : UInt64) {align : UInt64} (h : align ≠ 0) :
    alignTo offset align = .ok (Layout.alignTo offset align) := by
  simp [alignTo, divide, h, Layout.alignTo]

theorem place_eq (r : Layout.Running) {member : Layout} (h : member.Aligned) :
    place r member = .ok (r.add member) := by
  simp [place, alignTo_eq _ h, Layout.Running.add, Layout.Running.place]

theorem finish_eq {r : Layout.Running} (h : r.align ≠ 0) : finish r = .ok r.finish := by
  unfold finish Layout.Running.finish
  split_ifs
  · rfl
  · simp [alignTo_eq _ h]

theorem record_eq {members : List Layout} (h : ∀ m ∈ members, m.Aligned) :
    record members = .ok (Layout.record members) := by
  rw [record, foldlM_eq_ok fun m hm r => place_eq r (h m hm), ok_bind]
  exact finish_eq (Layout.Running.foldl_add_align_ne_zero members (by decide))

theorem union_eq (members : List Layout) : union members = .ok (Layout.union members) := by
  rw [union, alignTo_eq _ (Layout.widest_aligned members)]
  rfl

theorem slice_eq {width : Int} (h : width = 32 ∨ width = 64) :
    slice width = .ok (Layout.slice width) := by
  refine record_eq fun m hm => ?_
  simp only [List.mem_cons, List.not_mem_nil, or_false, or_self] at hm
  exact hm ▸ Layout.pointer_aligned h

theorem option_eq {value : Layout} (h : value.Aligned) :
    option value = .ok (Layout.option value) := by
  refine record_eq ?_
  rintro m hm
  simp only [List.mem_cons, List.not_mem_nil, or_false] at hm
  rcases hm with rfl | rfl
  · exact h
  · decide

end Strict

end Bindery
