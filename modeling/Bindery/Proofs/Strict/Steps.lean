import Bindery.Interface.Types
import Mathlib.Data.List.Basic
import Mathlib.Tactic.SplitIfs

/-!
Steps that can break down: a division by zero, an id that a table does not have, a value taken for
one of another form, a value that is not there, an index past the end. The generator is total and
falls back on a default in such places. Here are the strict steps, which have no default, and what
it takes for a sequence of them to come to a result.
-/

set_option autoImplicit false

namespace Bindery.Strict

/-- What can stop a run in the middle. -/
inductive Breakdown where
  | zeroDivisor
  | unknownId (id : TypeId)
  | wrongForm
  | absent
  | outOfRange
  deriving DecidableEq, Repr

abbrev Step := Except Breakdown

variable {α β γ : Type}

@[simp]
theorem ok_bind (a : α) (f : α → Step β) : ((.ok a : Step α) >>= f) = f a := rfl

@[simp]
theorem pure_eq_ok (a : α) : (pure a : Step α) = .ok a := rfl

def present : Option α → Step α
  | some a => .ok a
  | none => .error .absent

@[simp]
theorem present_some (a : α) : present (some a) = .ok a := rfl

def item (l : List α) (i : Nat) : Step α :=
  match l[i]? with
  | some a => .ok a
  | none => .error .outOfRange

theorem item_of_lt {l : List α} {i : Nat} (h : i < l.length) : item l i = .ok l[i] := by
  simp [item, h]

def suffix (l : List α) (start : Nat) : Step (List α) :=
  if start ≤ l.length then .ok (l.drop start) else .error .outOfRange

def difference (a b : Nat) : Step Nat := if b ≤ a then .ok (a - b) else .error .outOfRange

theorem suffix_append (l l' : List α) : suffix (l ++ l') l.length = .ok l' := by
  simp [suffix]

theorem difference_eq {a b : Nat} (h : b ≤ a) : difference a b = .ok (a - b) := if_pos h

theorem mapM_eq_ok {l : List α} {f : α → Step β} {g : α → β} (h : ∀ a ∈ l, f a = .ok (g a)) :
    l.mapM f = .ok (l.map g) := by
  induction l with
  | nil => rfl
  | cons a l ih =>
    rw [List.forall_mem_cons] at h
    simp [List.mapM_cons, h.1, ih h.2]

theorem foldlM_eq_ok {l : List α} {f : β → α → Step β} {g : β → α → β}
    (h : ∀ a ∈ l, ∀ b, f b a = .ok (g b a)) (b : β) : l.foldlM f b = .ok (l.foldl g b) := by
  induction l generalizing b with
  | nil => rfl
  | cons a l ih =>
    rw [List.forall_mem_cons] at h
    simp [List.foldlM_cons, h.1, ih h.2]

theorem anyM_eq_ok {l : List α} {f : α → Step Bool} {g : α → Bool}
    (h : ∀ a ∈ l, f a = .ok (g a)) : l.anyM f = .ok (l.any g) := by
  induction l with
  | nil => rfl
  | cons a l ih =>
    rw [List.forall_mem_cons] at h
    cases hg : g a <;> simp [List.anyM, h.1, ih h.2, hg]

theorem filterM_eq_ok {l : List α} {f : α → Step Bool} {g : α → Bool}
    (h : ∀ a ∈ l, f a = .ok (g a)) : l.filterM f = .ok (l.filter g) := by
  -- the items kept so far are carried along in reverse
  have haux : ∀ kept : List α, l.filterAuxM f kept = .ok ((l.filter g).reverse ++ kept) := by
    induction l with
    | nil => exact fun _ => rfl
    | cons a l ih =>
      rw [List.forall_mem_cons] at h
      intro kept
      cases hg : g a <;> simp [List.filterAuxM, h.1, ih h.2, hg]
  simp [List.filterM, haux]

/-- A count up to the length of a list that takes an item each time. -/
theorem mapM_range_eq_ok {l : List α} {f : Nat → Step β} {g : α → β}
    (h : ∀ i (hi : i < l.length), f i = .ok (g l[i])) :
    (List.range l.length).mapM f = .ok (l.map g) := by
  induction l generalizing f with
  | nil => rfl
  | cons a l ih =>
    have hhead := h 0 (Nat.zero_lt_succ _)
    have htail := ih (f := fun i => f (i + 1)) fun i hi => h (i + 1) (Nat.succ_lt_succ hi)
    rw [List.length_cons, List.range_succ_eq_map, List.mapM_cons, List.mapM_map, hhead]
    simp [Function.comp_def, htail]

end Bindery.Strict
