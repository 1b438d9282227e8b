import Bindery.Files.Path
import Mathlib.Data.List.TakeWhile

/-!
Names joined to a directory. What comes before the name depends on the directory alone, and so do
the steps that lead to the name and the path of its parent.
-/

set_option autoImplicit false

namespace Bindery

theorem Text.splitOn_ne_nil (sep : UInt8) (t : Text) : splitOn sep t ≠ [] := by
  cases t with
  | nil => simp [splitOn]
  | cons c t =>
    rw [splitOn]
    split_ifs
    · simp
    · split <;> simp

theorem Text.splitOn_append (sep : UInt8) (s t : Text) :
    splitOn sep (s ++ sep :: t) = splitOn sep s ++ splitOn sep t := by
  induction s with
  | nil => simp [splitOn]
  | cons c s ih =>
    by_cases hc : c = sep
    · simp [splitOn, hc, ih]
    · cases hs : splitOn sep s with
      | nil => exact absurd hs (splitOn_ne_nil sep s)
      | cons piece pieces => simp [splitOn, hc, ih, hs]

theorem Text.splitOn_of_notMem {sep : UInt8} {t : Text} (h : sep ∉ t) : splitOn sep t = [t] := by
  induction t with
  | nil => rfl
  | cons c t ih =>
    rw [List.mem_cons, not_or] at h
    rw [splitOn, if_neg (Ne.symm h.1), ih h.2]

namespace Path

structure IsName (name : Text) : Prop where
  nonempty : name ≠ []
  slash : Byte.slash ∉ name
  zero : (0 : UInt8) ∉ name
  dot : name ≠ "."
  dots : name ≠ ".."

instance : DecidablePred IsName := fun name =>
  decidable_of_iff
    (name ≠ [] ∧ Byte.slash ∉ name ∧ (0 : UInt8) ∉ name ∧ name ≠ "." ∧ name ≠ "..")
    ⟨fun ⟨hne, hslash, hzero, hdot, hdots⟩ => ⟨hne, hslash, hzero, hdot, hdots⟩,
      fun h => ⟨h.nonempty, h.slash, h.zero, h.dot, h.dots⟩⟩

theorem IsName.not_isSlash {name : Text} (h : IsName name) {c : UInt8} (hc : c ∈ name) :
    isSlash c = false := by
  rw [isSlash, beq_eq_false_iff_ne]
  rintro rfl
  exact h.slash hc

theorem IsName.all_isSlash_append {name : Text} (h : IsName name) (pre : Text) :
    (pre ++ name).all isSlash = false := by
  obtain ⟨c, hc⟩ := List.exists_mem_of_ne_nil name h.nonempty
  rw [List.all_eq_false]
  exact ⟨c, List.mem_append_right _ hc, by simp [h.not_isSlash hc]⟩

theorem IsName.not_isAbsolute {name : Text} (h : IsName name) : isAbsolute name = false := by
  obtain ⟨c, rest, rfl⟩ := List.exists_cons_of_ne_nil h.nonempty
  have hc : c ≠ Byte.slash := fun heq => h.slash (heq ▸ List.mem_cons_self)
  simpa [isAbsolute] using hc

def lead (directory : Text) : Text :=
  if directory.isEmpty then []
  else if directory.getLast? == some Byte.slash then directory
  else directory ++ [Byte.slash]

theorem lead_cases (directory : Text) :
    lead directory = [] ∨ ∃ q, lead directory = q ++ [Byte.slash] := by
  unfold lead
  split_ifs with hempty hlast
  · exact .inl rfl
  · obtain ⟨q, hq⟩ := List.getLast?_eq_some_iff.mp (eq_of_beq hlast)
    exact .inr ⟨q, hq⟩
  · exact .inr ⟨directory, rfl⟩

theorem steps_append (q t : Text) : steps (q ++ Byte.slash :: t) = steps q ++ steps t := by
  rw [steps, Text.splitOn_append, List.map_append]
  rfl

section
variable {name : Text} (hname : IsName name)
include hname

theorem join_name (directory : Text) : join directory name = lead directory ++ name := by
  rw [join, lead, hname.not_isAbsolute, Bool.false_or]
  split_ifs <;> rfl

theorem steps_name : steps name = [.down name] := by
  rw [steps, Text.splitOn_of_notMem hname.slash, List.map_singleton, Step.ofPart, if_neg, if_neg]
  · exact hname.dots
  · rw [not_or, List.isEmpty_iff]
    exact ⟨hname.nonempty, hname.dot⟩

theorem throughLastSlash_append {pre : Text} (hpre : pre = [] ∨ ∃ q, pre = q ++ [Byte.slash]) :
    throughLastSlash (pre ++ name) = pre := by
  have hall : ∀ c ∈ name.reverse, (!isSlash c) = true := by
    intro c hc
    rw [hname.not_isSlash (List.mem_reverse.mp hc)]
    rfl
  rw [throughLastSlash, List.reverse_append, List.dropWhile_append_of_pos hall]
  rcases hpre with rfl | ⟨q, rfl⟩
  · rfl
  · simp [isSlash]

theorem parent_name : parent name = [] := by
  have hthrough := throughLastSlash_append hname (.inl rfl)
  rw [List.nil_append] at hthrough
  have hslashes := hname.all_isSlash_append []
  rw [List.nil_append] at hslashes
  rw [parent, hslashes, if_neg (by simp), hthrough]
  rfl

end

/-- What is before a name, without the slashes that end it; the root keeps one. -/
def trunk (pre : Text) : Text := if pre.all isSlash then [Byte.slash] else trimSlashes pre

theorem parent_append {name : Text} (hname : IsName name) (q : Text) :
    parent (q ++ [Byte.slash] ++ name) = trunk (q ++ [Byte.slash]) := by
  rw [parent, hname.all_isSlash_append, if_neg (by simp),
    throughLastSlash_append hname (.inr ⟨q, rfl⟩)]
  simp [trunk]

theorem eq_replicate_of_all {t : Text} (h : t.all isSlash = true) :
    t = List.replicate t.length Byte.slash := by
  rw [List.eq_replicate_iff]
  exact ⟨rfl, fun c hc => eq_of_beq (List.all_eq_true.mp h c hc)⟩

theorem trunk_append (q : Text) :
    trunk (q ++ [Byte.slash]) ≠ [] ∧
      ∃ n, q ++ [Byte.slash] = trunk (q ++ [Byte.slash]) ++ List.replicate n Byte.slash := by
  generalize hpre : q ++ [Byte.slash] = pre
  unfold trunk
  split_ifs with hall
  · refine ⟨List.cons_ne_nil _ _, q.length, ?_⟩
    have hpre' := eq_replicate_of_all hall
    rw [← hpre, List.length_append, List.length_singleton, List.replicate_succ, hpre] at hpre'
    exact hpre'
  · have hslashes : (pre.reverse.takeWhile isSlash).all isSlash = true := List.all_takeWhile
    refine ⟨?_, (pre.reverse.takeWhile isSlash).length, ?_⟩
    · intro hnil
      rw [trimSlashes, List.reverse_eq_nil_iff, List.dropWhile_eq_nil_iff] at hnil
      apply hall
      rw [List.all_eq_true]
      exact fun c hc => hnil c (List.mem_reverse.mpr hc)
    · calc pre = (pre.reverse.takeWhile isSlash ++ pre.reverse.dropWhile isSlash).reverse := by
            rw [List.takeWhile_append_dropWhile, List.reverse_reverse]
        _ = trimSlashes pre ++ (pre.reverse.takeWhile isSlash).reverse := List.reverse_append
        _ = trimSlashes pre ++
              List.replicate (pre.reverse.takeWhile isSlash).length Byte.slash := by
            rw [← List.reverse_replicate, ← eq_replicate_of_all hslashes]

theorem steps_slashes (t : Text) (n : Nat) :
    steps (t ++ List.replicate n Byte.slash) = steps t ++ List.replicate n .stay := by
  induction n with
  | zero => simp
  | succ n ih =>
    rw [List.replicate_succ', ← List.append_assoc, steps_append, ih, List.replicate_succ',
      List.append_assoc]
    rfl

end Path

end Bindery
