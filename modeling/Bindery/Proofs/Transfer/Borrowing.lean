import Bindery.Proofs.Registry
import Bindery.Transfer
import Mathlib.Logic.Relation
import Mathlib.Tactic.SplitIfs

/-!
Which records hold a handle. The search enters no record twice on its way down, so it ends on every
registry, cycles included. What it skips that way is found elsewhere: a record that is reached at
all is reached without passing the same record twice.
-/

set_option autoImplicit false

namespace Bindery

open Relation (ReflTransGen)

section
variable {α : Type} {step : α → α → Prop} {passed : List α} {a b c : α}

def StepsOutside (step : α → α → Prop) (passed : List α) (a b : α) : Prop :=
  step a b ∧ b ∉ passed

theorem StepsOutside.mono (h : StepsOutside step (c :: passed) a b) :
    StepsOutside step passed a b :=
  ⟨h.1, fun hb => h.2 (List.mem_cons_of_mem c hb)⟩

/-- The rest of a way after it leaves its start for the last time never comes back to it. -/
theorem exists_step_of_reflTransGen (h : ReflTransGen (StepsOutside step passed) a b) :
    a = b ∨ ∃ c, StepsOutside step (a :: passed) a c ∧
      ReflTransGen (StepsOutside step (a :: passed)) c b := by
  induction h with
  | refl => exact .inl rfl
  | @tail b d _ hstep ih =>
    by_cases hback : d = a
    · exact .inl hback.symm
    have hnew : d ∉ a :: passed := by
      rw [List.mem_cons, not_or]
      exact ⟨hback, hstep.2⟩
    rcases ih with rfl | ⟨c, hfirst, hrest⟩
    · exact .inr ⟨d, ⟨hstep.1, hnew⟩, .refl⟩
    · exact .inr ⟨c, hfirst, hrest.tail ⟨hstep.1, hnew⟩⟩

theorem reflTransGen_outside_iff : ReflTransGen (StepsOutside step passed) a b ↔
    a = b ∨ ∃ c, StepsOutside step (a :: passed) a c ∧
      ReflTransGen (StepsOutside step (a :: passed)) c b := by
  refine ⟨exists_step_of_reflTransGen, ?_⟩
  rintro (rfl | ⟨c, hfirst, hrest⟩)
  · exact .refl
  · exact .head hfirst.mono (ReflTransGen.mono (fun _ _ => StepsOutside.mono) c b hrest)

end

namespace Registry

/-- The id stands for a record. -/
def RecordAt (r : Registry) (id : TypeId) (t : TypeDef) : Prop :=
  r.find? id = some t ∧ t.kind = .record

/-- A field of the one record refers to the other, nullable or not, by value or not. -/
def Embeds (r : Registry) (outer inner : TypeId) : Prop :=
  ∃ t, r.RecordAt outer t ∧ ∃ f ∈ t.fields, ∃ byRef,
    f.type.underNullable = .record inner byRef ∧ ∃ s, r.RecordAt inner s

/-- A field of the record is a handle, nullable or not. -/
def HoldsHandle (r : Registry) (id : TypeId) : Prop :=
  ∃ t, r.RecordAt id t ∧ ∃ f ∈ t.fields, ∃ object ownership isMutable,
    f.type.underNullable = .object object ownership isMutable

/-- A handle is held by a record that is reached in any number of steps. -/
def ReachesHandle (r : Registry) (id : TypeId) : Prop :=
  ∃ s, ReflTransGen r.Embeds id s ∧ r.HoldsHandle s

variable {r : Registry} {enclosing : List TypeId} {id : TypeId}

def holdsFrom (r : Registry) (nested : TypeId → Bool) (id : TypeId) : Bool :=
  match r.find? id with
  | none => false
  | some t =>
    if t.kind = .record then
      t.fields.any fun f =>
        match f.type.underNullable with
        | .object _ _ _ => true
        | .record inner _ => nested inner
        | _ => false
    else false

/-- The search as a recursion without any bound: a derivation is the finite tree of the records that
are looked into, each inside the records before it. -/
inductive Searches (r : Registry) : List TypeId → TypeId → Bool → Prop where
  | again {enclosing : List TypeId} {id : TypeId} (h : id ∈ enclosing) :
    Searches r enclosing id false
  | fields {enclosing : List TypeId} {id : TypeId} (nested : TypeId → Bool) (hnew : id ∉ enclosing)
    (hnested : ∀ t, r.RecordAt id t → ∀ f ∈ t.fields, ∀ inner byRef,
      f.type.underNullable = .record inner byRef →
        Searches r (id :: enclosing) inner (nested inner)) :
    Searches r enclosing id (r.holdsFrom nested id)

theorem holdsFrom_eq_true_iff {nested : TypeId → Bool} : r.holdsFrom nested id = true ↔
    r.HoldsHandle id ∨ ∃ t, r.RecordAt id t ∧ ∃ f ∈ t.fields, ∃ inner byRef,
      f.type.underNullable = .record inner byRef ∧ nested inner = true := by
  unfold holdsFrom HoldsHandle RecordAt
  cases hfind : r.find? id with
  | none => simp
  | some t =>
    by_cases hkind : t.kind = .record
    · simp only [hkind, if_true, List.any_eq_true, Option.some.injEq, and_assoc,
        exists_eq_left', true_and]
      rw [← exists_or]
      refine exists_congr fun f => ?_
      rw [← and_or_left]
      refine and_congr_right fun _ => ?_
      cases f.type.underNullable <;> simp
    · simp [hkind]

theorem holdsBorrowWithin_succ (r : Registry) (depth : Nat) (enclosing : List TypeId)
    (id : TypeId) :
    r.holdsBorrowWithin (depth + 1) enclosing id =
      if id ∈ enclosing then false
      else r.holdsFrom (r.holdsBorrowWithin depth (id :: enclosing)) id := by
  rw [holdsBorrowWithin, holdsFrom]
  cases r.find? id with
  | none => simp
  | some t =>
    by_cases hagain : id ∈ enclosing
    · simp [hagain]
    · by_cases hkind : t.kind = .record
      · dsimp only
        rw [if_neg hagain]
        exact (if_neg (by simp [hagain, hkind])).trans (if_pos hkind).symm
      · simp [hagain, hkind]

theorem searches_holdsBorrowWithin {depth : Nat} (h : r.room enclosing < depth) :
    r.Searches enclosing id (r.holdsBorrowWithin depth enclosing id) := by
  induction depth generalizing enclosing id with
  | zero => omega
  | succ depth ih =>
    rw [holdsBorrowWithin_succ]
    split_ifs with hagain
    · exact .again hagain
    · refine .fields _ hagain fun t ht f _ inner _ _ => ih ?_
      have hless := room_cons_lt (mem_of_find? ht.1) (id_of_find? ht.1 ▸ hagain)
      rw [id_of_find? ht.1] at hless
      omega

theorem Searches.unique {b b' : Bool} (h : r.Searches enclosing id b)
    (h' : r.Searches enclosing id b') : b = b' := by
  induction h generalizing b' with
  | again hmem =>
    cases h' with
    | again => rfl
    | fields _ hnew => exact absurd hmem hnew
  | @fields enclosing id nested hnew _ ih =>
    cases h' with
    | again hmem => exact absurd hmem hnew
    | fields nested' _ hnested' =>
      rw [Bool.eq_iff_iff, holdsFrom_eq_true_iff, holdsFrom_eq_true_iff]
      refine or_congr_right (exists_congr fun t => and_congr_right fun ht => ?_)
      refine exists_congr fun f => and_congr_right fun hf => ?_
      refine exists_congr fun inner => exists_congr fun byRef => and_congr_right fun href => ?_
      rw [ih t ht f hf inner byRef href (hnested' t ht f hf inner byRef href)]

theorem exists_recordAt_of_reaches {step : TypeId → TypeId → Prop} {s : TypeId}
    (hstep : ∀ a b, step a b → r.Embeds a b) (h : ReflTransGen step id s)
    (hs : r.HoldsHandle s) : ∃ t, r.RecordAt id t := by
  rcases h.cases_head with rfl | ⟨c, hfirst, -⟩
  · obtain ⟨t, ht, -⟩ := hs
    exact ⟨t, ht⟩
  · obtain ⟨t, ht, -⟩ := hstep _ _ hfirst
    exact ⟨t, ht⟩

/-- Inside other records, the search finds what is reached without passing them again. -/
theorem Searches.eq_true_iff {b : Bool} (h : r.Searches enclosing id b) :
    b = true ↔ id ∉ enclosing ∧
      ∃ s, ReflTransGen (StepsOutside r.Embeds enclosing) id s ∧ r.HoldsHandle s := by
  induction h with
  | again hmem => simp [hmem]
  | @fields enclosing id nested hnew hnested ih =>
    have hsplit : (∃ s, ReflTransGen (StepsOutside r.Embeds enclosing) id s ∧ r.HoldsHandle s) ↔
        r.HoldsHandle id ∨ ∃ inner, StepsOutside r.Embeds (id :: enclosing) id inner ∧
          ∃ s, ReflTransGen (StepsOutside r.Embeds (id :: enclosing)) inner s ∧
            r.HoldsHandle s := by
      constructor
      · rintro ⟨s, hreach, hs⟩
        rcases reflTransGen_outside_iff.mp hreach with rfl | ⟨inner, hfirst, hrest⟩
        · exact .inl hs
        · exact .inr ⟨inner, hfirst, s, hrest, hs⟩
      · rintro (hs | ⟨inner, hfirst, s, hrest, hs⟩)
        · exact ⟨id, .refl, hs⟩
        · exact ⟨s, reflTransGen_outside_iff.mpr (.inr ⟨inner, hfirst, hrest⟩), hs⟩
    rw [and_iff_right hnew, hsplit, holdsFrom_eq_true_iff]
    refine or_congr_right ?_
    constructor
    · rintro ⟨t, ht, f, hf, inner, byRef, href, htrue⟩
      obtain ⟨hout, s, hrest, hs⟩ := (ih t ht f hf inner byRef href).mp htrue
      have hrecord := exists_recordAt_of_reaches (fun _ _ h => h.1) hrest hs
      exact ⟨inner, ⟨⟨t, ht, f, hf, byRef, href, hrecord⟩, hout⟩, s, hrest, hs⟩
    · rintro ⟨inner, ⟨⟨t, ht, f, hf, byRef, href, -⟩, hout⟩, hrest⟩
      exact ⟨t, ht, f, hf, inner, byRef, href,
        (ih t ht f hf inner byRef href).mpr ⟨hout, hrest⟩⟩

theorem searches_holdsBorrow (r : Registry) (id : TypeId) :
    r.Searches [] id (r.holdsBorrow id) :=
  searches_holdsBorrowWithin (Nat.lt_succ_of_le (List.length_filter_le _ _))

theorem holdsBorrow_eq_true_iff : r.holdsBorrow id = true ↔ r.ReachesHandle id := by
  have hsame : StepsOutside r.Embeds [] = r.Embeds := by
    funext a b
    simp [StepsOutside]
  rw [(r.searches_holdsBorrow id).eq_true_iff, hsame]
  simp [ReachesHandle]

/-- On every registry the search ends, with the one result of the recursion without a bound, and it
finds a handle exactly if some record that holds one is reached. -/
theorem holdsBorrow_reachability (r : Registry) :
    (∀ enclosing id, ∃! b, r.Searches enclosing id b) ∧
    (∀ id, r.Searches [] id (r.holdsBorrow id)) ∧
    ∀ id, r.holdsBorrow id = true ↔
      ∃ s, ReflTransGen r.Embeds id s ∧ r.HoldsHandle s := by
  refine ⟨fun enclosing id => ?_, r.searches_holdsBorrow, fun id => holdsBorrow_eq_true_iff⟩
  have hsearch :
      r.Searches enclosing id (r.holdsBorrowWithin (r.room enclosing + 1) enclosing id) :=
    searches_holdsBorrowWithin (Nat.lt_succ_self _)
  exact ⟨_, hsearch, fun b hb => hb.unique hsearch⟩

-- two records that hold each other, the handle on the far side of the ring
example : holdsBorrow ⟨"ring", [
    ⟨1, "Front", [], [], .record [⟨"next", [], .nullable (.record 2 false)⟩] []⟩,
    ⟨2, "Back", [], [],
      .record [⟨"next", [], .record 1 true⟩, ⟨"owner", [], .object 3 .borrowed false⟩] []⟩]⟩ 1 =
    true := by decide

end Registry

end Bindery
