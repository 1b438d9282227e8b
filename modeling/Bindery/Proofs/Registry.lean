import Bindery.Interface.Registry
import Mathlib.Data.List.Nodup

/-!
What building a registry checks. Ids are not zero and increase from type to type, names are
distinct identifiers, and so are the names of members. How deep definitions can be entered one
inside the other before one of them is entered again.
-/

set_option autoImplicit false

namespace Bindery

namespace Registry

/-- A registry that passed its checks. -/
structure WellFormed (r : Registry) : Prop where
  ids_increase : r.types.Pairwise fun a b => a.id < b.id
  id_ne_zero : ∀ t ∈ r.types, t.id ≠ 0
  name_valid : ∀ t ∈ r.types, Identifier.isValid t.name = true
  names_distinct : (r.types.map TypeDef.name).Nodup
  members_valid : ∀ t ∈ r.types, memberProblems t = []

theorem badName_eq_nil_iff {t : TypeDef} {what method name : Text} :
    badName t what method name = [] ↔ Identifier.isValid name = true := by
  unfold badName
  split_ifs with h <;> simp [h]

def Passes (ids : List TypeId) (names : List Text) (t : TypeDef) : Prop :=
  t.id ≠ 0 ∧ Identifier.isValid t.name = true ∧ t.id ∉ ids ∧ t.name ∉ names ∧
    memberProblems t = []

theorem problems_cons_eq_nil_iff (ids : List TypeId) (names : List Text) (t : TypeDef)
    (ts : List TypeDef) :
    problems ids names (t :: ts) = [] ↔
      Passes ids names t ∧ problems (t.id :: ids) (t.name :: names) ts = [] := by
  rw [problems, Passes]
  by_cases hzero : t.id = 0
  · simp [hzero]
  · by_cases hname : Identifier.isValid t.name = true
    · by_cases hid : t.id ∈ ids
      · simp [hzero, hname, hid]
      · by_cases htaken : t.name ∈ names
        · simp [hzero, hname, hid, htaken]
        · simp [hzero, hname, hid, htaken]
    · simp [hzero, hname]

theorem problems_eq_nil_iff (ids : List TypeId) (names : List Text) (ts : List TypeDef) :
    problems ids names ts = [] ↔
      (∀ t ∈ ts, Passes ids names t) ∧ (ts.map TypeDef.id).Nodup ∧ (ts.map TypeDef.name).Nodup := by
  induction ts generalizing ids names with
  | nil => simp [problems]
  | cons t ts ih =>
    rw [problems_cons_eq_nil_iff, ih]
    simp only [Passes, List.mem_cons, List.map_cons, List.nodup_cons, List.mem_map,
      forall_eq_or_imp, not_or, not_exists, not_and]
    grind

theorem pairwise_sortTypes (types : List TypeDef) :
    (sortTypes types).Pairwise fun a b => a.id ≤ b.id := by
  have h : (sortTypes types).Pairwise fun a b => decide (a.id ≤ b.id) = true := by
    apply List.pairwise_mergeSort
    · intro a b c hab hbc
      simp only [decide_eq_true_eq] at *
      exact Nat.le_trans hab hbc
    · intro a b
      simp only [Bool.or_eq_true, decide_eq_true_eq]
      exact Nat.le_total a.id b.id
  exact h.imp fun hab => of_decide_eq_true hab

theorem build_eq_ok_iff {library : Text} {types : List TypeDef} {r : Registry} :
    build library types = .ok r ↔
      problems [] [] (sortTypes types) = [] ∧ r = ⟨library, sortTypes types⟩ := by
  unfold build
  cases h : problems [] [] (sortTypes types) with
  | nil => simp [h, eq_comm]
  | cons d ds => simp [h]

theorem build_of_increasing (library : Text) {types : List TypeDef}
    (hsorted : types.Pairwise fun a b => a.id ≤ b.id) (h : problems [] [] types = []) :
    build library types = .ok ⟨library, types⟩ := by
  have hsort : sortTypes types = types :=
    List.mergeSort_of_pairwise (hsorted.imp fun hab => decide_eq_true hab)
  rw [build_eq_ok_iff, hsort]
  exact ⟨h, rfl⟩

theorem build_wellFormed {library : Text} {types : List TypeDef} {r : Registry}
    (h : build library types = .ok r) : r.WellFormed := by
  obtain ⟨hnil, rfl⟩ := build_eq_ok_iff.mp h
  obtain ⟨hpass, hids, hnames⟩ := (problems_eq_nil_iff [] [] _).mp hnil
  refine ⟨?_, fun t ht => (hpass t ht).1, fun t ht => (hpass t ht).2.1, hnames,
    fun t ht => (hpass t ht).2.2.2.2⟩
  -- sorting leaves equal ids side by side, and the check leaves none
  have hne : (sortTypes types).Pairwise fun a b => a.id ≠ b.id := List.pairwise_map.mp hids
  exact (pairwise_sortTypes types).imp₂ (fun a b hle hne => Nat.lt_of_le_of_ne hle hne) hne

theorem mem_of_find? {r : Registry} {id : TypeId} {t : TypeDef} (h : r.find? id = some t) :
    t ∈ r.types := List.mem_of_find?_eq_some h

theorem id_of_find? {r : Registry} {id : TypeId} {t : TypeDef} (h : r.find? id = some t) :
    t.id = id := by
  have hid := List.find?_some h
  exact eq_of_beq hid

namespace WellFormed

variable {r : Registry}

theorem ids_nodup (h : r.WellFormed) : (r.types.map TypeDef.id).Nodup :=
  List.pairwise_map.mpr (h.ids_increase.imp Nat.ne_of_lt)

theorem eq_of_id_eq (h : r.WellFormed) {s t : TypeDef} (hs : s ∈ r.types) (ht : t ∈ r.types)
    (he : s.id = t.id) : s = t :=
  List.inj_on_of_nodup_map h.ids_nodup hs ht he

theorem method_name_ne_nil (h : r.WellFormed) {t : TypeDef} (ht : t ∈ r.types) {m : Method}
    (hm : m ∈ t.methods) : m.name ≠ [] := by
  have hmembers := h.members_valid t ht
  simp only [memberProblems, List.append_eq_nil_iff, List.flatMap_eq_nil_iff] at hmembers
  have hbad := hmembers.1.1 m hm
  rintro he
  simp [methodProblems, badName, he, Identifier.isValid] at hbad

theorem find?_eq_some_iff (h : r.WellFormed) {id : TypeId} {t : TypeDef} :
    r.find? id = some t ↔ t ∈ r.types ∧ t.id = id := by
  constructor
  · exact fun hfind => ⟨mem_of_find? hfind, id_of_find? hfind⟩
  · rintro ⟨ht, rfl⟩
    have hsome : (r.find? t.id).isSome := List.find?_isSome.mpr ⟨t, ht, beq_self_eq_true t.id⟩
    obtain ⟨s, hs⟩ := Option.isSome_iff_exists.mp hsome
    rw [hs, h.eq_of_id_eq (mem_of_find? hs) ht (id_of_find? hs)]

end WellFormed

section
variable {r : Registry} {enclosing : List TypeId} {s t : TypeDef} {depth : Nat}

/-- The number of types that have not been entered. -/
def room (r : Registry) (enclosing : List TypeId) : Nat :=
  (r.types.filter fun t => !enclosing.contains t.id).length

theorem room_cons (r : Registry) (id : TypeId) (enclosing : List TypeId) :
    r.room (id :: enclosing) =
      ((r.types.filter fun t => !enclosing.contains t.id).filter fun t => t.id != id).length := by
  rw [room, List.filter_filter]
  congr 2
  funext t
  rw [List.contains_cons, Bool.not_or, bne]

theorem room_cons_le (r : Registry) (id : TypeId) (enclosing : List TypeId) :
    r.room (id :: enclosing) ≤ r.room enclosing := by
  rw [room_cons]
  exact List.length_filter_le _ _

theorem room_cons_lt (ht : t ∈ r.types) (hnew : t.id ∉ enclosing) :
    r.room (t.id :: enclosing) < r.room enclosing := by
  rw [room_cons, room, List.length_filter_lt_length_iff_exists]
  exact ⟨t, List.mem_filter.mpr ⟨ht, by simpa using hnew⟩, by simp⟩

/-- Nothing is cut off by a bound on the depth from here on. A type that is not in the registry
takes up no room, so it needs one level more. -/
def DeepEnough (r : Registry) (depth : Nat) (enclosing : List TypeId) (t : TypeDef) : Prop :=
  r.room enclosing < depth ∨ t ∈ r.types ∧ r.room enclosing ≤ depth

theorem deepEnough_start (r : Registry) (t : TypeDef) : r.DeepEnough (r.size + 1) [] t :=
  .inl (Nat.lt_succ_of_le (List.length_filter_le _ _))

/-- The bound is only met where the type has been entered before. -/
theorem DeepEnough.mem_enclosing (h : r.DeepEnough 0 enclosing t) : t.id ∈ enclosing := by
  obtain h | ⟨ht, hroom⟩ := h
  · exact absurd h (Nat.not_lt_zero _)
  · by_contra hnew
    have hlt := room_cons_lt ht hnew
    omega

theorem DeepEnough.nested (h : r.DeepEnough (depth + 1) enclosing t) (hnew : t.id ∉ enclosing)
    (hs : s ∈ r.types) : r.DeepEnough depth (t.id :: enclosing) s := by
  obtain h | ⟨ht, hroom⟩ := h
  · have hle := r.room_cons_le t.id enclosing
    exact .inr ⟨hs, by omega⟩
  · have hlt := room_cons_lt ht hnew
    exact .inr ⟨hs, by omega⟩

end

end Registry

end Bindery
