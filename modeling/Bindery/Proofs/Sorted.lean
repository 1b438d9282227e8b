import Bindery.Sorted
import Bindery.Text
import Mathlib.Data.List.Induction
import Mathlib.Data.List.Sort

/-!
Increasing lists as sets and maps. An insertion keeps a list increasing and adds one element; a
binding keeps an association list increasing and changes one look-up. An increasing association
list is determined by its look-ups, so a map built up binding by binding is known from the last
binding of each key.
-/

set_option autoImplicit false

namespace Bindery

namespace Sorted

variable {α β γ : Type} {before : α → α → Bool}

/-- The test decides a strict linear order. -/
structure IsOrder (before : α → α → Bool) : Prop where
  irrefl (a : α) : before a a = false
  trans {a b c : α} : before a b = true → before b c = true → before a c = true
  eq_of_neither {a b : α} : before a b = false → before b a = false → a = b

theorem IsOrder.asymm (ho : IsOrder before) {a b : α} (h : before a b = true) :
    before b a = false := by
  by_contra hba
  have haa := ho.trans h (by simpa using hba)
  rw [ho.irrefl] at haa
  exact absurd haa (by decide)

theorem IsOrder.ne (ho : IsOrder before) {a b : α} (h : before a b = true) : a ≠ b := by
  rintro rfl
  rw [ho.irrefl] at h
  exact absurd h (by decide)

theorem IsOrder.not_before_trans (ho : IsOrder before) {a b c : α} (hab : before b a = false)
    (hbc : before c b = false) : before c a = false := by
  by_contra hca
  have hca : before c a = true := by simpa using hca
  cases h : before a b with
  | true =>
    have hcb := ho.trans hca h
    rw [hbc] at hcb
    exact absurd hcb (by decide)
  | false =>
    have he := ho.eq_of_neither h hab
    rw [he, hbc] at hca
    exact absurd hca (by decide)

def KeysIncrease (before : α → α → Bool) (l : List (α × β)) : Prop :=
  l.Pairwise fun a b => before a.1 b.1 = true

/-- Elements that the order does not tell apart are taken for one, so the insertion is looked at
through a function that does not tell them apart either. -/
theorem mem_map_insert {f : α → γ}
    (hf : ∀ a b, before a b = false → before b a = false → f a = f b) (x : α) (ys : List α)
    (z : γ) : z ∈ (insert before x ys).map f ↔ z = f x ∨ z ∈ ys.map f := by
  induction ys with
  | nil => simp [insert]
  | cons y ys ih =>
    unfold insert
    split
    · simp
    · rename_i hxy
      split
      · rw [List.map_cons, List.mem_cons, ih, List.map_cons, List.mem_cons]
        tauto
      · rename_i hyx
        have he := hf x y (by simpa using hxy) (by simpa using hyx)
        simp [he]

theorem mem_map_ofList {f : α → γ}
    (hf : ∀ a b, before a b = false → before b a = false → f a = f b) (xs : List α) (z : γ) :
    z ∈ (ofList before xs).map f ↔ z ∈ xs.map f := by
  have step : ∀ (set xs : List α),
      z ∈ (xs.foldl (fun set x => insert before x set) set).map f ↔
        z ∈ set.map f ∨ z ∈ xs.map f := by
    intro set xs
    induction xs generalizing set with
    | nil => simp
    | cons x xs ih =>
      rw [List.foldl_cons, ih, mem_map_insert hf, List.map_cons, List.mem_cons]
      tauto
  simpa [ofList] using step [] xs

theorem mem_ofList (ho : IsOrder before) {xs : List α} {x : α} : x ∈ ofList before xs ↔ x ∈ xs := by
  simpa using mem_map_ofList (f := id) (fun _ _ => ho.eq_of_neither) xs x

theorem mem_insert (ho : IsOrder before) {x : α} {ys : List α} {z : α} :
    z ∈ insert before x ys ↔ z = x ∨ z ∈ ys := by
  simpa using mem_map_insert (f := id) (fun _ _ => ho.eq_of_neither) x ys z

theorem insert_increasing (ho : IsOrder before) (x : α) {ys : List α}
    (h : ys.Pairwise fun a b => before a b = true) :
    (insert before x ys).Pairwise fun a b => before a b = true := by
  induction ys with
  | nil => exact List.pairwise_singleton _ _
  | cons y ys ih =>
    obtain ⟨hy, hys⟩ := List.pairwise_cons.mp h
    unfold insert
    split_ifs with hxy hyx
    · refine List.pairwise_cons.mpr ⟨fun z hz => ?_, h⟩
      rcases List.mem_cons.mp hz with rfl | hz
      · exact hxy
      · exact ho.trans hxy (hy z hz)
    · refine List.pairwise_cons.mpr ⟨fun z hz => ?_, ih hys⟩
      rcases (mem_insert ho).mp hz with rfl | hz
      · exact hyx
      · exact hy z hz
    · exact h

theorem ofList_increasing (ho : IsOrder before) (xs : List α) :
    (ofList before xs).Pairwise fun a b => before a b = true := by
  have hfold : ∀ set : List α, set.Pairwise (fun a b => before a b = true) →
      (xs.foldl (fun set x => insert before x set) set).Pairwise fun a b => before a b = true := by
    induction xs with
    | nil => exact fun _ h => h
    | cons x xs ih => exact fun set h => ih _ (insert_increasing ho x h)
  exact hfold [] List.Pairwise.nil

theorem ofList_nodup (ho : IsOrder before) (xs : List α) : (ofList before xs).Nodup := by
  refine (ofList_increasing ho xs).imp fun {a b} hab heq => ?_
  rw [heq, ho.irrefl] at hab
  exact absurd hab (by decide)

theorem ofList_map {before' : γ → γ → Bool} {f : α → γ} {xs : List α}
    (h : ∀ a ∈ xs, ∀ b ∈ xs, before' (f a) (f b) = before a b) (ho : IsOrder before) :
    ofList before' (xs.map f) = (ofList before xs).map f := by
  have hinsert : ∀ (x : α) (ys : List α), (∀ y ∈ ys, before' (f x) (f y) = before x y ∧
      before' (f y) (f x) = before y x) →
      insert before' (f x) (ys.map f) = (insert before x ys).map f := by
    intro x ys hys
    induction ys with
    | nil => rfl
    | cons y ys ih =>
      obtain ⟨⟨hxy, hyx⟩, hrest⟩ := List.forall_mem_cons.mp hys
      simp only [List.map_cons, insert, hxy, hyx, ih hrest]
      split_ifs <;> rfl
  have hfold : ∀ ys set : List α, (∀ y ∈ ys, y ∈ xs) → (∀ y ∈ set, y ∈ xs) →
      (ys.map f).foldl (fun set x => insert before' x set) (set.map f) =
        (ys.foldl (fun set x => insert before x set) set).map f := by
    intro ys
    induction ys with
    | nil => exact fun _ _ _ => rfl
    | cons y ys ih =>
      intro set hys hset
      obtain ⟨hy, hrest⟩ := List.forall_mem_cons.mp hys
      rw [List.map_cons, List.foldl_cons, List.foldl_cons,
        hinsert y set fun z hz => ⟨h y hy z (hset z hz), h z (hset z hz) y hy⟩]
      refine ih _ hrest fun z hz => ?_
      rcases (mem_insert ho).mp hz with rfl | hz
      · exact hy
      · exact hset z hz
  exact hfold xs [] (fun _ hx => hx) (List.forall_mem_nil _)

theorem mem_put {key : α} {value : β} {l : List (α × β)} {e : α × β}
    (he : e ∈ put before key value l) : e = (key, value) ∨ e ∈ l := by
  induction l with
  | nil => simpa [put] using he
  | cons entry rest ih =>
    unfold put at he
    split at he
    · simpa using he
    · split at he
      · rcases List.mem_cons.mp he with rfl | hrest
        · simp
        · rcases ih hrest with h | h
          · exact .inl h
          · exact .inr (List.mem_cons_of_mem _ h)
      · rcases List.mem_cons.mp he with rfl | hrest
        · exact .inl rfl
        · exact .inr (List.mem_cons_of_mem _ hrest)

theorem put_increasing (ho : IsOrder before) (key : α) (value : β) {l : List (α × β)}
    (hl : KeysIncrease before l) : KeysIncrease before (put before key value l) := by
  induction l with
  | nil => exact List.pairwise_singleton _ _
  | cons entry rest ih =>
    obtain ⟨hhead, hrest⟩ := List.pairwise_cons.mp hl
    unfold put
    split
    · rename_i hlt
      refine List.pairwise_cons.mpr ⟨?_, hl⟩
      intro e he
      rcases List.mem_cons.mp he with rfl | he
      · exact hlt
      · exact ho.trans hlt (hhead e he)
    · rename_i hnlt
      split
      · rename_i hgt
        refine List.pairwise_cons.mpr ⟨?_, ih hrest⟩
        intro e he
        rcases mem_put he with rfl | he
        · exact hgt
        · exact hhead e he
      · rename_i hngt
        have hk : key = entry.1 := ho.eq_of_neither (by simpa using hnlt) (by simpa using hngt)
        refine List.pairwise_cons.mpr ⟨?_, hrest⟩
        intro e he
        simpa [hk] using hhead e he

variable [BEq α] [LawfulBEq α]

theorem lookup_put (ho : IsOrder before) (key : α) (value : β) (l : List (α × β)) (k : α) :
    (put before key value l).lookup k = if k == key then some value else l.lookup k := by
  induction l with
  | nil => by_cases h : k == key <;> simp [put, List.lookup_cons, h]
  | cons entry rest ih =>
    obtain ⟨a, b⟩ := entry
    unfold put
    split
    · by_cases h : k == key <;> simp [List.lookup_cons, h]
    · rename_i hnlt
      split
      · rename_i hgt
        by_cases ha : k == a
        · have hk : (k == key) = false := by
            rw [eq_of_beq ha, beq_eq_false_iff_ne]
            rintro rfl
            rw [ho.irrefl] at hgt
            exact absurd hgt (by decide)
          simp [List.lookup_cons, ha, hk]
        · simp [List.lookup_cons, ha, ih]
      · rename_i hngt
        have hk : key = a := ho.eq_of_neither (by simpa using hnlt) (by simpa using hngt)
        subst hk
        by_cases h : k == key <;> simp [List.lookup_cons, h]

theorem update_eq_put (ho : IsOrder before) (key : α) (fallback : β) (f : β → β)
    {l : List (α × β)} (hl : KeysIncrease before l) :
    update before key fallback f l = put before key (f ((l.lookup key).getD fallback)) l := by
  induction l with
  | nil => rfl
  | cons entry rest ih =>
    obtain ⟨a, b⟩ := entry
    obtain ⟨hhead, hrest⟩ := List.pairwise_cons.mp hl
    unfold update put
    split_ifs with hlt hgt
    · -- the keys that follow are greater still
      have hnone : ((a, b) :: rest).lookup key = none := by
        rw [List.lookup_eq_none_iff]
        intro e he
        have hbefore : before key e.1 = true := by
          rcases List.mem_cons.mp he with rfl | he
          · exact hlt
          · exact ho.trans hlt (hhead e he)
        exact bne_iff_ne.mpr (ho.ne hbefore)
      rw [hnone]
      rfl
    · have hne : (key == a) = false := beq_eq_false_iff_ne.mpr (ho.ne hgt).symm
      rw [ih hrest, List.lookup_cons, hne]
    · have hkey : key = a := ho.eq_of_neither (by simpa using hlt) (by simpa using hgt)
      rw [hkey, List.lookup_cons, beq_self_eq_true]
      rfl

theorem lookup_eq_some_iff (ho : IsOrder before) {l : List (α × β)} (hl : KeysIncrease before l)
    {k : α} {v : β} : l.lookup k = some v ↔ (k, v) ∈ l := by
  induction l with
  | nil => simp
  | cons entry rest ih =>
    obtain ⟨a, b⟩ := entry
    obtain ⟨hhead, hrest⟩ := List.pairwise_cons.mp hl
    by_cases ha : k == a
    · have hka := eq_of_beq ha
      subst hka
      have hnot : (k, v) ∉ rest := by
        intro hm
        have hlt := hhead _ hm
        rw [ho.irrefl] at hlt
        exact absurd hlt (by decide)
      simp [hnot, eq_comm]
    · have hne : k ≠ a := by simpa using ha
      simp [List.lookup_cons, ha, ih hrest, hne]

theorem eq_of_lookup_eq (ho : IsOrder before) {l m : List (α × β)} (hl : KeysIncrease before l)
    (hm : KeysIncrease before m) (h : ∀ k, l.lookup k = m.lookup k) : l = m := by
  have hlt : ∀ a b : α × β, before a.1 b.1 = true → before b.1 a.1 = true → False := by
    intro a b hab hba
    rw [ho.asymm hab] at hba
    exact absurd hba (by decide)
  have : Std.Antisymm fun a b : α × β => before a.1 b.1 = true := ⟨fun a b hab hba =>
    (hlt a b hab hba).elim⟩
  have : Std.Irrefl fun a b : α × β => before a.1 b.1 = true := ⟨fun a haa => hlt a a haa haa⟩
  refine hl.eq_of_mem_iff hm ?_
  rintro ⟨k, v⟩
  rw [← lookup_eq_some_iff ho hl, ← lookup_eq_some_iff ho hm, h]

/-- The map made of a row of bindings, a later one replacing an earlier one of the same key. -/
def ofBindings (before : α → α → Bool) (bindings : List (α × β)) : List (α × β) :=
  bindings.foldl (fun map b => put before b.1 b.2 map) []

omit [BEq α] [LawfulBEq α] in
theorem ofBindings_concat (bindings : List (α × β)) (b : α × β) :
    ofBindings before (bindings ++ [b]) = put before b.1 b.2 (ofBindings before bindings) := by
  simp [ofBindings]

omit [BEq α] [LawfulBEq α] in
theorem mem_of_mem_ofBindings {bindings : List (α × β)} {e : α × β}
    (he : e ∈ ofBindings before bindings) : e ∈ bindings := by
  induction bindings using List.reverseRecOn with
  | nil => exact he
  | append_singleton bindings b ih =>
    rw [ofBindings_concat] at he
    rw [List.mem_append, List.mem_singleton]
    exact (mem_put he).symm.imp ih id

omit [BEq α] [LawfulBEq α] in
theorem ofBindings_increasing (ho : IsOrder before) (bindings : List (α × β)) :
    KeysIncrease before (ofBindings before bindings) := by
  induction bindings using List.reverseRecOn with
  | nil => exact List.Pairwise.nil
  | append_singleton bindings b ih =>
    rw [ofBindings_concat]
    exact put_increasing ho b.1 b.2 ih

theorem lookup_ofBindings (ho : IsOrder before) (bindings : List (α × β)) (k : α) :
    (ofBindings before bindings).lookup k = bindings.reverse.lookup k := by
  induction bindings using List.reverseRecOn with
  | nil => rfl
  | append_singleton bindings b ih =>
    rw [ofBindings_concat, lookup_put ho, ih, List.reverse_append, List.reverse_singleton,
      List.singleton_append, List.lookup_cons]
    cases k == b.1 <;> rfl

omit [BEq α] [LawfulBEq α] in
theorem put_last (ho : IsOrder before) (key : α) (value : β) {l : List (α × β)}
    (hl : ∀ e ∈ l, before e.1 key = true) : put before key value l = l ++ [(key, value)] := by
  induction l with
  | nil => rfl
  | cons entry rest ih =>
    have hlt := hl entry (by simp)
    have hnot := ho.asymm hlt
    simp [put, hnot, hlt, ih fun e he => hl e (by simp [he])]

omit [BEq α] [LawfulBEq α] in
theorem ofBindings_of_increasing (ho : IsOrder before) {l : List (α × β)}
    (hl : KeysIncrease before l) : ofBindings before l = l := by
  induction l using List.reverseRecOn with
  | nil => rfl
  | append_singleton l b ih =>
    obtain ⟨hl', -, hlast⟩ := List.pairwise_append.mp hl
    rw [ofBindings_concat, ih hl']
    exact put_last ho b.1 b.2 fun e he => hlast e he b (by simp)

end Sorted

namespace Text

theorem before_cons_cons (a b : UInt8) (s t : Text) :
    before (a :: s) (b :: t) = true ↔ a < b ∨ a = b ∧ before s t = true := by
  rw [before, UInt8.lt_iff_toNat_lt, ← UInt8.toNat_inj]
  split_ifs with hab hba
  · simp [hab]
  · simp [hab, show a.toNat ≠ b.toNat by omega]
  · simp [show a.toNat = b.toNat by omega]

theorem before_irrefl (s : Text) : before s s = false := by
  induction s with
  | nil => rfl
  | cons a s ih => simp [before, ih]

theorem before_trans {s t u : Text} (hst : before s t = true) (htu : before t u = true) :
    before s u = true := by
  induction s generalizing t u with
  | nil =>
    cases t with
    | nil => simp [before] at hst
    | cons b t =>
      cases u with
      | nil => simp [before] at htu
      | cons c u => rfl
  | cons a s ih =>
    cases t with
    | nil => simp [before] at hst
    | cons b t =>
      cases u with
      | nil => simp [before] at htu
      | cons c u =>
        rw [before_cons_cons] at hst htu ⊢
        rcases hst with hab | ⟨rfl, hst⟩
        · rcases htu with hbc | ⟨rfl, -⟩
          · exact .inl (UInt8.lt_trans hab hbc)
          · exact .inl hab
        · rcases htu with hbc | ⟨rfl, htu⟩
          · exact .inl hbc
          · exact .inr ⟨rfl, ih hst htu⟩

theorem eq_of_before_neither {s t : Text} (hst : before s t = false) (hts : before t s = false) :
    s = t := by
  induction s generalizing t with
  | nil =>
    cases t with
    | nil => rfl
    | cons b t => simp [before] at hst
  | cons a s ih =>
    cases t with
    | nil => simp [before] at hts
    | cons b t =>
      simp only [before] at hst hts
      split_ifs at hst hts
      have hab : a = b := UInt8.toNat_inj.mp (by omega)
      rw [hab, ih hst hts]

theorem before_isOrder : Sorted.IsOrder before :=
  ⟨before_irrefl, before_trans, eq_of_before_neither⟩

theorem notAfter_trans {s t u : Text} (hst : notAfter s t = true) (htu : notAfter t u = true) :
    notAfter s u = true := by
  simp only [notAfter, Bool.not_eq_true'] at *
  exact before_isOrder.not_before_trans hst htu

theorem notAfter_total (s t : Text) : (notAfter s t || notAfter t s) = true := by
  cases h : before t s with
  | false => simp [notAfter, h]
  | true => simp [notAfter, before_isOrder.asymm h]

theorem before_of_notAfter {s t : Text} (h : notAfter s t = true) (hne : s ≠ t) :
    before s t = true := by
  by_contra hst
  simp only [notAfter, Bool.not_eq_true'] at h
  exact hne (eq_of_before_neither (by simpa using hst) h)

end Text

end Bindery
