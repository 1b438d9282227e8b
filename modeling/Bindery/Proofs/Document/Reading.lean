import Bindery.Proofs.Document.Meaning
import Mathlib.Tactic.Common

/-!
The readers of members and of type references give what the document says. Each of them is shown
to succeed exactly with what its node means, at whatever path it stands: the path only enters what
is reported, and no value is given for a node that has not been looked at.
-/

set_option autoImplicit false

namespace Bindery

namespace Document

open Checked

namespace Checked

variable {α β : Type}

theorem map_eq_good_iff {f : α → β} {a : Checked α} {y : β} :
    f <$> a = good y ↔ ∃ x, a = good x ∧ f x = y := by
  cases a with
  | good x => simp [Functor.map, both]
  | bad fs => simp [Functor.map, both]

theorem seq_eq_good_iff {f : Checked (α → β)} {a : Checked α} {y : β} :
    f <*> a = good y ↔ ∃ g x, f = good g ∧ a = good x ∧ g x = y := by
  cases f with
  | good g =>
    cases a with
    | good x => simp [Seq.seq, both]
    | bad fs => simp [Seq.seq, both]
  | bad fs =>
    cases a with
    | good x => simp [Seq.seq, both]
    | bad gs => simp [Seq.seq, both]

theorem andThen_eq_good_iff {a : Checked α} {f : α → Checked β} {y : β} :
    a.andThen f = good y ↔ ∃ x, a = good x ∧ f x = good y := by
  cases a with
  | good x => simp [andThen]
  | bad fs => simp [andThen]

theorem all_eq_good_iff {cs : List (Checked α)} {xs : List α} :
    all cs = good xs ↔ List.Forall₂ (fun c x => c = good x) cs xs := by
  induction cs generalizing xs with
  | nil => simp [all, eq_comm]
  | cons c cs ih =>
    have hcons : all (c :: cs) = List.cons <$> c <*> all cs := rfl
    rw [hcons, seq_eq_good_iff, List.forall₂_cons_left_iff]
    simp only [map_eq_good_iff, ih]
    constructor
    · rintro ⟨_, xs, ⟨x, hx, rfl⟩, hxs, rfl⟩
      exact ⟨x, xs, hx, hxs, rfl⟩
    · rintro ⟨x, xs, hx, hxs, rfl⟩
      exact ⟨_, xs, ⟨x, hx, rfl⟩, hxs, rfl⟩

end Checked

section
variable {α : Type} {item : Path → Json → Checked α} {R : Json → α → Prop}

/-- At every path, a reader gives exactly what the node means. -/
def Reads (item : Path → Json → Checked α) (R : Json → α → Prop) : Prop :=
  ∀ path v x, item path v = good x ↔ R v x

theorem Reads.unique (h : Reads item R) {v : Json} {x y : α} (hx : R v x) (hy : R v y) : x = y :=
  good.inj (((h [] v x).mpr hx).symm.trans ((h [] v y).mpr hy))

theorem Reads.required (h : Reads item R) (path : Path) (v : Json) (key : Text) (x : α) :
    (Document.required path v key).andThen (item (path.at key)) = good x ↔ Says R v key x := by
  rw [andThen_eq_good_iff, Says]
  cases hget : v.get? key with
  | none => simp [Document.required, hget, fault]
  | some child => simpa [Document.required, hget] using h (path.at key) child x

theorem Reads.optional (h : Reads item R) (path : Path) (v : Json) (key : Text) (fallback x : α) :
    (match v.get? key with
      | some child => item (path.at key) child
      | none => good fallback) = good x ↔ SaysOr R v key fallback x := by
  rw [SaysOr, Says]
  cases hget : v.get? key with
  | none => simp [eq_comm]
  | some child => simpa using h (path.at key) child x

theorem Reads.list (h : Reads item R) : Reads (asList item) (IsList R) := by
  intro path v xs
  cases v with
  | array items =>
    -- the positions only enter the paths, so they are forgotten one element after the other
    have hfrom : ∀ (items : List Json) (start : Nat) (xs : List α),
        List.Forall₂ (fun c x => c = good x)
          ((items.zipIdx start).map fun x => item (path ++ [.index x.2]) x.1) xs ↔
          List.Forall₂ R items xs := by
      intro items
      induction items with
      | nil => simp
      | cons v vs ih =>
        intro start xs
        cases xs with
        | nil => simp
        | cons x xs =>
          rw [List.zipIdx_cons, List.map_cons, List.forall₂_cons, List.forall₂_cons, ih]
          exact and_congr_left' (h _ v x)
    rw [asList, all_eq_good_iff, hfrom]
    simp [IsList]
  | _ => simp [asList, expected, fault, IsList]

theorem Reads.optionalList (h : Reads item R) (path : Path) (v : Json) (key : Text) (xs : List α) :
    Document.optionalList item path v key = good xs ↔ SaysOr (IsList R) v key [] xs :=
  h.list.optional path v key [] xs

theorem Reads.object (h : Reads item R) (hmember : ∀ v x, R v x → ∃ key y, v.get? key = some y) :
    Reads (asObject item) R := by
  intro path v x
  cases v with
  | object members => exact h path (.object members) x
  | _ =>
    refine ⟨fun hread => by simp [asObject, expected, fault] at hread, fun hR => ?_⟩
    obtain ⟨key, y, hy⟩ := hmember _ x hR
    simp [Json.get?] at hy

theorem Says.member {v : Json} {key : Text} {x : α} (h : Says R v key x) :
    ∃ key y, v.get? key = some y := by
  obtain ⟨child, hchild, -⟩ := h
  exact ⟨key, child, hchild⟩

end

theorem reads_asString : Reads asString IsText := by
  intro path v s
  cases v <;> simp [asString, expected, fault, IsText]

theorem reads_asBool : Reads asBool IsFlag := by
  intro path v b
  cases v <;> simp [asBool, expected, fault, IsFlag]

theorem requiredString_eq_good_iff (path : Path) (v : Json) (key s : Text) :
    requiredString path v key = good s ↔ Says IsText v key s :=
  reads_asString.required path v key s

theorem requiredBool_eq_good_iff (path : Path) (v : Json) (key : Text) (b : Bool) :
    requiredBool path v key = good b ↔ Says IsFlag v key b :=
  reads_asBool.required path v key b

theorem optionalString_eq_good_iff (path : Path) (v : Json) (key fallback s : Text) :
    optionalString path v key fallback = good s ↔ SaysOr IsText v key fallback s :=
  reads_asString.optional path v key fallback s

theorem optionalBool_eq_good_iff (path : Path) (v : Json) (key : Text) (fallback b : Bool) :
    optionalBool path v key fallback = good b ↔ SaysOr IsFlag v key fallback b :=
  reads_asBool.optional path v key fallback b

theorem says_judged_iff {α : Type} {judge : Path → Text → Checked α} {R : Json → α → Prop}
    (h : Reads (fun path v => (asString path v).andThen (judge path)) R) (path : Path) (v : Json)
    (key : Text) (x : α) :
    (requiredString path v key).andThen (judge (path.at key)) = good x ↔ Says R v key x := by
  rw [← h.required path v key x]
  cases hget : v.get? key with
  | none => simp [requiredString, required, hget, andThen, fault]
  | some child => simp [requiredString, required, hget, andThen]

theorem saysOr_judged_iff {α : Type} {judge : Path → Text → Checked α} {R : Json → α → Prop}
    (h : Reads (fun path v => (asString path v).andThen (judge path)) R) (path : Path) (v : Json)
    (key word : Text) (fallback x : α) (hword : judge (path.at key) word = good fallback) :
    (optionalString path v key word).andThen (judge (path.at key)) = good x ↔
      SaysOr R v key fallback x := by
  rw [← h.optional path v key fallback x]
  cases hget : v.get? key with
  | none => simp [optionalString, hget, andThen, hword]
  | some child => simp [optionalString, hget]

theorem int?_eq_some_iff (n : Number) (i : Int64) :
    n.int? = some i ↔ n.integer? = some i.toInt := by
  cases n with
  | int j => simp [Number.int?, Number.integer?, Int64.toInt_inj]
  | nat m =>
    have hpow : twoTo 63 = 2 ^ 63 := rfl
    have hi := i.toInt_lt
    rw [Number.int?, Number.integer?, hpow]
    split
    · next hlt =>
      rw [Option.some_inj, Option.some_inj, ← Int64.toInt_inj, Int64.toInt_ofNat_of_lt hlt]
    · next hge =>
      simp only [reduceCtorEq, Option.some_inj, false_iff]
      omega
  | real x => simp [Number.int?, Number.integer?]

theorem nat?_toNat_iff (n : Number) (k : Nat) :
    (∃ u, n.nat? = some u ∧ u.toNat = k) ↔ k < UInt64.size ∧ n.integer? = some (k : Int) := by
  have hsize : UInt64.size = 2 ^ 64 := rfl
  cases n with
  | int i =>
    have hi := i.toInt_lt
    simp only [Number.nat?, Number.integer?, Option.some_inj]
    split
    · next hnonneg =>
      have hfits : i.toInt.toNat < UInt64.size := by omega
      simp only [Option.some_inj, exists_eq_left', UInt64.toNat_ofNat_of_lt' hfits]
      omega
    · next hneg =>
      simp only [reduceCtorEq, false_and, exists_false, false_iff]
      omega
  | nat m =>
    have hm := m.toNat_lt
    simp only [Number.nat?, Number.integer?, Option.some_inj, exists_eq_left']
    omega
  | real x => simp [Number.nat?, Number.integer?]

theorem isInteger_of_integer? {n : Number} {i : Int} (h : n.integer? = some i) :
    n.isInteger = true := by
  cases n with
  | real x => simp [Number.integer?] at h
  | _ => rfl

theorem reads_asTypeId : Reads asTypeId IsId := by
  intro path v (id : Nat)
  cases v with
  | number n =>
    have hread : asTypeId path (.number n) = good id ↔
        n.isInteger = true ∧ 0 < id ∧ id ≤ 4294967295 ∧ ∃ u, n.nat? = some u ∧ u.toNat = id := by
      rw [asTypeId]
      cases hint : n.isInteger with
      | false => simp [expected, fault]
      | true =>
        cases hnat : n.nat? with
        | none => simp [fault]
        | some u =>
          by_cases hrange : 0 < u.toNat ∧ u.toNat ≤ 4294967295
          · simp only [hrange, and_self, ↓reduceIte, good.injEq, Option.some_inj, exists_eq_left',
              true_and]
            refine ⟨?_, fun h => h.2.2⟩
            rintro rfl
            exact ⟨hrange.1, hrange.2, rfl⟩
          · simp only [hrange, ↓reduceIte, fault, reduceCtorEq, Option.some_inj, exists_eq_left',
              true_and, false_iff]
            omega
    rw [hread, nat?_toNat_iff]
    simp only [IsId, Json.number.injEq, exists_eq_left']
    constructor
    · rintro ⟨-, hpos, hle, -, hvalue⟩
      exact ⟨hvalue, hpos, hle⟩
    · rintro ⟨hvalue, hpos, hle⟩
      exact ⟨isInteger_of_integer? hvalue, hpos, hle, Nat.lt_of_le_of_lt hle (by decide), hvalue⟩
  | _ => simp [asTypeId, expected, fault, IsId]

theorem ofName?_eq_some_iff (name : Text) (p : Primitive) :
    Primitive.ofName? name = some p ↔ name = p.name := by
  constructor
  · intro h
    have hname := List.find?_some (p := fun p : Primitive => p.name == name) h
    exact (eq_of_beq hname).symm
  · rintro rfl
    cases p <;> rfl

theorem reads_asPrimitive :
    Reads (fun path v => (asString path v).andThen (asPrimitive path)) IsPrimitive := by
  intro path v p
  cases v with
  | string name =>
    simp only [asString, andThen, asPrimitive, IsPrimitive, Json.string.injEq,
      ← ofName?_eq_some_iff]
    cases Primitive.ofName? name <;> simp [fault]
  | _ => simp [asString, expected, fault, andThen, IsPrimitive]

theorem reads_variantValue : Reads variantValue IsInteger := by
  intro path v i
  cases v with
  | number n =>
    simp only [variantValue, IsInteger, Json.number.injEq, exists_eq_left', ← int?_eq_some_iff]
    cases n.int? <;> simp [fault]
  | _ => simp [variantValue, fault, IsInteger]

theorem receiverOf_eq_good_iff (path : Path) (word : Text) (receiver : Receiver) :
    receiverOf path word = good receiver ↔
      word = receiver.name ∨ word = [] ∧ receiver = .absent := by
  rw [receiverOf]
  split_ifs with hnone hvalue hshared hexclusive
  · obtain rfl | rfl := hnone <;> rw [good.injEq] <;> cases receiver <;> decide
  · rw [hvalue, good.injEq]
    cases receiver <;> decide
  · rw [hshared, good.injEq]
    cases receiver <;> decide
  · rw [hexclusive, good.injEq]
    cases receiver <;> decide
  · have hempty : word ≠ [] := fun h => hnone (.inl h)
    have hword : word ≠ "none" := fun h => hnone (.inr h)
    cases receiver <;> simp [fault, Receiver.name, *]

theorem reads_receiverOf :
    Reads (fun path v => (asString path v).andThen (receiverOf path)) IsReceiver := by
  intro path v receiver
  cases v with
  | string word =>
    simpa [asString, andThen, IsReceiver] using receiverOf_eq_good_iff path word receiver
  | _ => simp [asString, expected, fault, andThen, IsReceiver]

theorem ownershipOf_eq_good_iff (path : Path) (word : Text) (ownership : Ownership) :
    ownershipOf path word = good ownership ↔ word = ownershipWord ownership := by
  rw [ownershipOf]
  split_ifs with howned hborrowed
  · rw [howned, good.injEq]
    cases ownership <;> decide
  · rw [hborrowed, good.injEq]
    cases ownership <;> decide
  · cases ownership <;> simp [fault, ownershipWord, *]

theorem reads_ownershipOf :
    Reads (fun path v => (asString path v).andThen (ownershipOf path)) IsOwnership := by
  intro path v ownership
  cases v with
  | string word =>
    simpa [asString, andThen, IsOwnership] using ownershipOf_eq_good_iff path word ownership
  | _ => simp [asString, expected, fault, andThen, IsOwnership]

/-- The reader of the form that counts. -/
def referenceOfForm (nested : Path → Json → Checked TypeRef) (path : Path) (v : Json) :
    Form → Json → Checked TypeRef
  | .primitive, p => primitiveRef (path.at "primitive") p
  | .object, id => objectRef path v id
  | .record, id => recordRef path v id
  | .enumeration, id => TypeRef.enumeration <$> asTypeId (path.at "enum") id
  | .slice, view => sliceRef path v view
  | .writeable, _ => good .writeable
  | .nullable, inner => TypeRef.nullable <$> nested (path.at "nullable") inner
  | .fallible, .object sides =>
    let side (key : Text) :=
      nested ((path.at "fallible").at key) (((Json.object sides).get? key).getD .null)
    TypeRef.fallible <$> side "ok" <*> side "err"
  | .fallible, _ => fault (path.at "fallible") .fallibleShape

theorem referenceWith_object (nested : Path → Json → Checked TypeRef) (path : Path)
    (members : List (Text × Json)) :
    referenceWith nested path (.object members) =
      match form? (.object members) with
      | some (form, child) => referenceOfForm nested path (.object members) form child
      | none => fault path .unrecognizedReference := by
  simp only [referenceWith, form?, Form.all, List.findSome?, Form.key]
  cases (Json.object members).get? "primitive" with
  | some p => rfl
  | none =>
  cases (Json.object members).get? "opaque" with
  | some id => rfl
  | none =>
  cases (Json.object members).get? "struct" with
  | some id => rfl
  | none =>
  cases (Json.object members).get? "enum" with
  | some id => rfl
  | none =>
  cases (Json.object members).get? "slice" with
  | some view => rfl
  | none =>
  cases (Json.object members).get? "writeable" with
  | some w => rfl
  | none =>
  cases (Json.object members).get? "nullable" with
  | some inner => rfl
  | none =>
  cases (Json.object members).get? "fallible" with
  | some sides => cases sides <;> rfl
  | none => rfl

theorem HasForm.get? {v child : Json} {form : Form} (h : HasForm v form child) :
    v.get? form.key = some child := by
  obtain ⟨other, -, hget⟩ := List.exists_of_findSome?_eq_some h
  obtain ⟨found, hfound, heq⟩ := Option.map_eq_some_iff.mp hget
  obtain ⟨rfl, rfl⟩ := Prod.mk.inj heq
  exact hfound

theorem depth_lt_of_get? {v child : Json} {key : Text} (h : v.get? key = some child) :
    child.depth < v.depth := by
  cases v with
  | object members =>
    rw [Json.get?] at h
    rw [Json.depth, Nat.lt_succ_iff]
    induction members with
    | nil => simp at h
    | cons m ms ih =>
      rw [List.lookup_cons] at h
      rw [Json.depthMembers]
      split at h
      · cases h
        exact Nat.le_max_left _ _
      · exact Nat.le_trans (ih h) (Nat.le_max_right _ _)
  | _ => simp [Json.get?] at h

theorem depth_side_lt {sides : List (Text × Json)} {bound : Nat}
    (h : (Json.object sides).depth < bound) (key : Text) :
    (((Json.object sides).get? key).getD .null).depth < bound := by
  cases hget : (Json.object sides).get? key with
  | none => exact Nat.zero_lt_of_lt h
  | some side => exact Nat.lt_trans (depth_lt_of_get? hget) h

theorem HasForm.unique {v child child' : Json} {form form' : Form} (h : HasForm v form child)
    (h' : HasForm v form' child') : form = form' ∧ child = child' :=
  Prod.mk.inj (Option.some.inj (h.symm.trans h'))

section
variable {nested : Path → Json → Checked TypeRef} {path : Path} {v child : Json} {ref : TypeRef}

theorem primitiveRef_eq_good_iff (path : Path) :
    primitiveRef path child = good ref ↔ ∃ p, IsPrimitive child p ∧ ref = .primitive p := by
  cases child with
  | string name =>
    have hp := fun p => reads_asPrimitive path (.string name) p
    simp only [asString, andThen] at hp
    simp only [primitiveRef, map_eq_good_iff, hp, eq_comm]
  | _ => simp [primitiveRef, fault, IsPrimitive]

/-- The word that could not be read is replaced while the rest is looked at; the replacement never
gets into a reference, since the word itself is part of what is read. -/
theorem objectRef_eq_good_iff :
    objectRef path v child = good ref ↔ ∃ id ownership isMutable, IsId child id ∧
      SaysOr IsOwnership v "ownership" .borrowed ownership ∧ SaysOr IsFlag v "mut" false isMutable ∧
      ref = .object id ownership isMutable := by
  simp only [← saysOr_judged_iff reads_ownershipOf path v "ownership" "borrowed" .borrowed _ rfl,
    ← optionalBool_eq_good_iff path, ← reads_asTypeId (path.at "opaque"), objectRef]
  cases hword : optionalString path v "ownership" "borrowed" with
  | bad fs => simp [seq_eq_good_iff, andThen]
  | good word =>
    simp only [seq_eq_good_iff, map_eq_good_iff, andThen]
    constructor
    · rintro ⟨_, ownership, ⟨_, isMutable, ⟨_, _, ⟨id, hid, rfl⟩, -, rfl⟩, hmut, rfl⟩, howner, rfl⟩
      exact ⟨id, ownership, isMutable, hid, howner, hmut, rfl⟩
    · rintro ⟨id, ownership, isMutable, hid, howner, hmut, rfl⟩
      exact ⟨_, ownership, ⟨_, isMutable, ⟨_, word, ⟨id, hid, rfl⟩, rfl, rfl⟩, hmut, rfl⟩,
        howner, rfl⟩

theorem recordRef_eq_good_iff :
    recordRef path v child = good ref ↔ ∃ id byRef, IsId child id ∧
      SaysOr IsFlag v "by_ref" false byRef ∧ ref = .record id byRef := by
  simp only [← optionalBool_eq_good_iff path, ← reads_asTypeId (path.at "struct"), recordRef,
    seq_eq_good_iff, map_eq_good_iff]
  constructor
  · rintro ⟨_, byRef, ⟨id, hid, rfl⟩, hbyRef, rfl⟩
    exact ⟨id, byRef, hid, hbyRef, rfl⟩
  · rintro ⟨id, byRef, hid, hbyRef, rfl⟩
    exact ⟨_, byRef, ⟨id, hid, rfl⟩, hbyRef, rfl⟩

theorem scalarView_eq_good_iff {view : View} :
    scalarView path v = good view ↔ ∃ p, Says IsPrimitive v "element" p ∧ view = .scalars p := by
  rw [scalarView, map_eq_good_iff]
  simp only [says_judged_iff reads_asPrimitive, eq_comm]

theorem viewOf_eq_good_iff (path : Path) (v : Json) (word : Text) (view : View) :
    viewOf path v word = good view ↔ IsView v (.string word) view := by
  have hview : IsView v (.string word) view ↔
      word = viewWord view ∧ ∀ p, view = .scalars p → Says IsPrimitive v "element" p :=
    ⟨fun h => ⟨Json.string.inj h.word, h.element⟩, fun h => ⟨congrArg Json.string h.1, h.2⟩⟩
  rw [hview, viewOf]
  split_ifs with h8 h16 hstrings hscalars
  · rw [h8]
    cases view <;> simp +decide [viewWord]
  · rw [h16]
    cases view <;> simp +decide [viewWord]
  · rw [hstrings]
    cases view <;> simp +decide [viewWord]
  · rw [hscalars, scalarView_eq_good_iff]
    cases view <;> simp +decide [viewWord]
  · cases view <;> simp [fault, viewWord, *]

theorem sliceRef_eq_good_iff :
    sliceRef path v child = good ref ↔ ∃ view isMutable, IsView v child view ∧
      SaysOr IsFlag v "mut" false isMutable ∧ ref = .slice view isMutable := by
  cases child with
  | string word =>
    simp only [← optionalBool_eq_good_iff path, ← viewOf_eq_good_iff path, sliceRef,
      seq_eq_good_iff, map_eq_good_iff]
    constructor
    · rintro ⟨_, view, ⟨isMutable, hmut, rfl⟩, hview, rfl⟩
      exact ⟨view, isMutable, hview, hmut, rfl⟩
    · rintro ⟨view, isMutable, hview, hmut, rfl⟩
      exact ⟨_, view, ⟨isMutable, hmut, rfl⟩, hview, rfl⟩
  | _ =>
    simp only [sliceRef, fault, reduceCtorEq, false_iff, not_exists]
    rintro view isMutable ⟨hview, -⟩
    exact absurd hview.word (by simp [IsText])

theorem denotes_of_referenceOfForm {form : Form} (hform : HasForm v form child)
    (hnested : ∀ inner, inner.depth < v.depth → ∀ path ref,
      nested path inner = good ref ↔ Denotes inner ref)
    (h : referenceOfForm nested path v form child = good ref) : Denotes v ref := by
  have hdepth : child.depth < v.depth := depth_lt_of_get? hform.get?
  cases form with
  | primitive =>
    obtain ⟨p, hp, rfl⟩ := (primitiveRef_eq_good_iff _).mp h
    exact .primitive hform hp
  | object =>
    obtain ⟨id, ownership, isMutable, hid, howner, hmut, rfl⟩ := objectRef_eq_good_iff.mp h
    exact .object hform hid howner hmut
  | record =>
    obtain ⟨id, byRef, hid, hbyRef, rfl⟩ := recordRef_eq_good_iff.mp h
    exact .record hform hid hbyRef
  | enumeration =>
    obtain ⟨id, hid, rfl⟩ := map_eq_good_iff.mp h
    exact .enumeration hform ((reads_asTypeId _ _ _).mp hid)
  | slice =>
    obtain ⟨view, isMutable, hview, hmut, rfl⟩ := sliceRef_eq_good_iff.mp h
    exact .slice hform hview hmut
  | writeable =>
    cases h
    exact .writeable hform
  | nullable =>
    obtain ⟨inner, hinner, rfl⟩ := map_eq_good_iff.mp h
    exact .nullable hform ((hnested child hdepth _ _).mp hinner)
  | fallible =>
    cases child with
    | object sides =>
      obtain ⟨_, err, hside, herr, rfl⟩ := seq_eq_good_iff.mp h
      obtain ⟨ok, hok, rfl⟩ := map_eq_good_iff.mp hside
      exact .fallible hform ((hnested _ (depth_side_lt hdepth _) _ _).mp hok)
        ((hnested _ (depth_side_lt hdepth _) _ _).mp herr)
    | _ => simp [referenceOfForm, fault] at h

theorem referenceOfForm_of_denotes {form : Form} (hform : HasForm v form child)
    (hnested : ∀ inner, inner.depth < v.depth → ∀ path ref,
      nested path inner = good ref ↔ Denotes inner ref)
    (h : Denotes v ref) : referenceOfForm nested path v form child = good ref := by
  have hdepth : child.depth < v.depth := depth_lt_of_get? hform.get?
  cases h with
  | unit => cases hform.get?
  | primitive hform' hp =>
    obtain ⟨rfl, rfl⟩ := hform.unique hform'
    exact (primitiveRef_eq_good_iff _).mpr ⟨_, hp, rfl⟩
  | object hform' hid howner hmut =>
    obtain ⟨rfl, rfl⟩ := hform.unique hform'
    exact objectRef_eq_good_iff.mpr ⟨_, _, _, hid, howner, hmut, rfl⟩
  | record hform' hid hbyRef =>
    obtain ⟨rfl, rfl⟩ := hform.unique hform'
    exact recordRef_eq_good_iff.mpr ⟨_, _, hid, hbyRef, rfl⟩
  | enumeration hform' hid =>
    obtain ⟨rfl, rfl⟩ := hform.unique hform'
    exact map_eq_good_iff.mpr ⟨_, (reads_asTypeId _ _ _).mpr hid, rfl⟩
  | slice hform' hview hmut =>
    obtain ⟨rfl, rfl⟩ := hform.unique hform'
    exact sliceRef_eq_good_iff.mpr ⟨_, _, hview, hmut, rfl⟩
  | writeable hform' =>
    obtain ⟨rfl, rfl⟩ := hform.unique hform'
    rfl
  | nullable hform' hinner =>
    obtain ⟨rfl, rfl⟩ := hform.unique hform'
    exact map_eq_good_iff.mpr ⟨_, (hnested child hdepth _ _).mpr hinner, rfl⟩
  | fallible hform' hok herr =>
    obtain ⟨rfl, rfl⟩ := hform.unique hform'
    have hok := fun path => (hnested _ (depth_side_lt hdepth _) path _).mpr hok
    have herr := fun path => (hnested _ (depth_side_lt hdepth _) path _).mpr herr
    simp only [referenceOfForm, hok, herr]
    rfl

theorem Denotes.unit_or_hasForm (h : Denotes v ref) :
    v = .null ∧ ref = .unit ∨ ∃ form child, HasForm v form child := by
  cases h with
  | unit => exact .inl ⟨rfl, rfl⟩
  | primitive form | object form | record form | enumeration form | slice form | writeable form
  | nullable form | fallible form => exact .inr ⟨_, _, form⟩

theorem referenceWith_eq_good_iff (hnested : ∀ inner, inner.depth < v.depth → ∀ path ref,
      nested path inner = good ref ↔ Denotes inner ref) :
    referenceWith nested path v = good ref ↔ Denotes v ref := by
  cases v with
  | null =>
    refine ⟨?_, fun h => ?_⟩
    · rintro ⟨⟩
      exact .unit
    · obtain ⟨-, rfl⟩ | ⟨_, _, hform⟩ := h.unit_or_hasForm
      · rfl
      · cases hform.get?
  | object members =>
    rw [referenceWith_object]
    cases hform : form? (.object members) with
    | none =>
      refine ⟨fun h => by simp [fault] at h, fun h => ?_⟩
      obtain ⟨hnull, -⟩ | ⟨_, _, hform'⟩ := h.unit_or_hasForm
      · cases hnull
      · cases hform.symm.trans hform'
    | some found =>
      exact ⟨denotes_of_referenceOfForm hform hnested, referenceOfForm_of_denotes hform hnested⟩
  | _ =>
    refine ⟨fun h => by simp [referenceWith, expected, fault] at h, fun h => ?_⟩
    obtain ⟨hnull, -⟩ | ⟨_, _, hform⟩ := h.unit_or_hasForm
    · cases hnull
    · cases hform.get?

end

/-- A node inside another one is less deep, so the bound is never what stops the reader. -/
theorem referenceAt_eq_good_iff (depth : Nat) (path : Path) (v : Json) (ref : TypeRef)
    (h : v.depth ≤ depth) : referenceAt depth path v = good ref ↔ Denotes v ref := by
  induction depth generalizing path v ref with
  | zero =>
    apply referenceWith_eq_good_iff
    intro inner hinner
    omega
  | succ depth ih =>
    apply referenceWith_eq_good_iff
    intro inner hinner path ref
    exact ih path inner ref (by omega)

theorem reads_reference : Reads reference Denotes := by
  intro path v ref
  exact referenceAt_eq_good_iff v.depth path v ref (Nat.le_refl _)

end Document

end Bindery
