import Bindery.Proofs.Document.Faults

/-!
How type references are written. The encoding is a relation, since keys with a default value may be
left out; every reference that can be written is read back from each of its encodings, and no
encoding is read that has something else than an id where an id belongs.
-/

set_option autoImplicit false

namespace Bindery

namespace Document

/-- The members for a key that may be left out where its value is the default. -/
inductive Optionally (key : Text) (value : Json) (isDefault : Prop) : List (Text × Json) → Prop
  | present : Optionally key value isDefault [(key, value)]
  | omitted (h : isDefault) : Optionally key value isDefault []

/-- Views of text come with the element they have anyway. -/
def elementOf : View → Primitive
  | .scalars p => p
  | .utf8 => .u8
  | .utf16 => .u16
  | .strings => .u8

/-- The encodings of a reference, with `spells` for what may stand where an id belongs. The order in
which the members of an object are written does not count. -/
inductive Encodes (spells : TypeId → Json → Prop) : TypeRef → Json → Prop
  | unit : Encodes spells .unit .null
  | primitive (p : Primitive) :
      Encodes spells (.primitive p) (.ofMembers [("primitive", .string p.name)])
  | object {id : TypeId} {ownership : Ownership} {isMutable : Bool} {number : Json}
      {owner mutability : List (Text × Json)} (hid : spells id number)
      (howner : Optionally "ownership" (.string (ownershipWord ownership)) (ownership = .borrowed)
        owner)
      (hmut : Optionally "mut" (.bool isMutable) (isMutable = false) mutability) :
      Encodes spells (.object id ownership isMutable)
        (.ofMembers (("opaque", number) :: (owner ++ mutability)))
  | record {id : TypeId} {byRef : Bool} {number : Json} {passing : List (Text × Json)}
      (hid : spells id number)
      (hpassing : Optionally "by_ref" (.bool byRef) (byRef = false) passing) :
      Encodes spells (.record id byRef) (.ofMembers (("struct", number) :: passing))
  | enumeration {id : TypeId} {number : Json} (hid : spells id number) :
      Encodes spells (.enumeration id) (.ofMembers [("enum", number)])
  | slice {view : View} {isMutable : Bool} {element mutability : List (Text × Json)}
      (helement : Optionally "element" (.string (elementOf view).name)
        (∀ p, view ≠ .scalars p) element)
      (hmut : Optionally "mut" (.bool isMutable) (isMutable = false) mutability) :
      Encodes spells (.slice view isMutable)
        (.ofMembers (("slice", .string (viewWord view)) :: (element ++ mutability)))
  | writeable : Encodes spells .writeable (.ofMembers [("writeable", .bool true)])
  | nullable {inner : TypeRef} {v : Json} (hinner : Encodes spells inner v) :
      Encodes spells (.nullable inner) (.ofMembers [("nullable", v)])
  | fallible {ok err : TypeRef} {vok verr : Json} {success failure : List (Text × Json)}
      (hok : Encodes spells ok vok) (herr : Encodes spells err verr)
      (hsuccess : Optionally "ok" vok (ok = .unit) success)
      (hfailure : Optionally "err" verr (err = .unit) failure) :
      Encodes spells (.fallible ok err) (.ofMembers [("fallible", .ofMembers (success ++ failure))])

def IsNumeral (id : TypeId) (v : Json) : Prop := ∃ n, v = .number n ∧ n.integer? = some (id : Int)

def InRange (id : TypeId) : Prop := 0 < id ∧ id ≤ 4294967295

section
variable {α : Type} {R : Json → α → Prop} {key : Text} {value v : Json} {x fallback : α}
  {found : List (Text × Json)}

theorem Optionally.saysOr (h : Optionally key value (x = fallback) found) (hvalue : R value x)
    (hget : v.get? key = found.lookup key) : SaysOr R v key fallback x := by
  cases h with
  | present => exact .inl ⟨value, by simpa using hget, hvalue⟩
  | omitted hx => exact .inr ⟨hget, hx⟩

end

theorem Optionally.side {key : Text} {value : Json} {ref : TypeRef} {found : List (Text × Json)}
    (h : Optionally key value (ref = .unit) found) (hvalue : Denotes value ref) :
    Denotes ((found.lookup key).getD .null) ref := by
  cases h with
  | present => simpa using hvalue
  | omitted href =>
    rw [href]
    exact .unit

theorem IsNumeral.isId {id : TypeId} {v : Json} (h : IsNumeral id v) (hrange : InRange id) :
    IsId v id := by
  obtain ⟨n, rfl, hn⟩ := h
  exact ⟨n, rfl, hn, hrange⟩

theorem Encodes.denotes {r : TypeRef} {v : Json} (h : Encodes IsNumeral r v)
    (hids : ∀ id ∈ r.ids, InRange id) : Denotes v r := by
  -- Whichever of the keys are there, their names are known, so a look-up can be computed.
  induction h with
  | unit => exact .unit
  | primitive p => exact .primitive rfl rfl
  | object hid howner hmut =>
    refine .object ?_ (hid.isId (hids _ (List.mem_singleton_self _))) (howner.saysOr rfl ?_)
      (hmut.saysOr rfl ?_)
    all_goals cases howner <;> cases hmut <;> rfl
  | record hid hpassing =>
    refine .record ?_ (hid.isId (hids _ (List.mem_singleton_self _))) (hpassing.saysOr rfl ?_)
    all_goals cases hpassing <;> rfl
  | enumeration hid => exact .enumeration rfl (hid.isId (hids _ (List.mem_singleton_self _)))
  | slice helement hmut =>
    refine .slice ?_ ⟨rfl, fun p hp => ?_⟩ (hmut.saysOr rfl ?_)
    · cases helement <;> cases hmut <;> rfl
    · subst hp
      cases helement with
      | present => exact ⟨_, by cases hmut <;> rfl, rfl⟩
      | omitted hne => exact absurd rfl (hne p)
    · cases helement <;> cases hmut <;> rfl
  | writeable => exact .writeable rfl
  | nullable _ ih => exact .nullable rfl (ih hids)
  | fallible _ _ hsuccess hfailure ihok iherr =>
    have hok := hsuccess.side (ihok fun id hid => hids id (List.mem_append_left _ hid))
    have herr := hfailure.side (iherr fun id hid => hids id (List.mem_append_right _ hid))
    refine .fallible rfl ?_ ?_
    · cases hsuccess <;> cases hfailure <;> exact hok
    · cases hsuccess <;> cases hfailure <;> exact herr

def numeral (id : TypeId) : Json := .number (.int (Int64.ofNat id))

theorem isNumeral_numeral {id : TypeId} (h : InRange id) : IsNumeral id (numeral id) := by
  have hlt : id < 2 ^ 63 := Nat.lt_of_le_of_lt h.2 (by decide)
  exact ⟨_, rfl, congrArg some (Int64.toInt_ofNat_of_lt hlt)⟩

def written : TypeRef → Json
  | .unit => .null
  | .primitive p => .ofMembers [("primitive", .string p.name)]
  | .object id ownership isMutable =>
    .ofMembers [("opaque", numeral id), ("ownership", .string (ownershipWord ownership)),
      ("mut", .bool isMutable)]
  | .record id byRef => .ofMembers [("struct", numeral id), ("by_ref", .bool byRef)]
  | .enumeration id => .ofMembers [("enum", numeral id)]
  | .slice view isMutable =>
    .ofMembers [("slice", .string (viewWord view)), ("element", .string (elementOf view).name),
      ("mut", .bool isMutable)]
  | .writeable => .ofMembers [("writeable", .bool true)]
  | .nullable inner => .ofMembers [("nullable", written inner)]
  | .fallible ok err =>
    .ofMembers [("fallible", .ofMembers [("ok", written ok), ("err", written err)])]

theorem encodes_written (r : TypeRef) (hids : ∀ id ∈ r.ids, InRange id) :
    Encodes IsNumeral r (written r) := by
  induction r with
  | unit => exact .unit
  | primitive p => exact .primitive p
  | object id ownership isMutable =>
    have hid := isNumeral_numeral (hids id (List.mem_singleton_self id))
    exact .object hid .present .present
  | record id byRef =>
    have hid := isNumeral_numeral (hids id (List.mem_singleton_self id))
    exact .record hid .present
  | enumeration id =>
    have hid := isNumeral_numeral (hids id (List.mem_singleton_self id))
    exact .enumeration hid
  | slice view isMutable => exact .slice .present .present
  | writeable => exact .writeable
  | nullable inner ih => exact .nullable (ih hids)
  | fallible ok err ihok iherr =>
    have hok := ihok fun id hid => hids id (List.mem_append_left _ hid)
    have herr := iherr fun id hid => hids id (List.mem_append_right _ hid)
    exact .fallible hok herr .present .present

/-- The nodes that are read as ids, with their paths. -/
inductive IdAt : Json → Path → Json → Prop
  | object {v node : Json} (form : HasForm v .object node) : IdAt v [.key "opaque"] node
  | record {v node : Json} (form : HasForm v .record node) : IdAt v [.key "struct"] node
  | enumeration {v node : Json} (form : HasForm v .enumeration node) : IdAt v [.key "enum"] node
  | nullable {v inner node : Json} {path : Path} (form : HasForm v .nullable inner)
      (inside : IdAt inner path node) : IdAt v (.key "nullable" :: path) node
  | ok {v inner node : Json} {sides : List (Text × Json)} {path : Path}
      (form : HasForm v .fallible (.object sides))
      (side : (Json.object sides).get? "ok" = some inner) (inside : IdAt inner path node) :
      IdAt v (.key "fallible" :: .key "ok" :: path) node
  | err {v inner node : Json} {sides : List (Text × Json)} {path : Path}
      (form : HasForm v .fallible (.object sides))
      (side : (Json.object sides).get? "err" = some inner) (inside : IdAt inner path node) :
      IdAt v (.key "fallible" :: .key "err" :: path) node

inductive RefusedId : Json → Prop
  | notNumber {v : Json} (h : ∀ n, v ≠ .number n) : RefusedId v
  | notInteger {n : Number} (h : n.integer? = none) : RefusedId (.number n)
  | notPositive {n : Number} {i : Int} (h : n.integer? = some i) (hi : i ≤ 0) :
      RefusedId (.number n)
  | tooLarge {n : Number} {i : Int} (h : n.integer? = some i) (hi : 4294967295 < i) :
      RefusedId (.number n)

theorem RefusedId.not_isId {v : Json} (h : RefusedId v) (id : Nat) : ¬IsId v id := by
  rintro ⟨n, rfl, hn, hrange⟩
  have hpos : 0 < id := hrange.1
  have hle : id ≤ 4294967295 := hrange.2
  cases h with
  | notNumber h => exact h n rfl
  | notInteger h => simp [h] at hn
  | notPositive h hi =>
    obtain rfl : _ = (id : Int) := Option.some_inj.mp (h.symm.trans hn)
    omega
  | tooLarge h hi =>
    obtain rfl : _ = (id : Int) := Option.some_inj.mp (h.symm.trans hn)
    omega

theorem asTypeId_cases (path : Path) (v : Json) :
    (∃ id, asTypeId path v = .good id) ∨ ∃ problem, asTypeId path v = .fault path problem := by
  cases v with
  | number n =>
    rw [asTypeId]
    split_ifs
    · split
      · split_ifs
        · exact .inl ⟨_, rfl⟩
        · exact .inr ⟨_, rfl⟩
      · exact .inr ⟨_, rfl⟩
    · exact .inr ⟨_, rfl⟩
  | _ => exact .inr ⟨_, rfl⟩

theorem RefusedId.mem_faults {v : Json} (h : RefusedId v) (path : Path) :
    ∃ f ∈ (asTypeId path v).faults, f.path = path := by
  rcases asTypeId_cases path v with ⟨id, hread⟩ | ⟨problem, hread⟩
  · exact absurd ((reads_asTypeId path v id).mp hread) (h.not_isId id)
  · rw [hread]
    exact ⟨_, List.mem_singleton_self _, rfl⟩

/-- A node of a form is read by the reader of that form, which has depth left for what is inside. -/
theorem HasForm.mem_faults {v child : Json} {form : Form} (h : HasForm v form child)
    {depth : Nat} (hdepth : v.depth ≤ depth) (path : Path) {P : Fault → Prop}
    (hinside : ∀ left, child.depth ≤ left →
      ∃ f ∈ (referenceOfForm (referenceAt left) path v form child).faults, P f) :
    ∃ f ∈ (referenceAt depth path v).faults, P f := by
  have hchild := depth_lt_of_get? h.get?
  cases depth with
  | zero => omega
  | succ left =>
    cases v with
    | object members =>
      rw [HasForm] at h
      rw [referenceAt, referenceWith_object, h]
      exact hinside left (by omega)
    | _ => cases h.get?

theorem IdAt.mem_faults {v node : Json} {below : Path} (h : IdAt v below node)
    (hnode : RefusedId node) (path : Path) (depth : Nat) (hdepth : v.depth ≤ depth) :
    ∃ f ∈ (referenceAt depth path v).faults, f.path = path ++ below := by
  induction h generalizing path depth with
  | object form =>
    refine form.mem_faults hdepth path fun left _ => ?_
    obtain ⟨f, hf, hpath⟩ := hnode.mem_faults (path.at "opaque")
    exact ⟨f, by simp [referenceOfForm, objectRef, hf], hpath⟩
  | record form =>
    refine form.mem_faults hdepth path fun left _ => ?_
    obtain ⟨f, hf, hpath⟩ := hnode.mem_faults (path.at "struct")
    exact ⟨f, by simp [referenceOfForm, recordRef, hf], hpath⟩
  | enumeration form =>
    refine form.mem_faults hdepth path fun left _ => ?_
    obtain ⟨f, hf, hpath⟩ := hnode.mem_faults (path.at "enum")
    exact ⟨f, by simp [referenceOfForm, hf], hpath⟩
  | nullable form _ ih =>
    refine form.mem_faults hdepth path fun left hleft => ?_
    obtain ⟨f, hf, hpath⟩ := ih hnode (path.at "nullable") left hleft
    exact ⟨f, by simpa [referenceOfForm] using hf, by simpa [Path.at] using hpath⟩
  | ok form side _ ih =>
    refine form.mem_faults hdepth path fun left hleft => ?_
    have hside := depth_lt_of_get? side
    obtain ⟨f, hf, hpath⟩ := ih hnode ((path.at "fallible").at "ok") left (by omega)
    exact ⟨f, by simp [referenceOfForm, side, hf], by simpa [Path.at] using hpath⟩
  | err form side _ ih =>
    refine form.mem_faults hdepth path fun left hleft => ?_
    have hside := depth_lt_of_get? side
    obtain ⟨f, hf, hpath⟩ := ih hnode ((path.at "fallible").at "err") left (by omega)
    exact ⟨f, by simp [referenceOfForm, side, hf], by simpa [Path.at] using hpath⟩

theorem Encodes.idAt {spells : TypeId → Json → Prop} {r : TypeRef} {v : Json}
    (h : Encodes spells r v) {id : TypeId} (hid : id ∈ r.ids) :
    ∃ path node, IdAt v path node ∧ spells id node := by
  induction h with
  | unit => cases hid
  | primitive p => cases hid
  | object hnumber howner hmut =>
    obtain rfl := List.mem_singleton.mp hid
    exact ⟨_, _, .object (by cases howner <;> cases hmut <;> rfl), hnumber⟩
  | record hnumber hpassing =>
    obtain rfl := List.mem_singleton.mp hid
    exact ⟨_, _, .record (by cases hpassing <;> rfl), hnumber⟩
  | enumeration hnumber =>
    obtain rfl := List.mem_singleton.mp hid
    exact ⟨_, _, .enumeration rfl, hnumber⟩
  | slice helement hmut => cases hid
  | writeable => cases hid
  | nullable _ ih =>
    obtain ⟨path, node, hat, hnode⟩ := ih hid
    exact ⟨_, node, .nullable rfl hat, hnode⟩
  | fallible _ _ hsuccess hfailure ihok iherr =>
    rcases List.mem_append.mp hid with hid | hid
    · obtain ⟨path, node, hat, hnode⟩ := ihok hid
      cases hsuccess with
      | omitted hunit => simp [hunit, TypeRef.ids] at hid
      | present => exact ⟨_, node, .ok rfl (by cases hfailure <;> rfl) hat, hnode⟩
    · obtain ⟨path, node, hat, hnode⟩ := iherr hid
      cases hfailure with
      | omitted hunit => simp [hunit, TypeRef.ids] at hid
      | present => exact ⟨_, node, .err rfl (by cases hsuccess <;> rfl) hat, hnode⟩

theorem reference_of_idAt {v node : Json} {below : Path} (h : IdAt v below node)
    (hnode : RefusedId node) (path : Path) :
    ∃ faults, reference path v = .bad faults ∧ ∃ f ∈ faults, f.path = path ++ below := by
  obtain ⟨f, hf, hpath⟩ := h.mem_faults hnode path v.depth (Nat.le_refl _)
  rw [reference]
  cases hread : referenceAt v.depth path v with
  | good r => simp [hread, Checked.faults] at hf
  | bad faults =>
    rw [hread] at hf
    exact ⟨faults, rfl, f, hf, hpath⟩

/-- A reference whose ids are in range can be written, and every encoding of it is read as that
reference. Where an encoding has an id, in whatever depth, nothing but an id in range is read. -/
theorem reference_encodings :
    (∀ r : TypeRef, (∀ id ∈ r.ids, InRange id) → (∃ v, Encodes IsNumeral r v) ∧
      ∀ v, Encodes IsNumeral r v → ∀ path, reference path v = .good r) ∧
    (∀ (spells : TypeId → Json → Prop) (r : TypeRef) (v : Json), Encodes spells r v →
      ∀ id ∈ r.ids, ∃ below node, IdAt v below node ∧ spells id node) ∧
    ∀ (v node : Json) (below : Path), IdAt v below node → RefusedId node → ∀ path,
      ∃ faults, reference path v = .bad faults ∧ ∃ f ∈ faults, f.path = path ++ below := by
  refine ⟨fun r hids => ⟨⟨written r, encodes_written r hids⟩, fun v hv path => ?_⟩, ?_, ?_⟩
  · exact (reads_reference path v r).mpr (hv.denotes hids)
  · intro spells r v hv id hid
    exact hv.idAt hid
  · intro v node below hat hnode path
    exact reference_of_idAt hat hnode path

def pointerOr (id : Json) : Json :=
  .ofMembers [("fallible", .ofMembers [("ok", .ofMembers [("nullable",
    .ofMembers [("opaque", id), ("mut", .bool true)])])])]

theorem reference_encodings_pointer :
    (∀ id ∈ (TypeRef.fallible (.nullable (.object 7 .borrowed true)) .unit).ids, InRange id) ∧
    (∀ path, reference path (pointerOr (numeral 7)) =
      .good (.fallible (.nullable (.object 7 .borrowed true)) .unit)) ∧
    RefusedId (numeral 0) ∧ RefusedId (.string "7") ∧
    ∀ node, RefusedId node → ∃ faults, reference [] (pointerOr node) = .bad faults ∧
      ∃ f ∈ faults, f.path = [.key "fallible", .key "ok", .key "nullable", .key "opaque"] := by
  obtain ⟨hread, -, hrefused⟩ := reference_encodings
  have hids : ∀ id ∈ (TypeRef.fallible (.nullable (.object 7 .borrowed true)) .unit).ids,
      InRange id := by
    intro id hid
    obtain rfl : id = 7 := by simpa [TypeRef.ids] using hid
    exact ⟨by decide, by decide⟩
  have hwritten : Encodes IsNumeral (.fallible (.nullable (.object 7 .borrowed true)) .unit)
      (pointerOr (numeral 7)) :=
    .fallible (.nullable (.object ⟨_, rfl, rfl⟩ (.omitted rfl) .present)) .unit .present
      (.omitted rfl)
  refine ⟨hids, (hread _ hids).2 _ hwritten, .notPositive rfl (by decide),
    .notNumber fun n => nofun, fun node hnode => ?_⟩
  have hat : IdAt (pointerOr node) [.key "fallible", .key "ok", .key "nullable", .key "opaque"]
      node := .ok rfl rfl (.nullable rfl (.object rfl))
  exact hrefused _ node _ hat hnode []

end Document

end Bindery
