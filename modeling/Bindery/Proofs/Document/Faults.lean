import Bindery.Proofs.Document.Faithful

/-!
Where the faults of a document are. A path is followed from a node step by step, and whatever a
reader reports about a node lies at a node below it: each reader is shown to report something where
it gives no value, and only faults whose path leads on from its own to a node that is there and
that the problem is true of.
-/

set_option autoImplicit false

namespace Bindery

namespace Document

namespace Checked

variable {α β : Type}

@[simp] theorem faults_seq (f : Checked (α → β)) (a : Checked α) :
    (f <*> a).faults = f.faults ++ a.faults := by
  cases f <;> cases a <;> simp [Seq.seq, both, faults]

@[simp] theorem faults_map (f : α → β) (a : Checked α) : (f <$> a).faults = a.faults :=
  faults_seq (good f) a

theorem faults_all (cs : List (Checked α)) : (all cs).faults = cs.flatMap faults := by
  induction cs with
  | nil => rfl
  | cons c cs ih =>
    have hcons : all (c :: cs) = List.cons <$> c <*> all cs := rfl
    rw [hcons, faults_seq, faults_map, ih, List.flatMap_cons]

end Checked

def child? (v : Json) : Step → Option Json
  | .key name => v.get? name
  | .index i =>
    match v with
    | .array items => items[i]?
    | _ => none

def follow? (v : Json) : Path → Option Json
  | [] => some v
  | step :: path => (child? v step).bind fun child => follow? child path

theorem follow?_cons {v child : Json} {step : Step} (h : child? v step = some child) (path : Path) :
    follow? v (step :: path) = follow? child path := by
  rw [follow?, h, Option.bind_some]

/-- A word of lower-case letters and underscores, as all keys are that readers ask for. -/
def IsWord (t : Text) : Prop := ∀ c ∈ t, Byte.isLower c = true ∨ c = Byte.underscore

instance (t : Text) : Decidable (IsWord t) := List.decidableBAll _ t

def Step.IsPlain : Step → Prop
  | key name => IsWord name
  | index _ => True

def Path.IsPlain (path : Path) : Prop := ∀ step ∈ path, step.IsPlain

/-- A problem that names something, a key or a word or a kind of value, names it after the node. -/
def Problem.IsTrueOf : Problem → Json → Prop
  | missingKey key, v => ∃ members, v = .object members ∧ members.lookup key = none
  | expected _ found, v => found = v.kindName
  | unknownPrimitive name, v => v = .string name
  | unknownKind name, v => v = .string name
  | unknownReceiver name, v => v = .string name
  | unknownView name, v => v = .string name
  | _, _ => True

/-- The fault of a reader at `path` lies at the node `v` or below it. -/
def Fault.Concerns (f : Fault) (path : Path) (v : Json) : Prop :=
  ∃ below node, f.path = path ++ below ∧ Path.IsPlain below ∧ follow? v below = some node ∧
    f.problem.IsTrueOf node

theorem Fault.Concerns.up {f : Fault} {path : Path} {step : Step} {v child : Json}
    (hstep : step.IsPlain) (hchild : child? v step = some child)
    (h : f.Concerns (path ++ [step]) child) : f.Concerns path v := by
  obtain ⟨below, node, hpath, hplain, hnode, htrue⟩ := h
  refine ⟨step :: below, node, by simpa using hpath, ?_, ?_, htrue⟩
  · exact List.forall_mem_cons.mpr ⟨hstep, hplain⟩
  · rw [follow?_cons hchild, hnode]

/-- What has been read at `path` from the node `v`: where it is bad there is a fault to report, and
every one concerns the node. -/
def Reports {α : Type} (path : Path) (v : Json) : Checked α → Prop
  | .good _ => True
  | .bad faults => faults ≠ [] ∧ ∀ f ∈ faults, f.Concerns path v

namespace Reports

open Checked

variable {α β : Type} {path : Path} {v child : Json}

theorem good (a : α) : Reports path v (.good a) := trivial

theorem fault {problem : Problem} (h : problem.IsTrueOf v) :
    Reports path v (Checked.fault path problem : Checked α) := by
  refine ⟨List.cons_ne_nil _ _, fun f hf => ?_⟩
  obtain rfl := List.mem_singleton.mp hf
  exact ⟨[], v, (List.append_nil path).symm, by simp [Path.IsPlain], rfl, h⟩

theorem expected (what : Text) : Reports path v (Document.expected path what v : Checked α) :=
  fault rfl

theorem seq {f : Checked (α → β)} {a : Checked α} (hf : Reports path v f)
    (ha : Reports path v a) : Reports path v (f <*> a) := by
  cases f with
  | good g =>
    cases a with
    | good x => trivial
    | bad fs => exact ha
  | bad fs =>
    cases a with
    | good x => exact hf
    | bad gs =>
      refine ⟨fun h => hf.1 (List.append_eq_nil_iff.mp h).1, fun f hmem => ?_⟩
      rcases List.mem_append.mp hmem with hmem | hmem
      · exact hf.2 f hmem
      · exact ha.2 f hmem

theorem map {a : Checked α} (f : α → β) (ha : Reports path v a) : Reports path v (f <$> a) :=
  seq (good f) ha

theorem andThen {a : Checked α} {f : α → Checked β} (ha : Reports path v a)
    (hf : ∀ x, a = .good x → Reports path v (f x)) : Reports path v (a.andThen f) := by
  cases a with
  | good x => exact hf x rfl
  | bad fs => exact ha

theorem all {cs : List (Checked α)} (h : ∀ c ∈ cs, Reports path v c) :
    Reports path v (Checked.all cs) := by
  induction cs with
  | nil => trivial
  | cons c cs ih =>
    rw [List.forall_mem_cons] at h
    exact seq (map List.cons h.1) (ih h.2)

theorem up {step : Step} {c : Checked α} (hstep : step.IsPlain)
    (hchild : child? v step = some child) (h : Reports (path ++ [step]) child c) :
    Reports path v c := by
  cases c with
  | good a => trivial
  | bad fs => exact ⟨h.1, fun f hf => (h.2 f hf).up hstep hchild⟩

theorem member {key : Text} {c : Checked α} (hkey : IsWord key)
    (hchild : v.get? key = some child) (h : Reports (path.at key) child c) : Reports path v c := by
  have hstep : (Step.key key).IsPlain := hkey
  exact up hstep hchild h

theorem element {items : List Json} {i : Nat} {c : Checked α} (hchild : items[i]? = some child)
    (h : Reports (path ++ [.index i]) child c) : Reports path (.array items) c := by
  have hstep : (Step.index i).IsPlain := trivial
  exact up hstep hchild h

theorem faults_eq_nil_iff {c : Checked α} (h : Reports path v c) :
    c.faults = [] ↔ ∃ a, c = .good a := by
  cases c with
  | good a => simp [faults]
  | bad fs => simpa [faults] using h.1

end Reports

section
variable {α : Type} {item : Path → Json → Checked α}

/-- At every path and node, a reader reports what concerns the node. -/
def Reporting (item : Path → Json → Checked α) : Prop := ∀ path v, Reports path v (item path v)

theorem reports_required (path : Path) (members : List (Text × Json)) (key : Text) :
    Reports path (.object members) (required path (.object members) key) := by
  rw [required]
  cases hget : (Json.object members).get? key with
  | some child => exact .good child
  | none => exact .fault ⟨members, rfl, hget⟩

theorem required_eq_good {path : Path} {v child : Json} {key : Text}
    (h : required path v key = .good child) :
    v.get? key = some child := by
  rw [required] at h
  cases hget : v.get? key with
  | some found =>
    rw [hget] at h
    cases h
    rfl
  | none => simp [hget, Checked.fault] at h

theorem Reporting.required (h : Reporting item) (key : Text) (hkey : IsWord key) (path : Path)
    (members : List (Text × Json)) :
    Reports path (.object members)
      ((Document.required path (.object members) key).andThen (item (path.at key))) := by
  refine (reports_required path members key).andThen fun child hchild => ?_
  exact .member hkey (required_eq_good hchild) (h (path.at key) child)

theorem Reporting.optional (h : Reporting item) (key : Text) (hkey : IsWord key) (path : Path)
    (v : Json) (fallback : α) :
    Reports path v
      (match v.get? key with
        | some child => item (path.at key) child
        | none => .good fallback) := by
  cases hget : v.get? key with
  | some child => exact .member hkey hget (h (path.at key) child)
  | none => exact .good fallback

theorem Reporting.list (h : Reporting item) : Reporting (asList item) := by
  intro path v
  cases v with
  | array items =>
    refine .all fun c hc => ?_
    obtain ⟨⟨v, i⟩, hmem, rfl⟩ := List.mem_map.mp hc
    have hchild : items[i]? = some v := by simpa using List.mem_zipIdx_iff_getElem?.mp hmem
    exact .element hchild (h (path ++ [.index i]) v)
  | _ => exact .expected "array"

theorem Reporting.optionalList (h : Reporting item) (key : Text) (hkey : IsWord key) (path : Path)
    (v : Json) :
    Reports path v (Document.optionalList item path v key) :=
  h.list.optional key hkey path v []

theorem Reporting.object
    (h : ∀ path members, Reports path (.object members) (item path (.object members))) :
    Reporting (asObject item) := by
  intro path v
  cases v with
  | object members => exact h path members
  | _ => exact .expected "object"

end

theorem reporting_asString : Reporting asString := by
  intro path v
  cases v with
  | string s => exact .good s
  | _ => exact .expected "string"

theorem reporting_asBool : Reporting asBool := by
  intro path v
  cases v with
  | bool b => exact .good b
  | _ => exact .expected "bool"

theorem reporting_asTypeId : Reporting asTypeId := by
  intro path v
  cases v with
  | number n =>
    rw [asTypeId]
    cases n.isInteger with
    | false => exact .expected "type id"
    | true =>
      rw [if_pos rfl]
      cases n.nat? with
      | none => exact .fault trivial
      | some id =>
        dsimp only
        split_ifs
        · exact .good id.toNat
        · exact .fault trivial
  | _ => exact .expected "type id"

theorem reporting_variantValue : Reporting variantValue := by
  intro path v
  cases v with
  | number n =>
    rw [variantValue]
    cases n.int? with
    | some i => exact .good i
    | none => exact .fault trivial
  | _ => exact .fault trivial

theorem reports_requiredString (key : Text) (hkey : IsWord key) (path : Path)
    (members : List (Text × Json)) :
    Reports path (.object members) (requiredString path (.object members) key) :=
  reporting_asString.required key hkey path members

theorem reports_requiredBool (key : Text) (hkey : IsWord key) (path : Path)
    (members : List (Text × Json)) :
    Reports path (.object members) (requiredBool path (.object members) key) :=
  reporting_asBool.required key hkey path members

theorem reports_optionalString (key : Text) (hkey : IsWord key) (path : Path) (v : Json)
    (fallback : Text) : Reports path v (optionalString path v key fallback) :=
  reporting_asString.optional key hkey path v fallback

theorem reports_optionalBool (key : Text) (hkey : IsWord key) (path : Path) (v : Json)
    (fallback : Bool) : Reports path v (optionalBool path v key fallback) :=
  reporting_asBool.optional key hkey path v fallback

section
variable {α : Type} {judge : Path → Text → Checked α}

/-- A word is judged at the node that holds it. -/
def Judging (judge : Path → Text → Checked α) : Prop :=
  ∀ path word, Reports path (.string word) (judge path word)

theorem Judging.member (h : Judging judge) {key : Text} (hkey : IsWord key) {path : Path} {v : Json}
    {word : Text} (hword : v.get? key = some (.string word)) :
    Reports path v (judge (path.at key) word) :=
  .member hkey hword (h (path.at key) word)

theorem Judging.required (h : Judging judge) (key : Text) (hkey : IsWord key) (path : Path)
    (members : List (Text × Json)) :
    Reports path (.object members)
      ((requiredString path (.object members) key).andThen (judge (path.at key))) := by
  refine (reports_requiredString key hkey path members).andThen fun word hword => ?_
  obtain ⟨child, hchild, rfl⟩ := (requiredString_eq_good_iff path _ key word).mp hword
  exact h.member hkey hchild

theorem Judging.optional (h : Judging judge) (key : Text) (hkey : IsWord key) (path : Path)
    (v : Json) (word : Text) {fallback : α} (hword : judge (path.at key) word = .good fallback) :
    Reports path v ((optionalString path v key word).andThen (judge (path.at key))) := by
  refine (reports_optionalString key hkey path v word).andThen fun found hfound => ?_
  rcases (optionalString_eq_good_iff path v key word found).mp hfound with h' | ⟨-, rfl⟩
  · obtain ⟨child, hchild, rfl⟩ := h'
    exact h.member hkey hchild
  · rw [hword]
    exact .good fallback

end

theorem judging_asPrimitive : Judging asPrimitive := by
  intro path word
  rw [asPrimitive]
  cases Primitive.ofName? word with
  | some p => exact .good p
  | none => exact .fault rfl

theorem judging_receiverOf : Judging receiverOf := by
  intro path word
  rw [receiverOf]
  split_ifs
  · exact .good _
  · exact .good _
  · exact .good _
  · exact .good _
  · exact .fault rfl

theorem judging_ownershipOf : Judging ownershipOf := by
  intro path word
  rw [ownershipOf]
  split_ifs
  · exact .good _
  · exact .good _
  · exact .fault trivial

theorem reporting_primitiveRef : Reporting primitiveRef := by
  intro path v
  cases v with
  | string name => exact .map _ (judging_asPrimitive path name)
  | _ => exact .fault trivial

section
variable {path : Path} {v child : Json}

theorem reports_objectRef (h : v.get? "opaque" = some child) :
    Reports path v (objectRef path v child) := by
  have hid : Reports path v (asTypeId (path.at "opaque") child) :=
    .member (by decide) h (reporting_asTypeId _ child)
  have hword := reports_optionalString "ownership" (by decide) path v "borrowed"
  have hmut := reports_optionalBool "mut" (by decide) path v false
  refine .seq (.seq (.seq (.map _ hid) hword) hmut) ?_
  have hjudged := judging_ownershipOf.optional "ownership" (by decide) path v
    "borrowed" rfl
  cases hread : optionalString path v "ownership" "borrowed" with
  | good word =>
    rw [hread] at hjudged
    exact hjudged
  | bad faults => exact .good _

theorem reports_recordRef (h : v.get? "struct" = some child) :
    Reports path v (recordRef path v child) :=
  .seq (.map _ (.member (by decide) h (reporting_asTypeId _ child)))
    (reports_optionalBool "by_ref" (by decide) path v false)

theorem reports_viewOf {members : List (Text × Json)} {name : Text}
    (h : (Json.object members).get? "slice" = some (.string name)) :
    Reports path (.object members) (viewOf path (.object members) name) := by
  rw [viewOf]
  split_ifs
  · exact .good _
  · exact .good _
  · exact .good _
  · exact .map _ (judging_asPrimitive.required "element" (by decide) path members)
  · exact .member (by decide) h (.fault rfl)

theorem reports_sliceRef {members : List (Text × Json)}
    (h : (Json.object members).get? "slice" = some child) :
    Reports path (.object members) (sliceRef path (.object members) child) := by
  cases child with
  | string name =>
    exact .seq (.map _ (reports_optionalBool "mut" (by decide) path _ false)) (reports_viewOf h)
  | _ => exact .member (by decide) h (.fault trivial)

/-- A side that is not there is null, in which there is no fault. -/
theorem reports_side {nested : Path → Json → Checked TypeRef} {sides : List (Text × Json)}
    {key : Text} (hkey : IsWord key) (hnull : ∀ path, nested path .null = .good .unit)
    (hnested : ∀ side, (Json.object sides).get? key = some side →
      ∀ path, Reports path side (nested path side)) :
    Reports path (.object sides)
      (nested (path.at key) (((Json.object sides).get? key).getD .null)) := by
  cases hget : (Json.object sides).get? key with
  | none =>
    rw [Option.getD_none, hnull]
    exact .good _
  | some side => exact .member hkey hget (hnested side hget _)

theorem reports_referenceOfForm {nested : Path → Json → Checked TypeRef}
    {members : List (Text × Json)} {form : Form} (hform : HasForm (.object members) form child)
    (hnull : ∀ path, nested path .null = .good .unit)
    (hnested : ∀ inner, inner.depth < (Json.object members).depth →
      ∀ path, Reports path inner (nested path inner)) :
    Reports path (.object members) (referenceOfForm nested path (.object members) form child) := by
  have hget := hform.get?
  have hdepth := depth_lt_of_get? hget
  cases form with
  | primitive => exact .member (by decide) hget (reporting_primitiveRef _ child)
  | object => exact reports_objectRef hget
  | record => exact reports_recordRef hget
  | enumeration =>
    exact .map _ (.member (by decide) hget (reporting_asTypeId _ child))
  | slice => exact reports_sliceRef hget
  | writeable => exact .good _
  | nullable => exact .map _ (.member (by decide) hget (hnested child hdepth _))
  | fallible =>
    cases child with
    | object sides =>
      have hside : ∀ key side, (Json.object sides).get? key = some side →
          ∀ path, Reports path side (nested path side) := fun key side hside =>
        hnested side (Nat.lt_trans (depth_lt_of_get? hside) hdepth)
      refine .member (by decide) hget (.seq (.map _ ?_) ?_)
      · exact reports_side (by decide) hnull (hside "ok")
      · exact reports_side (by decide) hnull (hside "err")
    | _ => exact .member (by decide) hget (.fault trivial)

end

theorem referenceAt_null (depth : Nat) (path : Path) :
    referenceAt depth path .null = .good .unit := by
  cases depth <;> rfl

theorem reports_referenceAt (depth : Nat) (path : Path) (v : Json) (h : v.depth ≤ depth) :
    Reports path v (referenceAt depth path v) := by
  induction depth generalizing path v with
  | zero =>
    cases v with
    | null => exact .good _
    | object members => simp [Json.depth] at h
    | _ => exact .expected "type reference"
  | succ depth ih =>
    cases v with
    | null => exact .good _
    | object members =>
      rw [referenceAt, referenceWith_object]
      cases hform : form? (.object members) with
      | none => exact .fault trivial
      | some found =>
        refine reports_referenceOfForm hform (referenceAt_null depth) fun inner hinner path => ?_
        exact ih path inner (by omega)
    | _ => exact .expected "type reference"

theorem reporting_reference : Reporting reference := fun path v =>
  reports_referenceAt v.depth path v (Nat.le_refl _)

theorem reporting_featureList (path : Path) (items vs : List Json) :
    Reports path (.array items) (featureList path vs) := by
  induction vs with
  | nil => exact .good []
  | cons v vs ih =>
    cases v with
    | string s => exact .map _ ih
    | _ => exact .fault trivial

theorem reports_features (path : Path) (v : Json) : Reports path v (features path v) := by
  rw [features]
  cases hget : v.get? "features" with
  | none => exact .good []
  | some child =>
    refine .member (by decide) hget ?_
    cases child with
    | array items => exact reporting_featureList _ items items
    | _ => exact .fault trivial

theorem reporting_rule : Reporting rule :=
  .object fun path members =>
    .seq (.seq (.map _ (reports_requiredString "backend" (by decide) path members))
      (reports_requiredBool "enabled" (by decide) path members)) (reports_features path _)

theorem reports_rules (path : Path) (v : Json) : Reports path v (rules path v) :=
  reporting_rule.optionalList "attrs" (by decide) path v

theorem reporting_param : Reporting param :=
  .object fun path members =>
    .seq (.map _ (reports_requiredString "name" (by decide) path members))
      (reporting_reference.required "type" (by decide) path members)

theorem reports_returns (path : Path) (v : Json) : Reports path v (returns path v) :=
  reporting_reference.optional "returns" (by decide) path v .unit

theorem reporting_method : Reporting method := by
  refine .object fun path members => ?_
  have hname := reports_requiredString "name" (by decide) path members
  have hdocs := reports_optionalString "docs" (by decide) path (.object members) ""
  have hself := judging_receiverOf.optional "self" (by decide) path (.object members)
    "" rfl
  have hparams := reporting_param.optionalList "params" (by decide) path (.object members)
  exact .seq (.seq (.seq (.seq (.seq (.map _ hname) hdocs) (reports_rules path _)) hself) hparams)
    (reports_returns path _)

theorem reports_methods (path : Path) (v : Json) : Reports path v (methods path v) :=
  reporting_method.optionalList "methods" (by decide) path v

theorem reporting_recordField : Reporting recordField :=
  .object fun path members =>
    .seq (.seq (.map _ (reports_requiredString "name" (by decide) path members))
      (reports_optionalString "docs" (by decide) path _ ""))
      (reporting_reference.required "type" (by decide) path members)

theorem reporting_variant : Reporting variant :=
  .object fun path members =>
    .seq (.seq (.map _ (reports_requiredString "name" (by decide) path members))
      (reports_optionalString "docs" (by decide) path _ ""))
      (reporting_variantValue.required "value" (by decide) path members)

theorem reports_shapeOf {path : Path} {members : List (Text × Json)} {kind : Text}
    (h : (Json.object members).get? "kind" = some (.string kind)) :
    Reports path (.object members) (shapeOf path (.object members) kind) := by
  rw [shapeOf]
  split_ifs
  · exact .map _ (reports_methods path _)
  · exact .seq (.map _ (reporting_recordField.optionalList "fields" (by decide) path _))
      (reports_methods path _)
  · exact .map _ (reporting_variant.list.required "variants" (by decide) path members)
  · exact .map _ (judging_asPrimitive.required "primitive" (by decide) path members)
  · exact .member (by decide) h (.fault rfl)

theorem reporting_typeDef : Reporting typeDef := by
  refine .object fun path members => ?_
  have hid := reporting_asTypeId.required "id" (by decide) path members
  have hname := reports_requiredString "name" (by decide) path members
  have hdocs := reports_optionalString "docs" (by decide) path (.object members) ""
  refine .seq (.seq (.seq (.seq (.map _ hid) hname) hdocs) (reports_rules path _)) ?_
  refine (reports_requiredString "kind" (by decide) path members).andThen fun kind hkind => ?_
  obtain ⟨child, hchild, rfl⟩ := (requiredString_eq_good_iff path _ "kind" kind).mp hkind
  exact reports_shapeOf hchild

theorem reports_root (v : Json) : Reports [] v (root v) := by
  cases v with
  | object members =>
    exact .seq (.map _ (reports_optionalString "library" (by decide) [] _ ""))
      (reporting_typeDef.list.required "types" (by decide) [] members)
  | _ => exact .fault trivial

end Document

end Bindery
