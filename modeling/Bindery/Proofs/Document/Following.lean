import Bindery.Proofs.Document.Faults
import Bindery.Proofs.Document.Walk

/-!
A walk follows the readers of the parts. Whatever has been reported before, it adds to the list
exactly the faults of what it reads, and where there are none its value is the one that is read.
Since it adds nothing else, comparing the lengths of the list before and after a definition tells
whether the definition can be read, and earlier faults have no part in it.
-/

set_option autoImplicit false

namespace Bindery.Document

open Checked

namespace Checked

variable {α β γ : Type}

def value? : Checked α → Option α
  | good a => some a
  | bad _ => none

theorem value?_eq_some_iff {c : Checked α} {a : α} : c.value? = some a ↔ c = good a := by
  cases c <;> simp [value?]

instance : LawfulApplicative Checked where
  seqLeft_eq _ _ := rfl
  seqRight_eq _ _ := rfl
  pure_seq _ _ := rfl
  map_pure _ _ := rfl
  seq_pure c _ := by cases c <;> rfl
  map_const := rfl
  id_map c := by cases c <;> rfl
  comp_map _ _ c := by cases c <;> rfl
  seq_assoc c f g := by cases c <;> cases f <;> cases g <;> simp [Functor.map, Seq.seq, both]

theorem map_andThen (f : β → γ) (c : Checked α) (g : α → Checked β) :
    f <$> c.andThen g = c.andThen fun a => f <$> g a := by
  cases c <;> rfl

end Checked

namespace Walk

variable {α β : Type}

/-- From any list on, the reader gives `a` and adds `fs` to the list. -/
def Gives (w : Walk α) (a : α) (fs : List Fault) : Prop :=
  ∀ es, w.run es = Pure.pure (a, es ++ fs)

theorem Gives.pure (a : α) : Gives (Pure.pure a) a [] := fun es =>
  congrArg (Prod.mk a) (List.append_nil es).symm

theorem Gives.bind {w : Walk α} {k : α → Walk β} {a : α} {b : β} {fs gs : List Fault}
    (hw : Gives w a fs) (hk : Gives (k a) b gs) : Gives (w >>= k) b (fs ++ gs) := by
  intro es
  rw [StateT.run_bind, hw, pure_bind, hk, List.append_assoc]

theorem Gives.giveBack {w : Walk (Option α)} {a : Option α} {fs : List Fault} (h : Gives w a fs)
    (f : α → Option β) : Gives (Walk.andThen w fun a => return f a) (a.bind f) fs := by
  rw [← List.append_nil fs]
  cases a with
  | some a => exact Gives.bind h (.pure (f a))
  | none => exact Gives.bind h (.pure none)

/-- The reader adds the faults of `c`, and gives its value if there are none. -/
def Follows (w : Walk α) (c : Checked α) : Prop :=
  ∃ a, Gives w a c.faults ∧ ∀ b, c = good b → a = b

/-- The reader adds the faults of `c`, and gives its value or nothing. -/
def Mirrors (w : Walk (Option α)) (c : Checked α) : Prop := Gives w c.value? c.faults

namespace Follows

theorem of_gives {w : Walk α} {a : α} {fs : List Fault} {c : Checked α} (h : Gives w a fs)
    (hfaults : c.faults = fs) (hvalue : ∀ b, c = good b → a = b) : Follows w c :=
  ⟨a, hfaults ▸ h, hvalue⟩

/-- Whatever a reader gives will do where something has been reported. -/
theorem of_bad {w : Walk α} (a : α) {fs : List Fault} (h : Gives w a fs) : Follows w (bad fs) :=
  .of_gives h rfl fun b hb => by cases hb

theorem pure (a : α) : Follows (Pure.pure a) (good a) :=
  ⟨a, .pure a, fun _ h => good.inj h⟩

theorem map (f : α → β) {w : Walk α} {c : Checked α} (h : Follows w c) :
    Follows (f <$> w) (f <$> c) := by
  obtain ⟨a, hw, ha⟩ := h
  refine ⟨f a, ?_, fun b hb => ?_⟩
  · intro es
    rw [faults_map]
    exact congrArg (fun p : α × List Fault => (f p.1, p.2)) (hw es)
  · obtain ⟨x, hx, rfl⟩ := map_eq_good_iff.mp hb
    rw [ha x hx]

/-- What is read next may depend on the value, but not whether it can be read. -/
theorem bind {γ : Type} {w : Walk α} {k : α → Walk γ} {c : Checked α} {d : Checked β}
    {f : α → β → γ} (hw : Follows w c) (hk : ∀ a, Follows (k a) (f a <$> d)) :
    Follows (w >>= k) (f <$> c <*> d) := by
  obtain ⟨a, hw, ha⟩ := hw
  obtain ⟨y, hk, hy⟩ := hk a
  refine ⟨y, ?_, fun z hz => ?_⟩
  · rw [faults_map] at hk
    rw [faults_seq, faults_map]
    exact hw.bind hk
  · obtain ⟨_, x, hf, rfl, rfl⟩ := seq_eq_good_iff.mp hz
    obtain ⟨b, hb, rfl⟩ := map_eq_good_iff.mp hf
    rw [ha b hb] at hy
    exact hy _ rfl

theorem bindSome {γ : Type} {w : Walk α} {k : α → Walk (Option γ)} {c : Checked α}
    {d : Checked β} {f : α → β → γ} (hw : Follows w c)
    (hk : ∀ a, Follows (k a) (some <$> (f a <$> d))) :
    Follows (w >>= k) (some <$> (f <$> c <*> d)) := by
  simp only [functor_norm] at hk ⊢
  exact hw.bind hk

theorem seq {w : Walk (α → β)} {w' : Walk α} {c : Checked (α → β)} {c' : Checked α}
    (h : Follows w c) (h' : Follows w' c') : Follows (w <*> w') (c <*> c') := by
  have hbind := h.bind fun f => h'.map f
  rwa [id_map'] at hbind

theorem andThenMap {w : Walk (Option α)} {c : Checked α} (f : α → β)
    (h : Follows w (some <$> c)) :
    Follows (Walk.andThen w fun a => return some (f a)) (some <$> (f <$> c)) := by
  obtain ⟨found, hgives, hfound⟩ := h
  refine .of_gives (hgives.giveBack fun a => some (f a)) (by simp) fun b hb => ?_
  obtain ⟨_, hc, rfl⟩ := map_eq_good_iff.mp hb
  obtain ⟨a, rfl, rfl⟩ := map_eq_good_iff.mp hc
  rw [hfound (some a) rfl]
  rfl

end Follows

namespace Mirrors

variable {w : Walk (Option α)} {c : Checked α}

theorem pure (a : α) : Mirrors (Pure.pure (some a)) (good a) := Gives.pure (some a)

theorem reject (path : Path) (problem : Problem) :
    Mirrors (Walk.reject path problem : Walk (Option α)) (fault path problem) := fun _ => rfl

theorem follows (h : Mirrors w c) : Follows w (some <$> c) := by
  refine ⟨c.value?, ?_, fun b hb => ?_⟩
  · rw [faults_map]
    exact h
  · obtain ⟨a, ha, rfl⟩ := map_eq_good_iff.mp hb
    exact value?_eq_some_iff.mpr ha

theorem andThen {k : α → Walk (Option β)} {f : α → Checked β} (h : Mirrors w c)
    (hk : ∀ a, Mirrors (k a) (f a)) : Mirrors (Walk.andThen w k) (c.andThen f) := by
  cases c with
  | good a => exact Gives.bind h (hk a)
  | bad fs =>
    rw [Checked.andThen, Mirrors, faults, ← List.append_nil fs]
    exact Gives.bind h (.pure none)

theorem map (f : α → β) (h : Mirrors w c) :
    Mirrors (Walk.andThen w fun a => return some (f a)) (f <$> c) := by
  have hthen := h.andThen fun a => pure (f a)
  cases c <;> exact hthen

theorem andThen_follows {k : α → Walk (Option β)} {f : α → Checked β} (h : Mirrors w c)
    (hk : ∀ a, c = good a → Follows (k a) (some <$> f a)) :
    Follows (Walk.andThen w k) (some <$> c.andThen f) := by
  cases c with
  | good a =>
    obtain ⟨b, hgives, hb⟩ := hk a rfl
    exact ⟨b, Gives.bind h hgives, hb⟩
  | bad fs =>
    have hgives : Gives (Walk.andThen w k) none _ := Gives.bind h (.pure none)
    rw [List.append_nil] at hgives
    exact .of_bad none hgives

/-- A reader that keeps a default somewhere gives it up when it is tested, since what it has added
makes the list longer. -/
theorem tested (h : Follows w (some <$> c)) (hc : c.faults = [] ↔ ∃ a, c = good a) :
    Mirrors (Walk.tested w) c := by
  obtain ⟨found, hgives, hfound⟩ := h
  rw [faults_map] at hgives
  intro es
  have hrun := hgives es
  cases c with
  | good a =>
    obtain rfl := hfound (some a) rfl
    simp [Walk.tested, hrun, faults, value?]
  | bad fs =>
    have hne : fs ≠ [] := fun h => by simpa using hc.mp h
    cases found with
    | none => simp [Walk.tested, hrun, faults, value?]
    | some a => simp [Walk.tested, hrun, faults, value?, hne]

end Mirrors

theorem Follows.run_settled {w : Walk α} {c : Checked α} (h : Follows w c)
    (hc : c.faults = [] ↔ ∃ a, c = good a) :
    (settled w).run [] = Pure.pure (c.value?, c.faults) := by
  obtain ⟨found, hgives, hfound⟩ := h
  have hrun := hgives []
  cases c with
  | good a =>
    obtain rfl := hfound a rfl
    simp [settled, hrun, faults, value?]
  | bad fs =>
    have hne : fs ≠ [] := fun h => by simpa using hc.mp h
    simp [settled, hrun, faults, value?, hne]

section
variable {item : Path → Json → Walk (Option α)} {read : Path → Json → Checked α}

theorem Follows.withDefault {w : Walk (Option α)} {c : Checked α} (h : Follows w (some <$> c))
    (fallback : α) : Follows (w.withDefault fallback) c := by
  have hmap : Follows (w.withDefault fallback) _ :=
    h.map fun found : Option α => found.getD fallback
  simpa using hmap

/-- What is skipped has been reported, so the values that are there stand for all elements where
there is nothing to report. -/
theorem follows_readEach (h : ∀ path v, Follows (item path v) (some <$> read path v))
    (path : Path) (vs : List Json) (start : Nat) :
    Follows (readEach item path vs start)
      (all ((vs.zipIdx start).map fun (v, i) => read (path ++ [.index i]) v)) := by
  induction vs generalizing start with
  | nil => exact .pure []
  | cons v vs ih =>
    have hfound := (h (path ++ [.index start]) v).map fun found others => found.toList ++ others
    rw [Functor.map_map] at hfound
    exact hfound.seq (ih (start + 1))

theorem follows_readArray (h : ∀ path v, Follows (item path v) (some <$> read path v))
    (path : Path) (v : Json) : Follows (readArray item path v) (asList read path v) := by
  cases v with
  | array vs => exact follows_readEach h path vs 0
  | _ => exact .of_bad [] fun _ => rfl

theorem follows_readList (h : ∀ path v, Follows (item path v) (some <$> read path v))
    (path : Path) (v : Json) (key : Text) :
    Follows (readList item path v key) (optionalList read path v key) := by
  rw [readList, optionalList]
  cases v.get? key with
  | some child => exact follows_readArray h (path.at key) child
  | none => exact .pure []

theorem follows_readNeededList (h : ∀ path v, Follows (item path v) (some <$> read path v))
    (path : Path) (v : Json) (key : Text) :
    Follows (readNeededList item path v key)
      ((required path v key).andThen (asList read (path.at key))) := by
  rw [readNeededList, require, required]
  cases v.get? key with
  | some child => exact follows_readArray h (path.at key) child
  | none => exact .of_bad [] fun _ => rfl

theorem follows_readObject
    (h : ∀ path members,
      Follows (item path (.object members)) (some <$> read path (.object members)))
    (path : Path) (v : Json) :
    Follows (readObject item path v) (some <$> asObject read path v) := by
  cases v with
  | object members => exact h path members
  | _ => exact (Mirrors.reject path _).follows

theorem mirrors_readObject
    (h : ∀ path members, Mirrors (item path (.object members)) (read path (.object members)))
    (path : Path) (v : Json) : Mirrors (readObject item path v) (asObject read path v) := by
  cases v with
  | object members => exact h path members
  | _ => exact .reject path _

end

section
variable (path : Path) (v : Json) (key : Text)

theorem mirrors_require : Mirrors (require path v key) (required path v key) := by
  rw [require, required]
  cases v.get? key with
  | some child => exact .pure child
  | none => exact .reject path (.missingKey key)

theorem mirrors_readString : Mirrors (readString path v key true) (requiredString path v key) := by
  rw [readString, requiredString, required]
  cases v.get? key with
  | none => exact .reject path (.missingKey key)
  | some child =>
    cases child with
    | string s => exact .pure s
    | _ => exact .reject (path.at key) _

theorem gives_optional (fallback : Text) :
    Gives ((readString path v key false).withDefault fallback)
      ((optionalString path v key fallback).value?.getD fallback)
      (optionalString path v key fallback).faults := by
  rw [readString, optionalString]
  cases v.get? key with
  | none => exact .pure fallback
  | some child =>
    cases child with
    | string s => exact .pure s
    | _ => exact fun _ => rfl

theorem follows_needed (fallback : Text) :
    Follows ((readString path v key true).withDefault fallback) (requiredString path v key) :=
  (mirrors_readString path v key).follows.withDefault fallback

theorem follows_optional (fallback : Text) :
    Follows ((readString path v key false).withDefault fallback)
      (optionalString path v key fallback) :=
  ⟨_, gives_optional path v key fallback, fun _ h => by rw [h]; rfl⟩

theorem follows_readBool (fallback : Bool) :
    Follows (readBool path v key fallback) (optionalBool path v key fallback) := by
  rw [readBool, optionalBool]
  cases v.get? key with
  | none => exact .pure fallback
  | some child =>
    cases child with
    | bool b => exact .pure b
    | _ => exact .of_bad fallback fun _ => rfl

theorem mirrors_readTypeId : Mirrors (readTypeId path v) (asTypeId path v) := by
  cases v with
  | number n =>
    rw [readTypeId, asTypeId]
    split_ifs
    · cases n.nat? with
      | none => exact .reject path .idRange
      | some id =>
        dsimp only
        split_ifs
        · exact .pure id.toNat
        · exact .reject path .idRange
    · exact .reject path _
  | _ => exact .reject path _

theorem mirrors_readPrimitive (name : Text) :
    Mirrors (readPrimitive path name) (asPrimitive path name) := by
  rw [readPrimitive, asPrimitive]
  cases Primitive.ofName? name with
  | some p => exact .pure p
  | none => exact .reject path _

theorem mirrors_readValue : Mirrors (readValue path v) (variantValue path v) := by
  cases v with
  | number n =>
    rw [readValue, variantValue]
    cases n.int? with
    | some i => exact .pure i
    | none => exact .reject path _
  | _ => exact .reject path _

end

section
variable (path : Path) (v : Json)

theorem mirrors_readView (name : Text) : Mirrors (readView path v name) (viewOf path v name) := by
  rw [readView, viewOf]
  split_ifs
  · exact .pure View.utf8
  · exact .pure View.utf16
  · exact .pure View.strings
  · rw [scalarView, map_andThen]
    exact (mirrors_readString path v "element").andThen fun element =>
      (mirrors_readPrimitive (path.at "element") element).map View.scalars
  · exact .reject _ _

theorem follows_readSliceRef (view : Json) :
    Follows (readSliceRef path v view) (some <$> sliceRef path v view) := by
  cases view with
  | string name =>
    have hview (isMutable : Bool) := ((mirrors_readView path v name).map
      fun view => TypeRef.slice view isMutable).follows
    exact (follows_readBool path v "mut" false).bindSome hview
  | _ => exact (Mirrors.reject _ _).follows

theorem follows_readRecordRef (id : Json) :
    Follows (readRecordRef path v id) (some <$> recordRef path v id) := by
  have hid := (mirrors_readTypeId (path.at "struct") id).follows.map
    fun found byRef => found.map fun id => TypeRef.record id byRef
  have hall := hid.seq (follows_readBool path v "by_ref" false)
  simp only [recordRef, functor_norm] at hall ⊢
  exact hall

theorem mirrors_readOwnership (word : Text) :
    Mirrors (readOwnership path word) (ownershipOf path word) := by
  rw [readOwnership, ownershipOf]
  split_ifs
  · exact .pure Ownership.owned
  · exact .pure Ownership.borrowed
  · exact .reject path _

/-- The ownership as the reader of references judges it: no fault is found in a word that could not
be read. -/
def judged : Checked Ownership :=
  match optionalString path v "ownership" "borrowed" with
  | good word => ownershipOf (path.at "ownership") word
  | bad _ => good .borrowed

theorem objectRef_eq (id : Json) :
    objectRef path v id =
      (fun id _ isMutable ownership => TypeRef.object id ownership isMutable) <$>
        asTypeId (path.at "opaque") id <*> optionalString path v "ownership" "borrowed" <*>
        optionalBool path v "mut" false <*> judged path v := rfl

/-- The default that replaces a word that could not be read is a good one. -/
theorem mirrors_judged :
    Mirrors
      (readOwnership (path.at "ownership")
        ((optionalString path v "ownership" "borrowed").value?.getD "borrowed"))
      (judged path v) := by
  rw [judged]
  cases optionalString path v "ownership" "borrowed" with
  | good word => exact mirrors_readOwnership (path.at "ownership") word
  | bad fs => exact mirrors_readOwnership (path.at "ownership") "borrowed"

theorem follows_readObjectRef (id : Json) :
    Follows (readObjectRef path v id) (some <$> objectRef path v id) := by
  have hid := mirrors_readTypeId (path.at "opaque") id
  have hword := gives_optional path v "ownership" "borrowed"
  obtain ⟨isMutable, hmut, hmutable⟩ := follows_readBool path v "mut" false
  have howner := (mirrors_judged path v).giveBack fun ownership =>
    (asTypeId (path.at "opaque") id).value?.map fun id => TypeRef.object id ownership isMutable
  have hall : Gives (readObjectRef path v id) _ _ :=
    Gives.bind hid (hword.bind (hmut.bind howner))
  rw [objectRef_eq]
  refine .of_gives hall (by simp) fun b hb => ?_
  obtain ⟨ref, href, rfl⟩ := map_eq_good_iff.mp hb
  obtain ⟨_, ownership, hflagged, howns, rfl⟩ := seq_eq_good_iff.mp href
  obtain ⟨_, flag, hworded, hflag, rfl⟩ := seq_eq_good_iff.mp hflagged
  obtain ⟨_, word, hnamed, -, rfl⟩ := seq_eq_good_iff.mp hworded
  obtain ⟨key, hkey, rfl⟩ := map_eq_good_iff.mp hnamed
  rw [hkey, howns, hmutable flag hflag]
  rfl

end

theorem follows_referenceWith {nested : Path → Json → Checked TypeRef} (path : Path) (v : Json)
    (hnested : ∀ inner, inner.depth < v.depth →
      ∀ path, Follows (readTypeRef path inner) (some <$> nested path inner)) :
    Follows (readTypeRef path v) (some <$> referenceWith nested path v) := by
  rw [readTypeRef.eq_def]
  cases v with
  | null => exact (Mirrors.pure TypeRef.unit).follows
  | object members =>
    rw [referenceWith]
    dsimp only
    cases (Json.object members).get? "primitive" with
    | some p =>
      cases p with
      | string name =>
        exact ((mirrors_readPrimitive (path.at "primitive") name).map TypeRef.primitive).follows
      | _ => exact (Mirrors.reject _ _).follows
    | none =>
    cases (Json.object members).get? "opaque" with
    | some id => exact follows_readObjectRef path _ id
    | none =>
    cases (Json.object members).get? "struct" with
    | some id => exact follows_readRecordRef path _ id
    | none =>
    cases (Json.object members).get? "enum" with
    | some id => exact ((mirrors_readTypeId (path.at "enum") id).map TypeRef.enumeration).follows
    | none =>
    cases (Json.object members).get? "slice" with
    | some view => exact follows_readSliceRef path _ view
    | none =>
    cases (Json.object members).get? "writeable" with
    | some _ => exact (Mirrors.pure TypeRef.writeable).follows
    | none =>
    dsimp only
    cases hnullable : (Json.object members).get? "nullable" with
    | some inner =>
      have hinner := hnested inner (depth_lt_of_get? hnullable) (path.at "nullable")
      exact hinner.andThenMap TypeRef.nullable
    | none =>
    cases hfallible : (Json.object members).get? "fallible" with
    | some sides =>
      cases sides with
      | object sides =>
        have hdepth := depth_lt_of_get? hfallible
        have hok := hnested _ (depth_side_lt hdepth "ok") ((path.at "fallible").at "ok")
        have herr := hnested _ (depth_side_lt hdepth "err") ((path.at "fallible").at "err")
        have hall := (hok.map fun ok err => TypeRef.fallible <$> ok <*> err).seq herr
        simp only [functor_norm] at hall ⊢
        exact hall
      | _ => exact (Mirrors.reject _ _).follows
    | none => exact (Mirrors.reject path _).follows
  | _ => exact (Mirrors.reject path _).follows

theorem follows_readTypeRef (depth : Nat) (path : Path) (v : Json) (h : v.depth ≤ depth) :
    Follows (readTypeRef path v) (some <$> referenceAt depth path v) := by
  induction depth generalizing path v with
  | zero =>
    apply follows_referenceWith
    intro inner hinner
    omega
  | succ depth ih =>
    apply follows_referenceWith
    intro inner hinner path
    exact ih path inner (by omega)

theorem follows_reference (path : Path) (v : Json) :
    Follows (readTypeRef path v) (some <$> reference path v) :=
  follows_readTypeRef v.depth path v (Nat.le_refl _)

theorem follows_readNames (path : Path) (vs : List Json) :
    Follows (readNames path vs) (featureList path vs) := by
  induction vs with
  | nil => exact .pure []
  | cons v vs ih =>
    cases v with
    | string name => exact ih.map (List.cons name)
    | _ => exact .of_bad [] fun _ => rfl

section
variable (path : Path) (v : Json)

theorem follows_readFeatures : Follows (readFeatures path v) (features path v) := by
  rw [readFeatures, features]
  cases v.get? "features" with
  | none => exact .pure []
  | some child =>
    cases child with
    | array vs => exact follows_readNames (path.at "features") vs
    | _ => exact .of_bad [] fun _ => rfl

theorem follows_readEnabled :
    Follows (readEnabled path v) (requiredBool path v "enabled") := by
  rw [readEnabled, requiredBool, required, readBool]
  cases v.get? "enabled" with
  | none => exact .of_bad true fun _ => rfl
  | some child =>
    cases child with
    | bool b => exact .pure b
    | _ => exact .of_bad true fun _ => rfl

theorem follows_readRule : Follows (readRule path v) (some <$> rule path v) := by
  refine follows_readObject (fun path members => ?_) path v
  have htarget := (follows_needed path (.object members) "backend" "").map
    fun target enabled features => Rule.mk target features enabled
  exact ((htarget.seq (follows_readEnabled path _)).seq (follows_readFeatures path _)).map some

theorem follows_readRules : Follows (readRules path v) (rules path v) :=
  follows_readList follows_readRule path v "attrs"

theorem follows_readType :
    Follows (readType path v) ((required path v "type").andThen (reference (path.at "type"))) :=
  ((mirrors_require path v "type").andThen_follows fun child _ =>
    follows_reference (path.at "type") child).withDefault .unit

theorem follows_readParam : Follows (readParam path v) (some <$> param path v) := by
  refine follows_readObject (fun path members => ?_) path v
  have hname := follows_needed path (.object members) "name" ""
  exact ((hname.map Param.mk).seq (follows_readType path _)).map some

theorem follows_readField : Follows (readField path v) (some <$> recordField path v) := by
  refine follows_readObject (fun path members => ?_) path v
  have hname := follows_needed path (.object members) "name" ""
  have hdocs := follows_optional path (.object members) "docs" ""
  exact (((hname.map Field.mk).seq hdocs).seq (follows_readType path _)).map some

theorem follows_readVariant : Follows (readVariant path v) (some <$> variant path v) := by
  refine follows_readObject (fun path members => ?_) path v
  have hname := follows_needed path (.object members) "name" ""
  have hdocs := follows_optional path (.object members) "docs" ""
  have hvalue := (mirrors_require path (.object members) "value").andThen fun child =>
    mirrors_readValue (path.at "value") child
  exact (((hname.map Variant.mk).seq hdocs).seq (hvalue.follows.withDefault 0)).map some

theorem follows_readReturns : Follows (readReturns path v) (returns path v) := by
  rw [readReturns, returns]
  cases v.get? "returns" with
  | some child => exact (follows_reference (path.at "returns") child).withDefault .unit
  | none => exact .pure TypeRef.unit

theorem follows_readReceiver (word : Text) :
    Follows (readReceiver path word) (receiverOf path word) := by
  rw [readReceiver, receiverOf]
  split_ifs
  · exact .pure Receiver.absent
  · exact .pure Receiver.byValue
  · exact .pure Receiver.shared
  · exact .pure Receiver.exclusive
  · exact .of_bad .absent fun _ => rfl

theorem follows_self :
    Follows (do readReceiver (path.at "self") (← (readString path v "self" false).withDefault ""))
      ((optionalString path v "self" "").andThen (receiverOf (path.at "self"))) := by
  have hword := gives_optional path v "self" ""
  cases hread : optionalString path v "self" "" with
  | good word =>
    rw [hread] at hword
    obtain ⟨receiver, hgives, hvalue⟩ := follows_readReceiver (path.at "self") word
    exact ⟨receiver, hword.bind hgives, hvalue⟩
  | bad fs =>
    rw [hread] at hword
    have hgives : Gives (readReceiver (path.at "self") "") .absent [] := .pure Receiver.absent
    exact .of_bad .absent (List.append_nil fs ▸ hword.bind hgives)

theorem mirrors_readMethod : Mirrors (readMethod path v) (method path v) := by
  refine mirrors_readObject (fun path members => ?_) path v
  have hname := follows_needed path (.object members) "name" ""
  have hdocs := follows_optional path (.object members) "docs" ""
  have hrules := follows_readRules path (.object members)
  have hself := follows_self path (.object members)
  have hparams := follows_readList follows_readParam path (.object members) "params"
  have hreturns := follows_readReturns path (.object members)
  have hall := (((((hname.map Method.mk).seq hdocs).seq hrules).seq hself).seq hparams).seq hreturns
  exact .tested (hall.map some) (reporting_method path (.object members)).faults_eq_nil_iff

theorem follows_readMethods : Follows (readMethods path v) (methods path v) :=
  follows_readList (fun path v => (mirrors_readMethod path v).follows) path v "methods"

theorem follows_readShape (kind : Text) :
    Follows (readShape path v kind) (some <$> shapeOf path v kind) := by
  rw [readShape, shapeOf]
  split_ifs
  · exact ((follows_readMethods path v).map Shape.object).map some
  · have hfields := follows_readList follows_readField path v "fields"
    exact ((hfields.map Shape.record).seq (follows_readMethods path v)).map some
  · have hvariants := follows_readNeededList follows_readVariant path v "variants"
    exact (hvariants.map Shape.enumeration).map some
  · rw [map_andThen]
    exact ((mirrors_readString path v "primitive").andThen fun name =>
      (mirrors_readPrimitive (path.at "primitive") name).map Shape.synonym).follows
  · exact (Mirrors.reject _ _).follows

theorem mirrors_readTypeDef : Mirrors (readTypeDef path v) (typeDef path v) := by
  refine mirrors_readObject (fun path members => ?_) path v
  have hid := (mirrors_require path (.object members) "id").andThen fun child =>
    mirrors_readTypeId (path.at "id") child
  have hname := follows_needed path (.object members) "name" ""
  have hdocs := follows_optional path (.object members) "docs" ""
  have hrules := follows_readRules path (.object members)
  have hbefore := ((((hid.follows.withDefault 0).map TypeDef.mk).seq hname).seq hdocs).seq hrules
  have hshape (finish : Shape → TypeDef) :=
    (mirrors_readString path (.object members) "kind").andThen_follows fun kind _ =>
      (follows_readShape path (.object members) kind).andThenMap finish
  simp only [← map_andThen] at hshape
  have hall := hbefore.bindSome hshape
  rw [id_map'] at hall
  exact .tested hall (reporting_typeDef path (.object members)).faults_eq_nil_iff

end

theorem run_readRoot (v : Json) : (readRoot v).run [] = ((root v).value?, (root v).faults) := by
  cases v with
  | object members =>
    have hlibrary := follows_optional [] (.object members) "library" ""
    have htypes := follows_readNeededList (fun path v => (mirrors_readTypeDef path v).follows) []
      (.object members) "types"
    have hparts := (hlibrary.map Prod.mk).seq htypes
    exact hparts.run_settled (reports_root (.object members)).faults_eq_nil_iff
  | _ => rfl

/-- Walking through the document and putting its parts together come to the same. -/
theorem load_eq_ofJson (v : Json) : load v = ofJson v := by
  rw [load, run_readRoot, ofJson]
  cases root v <;> rfl

end Walk

end Bindery.Document
