import Bindery.Proofs.Document.Reading
import Bindery.Proofs.Registry

/-!
Reading a document drops nothing and makes nothing up: a text is read exactly if every element of
its types describes a definition, and the registry holds these definitions, one for each element.
-/

set_option autoImplicit false

namespace Bindery

namespace Document

open Checked

theorem featureList_eq_good_iff (path : Path) (vs : List Json) (names : List Text) :
    featureList path vs = good names ↔ List.Forall₂ IsText vs names := by
  induction vs generalizing names with
  | nil => simp [featureList, eq_comm]
  | cons v vs ih =>
    rw [List.forall₂_cons_left_iff]
    cases v with
    | string s =>
      simp only [featureList, map_eq_good_iff, ih, IsText, Json.string.injEq]
      constructor
      · rintro ⟨rest, hrest, rfl⟩
        exact ⟨s, rest, rfl, hrest, rfl⟩
      · rintro ⟨_, rest, rfl, hrest, rfl⟩
        exact ⟨rest, hrest, rfl⟩
    | _ => simp [featureList, fault, IsText]

theorem features_eq_good_iff (path : Path) (v : Json) (names : List Text) :
    features path v = good names ↔ SaysOr (IsList IsText) v "features" [] names := by
  rw [features, SaysOr, Says]
  cases hget : v.get? "features" with
  | none => simp [eq_comm]
  | some child =>
    cases child with
    | array items => simpa [IsList] using featureList_eq_good_iff _ items names
    | _ => simp [fault, IsList]

theorem reads_rule : Reads rule DescribesRule := by
  refine Reads.object ?_ fun v x h => h.target.member
  intro path v x
  simp only [seq_eq_good_iff, map_eq_good_iff, requiredString_eq_good_iff,
    requiredBool_eq_good_iff, features_eq_good_iff]
  constructor
  · rintro ⟨_, names, ⟨_, enabled, ⟨target, htarget, rfl⟩, henabled, rfl⟩, hfeatures, rfl⟩
    exact ⟨htarget, henabled, hfeatures⟩
  · rintro ⟨htarget, henabled, hfeatures⟩
    exact ⟨_, _, ⟨_, _, ⟨_, htarget, rfl⟩, henabled, rfl⟩, hfeatures, rfl⟩

theorem rules_eq_good_iff (path : Path) (v : Json) (rs : List Rule) :
    rules path v = good rs ↔ SaysOr (IsList DescribesRule) v "attrs" [] rs :=
  reads_rule.optionalList path v "attrs" rs

theorem reads_param : Reads param DescribesParam := by
  refine Reads.object ?_ fun v x h => h.name.member
  intro path v x
  simp only [seq_eq_good_iff, map_eq_good_iff, requiredString_eq_good_iff,
    reads_reference.required]
  constructor
  · rintro ⟨_, ref, ⟨name, hname, rfl⟩, htype, rfl⟩
    exact ⟨hname, htype⟩
  · rintro ⟨hname, htype⟩
    exact ⟨_, _, ⟨_, hname, rfl⟩, htype, rfl⟩

theorem reads_recordField : Reads recordField DescribesField := by
  refine Reads.object ?_ fun v x h => h.name.member
  intro path v x
  simp only [seq_eq_good_iff, map_eq_good_iff, requiredString_eq_good_iff,
    optionalString_eq_good_iff, reads_reference.required]
  constructor
  · rintro ⟨_, ref, ⟨_, docs, ⟨name, hname, rfl⟩, hdocs, rfl⟩, htype, rfl⟩
    exact ⟨hname, hdocs, htype⟩
  · rintro ⟨hname, hdocs, htype⟩
    exact ⟨_, _, ⟨_, _, ⟨_, hname, rfl⟩, hdocs, rfl⟩, htype, rfl⟩

theorem reads_variant : Reads variant DescribesVariant := by
  refine Reads.object ?_ fun v x h => h.name.member
  intro path v x
  simp only [seq_eq_good_iff, map_eq_good_iff, requiredString_eq_good_iff,
    optionalString_eq_good_iff, reads_variantValue.required]
  constructor
  · rintro ⟨_, value, ⟨_, docs, ⟨name, hname, rfl⟩, hdocs, rfl⟩, hvalue, rfl⟩
    exact ⟨hname, hdocs, hvalue⟩
  · rintro ⟨hname, hdocs, hvalue⟩
    exact ⟨_, _, ⟨_, _, ⟨_, hname, rfl⟩, hdocs, rfl⟩, hvalue, rfl⟩

theorem returns_eq_good_iff (path : Path) (v : Json) (ref : TypeRef) :
    returns path v = good ref ↔ SaysOr Denotes v "returns" .unit ref :=
  reads_reference.optional path v "returns" .unit ref

theorem receiver_eq_good_iff (path : Path) (v : Json) (receiver : Receiver) :
    (optionalString path v "self" "").andThen (receiverOf (path.at "self")) = good receiver ↔
      SaysOr IsReceiver v "self" .absent receiver :=
  saysOr_judged_iff reads_receiverOf path v "self" "" .absent receiver rfl

theorem reads_method : Reads method DescribesMethod := by
  refine Reads.object ?_ fun v x h => h.name.member
  intro path v x
  simp only [seq_eq_good_iff, map_eq_good_iff, requiredString_eq_good_iff,
    optionalString_eq_good_iff, rules_eq_good_iff, receiver_eq_good_iff, reads_param.optionalList,
    returns_eq_good_iff]
  constructor
  · rintro ⟨_, returns, ⟨_, params, ⟨_, receiver, ⟨_, rules, ⟨_, docs, ⟨name, hname, rfl⟩,
      hdocs, rfl⟩, hrules, rfl⟩, hreceiver, rfl⟩, hparams, rfl⟩, hreturns, rfl⟩
    exact ⟨hname, hdocs, hrules, hreceiver, hparams, hreturns⟩
  · rintro ⟨hname, hdocs, hrules, hreceiver, hparams, hreturns⟩
    exact ⟨_, _, ⟨_, _, ⟨_, _, ⟨_, _, ⟨_, _, ⟨_, hname, rfl⟩, hdocs, rfl⟩, hrules, rfl⟩,
      hreceiver, rfl⟩, hparams, rfl⟩, hreturns, rfl⟩

theorem methods_eq_good_iff (path : Path) (v : Json) (ms : List Method) :
    methods path v = good ms ↔ SaysOr (IsList DescribesMethod) v "methods" [] ms :=
  reads_method.optionalList path v "methods" ms

theorem shapeOf_eq_good_iff (path : Path) (v : Json) (word : Text) (shape : Shape) :
    shapeOf path v word = good shape ↔ word = shape.kind.name ∧ DescribesShape v shape := by
  rw [shapeOf]
  split_ifs with hobject hrecord henum hsynonym
  · rw [hobject, map_eq_good_iff]
    simp only [methods_eq_good_iff]
    cases shape <;> simp +decide [Shape.kind, Kind.name, DescribesShape]
  · rw [hrecord]
    simp only [seq_eq_good_iff, map_eq_good_iff, reads_recordField.optionalList,
      methods_eq_good_iff]
    cases shape <;> simp +decide [Shape.kind, Kind.name, DescribesShape]
  · rw [henum]
    simp only [map_eq_good_iff, reads_variant.list.required]
    cases shape <;> simp +decide [Shape.kind, Kind.name, DescribesShape]
  · rw [hsynonym]
    simp only [map_eq_good_iff, says_judged_iff reads_asPrimitive]
    cases shape <;> simp +decide [Shape.kind, Kind.name, DescribesShape]
  · cases shape <;> simp [fault, Shape.kind, Kind.name, *]

theorem kind_eq_good_iff (path : Path) (v : Json) (shape : Shape) :
    (requiredString path v "kind").andThen (shapeOf path v) = good shape ↔
      Says IsText v "kind" shape.kind.name ∧ DescribesShape v shape := by
  simp only [andThen_eq_good_iff, requiredString_eq_good_iff, shapeOf_eq_good_iff]
  constructor
  · rintro ⟨_, hword, rfl, hshape⟩
    exact ⟨hword, hshape⟩
  · rintro ⟨hword, hshape⟩
    exact ⟨_, hword, rfl, hshape⟩

theorem reads_typeDef : Reads typeDef DescribesType := by
  refine Reads.object ?_ fun v x h => h.name.member
  intro path v x
  simp only [seq_eq_good_iff, map_eq_good_iff, reads_asTypeId.required, requiredString_eq_good_iff,
    optionalString_eq_good_iff, rules_eq_good_iff, kind_eq_good_iff]
  constructor
  · rintro ⟨_, shape, ⟨_, rules, ⟨_, docs, ⟨_, name, ⟨id, hid, rfl⟩, hname, rfl⟩, hdocs, rfl⟩,
      hrules, rfl⟩, ⟨hkind, hshape⟩, rfl⟩
    exact ⟨hid, hname, hdocs, hrules, hkind, hshape⟩
  · rintro ⟨hid, hname, hdocs, hrules, hkind, hshape⟩
    exact ⟨_, _, ⟨_, _, ⟨_, _, ⟨_, _, ⟨_, hid, rfl⟩, hname, rfl⟩, hdocs, rfl⟩, hrules, rfl⟩,
      ⟨hkind, hshape⟩, rfl⟩

theorem root_eq_good_iff (v : Json) (library : Text) (types : List TypeDef) :
    root v = good (library, types) ↔ Describes v library types := by
  have hread : Reads (fun path v => Prod.mk <$> optionalString path v "library" "" <*>
      (required path v "types").andThen (asList typeDef (path.at "types")))
      fun v x => Describes v x.1 x.2 := by
    intro path v x
    simp only [seq_eq_good_iff, map_eq_good_iff, optionalString_eq_good_iff,
      reads_typeDef.list.required]
    constructor
    · rintro ⟨_, types, ⟨library, hlibrary, rfl⟩, htypes, rfl⟩
      exact ⟨hlibrary, htypes⟩
    · rintro ⟨hlibrary, htypes⟩
      exact ⟨_, _, ⟨_, hlibrary, rfl⟩, htypes, rfl⟩
  have hobject := hread.object (fun v x h => h.types.member) [] v (library, types)
  rw [← hobject]
  cases v with
  | object members => rfl
  | _ => simp [root, asObject, expected, fault]

theorem ofJson_eq_ok_iff (v : Json) (r : Registry) :
    ofJson v = .ok r ↔
      ∃ library types, Describes v library types ∧ Registry.build library types = .ok r := by
  simp only [ofJson, ← root_eq_good_iff]
  cases root v with
  | bad fs => simp
  | good content =>
    obtain ⟨library, types⟩ := content
    simp only [good.injEq, Prod.mk.injEq]
    constructor
    · intro h
      exact ⟨library, types, ⟨rfl, rfl⟩, h⟩
    · rintro ⟨_, _, ⟨rfl, rfl⟩, h⟩
      exact h

theorem read_eq_ok_iff (text : Text) (r : Registry) :
    read text = .ok r ↔ ∃ v, Json.parse text = .ok v ∧ ofJson v = .ok r := by
  rw [read]
  cases Json.parse text <;> simp

/-- The types of a registry that has been read are what the elements of the document describe, one
type for each element, and each element describes one type only. -/
theorem read_describes {text : Text} {r : Registry} (h : read text = .ok r) :
    ∃ doc items types, Json.parse text = .ok doc ∧ doc.get? "types" = some (.array items) ∧
      SaysOr IsText doc "library" [] r.library ∧ List.Forall₂ DescribesType items types ∧
      (∀ others, List.Forall₂ DescribesType items others → others = types) ∧
      r.types.Perm types := by
  obtain ⟨doc, hparse, hread⟩ := (read_eq_ok_iff text r).mp h
  obtain ⟨library, types, ⟨hlibrary, htypes⟩, hbuild⟩ := (ofJson_eq_ok_iff doc r).mp hread
  obtain ⟨-, rfl⟩ := Registry.build_eq_ok_iff.mp hbuild
  obtain ⟨_, hget, items, rfl, hitems⟩ := htypes
  refine ⟨doc, items, types, hparse, hget, hlibrary, hitems, ?_, List.mergeSort_perm _ _⟩
  intro others hothers
  exact reads_typeDef.list.unique ⟨items, rfl, hothers⟩ ⟨items, rfl, hitems⟩

-- A document with types of three kinds and references of several forms.
namespace Sample

def pieces : List Text :=
  ["\x7b\"types\":[", "\x7b\"id\":3,", "\"name\":", "\"Point\",", "\"kind\":", "\"struct\",",
    "\"fields\":[", "\x7b\"name\":", "\"x\",", "\"type\":", "\x7b\"nullable\":", "\x7b\"slice\":",
    "\"utf8\"\x7d", "\x7d\x7d]\x7d,", "\x7b\"id\":5,", "\"name\":", "\"Mode\",", "\"docs\":",
    "\"A mode.\",", "\"kind\":", "\"enum\",", "\"variants\":[", "\x7b\"name\":", "\"Low\",",
    "\"value\":", "-3\x7d]\x7d,", "\x7b\"id\":7,", "\"name\":", "\"Dial\",", "\"kind\":",
    "\"opaque\",", "\"methods\":[", "\x7b\"name\":", "\"turn\",", "\"self\":", "\"ref\",",
    "\"attrs\":[", "\x7b\"backend\":", "\"*\",", "\"enabled\":", "true\x7d],", "\"params\":[",
    "\x7b\"name\":", "\"by\",", "\"type\":", "\x7b\"enum\":5\x7d\x7d],", "\"returns\":",
    "\x7b\"fallible\":", "\x7b\"ok\":", "\x7b\"opaque\":7\x7d", "\x7d\x7d\x7d]\x7d]\x7d"]

def text : Text := pieces.flatten

def turn : Method where
  name := "turn"
  docs := []
  rules := [⟨"*", [], true⟩]
  receiver := .shared
  params := [⟨"by", .enumeration 5⟩]
  returns := .fallible (.object 7 .borrowed false) .unit

def registry : Registry where
  library := []
  types :=
    [⟨3, "Point", [], [], .record [⟨"x", [], .nullable (.slice .utf8 false)⟩] []⟩,
      ⟨5, "Mode", "A mode.", [], .enumeration [⟨"Low", [], -3⟩]⟩,
      ⟨7, "Dial", [], [], .object [turn]⟩]

def content? : Option (Text × List TypeDef) :=
  match Json.parse text with
  | .error _ => none
  | .ok v =>
    match root v with
    | good content => some content
    | bad _ => none

theorem read_text : read text = .ok registry := by
  have hcontent : content? = some (registry.library, registry.types) := by decide +kernel
  have hbuild : Registry.build registry.library registry.types = .ok registry :=
    Registry.build_of_increasing _ (by decide) (by decide +kernel)
  rw [read]
  unfold content? at hcontent
  cases hparse : Json.parse text with
  | error e => simp [hparse] at hcontent
  | ok v =>
    cases hroot : root v with
    | bad fs => simp [hparse, hroot] at hcontent
    | good content =>
      simp only [hparse, hroot, Option.some_inj] at hcontent
      simp only [ofJson, hroot, hcontent, hbuild]

end Sample

theorem read_describes_sample : read Sample.text = .ok Sample.registry ∧
    ∃ doc items types, Json.parse Sample.text = .ok doc ∧ doc.get? "types" = some (.array items) ∧
      SaysOr IsText doc "library" [] Sample.registry.library ∧
      List.Forall₂ DescribesType items types ∧
      (∀ others, List.Forall₂ DescribesType items others → others = types) ∧
      Sample.registry.types.Perm types :=
  ⟨Sample.read_text, read_describes Sample.read_text⟩

end Document

end Bindery
