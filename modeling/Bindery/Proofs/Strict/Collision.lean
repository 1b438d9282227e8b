import Bindery.Proofs.Strict.Steps
import Bindery.Proofs.Generation.Collision

/-!
Clashes step by step. The types that declare a key are remembered by their places, and by these
places their names are fetched and the outcomes changed. Places come from the list of outcomes and
there is one for every type, so none is out of range; and since ids increase with the places, the
types of a clash come in the same order either way.
-/

set_option autoImplicit false

namespace Bindery.Strict

structure PlacedKey where
  key : Text
  place : Nat
  deriving DecidableEq, Repr

def placedKeys (keys : GeneratedUnit → List Text) (outcomes : List TypeOutcome) :
    List PlacedKey :=
  outcomes.zipIdx.flatMap fun (o, i) => (o.keys keys).map fun key => ⟨key, i⟩

structure PlacedClash where
  key : Text
  places : List Nat
  deriving DecidableEq, Repr

/-- The places of a key, one for each time it is declared. -/
def placesOf (declared : List PlacedKey) (key : Text) : List Nat :=
  (declared.filter fun d => d.key == key).map PlacedKey.place

def placedClashes (declared : List PlacedKey) : List PlacedClash :=
  ((Sorted.ofList Text.before (declared.map PlacedKey.key)).filter fun key =>
    2 ≤ (placesOf declared key).length).map fun key =>
      ⟨key, Sorted.ofList Signature.idBefore (placesOf declared key)⟩

structure Notice where
  message : Text
  places : List Nat
  deriving DecidableEq, Repr

/-- The message about a clash; the names of the types are fetched by their places. -/
def noticeOf (types : List TypeDef) (what : Text) (c : PlacedClash) : Step Notice := do
  let names ← c.places.mapM fun i => do
    let t ← item types i
    return t.name
  return ⟨what ++ " " ++ Text.quoted c.key ++ " is declared more than once (" ++
    Text.join ", " names ++ ")", c.places⟩

def messagesAt (notices : List Notice) (place : Nat) : List Text :=
  (notices.filter fun n => n.places.contains place).map Notice.message

def withdrawAt (types : List TypeDef) (notices : List Notice) (outcomes : List TypeOutcome)
    (place : Nat) : Step (List TypeOutcome) := do
  let o ← item outcomes place
  let t ← item types place
  return outcomes.set place
    { o with
      errors := o.errors ++ (messagesAt notices place).map (.ofType .namingConflict t)
      generated := none }

def resolveCollisions (types : List TypeDef) (outcomes : List TypeOutcome) :
    Step (List TypeOutcome) := do
  let identifiers ← (placedClashes (placedKeys GeneratedUnit.names outcomes)).mapM
    (noticeOf types "C identifier")
  let files ← (placedClashes (placedKeys GeneratedUnit.fileKeys outcomes)).mapM
    (noticeOf types "file name")
  let notices := identifiers ++ files
  (Sorted.ofList Signature.idBefore (notices.flatMap Notice.places)).foldlM
    (withdrawAt types notices) outcomes

def ownerAt (types : List TypeDef) (place : Nat) : TypeId × Text :=
  match types[place]? with
  | some t => (t.id, t.name)
  | none => (0, [])

def PlacedClash.owned (types : List TypeDef) (c : PlacedClash) : Clash :=
  ⟨c.key, c.places.map (ownerAt types)⟩

section
variable {types : List TypeDef} {outcomes : List TypeOutcome}

theorem ownerAt_of_lt {i : Nat} (h : i < types.length) :
    ownerAt types i = (types[i].id, types[i].name) := by
  simp [ownerAt, h]

theorem place_lt {keys : GeneratedUnit → List Text} {d : PlacedKey}
    (h : d ∈ placedKeys keys outcomes) : d.place < outcomes.length := by
  obtain ⟨⟨o, i⟩, ho, hd⟩ := List.mem_flatMap.mp h
  obtain ⟨key, -, rfl⟩ := List.mem_map.mp hd
  exact (List.mem_zipIdx' ho).1

theorem declared_eq (htypes : outcomes.map TypeOutcome.type = types)
    (keys : GeneratedUnit → List Text) :
    outcomes.flatMap (TypeOutcome.keysBy keys) =
      (placedKeys keys outcomes).map fun d =>
        ⟨d.key, (ownerAt types d.place).1, (ownerAt types d.place).2⟩ := by
  have hflat : outcomes.flatMap (TypeOutcome.keysBy keys) =
      outcomes.zipIdx.flatMap fun x => x.1.keysBy keys := by
    conv_lhs => rw [← List.zipIdx_map_fst 0 outcomes]
    rw [List.flatMap_map]
  rw [hflat, placedKeys, List.map_flatMap]
  refine List.flatMap_congr fun x hx => ?_
  obtain ⟨hlt, ho⟩ := List.mem_zipIdx' hx
  have hplace : types[x.2]? = some x.1.type := by simp [← htypes, hlt, ← ho]
  simp [keysBy_eq, ownerAt, hplace]

theorem ownerBefore_ownerAt (hids : types.Pairwise fun a b => a.id < b.id) {i j : Nat}
    (hi : i < types.length) (hj : j < types.length) :
    ownerBefore (ownerAt types i) (ownerAt types j) = Signature.idBefore i j := by
  rw [ownerAt_of_lt hi, ownerAt_of_lt hj, ownerBefore, Signature.idBefore]
  rw [List.pairwise_iff_getElem] at hids
  rcases Nat.lt_trichotomy i j with hlt | rfl | hgt
  · simp [hids i j hi hj hlt, hlt]
  · simp
  · have hle := hids j i hj hi hgt
    simp [Nat.not_lt.mpr hle.le, Nat.not_lt.mpr hgt.le]

variable (htypes : outcomes.map TypeOutcome.type = types)
  (hids : types.Pairwise fun a b => a.id < b.id)
include htypes

theorem placesOf_lt {keys : GeneratedUnit → List Text} {key : Text} :
    ∀ i ∈ placesOf (placedKeys keys outcomes) key, i < types.length := by
  intro i hi
  obtain ⟨d, hd, rfl⟩ := List.mem_map.mp hi
  have hlt := place_lt (List.mem_of_mem_filter hd)
  simpa [← htypes] using hlt

include hids

theorem clashes_eq (keys : GeneratedUnit → List Text) :
    clashes (outcomes.flatMap (TypeOutcome.keysBy keys)) =
      (placedClashes (placedKeys keys outcomes)).map (PlacedClash.owned types) := by
  have hfilter : ∀ key, ((outcomes.flatMap (TypeOutcome.keysBy keys)).filter
      fun d => d.key == key).map (fun d => (d.owner, d.ownerName)) =
        (placesOf (placedKeys keys outcomes) key).map (ownerAt types) := by
    intro key
    rw [declared_eq htypes, List.filter_map, List.map_map, placesOf, List.map_map]
    rfl
  have howners : ∀ key, ownersOf (outcomes.flatMap (TypeOutcome.keysBy keys)) key =
      (Sorted.ofList Signature.idBefore (placesOf (placedKeys keys outcomes) key)).map
        (ownerAt types) := by
    intro key
    rw [ownersOf, hfilter]
    exact Sorted.ofList_map (fun i hi j hj => ownerBefore_ownerAt hids (placesOf_lt htypes i hi)
      (placesOf_lt htypes j hj)) idBefore_isOrder
  have hrepeated : repeatedKeys (outcomes.flatMap (TypeOutcome.keysBy keys)) =
      (Sorted.ofList Text.before ((placedKeys keys outcomes).map PlacedKey.key)).filter fun key =>
        2 ≤ (placesOf (placedKeys keys outcomes) key).length := by
    have hkeys : (outcomes.flatMap (TypeOutcome.keysBy keys)).map DeclaredKey.key =
        (placedKeys keys outcomes).map PlacedKey.key := by
      rw [declared_eq htypes, List.map_map]
      rfl
    rw [repeatedKeys, hkeys]
    refine List.filter_congr fun key _ => ?_
    have hlength := congrArg List.length (hfilter key)
    rw [List.length_map, List.length_map] at hlength
    rw [isRepeated, hlength]
  rw [clashes, hrepeated, placedClashes, List.map_map]
  refine List.map_congr_left fun key _ => ?_
  rw [howners]
  rfl

end

def PlacedClash.Within (types : List TypeDef) (c : PlacedClash) : Prop :=
  ∀ i ∈ c.places, i < types.length

section
variable {types : List TypeDef} {outcomes : List TypeOutcome}

theorem within_of_mem (htypes : outcomes.map TypeOutcome.type = types)
    {keys : GeneratedUnit → List Text} :
    ∀ c ∈ placedClashes (placedKeys keys outcomes), c.Within types := by
  intro c hc i hi
  obtain ⟨key, -, rfl⟩ := List.mem_map.mp hc
  exact placesOf_lt htypes i ((Sorted.mem_ofList idBefore_isOrder).mp hi)

def noticesOf (types : List TypeDef) (what : Text) (found : List PlacedClash) : List Notice :=
  found.map fun c => ⟨(c.owned types).message what, c.places⟩

theorem mapM_noticeOf (what : Text) {found : List PlacedClash} (h : ∀ c ∈ found, c.Within types) :
    found.mapM (noticeOf types what) = .ok (noticesOf types what found) := by
  refine mapM_eq_ok fun c hc => ?_
  have hnames : ∀ i ∈ c.places, (do
      let t ← item types i
      return t.name) = .ok (ownerAt types i).2 := by
    intro i hi
    rw [item_of_lt (h c hc i hi), ownerAt_of_lt (h c hc i hi)]
    rfl
  rw [noticeOf, mapM_eq_ok hnames, ok_bind, PlacedClash.owned, Clash.message, List.map_map]
  rfl

theorem involves_owned (hids : types.Pairwise fun a b => a.id < b.id) {c : PlacedClash}
    (h : c.Within types) {i : Nat} (hi : i < types.length) :
    (c.owned types).involves types[i].id = c.places.contains i := by
  have hsame : ∀ j ∈ c.places, (ownerAt types j).1 = types[i].id ↔ j = i := by
    intro j hj
    rw [ownerAt_of_lt (h j hj)]
    constructor
    · intro heq
      rw [List.pairwise_iff_getElem] at hids
      rcases Nat.lt_trichotomy j i with hlt | hsame | hgt
      · exact absurd heq (Nat.ne_of_lt (hids j i (h j hj) hi hlt))
      · exact hsame
      · exact absurd heq (Nat.ne_of_gt (hids i j hi (h j hj) hgt))
    · rintro rfl
      rfl
  rw [Bool.eq_iff_iff, List.contains_iff_mem]
  simp only [Clash.involves, PlacedClash.owned, List.any_map, List.any_eq_true, Function.comp_apply,
    beq_iff_eq]
  constructor
  · rintro ⟨j, hj, heq⟩
    exact (hsame j hj).mp heq ▸ hj
  · intro hmem
    exact ⟨i, hmem, (hsame i hmem).mpr rfl⟩

theorem messagesAt_eq (hids : types.Pairwise fun a b => a.id < b.id) (what : Text)
    {found : List PlacedClash} (h : ∀ c ∈ found, c.Within types) {i : Nat}
    (hi : i < types.length) :
    messagesAt (noticesOf types what found) i =
      Clash.messagesFor what (found.map (PlacedClash.owned types)) types[i].id := by
  rw [messagesAt, noticesOf, Clash.messagesFor, List.filter_map, List.filter_map, List.map_map,
    List.map_map]
  have hfilter : found.filter ((fun n : Notice => n.places.contains i) ∘
      fun c => ⟨(c.owned types).message what, c.places⟩) =
      found.filter ((fun c : Clash => c.involves types[i].id) ∘ PlacedClash.owned types) :=
    List.filter_congr fun c hc => (involves_owned hids (h c hc) hi).symm
  rw [hfilter]
  rfl

def withdrawn (notices : List Notice) (place : Nat) (o : TypeOutcome) : TypeOutcome :=
  { o with
    errors := o.errors ++ (messagesAt notices place).map (.ofType .namingConflict o.type)
    generated := none }

/-- Withdrawing at distinct places changes the outcomes there and no others. -/
theorem foldlM_withdrawAt (notices : List Notice) {places : List Nat} (hnodup : places.Nodup)
    (hplaces : ∀ i ∈ places, i < types.length) (htypes : outcomes.map TypeOutcome.type = types) :
    places.foldlM (withdrawAt types notices) outcomes =
      .ok (outcomes.mapIdx fun i o => if i ∈ places then withdrawn notices i o else o) := by
  induction places generalizing outcomes with
  | nil =>
    have hsame : (outcomes.mapIdx fun _ o => o) = outcomes := by
      refine List.ext_getElem (by simp) fun i hi hi' => ?_
      simp
    simp [hsame]
  | cons i places ih =>
    obtain ⟨hfresh, hnodup⟩ := List.nodup_cons.mp hnodup
    obtain ⟨hi, hplaces⟩ := List.forall_mem_cons.mp hplaces
    have ho : i < outcomes.length := by simpa [← htypes] using hi
    have htype : types[i] = outcomes[i].type := by simp [← htypes]
    have hstep : withdrawAt types notices outcomes i =
        .ok (outcomes.set i (withdrawn notices i outcomes[i])) := by
      rw [withdrawAt, item_of_lt ho, item_of_lt hi, htype]
      rfl
    have hkept : (outcomes.set i (withdrawn notices i outcomes[i])).map TypeOutcome.type =
        types := by
      rw [List.map_set, htypes]
      exact htype ▸ List.set_getElem_self hi
    rw [List.foldlM_cons, hstep, ok_bind, ih hnodup hplaces hkept]
    congr 1
    refine List.ext_getElem (by simp) fun j hj hj' => ?_
    simp only [List.getElem_mapIdx, List.getElem_set, List.mem_cons]
    by_cases hsame : i = j
    · subst hsame
      simp [hfresh]
    · simp [hsame, Ne.symm hsame]

theorem mem_places_iff {notices : List Notice} {i : Nat} :
    i ∈ Sorted.ofList Signature.idBefore (notices.flatMap Notice.places) ↔
      messagesAt notices i ≠ [] := by
  rw [Sorted.mem_ofList idBefore_isOrder, List.mem_flatMap, messagesAt, ne_eq, List.map_eq_nil_iff,
    List.filter_eq_nil_iff]
  simp

theorem withdrawClashing_eq {identifiers files : List Clash} {notices : List Notice} {i : Nat}
    {o : TypeOutcome} (h : messagesAt notices i =
      Clash.messagesFor "C identifier" identifiers o.type.id ++
        Clash.messagesFor "file name" files o.type.id) :
    withdrawClashing identifiers files o =
      if messagesAt notices i ≠ [] then withdrawn notices i o else o := by
  unfold withdrawClashing withdrawn
  rw [← h]
  cases messagesAt notices i <;> simp

/-- Clashes are resolved without a breakdown, every type having an outcome. -/
theorem resolveCollisions_eq (hids : types.Pairwise fun a b => a.id < b.id)
    (htypes : outcomes.map TypeOutcome.type = types) :
    resolveCollisions types outcomes = .ok (Bindery.resolveCollisions outcomes) := by
  have hnames : ∀ c ∈ placedClashes (placedKeys GeneratedUnit.names outcomes), c.Within types :=
    within_of_mem htypes
  have hfiles : ∀ c ∈ placedClashes (placedKeys GeneratedUnit.fileKeys outcomes),
      c.Within types := within_of_mem htypes
  rw [resolveCollisions, mapM_noticeOf _ hnames, ok_bind, mapM_noticeOf _ hfiles, ok_bind,
    foldlM_withdrawAt _ (Sorted.ofList_nodup idBefore_isOrder _) ?_ htypes]
  · congr 1
    refine List.ext_getElem (by simp [Bindery.resolveCollisions]) fun i hi hi' => ?_
    have ho : i < outcomes.length := by simpa using hi
    have htype : i < types.length := by simpa [← htypes] using ho
    have hsame : types[i] = outcomes[i].type := by simp [← htypes]
    have hmessages : messagesAt
        (noticesOf types "C identifier" (placedClashes (placedKeys GeneratedUnit.names outcomes)) ++
          noticesOf types "file name" (placedClashes (placedKeys GeneratedUnit.fileKeys outcomes)))
        i = Clash.messagesFor "C identifier"
            (clashes (outcomes.flatMap (TypeOutcome.keysBy GeneratedUnit.names)))
            outcomes[i].type.id ++
          Clash.messagesFor "file name"
            (clashes (outcomes.flatMap (TypeOutcome.keysBy GeneratedUnit.fileKeys)))
            outcomes[i].type.id := by
      rw [clashes_eq htypes hids, clashes_eq htypes hids, ← hsame,
        ← messagesAt_eq hids _ hnames htype, ← messagesAt_eq hids _ hfiles htype, messagesAt,
        List.filter_append, List.map_append]
      rfl
    rw [List.getElem_mapIdx]
    simp only [mem_places_iff, Bindery.resolveCollisions, List.getElem_map]
    exact (withdrawClashing_eq hmessages).symm
  · intro i hi
    obtain ⟨n, hn, hplace⟩ := List.mem_flatMap.mp ((Sorted.mem_ofList idBefore_isOrder).mp hi)
    rcases List.mem_append.mp hn with hn | hn
    · obtain ⟨c, hc, rfl⟩ := List.mem_map.mp hn
      exact hnames c hc i hplace
    · obtain ⟨c, hc, rfl⟩ := List.mem_map.mp hn
      exact hfiles c hc i hplace

end

end Bindery.Strict
