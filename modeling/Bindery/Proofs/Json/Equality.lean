import Bindery.Proofs.Binary64
import Bindery.Proofs.Document.Meaning
import Bindery.Proofs.Json.RoundTrip

/-!
Equality of JSON values against their texts. Both go through the values side by side and differ
only at numbers: texts tell integers apart by what they are, equality tells a signed integer and an
unsigned one apart by the nearest binary64 of each. So values without binary64 numbers are equal
just when their texts are, unless a signed and an unsigned integer meet that only rounding makes
the same.
-/

set_option autoImplicit false

namespace Bindery

namespace Number

def SameInteger (m n : Number) : Prop := ∃ z, m.integer? = some z ∧ n.integer? = some z

/-- The signed and the unsigned integer differ but round to one number. -/
def Collide (i : Int64) (n : UInt64) : Prop :=
  0 ≤ i.toInt ∧ i.toInt ≠ n.toNat ∧ nearest i.toInt.toNat = nearest n.toNat

/-- Integers of different kinds that only rounding makes the same. -/
def Blurred : Number → Number → Prop
  | int i, nat n => Collide i n
  | nat n, int i => Collide i n
  | _, _ => False

/-- Integers collide only where the numbers of fifty-three digits end. -/
theorem Collide.large {i : Int64} {n : UInt64} (h : Collide i n) :
    2 ^ 53 ≤ i.toInt ∧ 2 ^ 53 ≤ n.toNat := by
  obtain ⟨hi, hne, hround⟩ := h
  have hsmall {k l : Nat} (hk : k < 2 ^ 53) (hkl : nearest k = nearest l) : k = l := by
    rw [nearest_of_lt hk] at hkl
    by_cases hl : l < 2 ^ 53
    · rwa [nearest_of_lt hl] at hkl
    · have hlog := (Nat.le_log2 (by omega)).mpr (Nat.le_of_not_lt hl)
      have hpow := Nat.pow_le_pow_right (by decide : 0 < 2) hlog
      have hle := Binary64.le_nearest (n := l) (by omega)
      omega
  constructor
  · by_contra hlt
    have heq := hsmall (by omega) hround
    omega
  · by_contra hlt
    have heq := hsmall (by omega) hround.symm
    omega

theorem Blurred.large {m n : Number} (h : m.Blurred n) :
    ∃ y z, m.integer? = some y ∧ n.integer? = some z ∧ 2 ^ 53 ≤ y ∧ 2 ^ 53 ≤ z := by
  match m, n, h with
  | int i, nat k, h =>
    obtain ⟨hi, hk⟩ := Collide.large h
    exact ⟨i.toInt, k.toNat, rfl, rfl, hi, by omega⟩
  | nat k, int i, h =>
    obtain ⟨hi, hk⟩ := Collide.large h
    exact ⟨k.toNat, i.toInt, rfl, rfl, by omega, hi⟩

theorem sameValue_toInt_toNat (i : Int64) (n : UInt64) :
    (Binary64.ofInt i.toInt).sameValue (.ofInt n.toNat) = true ↔
      i.toInt = n.toNat ∨ Collide i n := by
  have hlow := i.le_toInt
  have hhigh := i.toInt_lt
  have hn := n.toNat_lt
  rw [Binary64.sameValue_ofInt (by omega) (by omega), Int.natAbs_natCast, Collide]
  rcases Int.lt_or_le i.toInt 0 with hi | hi
  · omega
  · have hnat : i.toInt.natAbs = i.toInt.toNat := by omega
    have hsign : i.toInt < 0 ↔ (n.toNat : Int) < 0 := by omega
    rw [hnat, and_iff_right hsign, and_iff_right hi]
    by_cases heq : i.toInt = n.toNat
    · simp [heq]
    · simp [heq]

theorem same_iff {m n : Number} (hm : m.isInteger = true) (hn : n.isInteger = true) :
    m.same n = true ↔ SameInteger m n ∨ Blurred m n := by
  cases m with
  | real x => exact absurd hm Bool.false_ne_true
  | int i =>
    cases n with
    | real x => exact absurd hn Bool.false_ne_true
    | int j => simp [same, SameInteger, integer?, Blurred, Int64.toInt_inj, @eq_comm _ j]
    | nat n =>
      show (Binary64.ofInt i.toInt).sameValue (.ofInt n.toNat) = true ↔ _
      rw [sameValue_toInt_toNat]
      simp [SameInteger, integer?, Blurred, @eq_comm _ (n.toNat : Int)]
  | nat m =>
    cases n with
    | real x => exact absurd hn Bool.false_ne_true
    | int j =>
      show (Binary64.ofInt m.toNat).sameValue (.ofInt j.toInt) = true ↔ _
      rw [Binary64.sameValue_comm, sameValue_toInt_toNat]
      simp [SameInteger, integer?, Blurred]
    | nat n => simp [same, SameInteger, integer?, Blurred, UInt64.toNat_inj, @eq_comm _ n]

theorem integer?_reread (n : Number) : n.reread.integer? = n.integer? := by
  cases n with
  | nat n =>
    rw [reread]
    split
    · rename_i hlt
      rw [integer?, integer?, Int64.toInt_ofNat_of_lt hlt]
    · rfl
  | _ => rfl

theorem sameInteger_of_reread {m n : Number} (hm : m.isInteger = true)
    (h : m.reread = n.reread) : SameInteger m n := by
  have hinteger := congrArg integer? h
  rw [integer?_reread, integer?_reread] at hinteger
  cases m with
  | real x => exact absurd hm Bool.false_ne_true
  | int i => exact ⟨i.toInt, rfl, hinteger.symm⟩
  | nat m => exact ⟨m.toNat, rfl, hinteger.symm⟩

theorem numberText_of_integer? {n : Number} {z : Int} (h : n.integer? = some z) :
    Json.numberText n = decimalInt z := by
  cases n with
  | real x => cases h
  | int i =>
    cases h
    rfl
  | nat n =>
    cases h
    rfl

end Number

theorem forall₂_imp_of_mem {α β : Type} {R S : α → β → Prop} {as : List α} {bs : List β}
    (h : List.Forall₂ R as bs) (himp : ∀ a ∈ as, ∀ b ∈ bs, R a b → S a b) :
    List.Forall₂ S as bs := by
  obtain ⟨hlength, hzip⟩ := List.forall₂_iff_zip.mp h
  refine List.forall₂_iff_zip.mpr ⟨hlength, fun {a b} hab => ?_⟩
  obtain ⟨ha, hb⟩ := List.of_mem_zip hab
  exact himp a ha b hb (hzip hab)

theorem forall₂_iff_of_mem {α β : Type} {R S : α → β → Prop} {as : List α} {bs : List β}
    (h : ∀ a ∈ as, ∀ b ∈ bs, (R a b ↔ S a b)) : List.Forall₂ R as bs ↔ List.Forall₂ S as bs :=
  ⟨fun hR => forall₂_imp_of_mem hR fun a ha b hb => (h a ha b hb).mp,
    fun hS => forall₂_imp_of_mem hS fun a ha b hb => (h a ha b hb).mpr⟩

theorem forall₂_of_map_eq {α β : Type} {f : α → β} {as bs : List α} (h : as.map f = bs.map f) :
    List.Forall₂ (fun a b => f a = f b) as bs := by
  rwa [← List.forall₂_eq_eq_eq, List.forall₂_map_left_iff, List.forall₂_map_right_iff] at h

theorem Sorted.keys_eq_of_subset {α β : Type} {before : α → α → Bool} (ho : IsOrder before)
    {as bs : List (α × β)} (ha : KeysIncrease before as) (hb : KeysIncrease before bs)
    (hlength : as.length = bs.length) (h : ∀ m ∈ as, ∃ v, (m.1, v) ∈ bs) :
    as.map Prod.fst = bs.map Prod.fst := by
  have hantisymm : Std.Antisymm fun k l => before k l = true := by
    refine ⟨fun k l hkl hlk => ?_⟩
    rw [ho.asymm hkl] at hlk
    exact absurd hlk Bool.false_ne_true
  have hka : (as.map Prod.fst).Pairwise fun k l => before k l = true := List.pairwise_map.mpr ha
  have hkb : (bs.map Prod.fst).Pairwise fun k l => before k l = true := List.pairwise_map.mpr hb
  have hnodup : (as.map Prod.fst).Nodup := hka.imp fun hkl => ho.ne hkl
  have hsubset : as.map Prod.fst ⊆ bs.map Prod.fst := by
    intro k hk
    obtain ⟨m, hm, rfl⟩ := List.mem_map.mp hk
    obtain ⟨v, hv⟩ := h m hm
    exact List.mem_map.mpr ⟨_, hv, rfl⟩
  have hsub := List.sublist_of_subperm_of_pairwise (List.subperm_of_subset hnodup hsubset) hka hkb
  exact hsub.eq_of_length (by rw [List.length_map, List.length_map, hlength])

namespace Json

/-- The values have the same shape, keys and scalars, and numbers at the same place are related. -/
inductive Matched (r : Number → Number → Prop) : Json → Json → Prop
  | null : Matched r null null
  | bool (b : Bool) : Matched r (bool b) (bool b)
  | number {m n : Number} (h : r m n) : Matched r (number m) (number n)
  | string (s : Text) : Matched r (string s) (string s)
  | array {as bs : List Json} (h : List.Forall₂ (Matched r) as bs) :
    Matched r (array as) (array bs)
  | object {as bs : List (Text × Json)} (hkeys : as.map Prod.fst = bs.map Prod.fst)
    (h : List.Forall₂ (fun m n => Matched r m.2 n.2) as bs) : Matched r (object as) (object bs)

section
variable {r : Number → Number → Prop}

theorem matched_array_iff {as bs : List Json} :
    Matched r (array as) (array bs) ↔ List.Forall₂ (Matched r) as bs := by
  refine ⟨fun h => ?_, .array⟩
  cases h with
  | array hitems => exact hitems

theorem matched_object_iff {as bs : List (Text × Json)} :
    Matched r (object as) (object bs) ↔ as.map Prod.fst = bs.map Prod.fst ∧
      List.Forall₂ (fun m n => Matched r m.2 n.2) as bs := by
  refine ⟨fun h => ?_, fun ⟨hkeys, hmembers⟩ => .object hkeys hmembers⟩
  cases h with
  | object hkeys hmembers => exact ⟨hkeys, hmembers⟩

end

mutual

def numbers : Json → List Number
  | number n => [n]
  | array items => numbersItems items
  | object members => numbersMembers members
  | _ => []

def numbersItems : List Json → List Number
  | [] => []
  | v :: vs => numbers v ++ numbersItems vs

def numbersMembers : List (Text × Json) → List Number
  | [] => []
  | (_, v) :: vs => numbers v ++ numbersMembers vs

end

theorem mem_numbersItems {vs : List Json} {n : Number} :
    n ∈ numbersItems vs ↔ ∃ v ∈ vs, n ∈ v.numbers := by
  induction vs with
  | nil => simp [numbersItems]
  | cons v vs ih => simp [numbersItems, ih]

theorem mem_numbersMembers {ms : List (Text × Json)} {n : Number} :
    n ∈ numbersMembers ms ↔ ∃ m ∈ ms, n ∈ m.2.numbers := by
  induction ms with
  | nil => simp [numbersMembers]
  | cons m ms ih => simp [numbersMembers, ih]

theorem isInteger_of_mem_numbers {v : Json} (hv : v.Exact) :
    ∀ n ∈ v.numbers, n.isInteger = true := by
  induction v using Json.induction with
  | null | bool | string => exact List.forall_mem_nil _
  | number n =>
    refine List.forall_mem_singleton.mpr ?_
    cases n with
    | real x => exact hv.elim
    | int | nat => rfl
  | array vs ih =>
    intro n hn
    obtain ⟨v, hmem, hnv⟩ := mem_numbersItems.mp hn
    exact ih v hmem (exact_of_mem_items hv v hmem) n hnv
  | object ms ih =>
    intro n hn
    obtain ⟨m, hmem, hnm⟩ := mem_numbersMembers.mp hn
    exact ih m hmem (exact_of_mem_members hv.2 m hmem) n hnm

theorem Matched.imp {r r' : Number → Number → Prop} {a b : Json} (hab : Matched r a b)
    (h : ∀ m ∈ a.numbers, ∀ n ∈ b.numbers, r m n → r' m n) : Matched r' a b := by
  induction a using Json.induction generalizing b with
  | null =>
    cases hab
    exact .null
  | bool =>
    cases hab
    exact .bool _
  | string =>
    cases hab
    exact .string _
  | number m =>
    cases hab with
    | number hmn => exact .number (h m List.mem_cons_self _ List.mem_cons_self hmn)
  | array as ih =>
    cases hab with
    | array hitems =>
      refine .array (forall₂_imp_of_mem hitems fun v hv w hw hvw => ih v hv hvw ?_)
      intro m hm n hn
      exact h m (mem_numbersItems.mpr ⟨v, hv, hm⟩) n (mem_numbersItems.mpr ⟨w, hw, hn⟩)
  | object as ih =>
    cases hab with
    | object hkeys hmembers =>
      refine .object hkeys (forall₂_imp_of_mem hmembers fun v hv w hw hvw => ih v hv hvw ?_)
      intro m hm n hn
      exact h m (mem_numbersMembers.mpr ⟨v, hv, hm⟩) n (mem_numbersMembers.mpr ⟨w, hw, hn⟩)

theorem matched_congr {r r' : Number → Number → Prop} {a b : Json}
    (h : ∀ m ∈ a.numbers, ∀ n ∈ b.numbers, (r m n ↔ r' m n)) : Matched r a b ↔ Matched r' a b :=
  ⟨fun hab => hab.imp fun m hm n hn => (h m hm n hn).mp,
    fun hab => hab.imp fun m hm n hn => (h m hm n hn).mpr⟩

theorem sameItems_iff {as bs : List Json} :
    sameItems as bs = true ↔ List.Forall₂ (fun v w => same v w = true) as bs := by
  induction as generalizing bs with
  | nil => cases bs <;> simp [sameItems]
  | cons a as ih => cases bs <;> simp [sameItems, ih]

theorem sameMembers_iff {as bs : List (Text × Json)} :
    sameMembers as bs = true ↔
      ∀ m ∈ as, ∃ w, bs.lookup m.1 = some w ∧ same m.2 w = true := by
  induction as with
  | nil => simp [sameMembers]
  | cons m as ih =>
    rw [sameMembers]
    cases hlookup : bs.lookup m.1 <;> simp [hlookup, ih]

theorem same_object_iff {as bs : List (Text × Json)} (ha : Sorted.KeysIncrease Text.before as)
    (hb : Sorted.KeysIncrease Text.before bs) :
    same (object as) (object bs) = true ↔ as.map Prod.fst = bs.map Prod.fst ∧
      List.Forall₂ (fun m n => same m.2 n.2 = true) as bs := by
  have hlookup := fun k v => Sorted.lookup_eq_some_iff Text.before_isOrder hb (k := k) (v := v)
  rw [same, Bool.and_eq_true, beq_iff_eq, sameMembers_iff, List.forall₂_iff_zip]
  constructor
  · rintro ⟨hlength, hsame⟩
    -- keys are looked up in the second object only, so it takes the lengths to have the same keys
    have hkeys := Sorted.keys_eq_of_subset Text.before_isOrder ha hb hlength fun m hm => by
      obtain ⟨w, hw, -⟩ := hsame m hm
      exact ⟨w, (hlookup _ _).mp hw⟩
    refine ⟨hkeys, hlength, fun {m n} hmn => ?_⟩
    obtain ⟨hm, hn⟩ := List.of_mem_zip hmn
    obtain ⟨w, hw, hvalue⟩ := hsame m hm
    rw [List.forall₂_zip (forall₂_of_map_eq hkeys) hmn, (hlookup n.1 n.2).mpr hn] at hw
    cases hw
    exact hvalue
  · rintro ⟨hkeys, hlength, hsame⟩
    refine ⟨hlength, fun m hm => ?_⟩
    rw [← List.map_fst_zip hlength.le] at hm
    obtain ⟨⟨m, n⟩, hmn, rfl⟩ := List.mem_map.mp hm
    refine ⟨n.2, ?_, hsame hmn⟩
    rw [List.forall₂_zip (forall₂_of_map_eq hkeys) hmn,
      (hlookup n.1 n.2).mpr (List.of_mem_zip hmn).2]

/-- Equality goes through two values side by side and compares the numbers it meets. -/
theorem same_iff_matched {a b : Json} (ha : a.Exact) (hb : b.Exact) :
    a.same b = true ↔ Matched (fun m n => m.same n = true) a b := by
  induction a using Json.induction generalizing b with
  | null =>
    cases b with
    | null => exact ⟨fun _ => .null, fun _ => rfl⟩
    | _ => exact ⟨fun h => absurd h Bool.false_ne_true, nofun⟩
  | bool p =>
    cases b with
    | bool q =>
      refine ⟨fun h => eq_of_beq h ▸ .bool p, fun h => ?_⟩
      cases h
      exact beq_self_eq_true p
    | _ => exact ⟨fun h => absurd h Bool.false_ne_true, nofun⟩
  | number m =>
    cases b with
    | number n => exact ⟨fun h => .number h, fun | .number h => h⟩
    | _ => exact ⟨fun h => absurd h Bool.false_ne_true, nofun⟩
  | string s =>
    cases b with
    | string t =>
      refine ⟨fun h => eq_of_beq h ▸ .string s, fun h => ?_⟩
      cases h
      exact beq_self_eq_true s
    | _ => exact ⟨fun h => absurd h Bool.false_ne_true, nofun⟩
  | array as ih =>
    cases b with
    | array bs =>
      rw [same, sameItems_iff, matched_array_iff]
      exact forall₂_iff_of_mem fun v hv w hw =>
        ih v hv (exact_of_mem_items ha v hv) (exact_of_mem_items hb w hw)
    | _ => exact ⟨fun h => absurd h Bool.false_ne_true, nofun⟩
  | object as ih =>
    cases b with
    | object bs =>
      rw [same_object_iff ha.1 hb.1, matched_object_iff]
      exact and_congr_right fun _ => forall₂_iff_of_mem fun v hv w hw =>
        ih v hv (exact_of_mem_members ha.2 v hv) (exact_of_mem_members hb.2 w hw)
    | _ => exact ⟨fun h => absurd h Bool.false_ne_true, nofun⟩

/-- A text is read back as one value. The reader is given room for both values, so neither is too
deep for it. -/
theorem reread_eq_of_compact_eq {a b : Json} (ha : a.Exact) (hb : b.Exact)
    (h : a.compact = b.compact) : a.reread = b.reread := by
  have hread {v : Json} (hv : v.Exact) (hdepth : v.depth ≤ max a.depth b.depth) :
      value (v.compact.length + 1) (max a.depth b.depth) v.compact = .ok (v.reread, []) :=
    (rereads_value _ 0 hv _ 0 blank_nil (endsValue_blank blank_nil) (Nat.lt_succ_self _)).1 hdepth
  have hra := hread ha (Nat.le_max_left _ _)
  have hrb := hread hb (Nat.le_max_right _ _)
  rw [← h, hra, Except.ok.injEq, Prod.mk.injEq] at hrb
  exact hrb.1

theorem rereadItems_eq_map (vs : List Json) : rereadItems vs = vs.map reread := by
  induction vs with
  | nil => rfl
  | cons v vs ih => rw [rereadItems, ih, List.map_cons]

theorem values_rereadMembers (ms : List (Text × Json)) :
    (rereadMembers ms).map Prod.snd = ms.map fun m => m.2.reread := by
  induction ms with
  | nil => rfl
  | cons m ms ih => rw [rereadMembers, List.map_cons, ih, List.map_cons]

theorem matched_of_reread_eq {a b : Json} (h : a.reread = b.reread) :
    Matched (fun m n => m.reread = n.reread) a b := by
  induction a using Json.induction generalizing b with
  | null =>
    cases b <;> cases h
    exact .null
  | bool p =>
    cases b <;> cases h
    exact .bool p
  | number m =>
    cases b with
    | number n => exact .number (number.inj h)
    | _ => cases h
  | string s =>
    cases b <;> cases h
    exact .string s
  | array as ih =>
    cases b with
    | array bs =>
      have hitems := array.inj h
      rw [rereadItems_eq_map, rereadItems_eq_map] at hitems
      exact .array (forall₂_imp_of_mem (forall₂_of_map_eq hitems) fun v hv w _ hvw => ih v hv hvw)
    | _ => cases h
  | object as ih =>
    cases b with
    | object bs =>
      have hmembers := object.inj h
      have hkeys := congrArg (List.map Prod.fst) hmembers
      have hvalues := congrArg (List.map Prod.snd) hmembers
      rw [keys_rereadMembers, keys_rereadMembers] at hkeys
      rw [values_rereadMembers, values_rereadMembers] at hvalues
      exact .object hkeys
        (forall₂_imp_of_mem (forall₂_of_map_eq hvalues) fun v hv w _ hvw => ih v hv hvw)
    | _ => cases h

theorem itemsOnto_congr {indent depth : Nat} {as bs : List Json}
    (h : List.Forall₂ (fun v w => ∀ tail,
      renderOnto indent depth v tail = renderOnto indent depth w tail) as bs) (tail : Text) :
    itemsOnto indent depth as tail = itemsOnto indent depth bs tail := by
  induction h with
  | nil => rfl
  | cons hvw _ ih => rw [itemsOnto, itemsOnto, hvw, ih]

theorem membersOnto_congr {indent depth : Nat} {as bs : List (Text × Json)}
    (h : List.Forall₂ (fun m n => m.1 = n.1 ∧ ∀ tail,
      renderOnto indent depth m.2 tail = renderOnto indent depth n.2 tail) as bs) (tail : Text) :
    membersOnto indent depth as tail = membersOnto indent depth bs tail := by
  induction h with
  | nil => rfl
  | cons hmn _ ih => rw [membersOnto, membersOnto, hmn.1, hmn.2, ih]

theorem renderOnto_congr {a b : Json} (h : Matched (fun m n => numberText m = numberText n) a b)
    (indent depth : Nat) (tail : Text) :
    renderOnto indent depth a tail = renderOnto indent depth b tail := by
  induction a using Json.induction generalizing b depth tail with
  | null | bool | string =>
    cases h
    rfl
  | number m =>
    cases h with
    | number hmn => rw [renderOnto, renderOnto, hmn]
  | array as ih =>
    cases h with
    | array hitems =>
      have hrender := forall₂_imp_of_mem hitems fun v hv w _ hvw => ih v hv hvw (depth + 1)
      cases hrender with
      | nil => rfl
      | cons hvw hrest => rw [renderOnto, renderOnto, hvw, itemsOnto_congr hrest]
  | object as ih =>
    cases h with
    | object hkeys hmembers =>
      have hvalues := forall₂_imp_of_mem hmembers fun v hv w _ hvw => ih v hv hvw (depth + 1)
      have hrender := List.Forall₂.mp (fun _ _ => And.intro) (forall₂_of_map_eq hkeys) hvalues
      cases hrender with
      | nil => rfl
      | cons hmn hrest => rw [renderOnto, renderOnto, hmn.1, hmn.2, membersOnto_congr hrest]

/-- Texts go through two values side by side and compare the integers they meet. -/
theorem compact_eq_iff_matched {a b : Json} (ha : a.Exact) (hb : b.Exact) :
    a.compact = b.compact ↔ Matched Number.SameInteger a b := by
  constructor
  · intro h
    refine (matched_of_reread_eq (reread_eq_of_compact_eq ha hb h)).imp fun m hm n _ hmn => ?_
    exact Number.sameInteger_of_reread (isInteger_of_mem_numbers ha m hm) hmn
  · intro h
    refine renderOnto_congr (h.imp fun m _ n _ hmn => ?_) 0 0 []
    obtain ⟨z, hm, hn⟩ := hmn
    rw [Number.numberText_of_integer? hm, Number.numberText_of_integer? hn]

/-- Values without binary64 numbers have the same text just when they match up to the kinds of
their integers. They are equal just when they match up to the kinds and to integers of two kinds
that round alike, which are at least `2 ^ 53`. So where no number of one rounds onto a number of the
other, they are equal just when their texts are. -/
theorem same_exact_unless_blurred {a b : Json} (ha : a.Exact) (hb : b.Exact) :
    (a.compact = b.compact ↔ Matched Number.SameInteger a b) ∧
    (a.same b = true ↔ Matched (fun m n => m.SameInteger n ∨ m.Blurred n) a b) ∧
    ((∀ m ∈ a.numbers, ∀ n ∈ b.numbers, ¬ m.Blurred n) →
      (a.same b = true ↔ a.compact = b.compact)) ∧
    ∀ m n, Number.Blurred m n → ∃ y z, m.integer? = some y ∧ n.integer? = some z ∧
      2 ^ 53 ≤ y ∧ 2 ^ 53 ≤ z := by
  have htext := compact_eq_iff_matched ha hb
  have hsame : a.same b = true ↔ Matched (fun m n => m.SameInteger n ∨ m.Blurred n) a b :=
    (same_iff_matched ha hb).trans <| matched_congr fun m hm n hn =>
      Number.same_iff (isInteger_of_mem_numbers ha m hm) (isInteger_of_mem_numbers hb n hn)
  refine ⟨htext, hsame, fun hclear => ?_, fun m n h => h.large⟩
  rw [hsame, htext]
  exact matched_congr fun m hm n hn => or_iff_left (hclear m hm n hn)

def reading (n : Number) : Json :=
  object [("now", array [number n, null]), ("peak", number (.nat 9223372036854775809))]

theorem matched_reading {r : Number → Number → Prop} {m n : Number} (hmn : r m n)
    (hpeak : r (.nat 9223372036854775809) (.nat 9223372036854775809)) :
    Matched r (reading m) (reading n) :=
  .object rfl (.cons (.array (.cons (.number hmn) (.cons .null .nil)))
    (.cons (.number hpeak) .nil))

theorem same_exact_unless_blurred_reading :
    ((reading (.int 9007199254740992)).same (reading (.nat 9007199254740992)) = true ∧
      (reading (.int 9007199254740992)).compact = (reading (.nat 9007199254740992)).compact) ∧
    (reading (.int 9007199254740992)).same (reading (.nat 9007199254740993)) = true ∧
      (reading (.int 9007199254740992)).compact ≠ (reading (.nat 9007199254740993)).compact := by
  have hexact {n : Number} (hn : (number n).Exact) : (reading n).Exact :=
    ⟨List.pairwise_pair.mpr (by decide : Text.before "now" "peak" = true),
      ⟨hn, trivial, trivial⟩, trivial, trivial⟩
  have hpeak : Number.SameInteger (.nat 9223372036854775809) (.nat 9223372036854775809) :=
    ⟨_, rfl, rfl⟩
  obtain ⟨htext, hsame, -, -⟩ := same_exact_unless_blurred
    (hexact (n := .int 9007199254740992) trivial) (hexact (n := .nat 9007199254740992) trivial)
  obtain ⟨htext', hsame', -, -⟩ := same_exact_unless_blurred
    (hexact (n := .int 9007199254740992) trivial) (hexact (n := .nat 9007199254740993) trivial)
  have hequal : Number.SameInteger (.int 9007199254740992) (.nat 9007199254740992) :=
    ⟨9007199254740992, rfl, rfl⟩
  have hblurred : Number.Blurred (.int 9007199254740992) (.nat 9007199254740993) := by
    refine ⟨by decide, by decide, by decide +kernel⟩
  refine ⟨⟨?_, ?_⟩, ?_, by decide +kernel⟩
  · exact hsame.mpr (matched_reading (.inl hequal) (.inl hpeak))
  · exact htext.mpr (matched_reading hequal hpeak)
  · exact hsame'.mpr (matched_reading (.inr hblurred) (.inl hpeak))

/-- Two integers that are read from different texts and are equal. -/
theorem same_not_exact :
    ∃ a b, parse "9223372036854775807" = .ok a ∧ parse "9223372036854775808" = .ok b ∧
      a.Exact ∧ b.Exact ∧ ¬ (a.same b = true ↔ a.compact = b.compact) := by
  refine ⟨number (.int 9223372036854775807), number (.nat 9223372036854775808), rfl, rfl, trivial,
    trivial, ?_⟩
  decide +kernel

end Json

end Bindery
