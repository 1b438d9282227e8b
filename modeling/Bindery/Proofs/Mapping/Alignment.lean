import Bindery.Proofs.Layout.Placement
import Bindery.Proofs.Mapping.Sizes

/-!
Mapped values are laid out by the rules of C. Nested in whatever way, their alignments are those of
scalars, their sizes are multiples of them, and no value but that of unit takes no room.
-/

set_option autoImplicit false

namespace Bindery

namespace ExactLayout

/-- The size is a multiple of the alignment, so such values can stand one behind the other. -/
def Padded (l : ExactLayout) : Prop := l.align ∣ l.size

theorem record_padded (members : List ExactLayout) : (record members).Padded := by
  unfold record finish
  split_ifs
  · exact Nat.one_dvd _
  · exact dvd_roundUp _ _

theorem record_size_pos {members : List ExactLayout} (h : ∀ m ∈ members, m.Regular) :
    0 < (record members).size := by
  have hplaced := foldl_add_regular regular_empty h
  unfold record finish
  split_ifs with hzero
  · exact Nat.one_pos
  · exact Nat.lt_of_lt_of_le (Nat.pos_of_ne_zero hzero) (le_roundUp hplaced.pos _)

theorem result_padded (payloads : List ExactLayout) : (result payloads).Padded := by
  cases payloads <;> exact record_padded _

theorem result_size_pos {payloads : List ExactLayout} (h : ∀ l ∈ payloads, l.Regular) :
    0 < (result payloads).size := by
  cases payloads with
  | nil => exact record_size_pos (by simp [regular_flag])
  | cons => exact record_size_pos (regular_pair (union_regular h))

theorem ofPrimitive_padded (p : Primitive) (bytes : Nat) : (ofPrimitive p bytes).Padded := by
  cases p <;> exact Nat.dvd_refl _

theorem ofRef_padded (bytes : Nat) {recordOf : TypeId → ExactLayout}
    (hrecord : ∀ id, (recordOf id).Padded) (ref : TypeRef) : (ofRef bytes recordOf ref).Padded := by
  induction ref with
  | unit => exact Nat.one_dvd _
  | primitive p => exact ofPrimitive_padded p bytes
  | object => exact Nat.dvd_refl _
  | record id byRef =>
    cases byRef with
    | true => exact Nat.dvd_refl _
    | false => exact hrecord id
  | enumeration => exact Nat.dvd_refl _
  | slice => exact record_padded _
  | writeable => exact Nat.dvd_refl _
  | nullable inner ih =>
    rw [ofRef]
    split_ifs
    · exact ih
    · exact record_padded _
  | fallible => exact result_padded _

section
variable {bytes : Nat} (hbytes : bytes = 4 ∨ bytes = 8) {recordOf : TypeId → ExactLayout}
include hbytes

theorem pointer_size_pos : 0 < (pointer bytes).size := by
  show 0 < bytes
  omega

theorem ofPrimitive_size_pos (p : Primitive) : 0 < (ofPrimitive p bytes).size := by
  cases p with
  | isize | usize => exact pointer_size_pos hbytes
  | _ => exact Nat.succ_pos _

theorem slice_size_pos : 0 < (slice bytes).size :=
  record_size_pos (by simpa using regular_pointer hbytes)

theorem ofRef_size_pos_of_hasNull {ref : TypeRef} (h : ref.hasNull = true) :
    0 < (ofRef bytes recordOf ref).size := by
  induction ref with
  | object => exact pointer_size_pos hbytes
  | slice => exact slice_size_pos hbytes
  | nullable inner ih =>
    have hinner : inner.hasNull = true := by
      rw [TypeRef.hasNull, TypeRef.nativeKind] at h
      rw [TypeRef.hasNull]
      cases hkind : inner.nativeKind <;> simp_all
    rw [ofRef, if_pos hinner]
    exact ih hinner
  | record id byRef => cases byRef <;> simp [TypeRef.hasNull, TypeRef.nativeKind] at h
  | _ => simp [TypeRef.hasNull, TypeRef.nativeKind] at h

/-- Only unit takes no room, the records that are held by value taking some. -/
theorem ofRef_size_pos (hregular : ∀ id, (recordOf id).Regular) {ref : TypeRef}
    (hunit : ref ≠ .unit) (hrecord : ∀ id, ref = .record id false → 0 < (recordOf id).size) :
    0 < (ofRef bytes recordOf ref).size := by
  have hofRef := ofRef_regular hbytes hregular
  cases ref with
  | unit => exact absurd rfl hunit
  | primitive p => exact ofPrimitive_size_pos hbytes p
  | object => exact pointer_size_pos hbytes
  | record id byRef =>
    cases byRef with
    | true => exact pointer_size_pos hbytes
    | false => exact hrecord id rfl
  | enumeration => exact Nat.succ_pos _
  | slice => exact slice_size_pos hbytes
  | writeable => exact pointer_size_pos hbytes
  | nullable inner =>
    -- where nothing tells the null value apart, a flag does
    rw [ofRef]
    split_ifs with hnull
    · exact ofRef_size_pos_of_hasNull hbytes hnull
    · exact record_size_pos (regular_pair (hofRef inner))
  | fallible ok err =>
    refine result_size_pos fun l hl => ?_
    rcases mem_payloads hl with rfl | rfl
    · exact hofRef ok
    · exact hofRef err

end

end ExactLayout

namespace Registry

variable (r : Registry)

theorem exactRecord_padded (bytes depth : Nat) (id : TypeId) :
    (r.exactRecord bytes depth id).Padded := by
  cases depth with
  | zero => exact Nat.one_dvd _
  | succ depth =>
    rw [exactRecord]
    split
    · exact Nat.one_dvd _
    · exact ExactLayout.record_padded _

theorem exactLayout_padded (bytes : Nat) (ref : TypeRef) : (r.exactLayout bytes ref).Padded :=
  ExactLayout.ofRef_padded bytes (r.exactRecord_padded bytes _) ref

theorem exactLayout_regular {bytes : Nat} (hbytes : bytes = 4 ∨ bytes = 8) (ref : TypeRef) :
    (r.exactLayout bytes ref).Regular :=
  ExactLayout.ofRef_regular hbytes (r.exactRecord_regular hbytes _) ref

def exactFields (bytes : Nat) (t : TypeDef) : ExactLayout :=
  .record (t.fields.map fun f => r.exactLayout bytes f.type)

theorem fields_regular {bytes : Nat} (hbytes : bytes = 4 ∨ bytes = 8) (t : TypeDef) :
    ∀ l ∈ t.fields.map fun f => r.exactLayout bytes f.type, l.Regular := by
  intro l hl
  obtain ⟨f, -, rfl⟩ := List.mem_map.mp hl
  exact r.exactLayout_regular hbytes f.type

theorem exactRecord_size_pos {bytes : Nat} (hbytes : bytes = 4 ∨ bytes = 8) {depth : Nat}
    {id : TypeId} {t : TypeDef} (h : r.find? id = some t) :
    0 < (r.exactRecord bytes (depth + 1) id).size := by
  rw [exactRecord, h]
  refine ExactLayout.record_size_pos fun l hl => ?_
  obtain ⟨f, -, rfl⟩ := List.mem_map.mp hl
  exact ExactLayout.ofRef_regular hbytes (r.exactRecord_regular hbytes depth) f.type

end Registry

namespace Layout

/-- The alignment is that of a scalar, and the size is a multiple of it. -/
structure Proper (l : Layout) : Prop where
  align : l.align = 1 ∨ l.align = 2 ∨ l.align = 4 ∨ l.align = 8
  dvd : l.align.toNat ∣ l.size.toNat

theorem Holds.proper {l : Layout} {e : ExactLayout} (h : l.Holds e) (hregular : e.Regular)
    (hpadded : e.Padded) : l.Proper := by
  refine ⟨?_, ?_⟩
  · simp only [← UInt64.toNat_inj, h.2]
    exact hregular
  · rw [h.1, h.2]
    exact hpadded

end Layout

namespace Mapper

variable {m : Mapper} {bytes : Nat} (hm : m.PointerBytes bytes)
include hm

theorem map_proper {ref : TypeRef} {position : Position} {name : Text} {mapped : Mapped}
    (h : m.map ref position name = .ok mapped)
    (hfits : (m.registry.exactLayout bytes ref).size < 2 ^ 64) :
    mapped.native.layout.Proper ∧ (ref ≠ .unit → 1 ≤ mapped.native.layout.size.toNat) := by
  have hholds := map_holds hm h hfits
  refine ⟨hholds.proper (m.registry.exactLayout_regular hm.size ref)
    (m.registry.exactLayout_padded bytes ref), fun hunit => ?_⟩
  rw [hholds.1]
  refine ExactLayout.ofRef_size_pos hm.size (m.registry.exactRecord_regular hm.size _) hunit ?_
  -- a record that is held by value was found in the registry, or it would not have been mapped
  rintro id rfl
  obtain ⟨t, -, -, hresolves, -⟩ := mapRecord_eq_ok_iff.mp h
  exact m.registry.exactRecord_size_pos hm.size hresolves.1

/-- The layout of a record is that of its fields, each mapped on its own. -/
theorem recordLayout_holds {t : TypeDef} {l : Layout} (h : m.recordLayout t = .ok l)
    (hfits : (m.registry.exactFields bytes t).size < 2 ^ 64) :
    l.Holds (m.registry.exactFields bytes t) := by
  obtain ⟨mapped, hmapped, rfl⟩ := layoutFrom_eq_ok_iff.mp (layoutFrom_recordLayout h)
  have hregular := m.registry.fields_regular hm.size t
  have hsizes : ∀ f ∈ t.fields, (m.registry.exactLayout bytes f.type).size < 2 ^ 64 := fun f hf =>
    Nat.lt_of_le_of_lt
      (ExactLayout.member_size_le_record hregular (List.mem_map_of_mem hf)) hfits
  refine Layout.record_holds ?_ hregular hfits
  rw [List.forall₂_map_left_iff, List.forall₂_map_right_iff]
  refine (((List.forall₂_and_left _ _).mpr ⟨hsizes, hmapped⟩).imp ?_).flip
  rintro f x ⟨hsize, hx⟩
  exact map_holds hm hx hsize

theorem recordLayout_proper {t : TypeDef} {l : Layout} (h : m.recordLayout t = .ok l)
    (hfits : (m.registry.exactFields bytes t).size < 2 ^ 64) :
    l.Proper ∧ 1 ≤ l.size.toNat := by
  have hholds := recordLayout_holds hm h hfits
  have hregular := m.registry.fields_regular hm.size t
  refine ⟨hholds.proper (ExactLayout.record_regular hregular) (ExactLayout.record_padded _), ?_⟩
  rw [hholds.1]
  exact ExactLayout.record_size_pos hregular

end Mapper

/-- Records and unions are laid out by the rules of C as long as the numbers on the way fit a word;
where every alignment is a power of two, it is enough that the members end below the limit. So what
a mapper lays out has the alignment of a scalar and a size that is a multiple of it, and takes room
unless it is unit. -/
theorem layouts_follow_rules :
    (∀ members : List Layout, (∀ m ∈ members, 1 ≤ m.align.toNat) →
      (∀ n ∈ ExactLayout.placing ⟨0, 1⟩ (members.map Layout.exact), n < 2 ^ 64) →
      ∃ last, Layout.IsRecord members (Layout.Running.empty.offsets members) last
        (Layout.record members)) ∧
    (∀ members : List Layout, (∀ m ∈ members, m.align.toNat ∣ 2 ^ 64) →
      ((members.map Layout.exact).foldl ExactLayout.add ⟨0, 1⟩).size < 2 ^ 64 →
      ∀ n ∈ ExactLayout.placing ⟨0, 1⟩ (members.map Layout.exact), n < 2 ^ 64) ∧
    (∀ members : List Layout, Layout.IsUnion members (Layout.union members)) ∧
    ∀ (m : Mapper) (bytes : Nat), m.PointerBytes bytes →
      (∀ ref position name mapped, m.map ref position name = .ok mapped →
        (m.registry.exactLayout bytes ref).size < 2 ^ 64 →
        mapped.native.layout.Proper ∧ (ref ≠ .unit → 1 ≤ mapped.native.layout.size.toNat)) ∧
      ∀ t l, m.recordLayout t = .ok l → (m.registry.exactFields bytes t).size < 2 ^ 64 →
        l.Proper ∧ 1 ≤ l.size.toNat := by
  refine ⟨fun members hpos hfits => ⟨_, Layout.isRecord_record hpos hfits⟩, ?_,
    Layout.isUnion_union, fun m bytes hm => ⟨?_, ?_⟩⟩
  · intro members hdvd hend
    refine ExactLayout.placing_lt ?_ ?_ hend <;> rw [List.forall_mem_map]
    · exact fun m hm => Nat.pos_of_dvd_of_pos (hdvd m hm) (by decide)
    · exact hdvd
  · intro ref position name mapped h hfits
    exact Mapper.map_proper hm h hfits
  · intro t l h hfits
    exact Mapper.recordLayout_proper hm h hfits

namespace Freight

def label : TypeDef :=
  ⟨1, "Label", [], [], .record [⟨"lane", [], .primitive .u16⟩, ⟨"fee", [], .primitive .u32⟩] []⟩

def crate : TypeDef :=
  ⟨2, "Crate", [], [], .record [⟨"grade", [], .primitive .u8⟩,
    ⟨"label", [], .nullable (.record 1 false)⟩, ⟨"weight", [], .primitive .u64⟩] []⟩

def mapper : Mapper := ⟨⟨"freight", [label, crate]⟩, [1, 2], .cpp, .full, 64⟩

end Freight

theorem layouts_follow_rules_freight :
    (∃ last, Layout.IsRecord [⟨1, 1⟩, ⟨4, 3⟩, ⟨8, 8⟩] [0, 3, 8] last ⟨16, 8⟩) ∧
    (∃ last, Layout.IsRecord [⟨1, 1⟩, ⟨12, 4⟩, ⟨8, 8⟩] [0, 4, 16] last ⟨24, 8⟩) ∧
    Layout.IsUnion [⟨1, 1⟩, ⟨4, 3⟩] ⟨6, 3⟩ ∧
    (∃ mapped, Freight.mapper.map (.fallible (.record 2 false) .unit) .result "R" = .ok mapped ∧
      mapped.native.layout = ⟨32, 8⟩ ∧ mapped.native.layout.Proper) ∧
    ∃ l, Freight.mapper.recordLayout Freight.crate = .ok l ∧ l = ⟨24, 8⟩ ∧ l.Proper := by
  obtain ⟨hrecord, hfits, hunion, hmapper⟩ := layouts_follow_rules
  obtain ⟨hmap, hlayout⟩ := hmapper Freight.mapper 8 ⟨.inr rfl, rfl⟩
  obtain ⟨mapped, hmapped, heq⟩ : ∃ mapped,
      Freight.mapper.map (.fallible (.record 2 false) .unit) .result "R" = .ok mapped ∧
        mapped.native.layout = ⟨32, 8⟩ := ⟨_, rfl, rfl⟩
  refine ⟨?_, ?_, ?_, ⟨mapped, hmapped, heq, ?_⟩, ⟨24, 8⟩, rfl, rfl, ?_⟩
  · exact hrecord [⟨1, 1⟩, ⟨4, 3⟩, ⟨8, 8⟩] (by decide) (by decide)
  · exact hrecord [⟨1, 1⟩, ⟨12, 4⟩, ⟨8, 8⟩] (by decide) (hfits _ (by decide) (by decide))
  · exact hunion [⟨1, 1⟩, ⟨4, 3⟩]
  · exact (hmap _ _ _ _ hmapped (by decide)).1
  · exact (hlayout Freight.crate _ rfl (by decide)).1

end Bindery
