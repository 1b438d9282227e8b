import Bindery.Proofs.Generation.Locality
import Bindery.Proofs.Mapping.Signatures

/-!
The types a plan refers to are enabled types of the registry, since a reference to any other one
cannot be mapped; and the table of names has an entry for each of them.
-/

set_option autoImplicit false

namespace Bindery

/-- The id stands for an enabled type. -/
def Mapper.Knows (m : Mapper) (id : TypeId) : Prop :=
  ∃ t, m.registry.find? id = some t ∧ id ∈ m.enabled

namespace Mapper

variable {m : Mapper} {layoutOf : TypeDef → Except MapFault Layout}

theorem Resolves.knows {id : TypeId} {kind : Kind} {t : TypeDef} (h : m.Resolves id kind t) :
    m.Knows id := ⟨t, h.1, h.2.1⟩

theorem mapWith_knows {ref : TypeRef} {position : Position} {name : Text} {mapped : Mapped}
    (h : m.mapWith layoutOf ref position name = .ok mapped) : ∀ id ∈ ref.ids, m.Knows id := by
  induction ref generalizing position name mapped with
  | unit | primitive | slice | writeable => exact List.forall_mem_nil _
  | object id ownership isMutable =>
    obtain ⟨t, native, ht, -, -, -⟩ := mapObject_eq_ok_iff.mp h
    exact List.forall_mem_singleton.mpr ht.knows
  | record id byRef =>
    obtain ⟨t, layout, native, ht, -, -, -, -⟩ := mapRecord_eq_ok_iff.mp h
    exact List.forall_mem_singleton.mpr ht.knows
  | enumeration id =>
    obtain ⟨t, ht, -, -⟩ := mapEnumeration_eq_ok_iff.mp h
    exact List.forall_mem_singleton.mpr ht.knows
  | nullable inner ih =>
    obtain ⟨-, value, native, hvalue, -, -⟩ := mapWith_nullable_eq_ok_iff.mp h
    exact ih hvalue
  | fallible ok err ihOk ihErr =>
    obtain ⟨-, -, okValue, errValue, native, hok, herr, -, -⟩ := mapWith_fallible_eq_ok_iff.mp h
    exact List.forall_mem_append.mpr ⟨ihOk hok, ihErr herr⟩

theorem signature_knows {owner : TypeDef} {method : Method} {s : Signature}
    (h : m.signature owner method = .ok s) :
    (∀ p ∈ method.params, ∀ id ∈ p.type.ids, m.Knows id) ∧
      ∀ id ∈ method.returns.ids, m.Knows id := by
  obtain ⟨-, hdeclared, hreturns⟩ := signature_eq_ok h
  have hparams := (mapParams_eq_ok_iff.mp hdeclared).imp fun p x hx =>
    (⟨mapWith_knows hx.2, hx⟩ : (∀ id ∈ p.type.ids, m.Knows id) ∧ _)
  exact ⟨((List.forall₂_and_left _ _).mp hparams).1, mapWith_knows hreturns⟩

end Mapper

section
variable {c : Context} {t : TypeDef}

theorem draftType_knows (ht : c.mapper.Knows t.id) :
    (draftType c t).plan.RefersWithin c.mapper.Knows :=
  refersWithin_of_members ht (fun _ hp => Mapper.mapWith_knows (mem_planDefinition hp).2)
    (fun _ hp => (Mapper.signature_knows (mem_draftType_methods hp).2).1)
    fun _ hp => (Mapper.signature_knows (mem_draftType_methods hp).2).2

end

section
variable {r : Registry} {target : Target} {o : Options} {enabled : List TypeId} {id : TypeId}

/-- The entry of an enabled type; no other id has one. -/
theorem find?_nameTable (hr : r.WellFormed) (target : Target) (enabled : List TypeId)
    (id : TypeId) :
    (nameTable target (enabledTypes r enabled)).find? id =
      (r.find? id).bind fun t =>
        if enabled.contains t.id then some (nameEntry target t) else none := by
  rw [NameTable.find?, nameTable_entries hr, enabledTypes, lookup_table hr]

theorem find?_nameTable_of_enabled (hr : r.WellFormed) {t : TypeDef} (ht : r.find? id = some t)
    (he : id ∈ enabled) :
    (nameTable target (enabledTypes r enabled)).find? id = some (nameEntry target t) := by
  have hid := Registry.id_of_find? ht
  rw [find?_nameTable hr, ht, Option.bind_some, if_pos]
  simpa [hid] using he

theorem name_of_enabled (hr : r.WellFormed) {t : TypeDef} (ht : r.find? id = some t)
    (he : id ∈ enabled) : (contextOf r target o enabled).names.name id = t.name := by
  show ((nameTable target (enabledTypes r enabled)).find? id |>.map NameEntry.name).getD [] = _
  rw [find?_nameTable_of_enabled hr ht he]
  rfl

end

end Bindery
