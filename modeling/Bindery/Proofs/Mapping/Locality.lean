import Bindery.Transfer
import Bindery.Proofs.Mapping.Containment

/-!
What is read of a registry. Mapping a reference, drawing up a signature and working out who owns
what stay inside any set of ids that holds the ids they start from and is closed under the fields of
definitions. So two registries that agree on such a set give the same results, however different
they are outside of it, also in size.
-/

set_option autoImplicit false

namespace Bindery

/-- Equal definitions under the ids of the set, or none in either. -/
def Registry.SameOn (r r' : Registry) (ids : TypeId → Prop) : Prop :=
  ∀ id, ids id → r.find? id = r'.find? id

/-- The set holds every id that a field of a definition in it mentions. -/
def Registry.ClosedUnder (r : Registry) (ids : TypeId → Prop) : Prop :=
  ∀ id, ids id → ∀ t, r.find? id = some t → ∀ f ∈ t.fields, ∀ inner ∈ f.type.ids, ids inner

namespace Mapper

structure AgreeOn (m m' : Mapper) (ids : TypeId → Prop) : Prop where
  tools : SameTools m m'
  same : m.registry.SameOn m'.registry ids
  enabled : ∀ id, ids id → ∀ t, m.registry.find? id = some t → (id ∈ m.enabled ↔ id ∈ m'.enabled)
  closed : m.registry.ClosedUnder ids

namespace AgreeOn

variable {m m' : Mapper} {ids : TypeId → Prop} (h : m.AgreeOn m' ids)
include h

theorem lookup_eq {id : TypeId} (hid : ids id) : m.lookup id = m'.lookup id := by
  funext kind
  unfold lookup
  rw [← h.same id hid]
  cases hfind : m.registry.find? id with
  | none => rfl
  | some t =>
    have henabled : m.enabled.contains id = m'.enabled.contains id := by
      rw [Bool.eq_iff_iff, List.contains_iff_mem, List.contains_iff_mem]
      exact h.enabled id hid t hfind
    simp only [henabled]

theorem layoutWithin_eq {t : TypeDef} (ht : ∀ f ∈ t.fields, ∀ id ∈ f.type.ids, ids id)
    (depth : Nat) (enclosing : List TypeId) :
    m.layoutWithin depth enclosing t = m'.layoutWithin depth enclosing t := by
  induction depth generalizing t enclosing with
  | zero => rfl
  | succ depth ih =>
    rw [layoutWithin_succ, layoutWithin_succ]
    have hfields := layoutFrom_congr (t := t) h.tools
      (fun f hf id hid => h.lookup_eq (ht f hf id hid))
      fun f hf id hid s hs => ih (h.closed id (ht f hf id hid) s (lookup_eq_ok_iff.mp hs).1)
        (t.id :: enclosing)
    rw [hfields]

/-- The bounds on the depth may differ, but neither shows. -/
theorem recordLayout_eq {t : TypeDef} (ht : ∀ f ∈ t.fields, ∀ id ∈ f.type.ids, ids id) :
    m.recordLayout t = m'.recordLayout t := by
  have hdeep : ∀ r : Registry, r.size + 1 ≤ max m.registry.size m'.registry.size + 1 →
      r.DeepEnough (max m.registry.size m'.registry.size + 1) [] t := by
    intro r hsize
    have hroom : r.room [] ≤ r.size := List.length_filter_le _ _
    exact .inl (by omega)
  calc m.recordLayout t
      = m.layoutWithin (max m.registry.size m'.registry.size + 1) [] t :=
        Mapper.layoutWithin_eq (m.registry.deepEnough_start t) (hdeep _ (by omega))
    _ = m'.layoutWithin (max m.registry.size m'.registry.size + 1) [] t :=
        h.layoutWithin_eq ht _ _
    _ = m'.recordLayout t :=
        Mapper.layoutWithin_eq (hdeep _ (by omega)) (m'.registry.deepEnough_start t)

theorem map_eq {ref : TypeRef} (hids : ∀ id ∈ ref.ids, ids id) (position : Position)
    (name : Text) : m.map ref position name = m'.map ref position name := by
  refine mapWith_congr h.tools (fun id hid => h.lookup_eq (hids id hid)) ?_ position name
  intro id hid t ht
  exact h.recordLayout_eq (h.closed id (hids id hid) t (lookup_eq_ok_iff.mp ht).1)

theorem mapIn_eq (context : Text) {ref : TypeRef} (hids : ∀ id ∈ ref.ids, ids id)
    (position : Position) (name : Text) :
    m.mapIn context ref position name = m'.mapIn context ref position name := by
  rw [mapIn, mapIn, h.map_eq hids]

theorem mapReceiver_eq {owner : TypeDef} (hid : ids owner.id) (receiver : Receiver) :
    m.mapReceiver owner receiver = m'.mapReceiver owner receiver := by
  unfold mapReceiver
  cases href : receiverRef owner receiver with
  | error fault => rfl
  | ok ref =>
    cases ref with
    | none => rfl
    | some ref =>
      have hids : ∀ id ∈ ref.ids, ids id := by
        unfold receiverRef at href
        split at href <;> cases href <;> simpa [TypeRef.ids] using hid
      simp only [h.mapIn_eq "self: " hids]

theorem mapParams_eq {params : List Param} (hids : ∀ p ∈ params, ∀ id ∈ p.type.ids, ids id) :
    m.mapParams params = m'.mapParams params := by
  induction params with
  | nil => rfl
  | cons p ps ih =>
    simp only [List.mem_cons, forall_eq_or_imp] at hids
    simp only [mapParams, mapParam, ih hids.2, h.mapIn_eq _ hids.1]

theorem outcomeOf_eq {returns : TypeRef} (hids : ∀ id ∈ returns.ids, ids id) (native : Native) :
    m.outcomeOf returns native = m'.outcomeOf returns native := by
  cases returns with
  | fallible ok err =>
    simp only [TypeRef.ids, List.mem_append] at hids
    simp only [outcomeOf, mapOutcome, h.mapIn_eq _ fun id hid => hids id (.inl hid),
      h.mapIn_eq _ fun id hid => hids id (.inr hid)]
  | _ => rfl

theorem signature_eq {owner : TypeDef} {method : Method} (hid : ids owner.id)
    (hparams : ∀ p ∈ method.params, ∀ id ∈ p.type.ids, ids id)
    (hreturns : ∀ id ∈ method.returns.ids, ids id) :
    m.signature owner method = m'.signature owner method := by
  simp only [signature, h.mapReceiver_eq hid, h.mapParams_eq hparams, h.mapIn_eq _ hreturns,
    h.outcomeOf_eq hreturns, h.tools.pointerWidth]

end AgreeOn

end Mapper

namespace Registry

variable {r r' : Registry} {ids : TypeId → Prop}

theorem ids_underNullable (ref : TypeRef) : ref.underNullable.ids = ref.ids := by
  cases ref <;> rfl

theorem holdsBorrowWithin_of_mem {enclosing : List TypeId} {id : TypeId} (r : Registry)
    (depth : Nat) (h : id ∈ enclosing) : r.holdsBorrowWithin depth enclosing id = false := by
  cases depth with
  | zero => rfl
  | succ depth =>
    rw [holdsBorrowWithin]
    cases r.find? id with
    | none => rfl
    | some t => simp [h]

theorem holdsBorrowWithin_eq {depth depth' : Nat} {enclosing : List TypeId}
    (h : r.room enclosing ≤ depth) (h' : r.room enclosing ≤ depth') (id : TypeId) :
    r.holdsBorrowWithin depth enclosing id = r.holdsBorrowWithin depth' enclosing id := by
  induction depth generalizing depth' enclosing id with
  | zero =>
    cases depth' with
    | zero => rfl
    | succ depth' =>
      rw [holdsBorrowWithin, holdsBorrowWithin]
      cases hfind : r.find? id with
      | none => rfl
      | some t =>
        -- there is no room, so the type has been entered before
        have hmem : t.id ∈ enclosing := DeepEnough.mem_enclosing (.inr ⟨mem_of_find? hfind, h⟩)
        rw [id_of_find? hfind] at hmem
        simp [hmem]
  | succ depth ih =>
    by_cases hagain : id ∈ enclosing
    · rw [holdsBorrowWithin_of_mem r _ hagain, holdsBorrowWithin_of_mem r _ hagain]
    · cases hfind : r.find? id with
      | none => cases depth' <;> simp [holdsBorrowWithin, hfind]
      | some t =>
        have hroom := room_cons_lt (mem_of_find? hfind) (id_of_find? hfind ▸ hagain)
        rw [id_of_find? hfind] at hroom
        cases depth' with
        | zero => omega
        | succ depth' =>
          have hinner : ∀ inner, r.holdsBorrowWithin depth (id :: enclosing) inner =
              r.holdsBorrowWithin depth' (id :: enclosing) inner := ih (by omega) (by omega)
          simp only [holdsBorrowWithin, hfind, hinner]

theorem holdsBorrowWithin_congr (hsame : r.SameOn r' ids) (hclosed : r.ClosedUnder ids)
    {id : TypeId} (hid : ids id) (depth : Nat) (enclosing : List TypeId) :
    r.holdsBorrowWithin depth enclosing id = r'.holdsBorrowWithin depth enclosing id := by
  induction depth generalizing id enclosing with
  | zero => rfl
  | succ depth ih =>
    rw [holdsBorrowWithin, holdsBorrowWithin, ← hsame id hid]
    cases hfind : r.find? id with
    | none => rfl
    | some t =>
      have hids : ∀ f ∈ t.fields, ∀ inner ∈ f.type.underNullable.ids, ids inner := by
        intro f hf inner hinner
        rw [ids_underNullable] at hinner
        exact hclosed id hid t hfind f hf inner hinner
      dsimp only
      congr 1
      rw [Bool.eq_iff_iff, List.any_eq_true, List.any_eq_true]
      refine exists_congr fun f => and_congr_right fun hf => ?_
      cases href : f.type.underNullable with
      | record inner byRef =>
        have hinner := hids f hf inner (by simp [href, TypeRef.ids])
        simp only [ih hinner]
      | _ => simp

theorem holdsBorrow_congr (hsame : r.SameOn r' ids) (hclosed : r.ClosedUnder ids) {id : TypeId}
    (hid : ids id) : r.holdsBorrow id = r'.holdsBorrow id := by
  have hroom : ∀ r : Registry, r.room [] ≤ r.size := fun r => List.length_filter_le _ _
  have hroom₁ := hroom r
  have hroom₂ := hroom r'
  calc r.holdsBorrow id
      = r.holdsBorrowWithin (max r.size r'.size) [] id :=
        holdsBorrowWithin_eq (by omega) (by omega) id
    _ = r'.holdsBorrowWithin (max r.size r'.size) [] id :=
        holdsBorrowWithin_congr hsame hclosed hid _ _
    _ = r'.holdsBorrow id := holdsBorrowWithin_eq (by omega) (by omega) id

theorem outputTransfer_congr (hsame : r.SameOn r' ids) (hclosed : r.ClosedUnder ids)
    {ref : TypeRef} (hids : ∀ id ∈ ref.ids, ids id) :
    r.outputTransfer ref = r'.outputTransfer ref := by
  induction ref with
  | object id ownership isMutable => cases ownership <;> rfl
  | record id byRef =>
    have hid := hids id (by simp [TypeRef.ids])
    rw [outputTransfer, outputTransfer, holdsBorrow_congr hsame hclosed hid]
  | nullable inner ih => exact ih hids
  | _ => rfl

theorem planTransfers_congr (hsame : r.SameOn r' ids) (hclosed : r.ClosedUnder ids)
    {method : Method} (hids : ∀ id ∈ method.returns.ids, ids id) (owner : TypeDef) :
    r.planTransfers owner method = r'.planTransfers owner method := by
  have houtput : ∀ ref : TypeRef, (∀ id ∈ ref.ids, ids id) → ∀ borrowed what,
      r.output borrowed what ref = r'.output borrowed what ref := by
    intro ref href borrowed what
    simp only [output, outputTransfer_congr hsame hclosed href]
  have hplan : r.planOutputs (inputsOf owner method) method.returns =
      r'.planOutputs (inputsOf owner method) method.returns := by
    cases hreturns : method.returns with
    | fallible ok err =>
      rw [hreturns] at hids
      simp only [TypeRef.ids, List.mem_append] at hids
      simp only [planOutputs, houtput ok fun id hid => hids id (.inl hid),
        houtput err fun id hid => hids id (.inr hid)]
    | _ =>
      rw [hreturns] at hids
      simp only [planOutputs, houtput _ hids]
  rw [planTransfers, planTransfers, hplan]

end Registry

end Bindery
