import Bindery.Proofs.Mapping.Signatures
import Bindery.Proofs.Mapping.Success
import Bindery.Proofs.Transfer.Borrowing

/-!
What the plan of a call says. A plan is refused exactly if something borrowed is handed out and
nothing borrowed was handed in. For handles it says the same as the types in both languages: what is
moved or adopted is held by a smart pointer, and what is only looked at is behind a pointer to a
constant.
-/

set_option autoImplicit false

namespace Bindery

/-- What a return hands out: the sides of a fallible one, any other as a whole. -/
def TypeRef.outputs : TypeRef → List TypeRef
  | .fallible ok err => [ok, err]
  | ref => [ref]

theorem TypeRef.outputs_of_not_fallible {ref : TypeRef} (h : ∀ ok err, ref ≠ .fallible ok err) :
    ref.outputs = [ref] := by
  cases ref with
  | fallible ok err => exact absurd rfl (h ok err)
  | _ => rfl

/-- The object that a handle leads to, nullable or not. -/
def TypeRef.handle? (ref : TypeRef) : Option TypeId :=
  match ref.underNullable with
  | .object id _ _ => some id
  | _ => none

theorem TypeRef.handle?_eq_some_iff {ref : TypeRef} {id : TypeId} :
    ref.handle? = some id ↔
      ∃ ownership isMutable, ref.underNullable = .object id ownership isMutable := by
  unfold handle?
  cases ref.underNullable <;> simp

def TransferPlan.outputs (p : TransferPlan) : List OutputTransfer :=
  match p.sides with
  | some (ok, err) => [ok, err]
  | none => [p.returns]

def Signature.outputs (s : Signature) : List Mapped :=
  match s.outcome with
  | some o => [o.ok, o.err]
  | none => [s.returns]

theorem Transfer.ofInput_underNullable (ref : TypeRef) :
    ofInput ref.underNullable = ofInput ref := by
  cases ref <;> rfl

namespace Registry

variable {r : Registry} {owner : TypeDef} {method : Method}

theorem outputTransfer_underNullable (ref : TypeRef) :
    r.outputTransfer ref.underNullable = r.outputTransfer ref := by
  cases ref <;> rfl

/-- The value shows memory of another owner: a borrowed object, a slice, or a record with a handle
somewhere inside. -/
def Lends (r : Registry) : TypeRef → Prop
  | .object _ ownership _ => ownership = .borrowed
  | .record id _ => r.ReachesHandle id
  | .slice _ _ => True
  | .nullable inner => r.Lends inner
  | _ => False

theorem outputTransfer_eq_borrow_iff (ref : TypeRef) :
    r.outputTransfer ref = .borrow ↔ r.Lends ref := by
  induction ref with
  | object id ownership isMutable => cases ownership <;> simp [outputTransfer, Lends]
  | record id byRef =>
    rw [outputTransfer, Lends, ← holdsBorrow_eq_true_iff]
    cases r.holdsBorrow id <;> simp
  | nullable inner ih => exact ih
  | _ => simp [outputTransfer, Lends]

def outputFrom (r : Registry) (borrowed : List Text) (ref : TypeRef) : OutputTransfer :=
  ⟨r.outputTransfer ref, if r.outputTransfer ref = .borrow then borrowed else []⟩

def planFrom (r : Registry) (inputs : List InputTransfer) : TypeRef → TransferPlan
  | .fallible ok err =>
    ⟨inputs, .nothing,
      some (r.outputFrom (borrowedNames inputs) ok, r.outputFrom (borrowedNames inputs) err)⟩
  | ref => ⟨inputs, r.outputFrom (borrowedNames inputs) ref, none⟩

theorem planFrom_inputs (inputs : List InputTransfer) (returns : TypeRef) :
    (r.planFrom inputs returns).inputs = inputs := by
  cases returns <;> rfl

theorem planFrom_outputs (inputs : List InputTransfer) (returns : TypeRef) :
    (r.planFrom inputs returns).outputs =
      returns.outputs.map (r.outputFrom (borrowedNames inputs)) := by
  cases returns <;> rfl

/-- A borrowed output is refused where nothing is borrowed, and only there. -/
theorem output_cases (r : Registry) (borrowed : List Text) (what : Text) (ref : TypeRef) :
    (¬ (r.outputTransfer ref = .borrow → borrowed ≠ []) ∧
      ∃ message, r.output borrowed what ref = .error message) ∨
    (r.outputTransfer ref = .borrow → borrowed ≠ []) ∧
      r.output borrowed what ref = .ok (r.outputFrom borrowed ref) := by
  unfold output outputFrom
  dsimp only
  by_cases hborrow : r.outputTransfer ref = .borrow
  · cases borrowed with
    | nil => exact .inl ⟨fun h => h hborrow rfl, by simp [hborrow]⟩
    | cons name names => exact .inr ⟨by simp, by simp [hborrow]⟩
  · exact .inr ⟨fun h => absurd h hborrow, by simp [hborrow]⟩

theorem planOutputs_whole_iff {inputs : List InputTransfer} {ref : TypeRef} {p : TransferPlan}
    (hwhole : ∀ ok err, ref ≠ .fallible ok err) :
    r.planOutputs inputs ref = .ok p ↔
      (r.outputTransfer ref = .borrow → borrowedNames inputs ≠ []) ∧
        p = ⟨inputs, r.outputFrom (borrowedNames inputs) ref, none⟩ := by
  rw [planOutputs]
  swap
  · exact hwhole
  rcases r.output_cases (borrowedNames inputs) "the return value" ref with
    ⟨hrefused, message, h⟩ | ⟨hneeds, h⟩
  · simp only [h]
    exact iff_of_false (by simp) fun hall => hrefused hall.1
  · simp only [h, Except.ok.injEq]
    rw [and_iff_right hneeds]
    exact eq_comm

theorem planOutputs_fallible_iff {inputs : List InputTransfer} {ok err : TypeRef}
    {p : TransferPlan} :
    r.planOutputs inputs (.fallible ok err) = .ok p ↔
      ((r.outputTransfer ok = .borrow → borrowedNames inputs ≠ []) ∧
        (r.outputTransfer err = .borrow → borrowedNames inputs ≠ [])) ∧
      p = ⟨inputs, .nothing, some (r.outputFrom (borrowedNames inputs) ok,
        r.outputFrom (borrowedNames inputs) err)⟩ := by
  rw [planOutputs]
  rcases r.output_cases (borrowedNames inputs) "the success value" ok with
    ⟨hrefused, message, h⟩ | ⟨hneeds, h⟩
  · simp only [h]
    exact iff_of_false (by simp) fun hall => hrefused hall.1.1
  · rcases r.output_cases (borrowedNames inputs) "the error value" err with
      ⟨hrefused, message, h'⟩ | ⟨hneeds', h'⟩
    · simp only [h, h']
      exact iff_of_false (by simp) fun hall => hrefused hall.1.2
    · simp only [h, h', Except.ok.injEq]
      rw [and_iff_right ⟨hneeds, hneeds'⟩]
      exact eq_comm

theorem planOutputs_eq_ok_iff {inputs : List InputTransfer} {returns : TypeRef}
    {p : TransferPlan} :
    r.planOutputs inputs returns = .ok p ↔
      (∀ ref ∈ returns.outputs, r.outputTransfer ref = .borrow → borrowedNames inputs ≠ []) ∧
        p = r.planFrom inputs returns := by
  cases returns with
  | fallible ok err =>
    rw [planOutputs_fallible_iff, TypeRef.outputs, planFrom, List.forall_mem_cons,
      List.forall_mem_singleton]
  | _ =>
    rw [planOutputs_whole_iff (by simp), TypeRef.outputs, planFrom, List.forall_mem_singleton]
    all_goals simp

theorem planTransfers_eq_ok_iff {p : TransferPlan} :
    r.planTransfers owner method = .ok p ↔
      (∀ ref ∈ method.returns.outputs, r.outputTransfer ref = .borrow →
        borrowedNames (inputsOf owner method) ≠ []) ∧
      p = r.planFrom (inputsOf owner method) method.returns := by
  rw [← planOutputs_eq_ok_iff]
  unfold planTransfers
  cases r.planOutputs (inputsOf owner method) method.returns <;> simp

theorem borrowedNames_eq_nil_iff {inputs : List InputTransfer} :
    borrowedNames inputs = [] ↔
      ∀ i ∈ inputs, i.transfer ≠ .borrow ∧ i.transfer ≠ .borrowMut := by
  rw [borrowedNames, List.map_eq_nil_iff, List.filter_eq_nil_iff]
  refine forall₂_congr fun i _ => ?_
  cases i.transfer <;> simp [Transfer.isBorrow]

theorem planTransfers_isError_iff : (∃ d, r.planTransfers owner method = .error d) ↔
    (∃ ref ∈ method.returns.outputs, r.outputTransfer ref = .borrow) ∧
      ∀ i ∈ inputsOf owner method, i.transfer ≠ .borrow ∧ i.transfer ≠ .borrowMut := by
  have hok : (∃ d, r.planTransfers owner method = .error d) ↔
      ¬ ∃ p, r.planTransfers owner method = .ok p := by
    cases r.planTransfers owner method <;> simp
  rw [hok, ← borrowedNames_eq_nil_iff]
  simp only [planTransfers_eq_ok_iff, exists_and_left, exists_eq, and_true]
  push Not
  constructor
  · rintro ⟨ref, hmem, hborrow, hnone⟩
    exact ⟨⟨ref, hmem, hborrow⟩, hnone⟩
  · rintro ⟨⟨ref, hmem, hborrow⟩, hnone⟩
    exact ⟨ref, hmem, hborrow, hnone⟩

theorem receiverInput_eq {receiver : Receiver} {self : Option TypeRef}
    (h : Mapper.receiverRef owner receiver = .ok self) :
    receiverInput owner receiver = self.map fun ref => ⟨selfParam, .ofInput ref⟩ := by
  unfold Mapper.receiverRef at h
  cases receiver <;> cases hkind : owner.kind <;> simp_all [receiverInput] <;>
    simp [← h, Transfer.ofInput]

end Registry

def uniquePointer (name : Text) : Text := "std::unique_ptr<" ++ name ++ ">"

def constPointer (name : Text) : Text := "const " ++ name ++ "*"

def plainPointer (name : Text) : Text := name ++ "*"

theorem object_eq_uniquePointer_iff {name : Text} {ownership : Ownership} {isMutable : Bool}
    {position : Position} {native : Native} :
    Dialect.cpp.object name ownership isMutable position native = uniquePointer name ↔
      ownership = .owned := by
  cases ownership with
  | owned => exact iff_of_true rfl rfl
  | borrowed =>
    refine iff_of_false (fun h => ?_) (by simp)
    -- references and pointers do not end in an angle bracket
    have hlast := (List.append_inj' h (by split_ifs <;> rfl)).2
    split_ifs at hlast <;> exact absurd hlast (by decide)

theorem constPointer_ne_plainPointer (name : Text) : constPointer name ≠ plainPointer name := by
  intro h
  have hlength := congrArg List.length h
  simp only [constPointer, plainPointer, List.length_append] at hlength
  have hword : (ascii "const ").length = 6 := rfl
  omega

theorem handleType_eq_constPointer_iff {name : Text} {ownership : Ownership} {isMutable : Bool} :
    Mapper.handleType name ownership isMutable = constPointer name ↔
      ownership = .borrowed ∧ isMutable = false := by
  unfold Mapper.handleType
  split_ifs with hconst
  · exact iff_of_true rfl hconst
  · exact iff_of_false (constPointer_ne_plainPointer name).symm hconst

theorem handleType_eq_plainPointer_iff {name : Text} {ownership : Ownership} {isMutable : Bool} :
    Mapper.handleType name ownership isMutable = plainPointer name ↔
      ¬ (ownership = .borrowed ∧ isMutable = false) := by
  unfold Mapper.handleType
  split_ifs with hconst
  · exact iff_of_false (constPointer_ne_plainPointer name) (not_not.mpr hconst)
  · exact iff_of_true rfl hconst

/-- A value on its way into a call or out of it: how it is referred to, what it is in both
languages, and what the plan says about it. -/
structure Crossing where
  ref : TypeRef
  mapped : Mapped
  transfer : Transfer

namespace Crossing

/-- An argument that is a handle to the type. -/
structure HandsIn (c : Crossing) (t : TypeDef) : Prop where
  pointer : c.mapped.native.cType = constPointer t.name ∨
    c.mapped.native.cType = plainPointer t.name
  move_iff : c.transfer = .move ↔ c.mapped.host = uniquePointer t.name
  borrow_iff : c.transfer = .borrow ↔ c.mapped.native.cType = constPointer t.name
  borrowMut_iff : c.transfer = .borrowMut ↔
    c.mapped.native.cType = plainPointer t.name ∧ c.mapped.host ≠ uniquePointer t.name

/-- A result that is a handle to the type. -/
structure HandsOut (c : Crossing) (t : TypeDef) : Prop where
  adopt_iff : c.transfer = .adopt ↔ c.mapped.host = uniquePointer t.name

end Crossing

namespace Mapper

variable {m : Mapper} {owner : TypeDef} {method : Method} {ref : TypeRef} {id : TypeId}
  {ownership : Ownership} {isMutable : Bool} {position : Position} {name : Text} {x : Mapped}

/-- A handle is spelled alike whether it may be null or not, but for the place it stands in. -/
theorem map_handle (hcpp : m.dialect = .cpp)
    (href : ref.underNullable = .object id ownership isMutable)
    (h : m.map ref position name = .ok x) :
    ∃ t place, m.registry.find? id = some t ∧
      x.host = Dialect.cpp.object t.name ownership isMutable place x.native ∧
      x.native.cType = handleType t.name ownership isMutable := by
  cases ref with
  | object id' ownership' isMutable' =>
    obtain ⟨rfl, rfl, rfl⟩ := TypeRef.object.inj href
    obtain ⟨t, native, hresolves, -, rfl, rfl⟩ := mapObject_eq_ok_iff.mp h
    exact ⟨t, position, hresolves.1, by rw [hcpp], rfl⟩
  | nullable inner =>
    change inner = _ at href
    subst href
    obtain ⟨-, value, native, hvalue, hnative, rfl⟩ := mapWith_nullable_eq_ok_iff.mp h
    obtain ⟨t, inside, hresolves, -, rfl, rfl⟩ := mapObject_eq_ok_iff.mp hvalue
    cases hnative
    exact ⟨t, .nullablePayload, hresolves.1, by rw [hcpp]; rfl, rfl⟩
  | _ => simp [TypeRef.underNullable] at href

theorem handsIn_of_map (hcpp : m.dialect = .cpp) (href : ref.handle? = some id)
    (h : m.map ref position name = .ok x) :
    ∃ t, m.registry.find? id = some t ∧ Crossing.HandsIn ⟨ref, x, .ofInput ref⟩ t := by
  obtain ⟨ownership, isMutable, href⟩ := TypeRef.handle?_eq_some_iff.mp href
  obtain ⟨t, place, hfind, hhost, hnative⟩ := map_handle hcpp href h
  have htransfer : Transfer.ofInput ref = .ofInput (.object id ownership isMutable) := by
    rw [← Transfer.ofInput_underNullable, href]
  have hmoves : x.host = uniquePointer t.name ↔ ownership = .owned := by
    rw [hhost, object_eq_uniquePointer_iff]
  have hconst : x.native.cType = constPointer t.name ↔
      ownership = .borrowed ∧ isMutable = false := by
    rw [hnative, handleType_eq_constPointer_iff]
  have hplain : x.native.cType = plainPointer t.name ↔
      ¬ (ownership = .borrowed ∧ isMutable = false) := by
    rw [hnative, handleType_eq_plainPointer_iff]
  refine ⟨t, hfind, ?_, ?_, ?_, ?_⟩
  · rw [hconst, hplain]
    exact Classical.em _
  · rw [htransfer, hmoves]
    cases ownership <;> cases isMutable <;> simp [Transfer.ofInput]
  · rw [htransfer, hconst]
    cases ownership <;> cases isMutable <;> simp [Transfer.ofInput]
  · rw [htransfer, hplain, ne_eq, hmoves]
    cases ownership <;> cases isMutable <;> simp [Transfer.ofInput]

theorem handsOut_of_map (hcpp : m.dialect = .cpp) (href : ref.handle? = some id)
    (h : m.map ref position name = .ok x) :
    ∃ t, m.registry.find? id = some t ∧
      Crossing.HandsOut ⟨ref, x, m.registry.outputTransfer ref⟩ t := by
  obtain ⟨ownership, isMutable, href⟩ := TypeRef.handle?_eq_some_iff.mp href
  obtain ⟨t, place, hfind, hhost, -⟩ := map_handle hcpp href h
  refine ⟨t, hfind, ⟨?_⟩⟩
  dsimp only
  rw [← Registry.outputTransfer_underNullable, href, hhost, object_eq_uniquePointer_iff]
  cases ownership <;> simp [Registry.outputTransfer]

theorem signature_inputs {s : Signature} (h : m.signature owner method = .ok s) :
    ∃ self, receiverRef owner method.receiver = .ok self ∧
      List.Forall₂ (fun ref x => m.map ref .param [] = .ok x)
        (self.toList ++ method.params.map Param.type) (s.receiver.toList ++ s.declared) := by
  obtain ⟨receiver, declared, returns, outcome, hreceiver, hparams, -, -, rfl⟩ :=
    signature_eq_ok_iff.mp h
  have hdeclared : List.Forall₂ (fun ref x => m.map ref .param [] = .ok x)
      (method.params.map Param.type) declared := by
    rw [List.forall₂_map_left_iff]
    exact (mapParams_eq_ok_iff.mp hparams).imp fun _ _ hx => hx.2
  rcases mapReceiver_eq_ok_iff.mp hreceiver with ⟨hself, rfl⟩ | ⟨ref, x, hself, hx, rfl⟩
  · exact ⟨none, hself, hdeclared⟩
  · exact ⟨some ref, hself, .cons hx hdeclared⟩

theorem signature_outputs {s : Signature} (h : m.signature owner method = .ok s) :
    List.Forall₂ (fun ref x => ∃ position name, m.map ref position name = .ok x)
      method.returns.outputs s.outputs := by
  obtain ⟨receiver, declared, returns, outcome, -, -, hreturns, houtcome, rfl⟩ :=
    signature_eq_ok_iff.mp h
  rcases outcomeOf_eq_ok_iff.mp houtcome with ⟨ok, err, o, heq, ho, rfl⟩ | ⟨hwhole, rfl⟩
  · obtain ⟨hok, herr, -⟩ := mapOutcome_eq_ok_iff.mp ho
    rw [heq]
    exact .cons ⟨_, _, hok⟩ (.cons ⟨_, _, herr⟩ .nil)
  · rw [TypeRef.outputs_of_not_fallible hwhole]
    exact .cons ⟨_, _, mapIn_eq_ok_iff.mp hreturns⟩ .nil

end Mapper

theorem exists_crossings {P : TypeRef → Mapped → Prop} {refs : List TypeRef} {xs : List Mapped}
    (transfer : TypeRef → Transfer) (h : List.Forall₂ P refs xs) :
    ∃ rows : List Crossing, rows.map Crossing.ref = refs ∧ rows.map Crossing.mapped = xs ∧
      rows.map Crossing.transfer = refs.map transfer ∧
      ∀ c ∈ rows, ∃ ref x, P ref x ∧ c = ⟨ref, x, transfer ref⟩ := by
  induction h with
  | nil => exact ⟨[], rfl, rfl, rfl, by simp⟩
  | @cons ref x refs xs hx _ ih =>
    obtain ⟨rows, rfl, rfl, htransfer, hrows⟩ := ih
    refine ⟨⟨ref, x, transfer ref⟩ :: rows, rfl, rfl, by rw [List.map_cons, htransfer]; rfl, ?_⟩
    exact List.forall_mem_cons.mpr ⟨⟨ref, x, hx, rfl⟩, hrows⟩

namespace TransferPlan

/-- The plan of a method, as its receiver, parameters and return make it. -/
structure Follows (r : Registry) (owner : TypeDef) (method : Method) (p : TransferPlan) : Prop where
  inputs_eq : p.inputs = Registry.inputsOf owner method
  inputs : ∃ self : Option InputTransfer,
    p.inputs = self.toList ++ method.params.map (fun q => ⟨q.name, .ofInput q.type⟩) ∧
    (self.isSome = true ↔ method.receiver ≠ .absent) ∧ ∀ i ∈ self, i.name = selfParam
  outputs : List.Forall₂ (fun ref o => o.transfer = r.outputTransfer ref ∧
    o.sources = if o.transfer = .borrow then
      (p.inputs.filter fun i => i.transfer = .borrow ∨ i.transfer = .borrowMut).map
        InputTransfer.name
      else []) method.returns.outputs p.outputs
  whole : ∀ ok err, method.returns = .fallible ok err → p.returns = .nothing

/-- The plan and the signature of a method say the same about handles. -/
structure AgreesWith (r : Registry) (owner : TypeDef) (method : Method) (p : TransferPlan)
    (s : Signature) : Prop where
  inputs : ∃ (self : Option TypeRef) (rows : List Crossing),
    Mapper.receiverRef owner method.receiver = .ok self ∧
    rows.map Crossing.ref = self.toList ++ method.params.map Param.type ∧
    rows.map Crossing.mapped = s.receiver.toList ++ s.declared ∧
    rows.map Crossing.transfer = p.inputs.map InputTransfer.transfer ∧
    ∀ c ∈ rows, ∀ id, c.ref.handle? = some id → ∃ t, r.find? id = some t ∧ c.HandsIn t
  outputs : ∃ rows : List Crossing,
    rows.map Crossing.ref = method.returns.outputs ∧
    rows.map Crossing.mapped = s.outputs ∧
    rows.map Crossing.transfer = p.outputs.map OutputTransfer.transfer ∧
    ∀ c ∈ rows, ∀ id, c.ref.handle? = some id → ∃ t, r.find? id = some t ∧ c.HandsOut t

end TransferPlan

namespace Registry

variable {r : Registry} {owner : TypeDef} {method : Method} {p : TransferPlan}

theorem receiverInput_isSome_iff (owner : TypeDef) (receiver : Receiver) :
    (receiverInput owner receiver).isSome = true ↔ receiver ≠ .absent := by
  cases receiver <;> simp [receiverInput]

theorem name_of_receiverInput {receiver : Receiver} {i : InputTransfer}
    (h : i ∈ receiverInput owner receiver) : i.name = selfParam := by
  cases receiver <;> simp [receiverInput] at h <;> rw [← h]

theorem planTransfers_follows (h : r.planTransfers owner method = .ok p) :
    p.Follows r owner method := by
  obtain ⟨-, rfl⟩ := planTransfers_eq_ok_iff.mp h
  constructor
  · exact planFrom_inputs _ _
  · exact ⟨receiverInput owner method.receiver, planFrom_inputs _ _,
      receiverInput_isSome_iff owner method.receiver, fun i hi => name_of_receiverInput hi⟩
  · rw [planFrom_outputs, planFrom_inputs, List.forall₂_map_right_iff, List.forall₂_same]
    refine fun ref _ => ⟨rfl, ?_⟩
    have hborrowed : (inputsOf owner method).filter (fun i => i.transfer.isBorrow) =
        (inputsOf owner method).filter
          fun i => i.transfer = .borrow ∨ i.transfer = .borrowMut := by
      refine List.filter_congr fun i _ => ?_
      cases i.transfer <;> rfl
    rw [← hborrowed]
    rfl
  · intro ok err heq
    rw [heq]
    rfl

theorem planTransfers_agreesWith {m : Mapper} {s : Signature} (hcpp : m.dialect = .cpp)
    (hp : m.registry.planTransfers owner method = .ok p) (hs : m.signature owner method = .ok s) :
    p.AgreesWith m.registry owner method s := by
  obtain ⟨-, rfl⟩ := planTransfers_eq_ok_iff.mp hp
  obtain ⟨self, hself, hinputs⟩ := Mapper.signature_inputs hs
  obtain ⟨rows, href, hmapped, htransfer, hrows⟩ := exists_crossings Transfer.ofInput hinputs
  obtain ⟨outs, href', hmapped', htransfer', houts⟩ :=
    exists_crossings m.registry.outputTransfer (Mapper.signature_outputs hs)
  constructor
  · refine ⟨self, rows, hself, href, hmapped, ?_, ?_⟩
    · rw [htransfer, planFrom_inputs, inputsOf, receiverInput_eq hself]
      cases self <;> simp
    · intro c hc id hid
      obtain ⟨ref, x, hx, rfl⟩ := hrows c hc
      exact Mapper.handsIn_of_map hcpp hid hx
  · refine ⟨outs, href', hmapped', ?_, ?_⟩
    · rw [htransfer', planFrom_outputs, List.map_map]
      rfl
    · intro c hc id hid
      obtain ⟨ref, x, ⟨position, name, hx⟩, rfl⟩ := houts c hc
      exact Mapper.handsOut_of_map hcpp hid hx

/-- A plan is refused exactly if something borrowed is handed out and nothing borrowed is handed in.
Otherwise it lists the receiver and the parameters in order, and what is borrowed borrows from all
that was. Wherever the method has a signature in C++ as well, the plan moves and adopts what smart
pointers hold, and borrows what the other pointers show. -/
theorem planTransfers_exact (r : Registry) (owner : TypeDef) (method : Method) :
    ((∃ d, r.planTransfers owner method = .error d) ↔
      (∃ ref ∈ method.returns.outputs, r.outputTransfer ref = .borrow) ∧
        ∀ i ∈ inputsOf owner method, i.transfer ≠ .borrow ∧ i.transfer ≠ .borrowMut) ∧
    (∀ ref, r.outputTransfer ref = .borrow ↔ r.Lends ref) ∧
    ∀ p, r.planTransfers owner method = .ok p →
      p.Follows r owner method ∧
      ∀ (m : Mapper) s, m.registry = r → m.dialect = .cpp → m.signature owner method = .ok s →
        p.AgreesWith r owner method s := by
  refine ⟨planTransfers_isError_iff, outputTransfer_eq_borrow_iff, fun p hp => ?_⟩
  refine ⟨planTransfers_follows hp, ?_⟩
  rintro m s rfl hcpp hs
  exact planTransfers_agreesWith hcpp hp hs

end Registry

namespace Ferry

def harbour : TypeDef := ⟨1, "Harbour", [], [], .object []⟩

def ticket : TypeDef :=
  ⟨2, "Ticket", [], [], .record [⟨"origin", [], .nullable (.object 1 .borrowed false)⟩] []⟩

def moor : Method :=
  ⟨"moor", [], [], .byValue,
    [⟨"port", .object 1 .borrowed false⟩, ⟨"pier", .nullable (.object 1 .borrowed true)⟩],
    .fallible (.nullable (.object 1 .owned false)) (.record 2 false)⟩

def forge : Method := ⟨"forge", [], [], .byValue, [], .record 2 false⟩

def ferry : TypeDef := ⟨3, "Ferry", [], [], .object [moor, forge]⟩

def registry : Registry := ⟨"ferry", [harbour, ticket, ferry]⟩

def mapper : Mapper := ⟨registry, [1, 2, 3], .cpp, .full, 64⟩

end Ferry

theorem Registry.planTransfers_exact_ferry :
    (∃ p s, Ferry.registry.planTransfers Ferry.ferry Ferry.moor = .ok p ∧
      Ferry.mapper.signature Ferry.ferry Ferry.moor = .ok s ∧
      p.inputs = [⟨"self", .move⟩, ⟨"port", .borrow⟩, ⟨"pier", .borrowMut⟩] ∧
      p.outputs = [⟨.adopt, []⟩, ⟨.borrow, ["port", "pier"]⟩] ∧
      p.AgreesWith Ferry.registry Ferry.ferry Ferry.moor s) ∧
    ∃ d, Ferry.registry.planTransfers Ferry.ferry Ferry.forge = .error d := by
  obtain ⟨-, -, hmoor⟩ := planTransfers_exact Ferry.registry Ferry.ferry Ferry.moor
  obtain ⟨hforge, -, -⟩ := planTransfers_exact Ferry.registry Ferry.ferry Ferry.forge
  refine ⟨?_, hforge.mpr ⟨⟨.record 2 false, by decide, by decide⟩, by decide⟩⟩
  obtain ⟨p, hp, hinputs, houtputs⟩ : ∃ p,
      Ferry.registry.planTransfers Ferry.ferry Ferry.moor = .ok p ∧
        p.inputs = [⟨"self", .move⟩, ⟨"port", .borrow⟩, ⟨"pier", .borrowMut⟩] ∧
        p.outputs = [⟨.adopt, []⟩, ⟨.borrow, ["port", "pier"]⟩] := ⟨_, rfl, rfl, rfl⟩
  obtain ⟨s, hs⟩ : ∃ s, Ferry.mapper.signature Ferry.ferry Ferry.moor = .ok s := ⟨_, rfl⟩
  exact ⟨p, s, hp, hs, hinputs, houtputs, (hmoor p hp).2 Ferry.mapper s rfl rfl hs⟩

end Bindery
