import Bindery.Signature
import Mathlib.Data.List.Forall2
import Mathlib.Tactic.Common

/-!
What the signature of a method is made of: the mapping of its receiver, of its parameters one by
one, of what it returns, and of the two sides of a fallible return.
-/

set_option autoImplicit false

namespace Bindery.Mapper

variable {m : Mapper} {owner : TypeDef} {method : Method} {s : Signature}

theorem mapIn_eq_ok_iff {context : Text} {ref : TypeRef} {position : Position} {name : Text}
    {mapped : Mapped} :
    m.mapIn context ref position name = .ok mapped ↔ m.map ref position name = .ok mapped := by
  unfold mapIn
  cases m.map ref position name <;> simp

theorem mapReceiver_eq_ok_iff {receiver : Receiver} {self : Option Mapped} :
    m.mapReceiver owner receiver = .ok self ↔
      receiverRef owner receiver = .ok none ∧ self = none ∨
      ∃ ref mapped, receiverRef owner receiver = .ok (some ref) ∧
        m.map ref .param [] = .ok mapped ∧ self = some mapped := by
  unfold mapReceiver
  cases receiverRef owner receiver with
  | error fault => simp
  | ok ref? =>
    cases ref? with
    | none => simp [eq_comm]
    | some ref =>
      unfold mapIn
      cases hmapped : m.map ref .param [] <;> simp [hmapped, eq_comm]

theorem mapParam_eq_ok_iff {p : Param} {mapped : Mapped} :
    m.mapParam p = .ok mapped ↔ p.name ∉ hiddenNames ∧ m.map p.type .param [] = .ok mapped := by
  unfold mapParam
  by_cases hhidden : p.name ∈ hiddenNames
  · simp [hhidden]
  · simp [hhidden, mapIn_eq_ok_iff]

theorem mapParams_eq_ok_iff {params : List Param} {declared : List Mapped} :
    m.mapParams params = .ok declared ↔
      List.Forall₂ (fun p x => p.name ∉ hiddenNames ∧ m.map p.type .param [] = .ok x)
        params declared := by
  induction params generalizing declared with
  | nil =>
    simp only [mapParams, Except.ok.injEq, List.forall₂_nil_left_iff]
    exact eq_comm
  | cons p ps ih =>
    unfold mapParams
    cases hp : m.mapParam p with
    | error fault =>
      refine iff_of_false (by simp) ?_
      intro hall
      cases hall with
      | cons hx _ => simp [mapParam_eq_ok_iff.mpr hx] at hp
    | ok x =>
      have hx := mapParam_eq_ok_iff.mp hp
      cases hps : m.mapParams ps with
      | error fault =>
        refine iff_of_false (by simp) ?_
        intro hall
        cases hall with
        | cons _ hrest => simp [ih.mpr hrest] at hps
      | ok xs =>
        constructor
        · intro h
          cases h
          exact .cons hx (ih.mp hps)
        · intro hall
          cases hall with
          | cons hy hrest =>
            have hhead := hx.2.symm.trans hy.2
            have htail := hps.symm.trans (ih.mpr hrest)
            cases hhead
            cases htail
            rfl

/-- The record of a fallible outcome, from its sides. -/
def resultRecord (native : Native) (ok err : Mapped) : ResultRecord :=
  ⟨native.cType, payloadMember ok, payloadMember err, native.layout⟩

theorem mapOutcome_eq_ok_iff {ok err : TypeRef} {native : Native} {o : Outcome} :
    m.mapOutcome ok err native = .ok o ↔
      m.map ok .okPayload [] = .ok o.ok ∧ m.map err .errPayload [] = .ok o.err ∧
        o.record = resultRecord native o.ok o.err := by
  unfold mapOutcome mapIn
  cases m.map ok .okPayload [] with
  | error fault => simp
  | ok okMapped =>
    cases m.map err .errPayload [] with
    | error fault => simp
    | ok errMapped =>
      obtain ⟨record, okSide, errSide⟩ := o
      simp only [Except.ok.injEq, Outcome.mk.injEq]
      constructor
      · rintro ⟨rfl, rfl, rfl⟩
        exact ⟨rfl, rfl, rfl⟩
      · rintro ⟨rfl, rfl, rfl⟩
        exact ⟨rfl, rfl, rfl⟩

theorem outcomeOf_eq_ok_iff {returns : TypeRef} {native : Native} {outcome : Option Outcome} :
    m.outcomeOf returns native = .ok outcome ↔
      (∃ ok err o, returns = .fallible ok err ∧ m.mapOutcome ok err native = .ok o ∧
        outcome = some o) ∨
      (∀ ok err, returns ≠ .fallible ok err) ∧ outcome = none := by
  unfold outcomeOf
  cases returns with
  | fallible ok err => cases h : m.mapOutcome ok err native <;> simp [h, eq_comm]
  | _ => simp [eq_comm]

theorem signature_eq_ok_iff : m.signature owner method = .ok s ↔
    ∃ receiver declared returns outcome,
      m.mapReceiver owner method.receiver = .ok receiver ∧
      m.mapParams method.params = .ok declared ∧
      m.mapIn "return: " method.returns .result (resultName owner method) = .ok returns ∧
      m.outcomeOf method.returns returns.native = .ok outcome ∧
      s = {
        symbol := methodSymbol owner method
        cReturn := if passingOf returns.native m.pointerWidth = .direct then returns.native.cType
          else "void"
        params := abiParams receiver method.params declared (writesText method.returns)
          (passingOf returns.native m.pointerWidth) returns.native
        passing := passingOf returns.native m.pointerWidth
        hasWrite := writesText method.returns
        receiver, declared, returns, outcome } := by
  unfold signature
  cases m.mapReceiver owner method.receiver with
  | error fault => simp
  | ok receiver =>
    cases m.mapParams method.params with
    | error fault => simp
    | ok declared =>
      cases m.mapIn "return: " method.returns .result (resultName owner method) with
      | error fault => simp
      | ok returns => cases h : m.outcomeOf method.returns returns.native <;> simp [h, eq_comm]

end Bindery.Mapper
