import Bindery.Interface.Registry

/-!
Which items are available for a target under the active features. Rules that name the target win
over rules for every target, and the rules that count have to agree.
-/

set_option autoImplicit false

namespace Bindery

inductive RuleFault where
  | emptyTarget
  | emptyFeature
  | contradiction (target : Text)
  deriving DecidableEq, Repr

def RuleFault.message : RuleFault → Text
  | emptyTarget => "attribute rule with an empty backend name"
  | emptyFeature => "attribute rule with an empty feature name"
  | contradiction target =>
    "contradictory attribute rules for backend " ++ Text.quoted target ++
      ": both enabled and disabled under the active features"

namespace Rule

def malformed? (r : Rule) : Option RuleFault :=
  if r.target.isEmpty then some .emptyTarget
  else if r.features.any List.isEmpty then some .emptyFeature
  else none

def appliesUnder (r : Rule) (active : List Text) : Bool := r.features.all active.contains

end Rule

/-- The rules that count: those naming the target if any applies, else those for every target. -/
def consideredRules (rules : List Rule) (target : Text) (active : List Text) : List Rule :=
  let applicable := rules.filter fun r => r.appliesUnder active
  let exact := applicable.filter fun r => r.target == target
  if exact.isEmpty then applicable.filter fun r => r.target == ascii "*" else exact

/-- Available unless a rule says otherwise. -/
def resolveRules (rules : List Rule) (target : Text) (active : List Text) :
    Except RuleFault Bool :=
  match rules.findSome? Rule.malformed? with
  | some fault => .error fault
  | none =>
    match consideredRules rules target active with
    | [] => .ok true
    | r :: rs =>
      if rs.all fun s => s.enabled == r.enabled then .ok r.enabled
      else .error (.contradiction target)

structure Availability where
  target : Text
  features : List Text
  deriving DecidableEq, Repr

structure Selection where
  enabled : List TypeId
  errors : List Diagnostic
  omissions : List Omission
  deriving DecidableEq, Repr

namespace Availability

def ofType (a : Availability) (t : TypeDef) : Except Diagnostic Bool :=
  match resolveRules t.rules a.target a.features with
  | .ok b => .ok b
  | .error fault => .error (.ofType .ruleConflict t fault.message)

def ofMethod (a : Availability) (t : TypeDef) (m : Method) : Except Diagnostic Bool :=
  match resolveRules m.rules a.target a.features with
  | .ok b => .ok b
  | .error fault => .error (.ofMethod .ruleConflict t m.name fault.message)

def reason (a : Availability) : Text := "disabled for backend " ++ Text.quoted a.target

def omission (a : Availability) (t : TypeDef) (method : Text) : Omission :=
  ⟨t.id, t.name, method, a.reason⟩

/-- Sorts the types into enabled ones, errors and omissions, each in order. -/
def selectFrom (a : Availability) : List TypeDef → Selection
  | [] => ⟨[], [], []⟩
  | t :: ts =>
    let rest := a.selectFrom ts
    match a.ofType t with
    | .error d => { rest with errors := d :: rest.errors }
    | .ok true => { rest with enabled := t.id :: rest.enabled }
    | .ok false => { rest with omissions := a.omission t [] :: rest.omissions }

def select (a : Availability) (r : Registry) : Selection := a.selectFrom r.types

end Availability

end Bindery
