import Bindery.Header.Cpp
import Bindery.Proofs.Strict.Signature
import Bindery.Proofs.Json.Numerals

/-!
Values and methods of the C++ headers step by step. Names are asked for by id, whatever answers;
the parts of a signature are fetched by their place or because they have to be there. A renderer
that asks only for ids it gets an answer to, about a method whose signature was made for it, breaks
down nowhere.
-/

set_option autoImplicit false

namespace Bindery

/-- The signature has as many parameters as the method and the hidden ones it needs, and a receiver
and an outcome just when the method does. -/
structure MethodPlan.Coherent (p : MethodPlan) : Prop where
  declared : p.signature.declared.length = p.method.params.length
  receiver : p.signature.receiver.isSome = true ↔ p.method.receiver ≠ .absent
  params : p.signature.params = Mapper.abiParams p.signature.receiver p.method.params
    p.signature.declared p.signature.hasWrite p.signature.passing p.signature.returns.native
  outcome : p.signature.outcome.isSome = true → ∃ ok err, p.method.returns = .fallible ok err

theorem Mapper.mapReceiver_isSome {m : Mapper} {owner : TypeDef} {receiver : Receiver}
    {mapped : Option Mapped} (h : m.mapReceiver owner receiver = .ok mapped) :
    mapped.isSome = true ↔ receiver ≠ .absent := by
  have href : receiverRef owner receiver = .ok none ↔ receiver = .absent := by
    unfold receiverRef
    cases receiver <;> cases owner.kind <;> simp
  rcases mapReceiver_eq_ok_iff.mp h with ⟨hnone, rfl⟩ | ⟨ref, value, hsome, -, rfl⟩
  · simp [href.mp hnone]
  · have hne : receiver ≠ .absent := by
      intro habsent
      simp [href.mpr habsent] at hsome
    simp [hne]

theorem MethodPlan.coherent_of_signature {m : Mapper} {owner : TypeDef} {p : MethodPlan}
    (h : m.signature owner p.method = .ok p.signature) : p.Coherent := by
  obtain ⟨method, signature, transfers⟩ := p
  dsimp only at h
  obtain ⟨receiver, declared, returns, outcome, hreceiver, hdeclared, -, houtcome, rfl⟩ :=
    Mapper.signature_eq_ok_iff.mp h
  refine ⟨(Mapper.mapParams_eq_ok_iff.mp hdeclared).length_eq.symm,
    Mapper.mapReceiver_isSome hreceiver, rfl, fun hsome => ?_⟩
  rcases Mapper.outcomeOf_eq_ok_iff.mp houtcome with ⟨ok, err, -, hfallible, -⟩ | ⟨-, rfl⟩
  · exact ⟨ok, err, hfallible⟩
  · simp at hsome

namespace Strict

/-- The table of names, as far as it can be asked. -/
abbrev Lookup := TypeId → Step NameEntry

def entryOf (table : NameTable) : Lookup := fun id =>
  match table.find? id with
  | some entry => .ok entry
  | none => .error (.unknownId id)

/-- The answers for the ids of a set are those of `names`. -/
def Lookup.Serves (look : Lookup) (names : Names) (ids : TypeId → Prop) : Prop :=
  ∀ id, ids id → ∃ entry, look id = .ok entry ∧ entry.name = names.name id ∧
    Kind.ofName? entry.kind = names.kind id

theorem Lookup.serves_of_entries {look : Lookup} {table : NameTable} {ids : TypeId → Prop}
    (h : ∀ id, ids id → ∃ entry, look id = .ok entry ∧ table.find? id = some entry) :
    look.Serves table.toNames ids := by
  intro id hid
  obtain ⟨entry, hlook, hentry⟩ := h id hid
  refine ⟨entry, hlook, ?_, ?_⟩
  · show _ = ((table.find? id).map NameEntry.name).getD []
    rw [hentry]
    rfl
  · show _ = (table.find? id).bind fun e => Kind.ofName? e.kind
    rw [hentry]
    rfl

def nameOf (look : Lookup) (id : TypeId) : Step Text := do
  let entry ← look id
  return entry.name

def kindOf (look : Lookup) (id : TypeId) : Step (Option Kind) := do
  let entry ← look id
  return Kind.ofName? entry.kind

section
variable {look : Lookup} {names : Names} {ids : TypeId → Prop} (h : look.Serves names ids)
include h

theorem Lookup.Serves.nameOf_eq {id : TypeId} (hid : ids id) :
    nameOf look id = .ok (names.name id) := by
  obtain ⟨entry, hlook, hname, -⟩ := h id hid
  rw [nameOf, hlook, ok_bind, hname]
  rfl

theorem Lookup.Serves.kindOf_eq {id : TypeId} (hid : ids id) :
    kindOf look id = .ok (names.kind id) := by
  obtain ⟨entry, hlook, -, hkind⟩ := h id hid
  rw [kindOf, hlook, ok_bind, hkind]
  rfl

end

def viewOf : TypeRef → Step (View × Bool)
  | .slice view isMutable => .ok (view, isMutable)
  | _ => .error .wrongForm

def valueType (look : Lookup) : TypeRef → Step Text
  | .nullable inner =>
    match inner with
    | .slice _ _ => valueType look inner
    | .primitive p => return "::" ++ p.cOption
    | .record id _ => do
      let name ← nameOf look id
      return "::" ++ optionName name
    | .enumeration id => do
      let name ← nameOf look id
      return "::" ++ optionName name
    | _ => return []
  | ref => do
    let (view, isMutable) ← viewOf ref
    return "::" ++ view.cName isMutable

def lower (look : Lookup) : TypeRef → Position → (expr temp : Text) → Step Lowered
  | .unit, _, _, _ => return .plain []
  | .primitive p, _, expr, _ =>
    return .plain (if p = .char then "static_cast<uint32_t>(" ++ expr ++ ")" else expr)
  | .object _ ownership _, position, expr, _ =>
    return .plain (Conversion.lowerObject ownership position expr)
  | .record id byRef, _, expr, temp => do
    if byRef then
      let name ← nameOf look id
      return Conversion.lowerRecordRef name expr temp
    else return .plain (expr ++ ".AsFFI()")
  | .enumeration id, _, expr, _ => do
    let name ← nameOf look id
    return .plain ("static_cast<::" ++ name ++ ">(" ++ expr ++ ")")
  | .slice view isMutable, _, expr, temp => return Conversion.lowerSlice view isMutable expr temp
  | .writeable, _, expr, temp => return Conversion.lowerWriteable expr temp
  | .nullable inner, _, expr, temp => do
    let dereferenced : Text := "(*" ++ expr ++ ")"
    match inner with
    | .object _ _ _ => lower look inner .nullablePayload expr temp
    | .slice _ _ =>
      let type ← valueType look (.nullable inner)
      let lowered ← lower look inner .nullablePayload dereferenced temp
      return lowered.wrap fun value =>
        "(" ++ expr ++ " ? " ++ value ++ " : " ++ Conversion.aggregate type "nullptr" "0" ++ ")"
    | _ =>
      let type ← valueType look (.nullable inner)
      let lowered ← lower look inner .nullablePayload dereferenced temp
      return lowered.wrap fun value =>
        "(" ++ expr ++ " ? " ++ Conversion.aggregate type value "true" ++ " : " ++
          Conversion.aggregate type "\x7b\x7d" "false" ++ ")"
  | .fallible _ _, _, expr, _ => return .plain expr

def lift (look : Lookup) : TypeRef → (host : Text) → Position → (expr : Text) → Step Text
  | .unit, _, _, _ => return Conversion.emptyValue
  | .primitive p, _, _, expr =>
    return if p = .char then "static_cast<char32_t>(" ++ expr ++ ")" else expr
  | .object id ownership _, _, position, expr => do
    let name ← nameOf look id
    return Conversion.liftObject name ownership position expr
  | .record id _, _, _, expr => do
    let name ← nameOf look id
    return name ++ "::FromFFI(" ++ expr ++ ")"
  | .enumeration id, _, _, expr => do
    let name ← nameOf look id
    return "static_cast<" ++ name ++ ">(" ++ expr ++ ")"
  | .slice view isMutable, _, _, expr => return Conversion.liftSlice view isMutable expr
  | .writeable, _, _, _ => return "std::move(ffi_output)"
  | .nullable inner, host, _, expr => do
    match inner with
    | .object _ _ _ => lift look inner host .nullablePayload expr
    | .slice _ _ =>
      let value ← lift look inner [] .nullablePayload expr
      return "(" ++ expr ++ ".data ? " ++ host ++ "(" ++ value ++ ") : " ++ host ++
        "(std::nullopt))"
    | _ =>
      let value ← lift look inner [] .nullablePayload (expr ++ ".value")
      return "(" ++ expr ++ ".is_some ? " ++ host ++ "(" ++ value ++ ") : " ++ host ++
        "(std::nullopt))"
  | .fallible _ _, _, _, expr => return expr

section
variable {look : Lookup} {names : Names} {ids : TypeId → Prop} (h : look.Serves names ids)
include h

theorem valueType_eq {inner : TypeRef} (hids : ∀ id ∈ inner.ids, ids id) :
    valueType look (.nullable inner) = .ok (Conversion.optionalType names inner) := by
  cases inner with
  | record id byRef | enumeration id =>
    simp only [valueType, h.nameOf_eq (hids id List.mem_cons_self), ok_bind]
    rfl
  | _ => rfl

theorem lower_eq {ref : TypeRef} (hids : ∀ id ∈ ref.ids, ids id) (position : Position)
    (expr temp : Text) :
    lower look ref position expr temp = .ok (Conversion.lower names ref position expr temp) := by
  induction ref generalizing position expr temp with
  | record id byRef =>
    rw [lower, Conversion.lower]
    cases byRef with
    | true =>
      simp only [if_true, h.nameOf_eq (hids id List.mem_cons_self), ok_bind]
      rfl
    | false => rfl
  | enumeration id =>
    rw [lower, h.nameOf_eq (hids id List.mem_cons_self), ok_bind]
    rfl
  | nullable inner ih =>
    have hinner := ih hids
    have htype : valueType look (.nullable inner) = .ok (Conversion.optionalType names inner) :=
      valueType_eq h hids
    cases inner with
    | object => exact hinner .nullablePayload expr temp
    | _ =>
      rw [lower.eq_def]
      simp only [hinner, htype, ok_bind]
      rfl
  | _ => rfl

theorem lift_eq {ref : TypeRef} (hids : ∀ id ∈ ref.ids, ids id) (host : Text)
    (position : Position) (expr : Text) :
    lift look ref host position expr = .ok (Conversion.lift names ref host position expr) := by
  induction ref generalizing host position expr with
  | object id ownership isMutable | record id byRef | enumeration id =>
    rw [lift, h.nameOf_eq (hids id List.mem_cons_self), ok_bind]
    rfl
  | nullable inner ih =>
    have hinner := ih hids
    cases inner with
    | object => exact hinner host .nullablePayload expr
    | _ =>
      rw [lift.eq_def]
      simp only [hinner, ok_bind]
      rfl
  | _ => rfl

end

/-- What follows `start`, fetched by the length of that. -/
def after (start t : Text) : Step (Option Text) := do
  if Text.startsWith t start then
    let rest ← suffix t start.length
    return some rest
  else return none

def qualified (n : Native) : Step Text := do
  match n.kind with
  | .handle | .recordPtr =>
    match ← after "const " n.cType with
    | some rest => return "const ::" ++ rest
    | none => return "::" ++ n.cType
  | .enumeration | .record | .slice | .option | .writeable | .result => return "::" ++ n.cType
  | .void | .scalar => return n.cType

/-- The parameters of a method that is static because it consumes its object begin with that. -/
def consumedParams (owner : TypeDef) (p : MethodPlan) : Step (List HostParam) := do
  if p.method.receiver = .byValue ∧ owner.kind = .object then
    let receiver ← present p.signature.receiver
    return [⟨receiver.host, selfParam⟩]
  else return []

def hostMethod (names : Names) (owner : TypeDef) (p : MethodPlan) : Step HostMethod := do
  let consumed ← consumedParams owner p
  let declared ← (List.range p.method.params.length).mapM fun i => do
    let mapped ← item p.signature.declared i
    let param ← item p.method.params i
    return (⟨mapped.host, hostIdentifier names owner.name param.name⟩ : HostParam)
  return {
    name := hostIdentifier names owner.name p.method.name
    returns := p.signature.returns.host
    params := consumed ++ declared
    isStatic := p.method.receiver = .absent ∨
      (p.method.receiver = .byValue ∧ owner.kind = .object)
    isConst := p.method.receiver = .shared ∨
      (p.method.receiver = .byValue ∧ owner.kind ≠ .object) }

/-- The arguments of the call. The host parameter of the declared parameter number `declared` is
counted from the end of all host parameters. -/
def lowerArgs (look : Lookup) (owner : TypeDef) (p : MethodPlan) (host : HostMethod) :
    (declared : Nat) → List AbiParam → Step (List Lowered)
  | _, [] => return []
  | declared, param :: rest => do
    match param.role with
    | .self =>
      let arg ←
        if owner.kind = .object ∧ p.method.receiver = .byValue then
          lower look (.object owner.id .owned false) .param selfParam []
        else pure (.plain "this->AsFFI()")
      let args ← lowerArgs look owner p host declared rest
      return arg :: args
    | .declared =>
      let start ← difference host.params.length p.method.params.length
      let hostParam ← item host.params (start + declared)
      let param ← item p.method.params declared
      let arg ← lower look param.type .param hostParam.name (MethodBody.argLocal hostParam.name)
      let args ← lowerArgs look owner p host (declared + 1) rest
      return arg :: args
    | .write =>
      let args ← lowerArgs look owner p host declared rest
      return .plain "&ffi_writer" :: args
    | .out =>
      let args ← lowerArgs look owner p host declared rest
      return .plain "&ffi_result" :: args

def callLines (p : MethodPlan) (args : List Lowered) : Step (List Text) := do
  let call : Text :=
    "::" ++ p.signature.symbol ++ "(" ++ Text.join ", " (args.map Lowered.value) ++ ")"
  match p.signature.passing with
  | .void => return [call ++ ";"]
  | .direct => return ["auto ffi_result = " ++ call ++ ";"]
  | .out =>
    let type ← qualified p.signature.returns.native
    return [type ++ " ffi_result\x7b\x7d;", call ++ ";"]

def payload (look : Lookup) (ref : TypeRef) (mapped : Mapped) (position : Position)
    (expr : Text) : Step Text :=
  match mapped.native.kind with
  | .void => return Conversion.emptyValue
  | .writeable => return "std::move(ffi_output)"
  | _ => lift look ref mapped.host position expr

/-- The lines that return. Where the signature has a result record, the return is taken apart and
both payloads have to be there. -/
def returnLines (look : Lookup) (p : MethodPlan) : Step (List Text) := do
  if (p.signature.outcome.map Outcome.record).isSome then
    let (ok, err) ← sidesOf p.method.returns
    let okSide ← present (p.signature.outcome.map Outcome.ok)
    let errSide ← present (p.signature.outcome.map Outcome.err)
    let okValue ← payload look ok okSide .okPayload "ffi_result.ok"
    let errValue ← payload look err errSide .errPayload "ffi_result.err"
    return ["if (ffi_result.is_ok) \x7b",
      "    return weld_rt::Ok<" ++ okSide.host ++ ">(" ++ okValue ++ ");",
      "\x7d",
      "return weld_rt::Err<" ++ errSide.host ++ ">(" ++ errValue ++ ");"]
  else
    match p.signature.returns.native.kind with
    | .writeable => return ["return ffi_output;"]
    | .void => return []
    | _ =>
      let value ← lift look p.method.returns p.signature.returns.host .result "ffi_result"
      return ["return " ++ value ++ ";"]

def definition (look : Lookup) (names : Names) (owner : TypeDef) (p : MethodPlan) :
    Step CppDecl := do
  let host ← hostMethod names owner p
  let args ← lowerArgs look owner p host 0 p.signature.params
  let call ← callLines p args
  let returned ← returnLines look p
  let locals := args.flatMap Lowered.locals ++
    (if p.signature.hasWrite then [MethodBody.outputLocal, MethodBody.writerLocal] else []) ++
    (if p.signature.passing = .void then [] else [MethodBody.resultLocal])
  return .definition owner.name host locals
    (args.flatMap Lowered.before ++ MethodBody.writerLines p.signature.hasWrite ++ call ++
      args.flatMap Lowered.after ++ MethodBody.flushLines p.signature.hasWrite ++ returned)

theorem after_eq (start t : Text) : after start t = .ok (Text.after? start t) := by
  unfold after Text.startsWith
  split_ifs with hstart
  · obtain ⟨rest, rfl⟩ := List.isPrefixOf_iff_prefix.mp hstart
    rw [suffix_append, ok_bind, Json.after?_eq_some_iff.mpr rfl]
    rfl
  · cases hafter : Text.after? start t with
    | none => rfl
    | some rest =>
      rw [Json.after?_eq_some_iff.mp hafter] at hstart
      exact absurd (List.isPrefixOf_iff_prefix.mpr (List.prefix_append start rest)) hstart

theorem qualified_eq (n : Native) : qualified n = .ok n.qualified := by
  unfold qualified Native.qualified
  simp only [after_eq, ok_bind]
  cases n.kind with
  | handle | recordPtr => cases Text.after? "const " n.cType <;> rfl
  | _ => rfl

def hiddenArgs (p : MethodPlan) : List Text :=
  (if p.signature.hasWrite then [ascii "&ffi_writer"] else []) ++
    if p.signature.passing = .out then [ascii "&ffi_result"] else []

theorem callLines_eq {p : MethodPlan} {args : List Lowered} (names : Names) (owner : TypeDef)
    (h : args.map Lowered.value = MethodBody.receiverArg owner p.method.receiver ++
      (MethodBody.lowerParams names owner p.method.params).map Lowered.value ++
      (if p.signature.hasWrite then [ascii "&ffi_writer"] else []) ++
      if p.signature.passing = .out then [ascii "&ffi_result"] else []) :
    callLines p args = .ok (MethodBody.callLines names owner p) := by
  rw [callLines, MethodBody.callLines, MethodBody.callText, qualified_eq, h]
  cases p.signature.passing <;> rfl

theorem payload_eq {look : Lookup} {names : Names} {ids : TypeId → Prop}
    (h : look.Serves names ids) {ref : TypeRef} (hids : ∀ id ∈ ref.ids, ids id) (mapped : Mapped)
    (position : Position) (expr : Text) :
    payload look ref mapped position expr =
      .ok (MethodBody.payload names ref mapped position expr) := by
  unfold payload MethodBody.payload
  cases mapped.native.kind with
  | void | writeable => rfl
  | _ => exact lift_eq h hids _ _ _

theorem receiverArg_of_present {owner : TypeDef} {receiver : Receiver} (h : receiver ≠ .absent) :
    MethodBody.receiverArg owner receiver =
      [if owner.kind = .object ∧ receiver = .byValue then
        Conversion.lowerObject .owned .param selfParam else "this->AsFFI()"] := by
  cases receiver with
  | absent => exact absurd rfl h
  | byValue => by_cases hkind : owner.kind = .object <;> simp [MethodBody.receiverArg, hkind]
  | shared | exclusive => simp [MethodBody.receiverArg]

theorem lowerArgs_self {look : Lookup} {owner : TypeDef} {p : MethodPlan} {host : HostMethod}
    {n : Nat} {rest : List AbiParam} {args : List Lowered} (cType : Text)
    (h : lowerArgs look owner p host n rest = .ok args) :
    lowerArgs look owner p host n (⟨selfParam, cType, .self⟩ :: rest) =
      .ok (.plain (if owner.kind = .object ∧ p.method.receiver = .byValue then
        Conversion.lowerObject .owned .param selfParam else "this->AsFFI()") :: args) := by
  rw [lowerArgs, h]
  split_ifs <;> rfl

section
variable {p : MethodPlan} (hp : p.Coherent)
include hp

theorem consumedParams_eq (owner : TypeDef) :
    consumedParams owner p = .ok (if p.method.receiver = .byValue ∧ owner.kind = .object then
      p.signature.receiver.toList.map fun r => ⟨r.host, selfParam⟩ else []) := by
  unfold consumedParams
  split_ifs with hconsumed
  · obtain ⟨receiver, hreceiver⟩ :=
      Option.isSome_iff_exists.mp (hp.receiver.mpr (by simp [hconsumed.1]))
    simp [hreceiver]
  · rfl

theorem hostMethod_eq (names : Names) (owner : TypeDef) :
    hostMethod names owner p = .ok (.ofPlan names owner p) := by
  have hparams : ((List.range p.method.params.length).mapM fun i => do
        let mapped ← item p.signature.declared i
        let param ← item p.method.params i
        return (⟨mapped.host, hostIdentifier names owner.name param.name⟩ : HostParam)) =
      .ok ((p.method.params.zip p.signature.declared).map fun x =>
        ⟨x.2.host, hostIdentifier names owner.name x.1.name⟩) := by
    have hlength : (p.method.params.zip p.signature.declared).length = p.method.params.length := by
      simp [hp.declared]
    rw [← hlength]
    refine mapM_range_eq_ok fun i hi => ?_
    have hparam : i < p.method.params.length := hlength ▸ hi
    have hdeclared : i < p.signature.declared.length := hp.declared ▸ hparam
    simp [item_of_lt hparam, item_of_lt hdeclared]
  rw [hostMethod, consumedParams_eq hp, ok_bind, hparams, ok_bind]
  rfl

theorem hostParam_eq (names : Names) (owner : TypeDef) {i : Nat}
    (hi : i < p.method.params.length) :
    ∃ start host, difference (HostMethod.ofPlan names owner p).params.length
        p.method.params.length = .ok start ∧
      item (HostMethod.ofPlan names owner p).params (start + i) = .ok host ∧
      host.name = hostIdentifier names owner.name p.method.params[i].name := by
  obtain ⟨consumed, hparams⟩ : ∃ consumed, (HostMethod.ofPlan names owner p).params =
      consumed ++ (p.method.params.zip p.signature.declared).map fun x =>
        ⟨x.2.host, hostIdentifier names owner.name x.1.name⟩ := ⟨_, rfl⟩
  have hdeclared : i < p.signature.declared.length := hp.declared ▸ hi
  refine ⟨consumed.length,
    ⟨p.signature.declared[i].host, hostIdentifier names owner.name p.method.params[i].name⟩,
    ?_, ?_, rfl⟩
  · rw [hparams, difference_eq]
    · simp [hp.declared]
    · simp [hp.declared]
  · simp [hparams, item, hi, hdeclared]

variable {look : Lookup} {names : Names} {ids : TypeId → Prop} (h : look.Serves names ids)
  (hparams : ∀ q ∈ p.method.params, ∀ id ∈ q.type.ids, ids id)
include h hparams

theorem lowerArgs_declared (owner : TypeDef) {rest : List AbiParam} {args : List Lowered}
    (hrest : lowerArgs look owner p (.ofPlan names owner p) p.method.params.length rest = .ok args)
    (before params : List Param) (declared : List Mapped)
    (hsplit : p.method.params = before ++ params) (hlength : declared.length = params.length) :
    lowerArgs look owner p (.ofPlan names owner p) before.length
        ((params.zip declared).map (fun (q, d) => ⟨q.name, d.native.cType, .declared⟩) ++ rest) =
      .ok (MethodBody.lowerParams names owner params ++ args) := by
  induction params generalizing before declared with
  | nil =>
    rw [hsplit, List.append_nil] at hrest
    exact hrest
  | cons q params ih =>
    obtain _ | ⟨d, declared⟩ := declared
    · simp at hlength
    · have hlt : before.length < p.method.params.length := by simp [hsplit]
      have hq : p.method.params[before.length] = q := by simp [hsplit]
      obtain ⟨start, host, hstart, hhost, hname⟩ := hostParam_eq hp names owner hlt
      have hlower := lower_eq h (hparams q (by simp [hsplit])) .param host.name
        (MethodBody.argLocal host.name)
      have htail := ih (before ++ [q]) declared (by simp [hsplit]) (by simpa using hlength)
      rw [List.length_append, List.length_singleton] at htail
      rw [List.zip_cons_cons, List.map_cons, List.cons_append, lowerArgs]
      simp only [hstart, hhost, item_of_lt hlt, hq, hlower, htail, ok_bind]
      rw [hname, hq]
      rfl

theorem lowerArgs_eq (owner : TypeDef) :
    lowerArgs look owner p (.ofPlan names owner p) 0 p.signature.params =
      .ok ((MethodBody.receiverArg owner p.method.receiver).map Lowered.plain ++
        (MethodBody.lowerParams names owner p.method.params ++
          (hiddenArgs p).map Lowered.plain)) := by
  have hhidden : ∀ n, lowerArgs look owner p (.ofPlan names owner p) n
      ((if p.signature.hasWrite then [⟨writeParam, "WeldWriteable*", .write⟩] else []) ++
        if p.signature.passing = .out then
          [⟨outParam, p.signature.returns.native.cType ++ "*", .out⟩] else []) =
      .ok ((hiddenArgs p).map Lowered.plain) := by
    intro n
    unfold hiddenArgs
    split_ifs <;> rfl
  have hdeclared := lowerArgs_declared hp h hparams owner (hhidden _) [] p.method.params
    p.signature.declared rfl hp.declared
  rw [List.length_nil] at hdeclared
  rw [hp.params, Mapper.abiParams, List.append_assoc, List.append_assoc]
  cases hreceiver : p.signature.receiver with
  | none =>
    have habsent : p.method.receiver = .absent := by
      by_contra hpresent
      simpa [hreceiver] using hp.receiver.mpr hpresent
    rw [habsent]
    exact hdeclared
  | some receiver =>
    have hpresent : p.method.receiver ≠ .absent := hp.receiver.mp (by simp [hreceiver])
    rw [receiverArg_of_present hpresent]
    exact lowerArgs_self receiver.native.cType hdeclared

omit hparams in
theorem returnLines_eq (hreturns : ∀ id ∈ p.method.returns.ids, ids id) :
    returnLines look p = .ok (MethodBody.returnLines names p) := by
  unfold returnLines MethodBody.returnLines
  cases houtcome : p.signature.outcome with
  | none =>
    simp only [lift_eq h hreturns, ok_bind]
    cases p.signature.returns.native.kind <;> rfl
  | some o =>
    obtain ⟨ok, err, hfallible⟩ := hp.outcome (by simp [houtcome])
    rw [hfallible, TypeRef.ids, List.forall_mem_append] at hreturns
    simp only [hfallible, sidesOf, Option.map_some, Option.isSome_some, if_true, present_some,
      payload_eq h hreturns.1, payload_eq h hreturns.2, ok_bind]
    rfl

/-- A method is defined without a breakdown, if its ids are known and its signature its own. -/
theorem definition_eq (hreturns : ∀ id ∈ p.method.returns.ids, ids id) (owner : TypeDef) :
    definition look names owner p = .ok (p.definition names owner) := by
  -- values that are passed as they are need nothing around the call
  have hplain : ∀ f : Lowered → List Text, (∀ value, f (.plain value) = []) →
      ∀ values : List Text, (values.map Lowered.plain).flatMap f = [] := by
    intro f hf values
    simp [hf]
  have hvalues : ∀ values : List Text, (values.map Lowered.plain).map Lowered.value = values := by
    intro values
    simp [Lowered.plain, Function.comp_def]
  rw [definition, hostMethod_eq hp, ok_bind, lowerArgs_eq hp h hparams, ok_bind,
    callLines_eq names owner (by simp [hvalues, hiddenArgs]), ok_bind, returnLines_eq hp h hreturns,
    ok_bind]
  simp only [List.flatMap_append, hplain Lowered.before fun _ => rfl,
    hplain Lowered.after fun _ => rfl, hplain Lowered.locals fun _ => rfl, List.nil_append,
    List.append_nil]
  rfl

end

end Strict

end Bindery
