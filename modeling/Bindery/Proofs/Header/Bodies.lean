import Bindery.Proofs.Header.Plain

/-!
The bodies of C++ definitions, and the headers of a plan as a whole. Conversions put names and
signs around an expression and bring in no hash; so the headers of a plan whose names have none
include exactly the files they list.
-/

set_option autoImplicit false

namespace Bindery

structure Lowered.Plain (l : Lowered) : Prop where
  value : NoHash l.value
  before : ∀ line ∈ l.before, NoHash line
  after : ∀ line ∈ l.after, NoHash line

theorem Lowered.plain_plain {value : Text} (h : NoHash value) : (Lowered.plain value).Plain :=
  ⟨h, List.forall_mem_nil _, List.forall_mem_nil _⟩

theorem Lowered.Plain.wrap {l : Lowered} (h : l.Plain) {f : Text → Text}
    (hf : ∀ value, NoHash value → NoHash (f value)) : (l.wrap f).Plain :=
  ⟨hf l.value h.value, h.before, h.after⟩

namespace Conversion

variable {names : Names} {expr temp : Text}

theorem noHash_aggregate {type first second : Text} (htype : NoHash type) (hfirst : NoHash first)
    (hsecond : NoHash second) : NoHash (aggregate type first second) := by
  simp only [aggregate, noHash_append]
  and_intros <;> first | assumption | exact noHash_ascii _ (by decide)

theorem noHash_optionalType (hnames : ∀ id, NoHash (names.name id)) (inner : TypeRef) :
    NoHash (optionalType names inner) := by
  have hcolons : NoHash (ascii "::") := noHash_ascii _ (by decide)
  cases inner with
  | slice view isMutable => exact noHash_append.mpr ⟨hcolons, noHash_viewName view isMutable⟩
  | primitive p => exact noHash_append.mpr ⟨hcolons, noHash_cOption p⟩
  | record id byRef => exact noHash_append.mpr ⟨hcolons, noHash_optionName (hnames id)⟩
  | enumeration id => exact noHash_append.mpr ⟨hcolons, noHash_optionName (hnames id)⟩
  | _ => exact noHash_nil

theorem lowerStrings_plain (hexpr : NoHash expr) (htemp : NoHash temp) :
    (lowerStrings expr temp).Plain := by
  have hitem : NoHash (aggregate "::WeldStringView" "ffi_item.data()" "ffi_item.size()") := by
    apply noHash_aggregate <;> exact noHash_ascii _ (by decide)
  refine ⟨?_, ?_, List.forall_mem_nil _⟩
  · apply noHash_aggregate
    · exact noHash_ascii _ (by decide)
    · exact noHash_append.mpr ⟨htemp, noHash_ascii _ (by decide)⟩
    · exact noHash_append.mpr ⟨htemp, noHash_ascii _ (by decide)⟩
  · simp only [lowerStrings, List.forall_mem_cons, noHash_append]
    and_intros <;> first | assumption | exact noHash_ascii _ (by decide) | simp

theorem lowerSlice_plain (view : View) (isMutable : Bool) (hexpr : NoHash expr)
    (htemp : NoHash temp) : (lowerSlice view isMutable expr temp).Plain := by
  have hsize : NoHash (expr ++ ascii ".size()") :=
    noHash_append.mpr ⟨hexpr, noHash_ascii _ (by decide)⟩
  have hdata : NoHash (expr ++ ascii ".data()") :=
    noHash_append.mpr ⟨hexpr, noHash_ascii _ (by decide)⟩
  cases view with
  | utf8 => exact Lowered.plain_plain (noHash_aggregate (noHash_ascii _ (by decide)) hdata hsize)
  | utf16 =>
    refine Lowered.plain_plain (noHash_aggregate (noHash_ascii _ (by decide)) ?_ hsize)
    simp only [noHash_append] at hdata ⊢
    and_intros <;> first | assumption | exact noHash_ascii _ (by decide)
  | strings => exact lowerStrings_plain hexpr htemp
  | scalars element =>
    have htype : NoHash (ascii "::" ++ element.cSlice isMutable) :=
      noHash_append.mpr ⟨noHash_ascii _ (by decide), noHash_cSlice element isMutable⟩
    refine Lowered.plain_plain (noHash_aggregate htype ?_ hsize)
    rw [elementPointer]
    split_ifs
    · have hconst := noHash_constUnless isMutable
      simp only [noHash_append] at hdata ⊢
      and_intros <;> first | assumption | exact noHash_ascii _ (by decide)
    · exact hdata

theorem noHash_lowerObject (ownership : Ownership) (position : Position) (hexpr : NoHash expr) :
    NoHash (lowerObject ownership position expr) := by
  cases ownership with
  | owned =>
    simp only [lowerObject, noHash_append]
    and_intros <;> first | assumption | exact noHash_ascii _ (by decide)
  | borrowed =>
    rw [lowerObject]
    split_ifs
    · exact noHash_append.mpr ⟨hexpr, noHash_ascii _ (by decide)⟩
    · simp only [noHash_append]
      and_intros <;> first | assumption | exact noHash_ascii _ (by decide)

theorem lowerRecordRef_plain {name : Text} (hname : NoHash name) (hexpr : NoHash expr)
    (htemp : NoHash temp) : (lowerRecordRef name expr temp).Plain := by
  refine ⟨noHash_append.mpr ⟨noHash_ascii _ (by decide), htemp⟩, ?_, List.forall_mem_nil _⟩
  simp only [lowerRecordRef, List.forall_mem_cons, noHash_append]
  and_intros <;> first | assumption | exact noHash_ascii _ (by decide) | simp

theorem lowerWriteable_plain (hexpr : NoHash expr) (htemp : NoHash temp) :
    (lowerWriteable expr temp).Plain := by
  refine ⟨noHash_append.mpr ⟨noHash_ascii _ (by decide), htemp⟩, ?_, ?_⟩
  · simp only [lowerWriteable, List.forall_mem_cons, noHash_append]
    and_intros <;> first | assumption | exact noHash_ascii _ (by decide) | simp
  · simp only [lowerWriteable, List.forall_mem_cons, noHash_append]
    and_intros <;> first | assumption | exact noHash_ascii _ (by decide) | simp

theorem lower_plain (hnames : ∀ id, NoHash (names.name id)) (ref : TypeRef) (position : Position)
    (hexpr : NoHash expr) (htemp : NoHash temp) :
    (lower names ref position expr temp).Plain := by
  induction ref generalizing position expr with
  | unit => exact Lowered.plain_plain noHash_nil
  | primitive p =>
    apply Lowered.plain_plain
    split_ifs
    · simp only [noHash_append]
      and_intros <;> first | assumption | exact noHash_ascii _ (by decide)
    · exact hexpr
  | object id ownership isMutable =>
    exact Lowered.plain_plain (noHash_lowerObject ownership position hexpr)
  | record id byRef =>
    rw [lower]
    split_ifs
    · exact lowerRecordRef_plain (hnames id) hexpr htemp
    · exact Lowered.plain_plain (noHash_append.mpr ⟨hexpr, noHash_ascii _ (by decide)⟩)
  | enumeration id =>
    have hname := hnames id
    apply Lowered.plain_plain
    simp only [noHash_append]
    and_intros <;> first | assumption | exact noHash_ascii _ (by decide)
  | slice view isMutable => exact lowerSlice_plain view isMutable hexpr htemp
  | writeable => exact lowerWriteable_plain hexpr htemp
  | nullable inner ih =>
    have hinside : NoHash (ascii "(*" ++ expr ++ ascii ")") := by
      simp only [noHash_append]
      and_intros <;> first | assumption | exact noHash_ascii _ (by decide)
    have htype := noHash_optionalType hnames inner
    have hzero : NoHash (aggregate (optionalType names inner) "nullptr" "0") :=
      noHash_aggregate htype (noHash_ascii _ (by decide)) (noHash_ascii _ (by decide))
    have hnone : NoHash (aggregate (optionalType names inner) "\x7b\x7d" "false") :=
      noHash_aggregate htype (noHash_ascii _ (by decide)) (noHash_ascii _ (by decide))
    -- a value with a flag beside it; handles and slices have a null of their own
    have hflagged : ∀ value, NoHash value → NoHash (ascii "(" ++ expr ++ ascii " ? " ++
        aggregate (optionalType names inner) value "true" ++ ascii " : " ++
        aggregate (optionalType names inner) "\x7b\x7d" "false" ++ ascii ")") := by
      intro value hvalue
      have hsome := noHash_aggregate htype hvalue (noHash_ascii "true".toList (by decide))
      simp only [noHash_append]
      and_intros <;> first | assumption | exact noHash_ascii _ (by decide)
    have hpointed : ∀ value, NoHash value → NoHash (ascii "(" ++ expr ++ ascii " ? " ++ value ++
        ascii " : " ++ aggregate (optionalType names inner) "nullptr" "0" ++ ascii ")") := by
      intro value hvalue
      simp only [noHash_append]
      and_intros <;> first | assumption | exact noHash_ascii _ (by decide)
    cases inner with
    | object id ownership isMutable => exact ih .nullablePayload hexpr
    | slice view isMutable => exact (ih .nullablePayload hinside).wrap hpointed
    | _ => exact (ih .nullablePayload hinside).wrap hflagged
  | fallible ok err => exact Lowered.plain_plain hexpr

theorem noHash_liftSlice (view : View) (isMutable : Bool) (hexpr : NoHash expr) :
    NoHash (liftSlice view isMutable expr) := by
  have hconst := noHash_constUnless isMutable
  cases view with
  | strings => exact noHash_nil
  | scalars element =>
    have hhost := noHash_hostName element
    have hpointer : NoHash (if element = .char then
        ascii "reinterpret_cast<" ++ constUnless isMutable ++ ascii "char32_t*>(" ++
          (expr ++ ascii ".data") ++ ascii ")" else expr ++ ascii ".data") := by
      split_ifs
      · simp only [noHash_append]
        and_intros <;> first | assumption | exact noHash_ascii _ (by decide)
      · exact noHash_append.mpr ⟨hexpr, noHash_ascii _ (by decide)⟩
    simp only [liftSlice, noHash_append]
    and_intros <;> first | assumption | exact noHash_ascii _ (by decide)
  | _ =>
    simp only [liftSlice, noHash_append]
    and_intros <;> first | assumption | exact noHash_ascii _ (by decide)

theorem noHash_liftObject {name : Text} (hname : NoHash name) (ownership : Ownership)
    (position : Position) (hexpr : NoHash expr) :
    NoHash (liftObject name ownership position expr) := by
  cases ownership with
  | owned =>
    simp only [liftObject, noHash_append]
    and_intros <;> first | assumption | exact noHash_ascii _ (by decide)
  | borrowed =>
    have hstar : NoHash (if position = .result then ascii "*" else []) := by
      split_ifs
      · exact noHash_ascii _ (by decide)
      · exact noHash_nil
    simp only [liftObject, noHash_append]
    and_intros <;> first | assumption | exact noHash_ascii _ (by decide)

theorem noHash_lift (hnames : ∀ id, NoHash (names.name id)) (ref : TypeRef) {host : Text}
    (hhost : NoHash host) (position : Position) (hexpr : NoHash expr) :
    NoHash (lift names ref host position expr) := by
  induction ref generalizing host position expr with
  | unit => exact noHash_ascii _ (by decide)
  | primitive p =>
    rw [lift]
    split_ifs
    · simp only [noHash_append]
      and_intros <;> first | assumption | exact noHash_ascii _ (by decide)
    · exact hexpr
  | object id ownership isMutable => exact noHash_liftObject (hnames id) ownership position hexpr
  | record id byRef =>
    have hname := hnames id
    simp only [lift, noHash_append]
    and_intros <;> first | assumption | exact noHash_ascii _ (by decide)
  | enumeration id =>
    have hname := hnames id
    simp only [lift, noHash_append]
    and_intros <;> first | assumption | exact noHash_ascii _ (by decide)
  | slice view isMutable => exact noHash_liftSlice view isMutable hexpr
  | writeable => exact noHash_ascii _ (by decide)
  | nullable inner ih =>
    have hvalue := ih noHash_nil .nullablePayload
      (noHash_append.mpr ⟨hexpr, noHash_ascii ".value".toList (by decide)⟩)
    cases inner with
    | object id ownership isMutable => exact ih hhost .nullablePayload hexpr
    | slice view isMutable =>
      have hslice := ih noHash_nil .nullablePayload hexpr
      rw [lift.eq_def]
      simp only [noHash_append]
      and_intros <;> first | assumption | exact noHash_ascii _ (by decide)
    | _ =>
      rw [lift.eq_def]
      simp only [noHash_append]
      and_intros <;> first | assumption | exact noHash_ascii _ (by decide)
  | fallible ok err => exact hexpr

end Conversion

structure MethodPlan.Plain (p : MethodPlan) : Prop where
  name : NoHash p.method.name
  params : ∀ q ∈ p.method.params, NoHash q.name
  signature : p.signature.Plain
  contract : ∀ line ∈ p.transfers.describe, NoHash line

structure TypePlan.Plain (p : TypePlan) : Prop where
  name_parts : p.type.name.all Identifier.isPart = true
  variants : ∀ v ∈ p.type.variants, NoHash v.name
  fields : ∀ f ∈ p.fields, NoHash f.field.name ∧ f.mapped.Plain
  methods : ∀ m ∈ p.methods, m.Plain
  destructor : ∀ symbol ∈ p.destructor.toList, NoHash symbol

theorem TypePlan.Plain.name {p : TypePlan} (h : p.Plain) : NoHash p.type.name :=
  notMem_of_all_isPart h.name_parts (by decide)

section
variable {names : Names} {owner : TypeDef} {p : MethodPlan}

theorem noHash_hostIdentifier (names : Names) (owner : Text) {name : Text} (h : NoHash name) :
    NoHash (hostIdentifier names owner name) := by
  have hescaped := noHash_escape h
  rw [hostIdentifier]
  split_ifs
  · exact noHash_append.mpr ⟨hescaped, noHash_ascii _ (by decide)⟩
  · exact hescaped

theorem HostMethod.ofPlan_plain (h : p.Plain) : (HostMethod.ofPlan names owner p).Plain := by
  refine ⟨noHash_hostIdentifier _ _ h.name, h.signature.returns.host, ?_⟩
  intro q hq
  rcases List.mem_append.mp hq with hq | hq
  · split_ifs at hq
    · obtain ⟨r, hr, rfl⟩ := List.mem_map.mp hq
      exact ⟨(h.signature.receiver r (Option.mem_toList.mp hr)).host, noHash_ascii _ (by decide)⟩
    · exact absurd hq List.not_mem_nil
  · obtain ⟨⟨param, mapped⟩, hpair, rfl⟩ := List.mem_map.mp hq
    obtain ⟨hparam, hmapped⟩ := List.of_mem_zip hpair
    exact ⟨(h.signature.declared mapped hmapped).host,
      noHash_hostIdentifier _ _ (h.params param hparam)⟩

theorem noHash_qualified {n : Native} (h : NoHash n.cType) : NoHash n.qualified := by
  have hcolons : NoHash (ascii "::" ++ n.cType) :=
    noHash_append.mpr ⟨noHash_ascii _ (by decide), h⟩
  have hpointed : ∀ rest, Text.after? "const " n.cType = some rest →
      NoHash (ascii "const ::" ++ rest) := by
    intro rest hafter
    rw [Json.after?_eq_some_iff.mp hafter, noHash_append] at h
    exact noHash_append.mpr ⟨noHash_ascii _ (by decide), h.2⟩
  unfold Native.qualified
  cases n.kind with
  | handle | recordPtr =>
    cases hafter : Text.after? "const " n.cType with
    | none => exact hcolons
    | some rest => exact hpointed rest hafter
  | void | scalar => exact h
  | _ => exact hcolons

namespace MethodBody

theorem lowerParams_plain (hnames : ∀ id, NoHash (names.name id)) (h : p.Plain) :
    ∀ l ∈ lowerParams names owner p.method.params, l.Plain := by
  intro l hl
  obtain ⟨q, hq, rfl⟩ := List.mem_map.mp hl
  have hname := noHash_hostIdentifier names owner.name (h.params q hq)
  exact Conversion.lower_plain hnames q.type .param hname
    (noHash_append.mpr ⟨noHash_ascii _ (by decide), hname⟩)

theorem noHash_receiverArg (owner : TypeDef) (receiver : Receiver) :
    ∀ arg ∈ receiverArg owner receiver, NoHash arg := by
  have hthis : NoHash (ascii "this->AsFFI()") := noHash_ascii _ (by decide)
  cases receiver with
  | absent => exact List.forall_mem_nil _
  | byValue =>
    rw [receiverArg]
    split_ifs
    · exact List.forall_mem_singleton.mpr
        (Conversion.noHash_lowerObject .owned .param (noHash_ascii "self".toList (by decide)))
    · exact List.forall_mem_singleton.mpr hthis
  | _ => exact List.forall_mem_singleton.mpr hthis

theorem noHash_callText (hnames : ∀ id, NoHash (names.name id)) (h : p.Plain) :
    NoHash (callText names owner p) := by
  have hsymbol := h.signature.symbol
  have hargs : NoHash (Text.join ", " (receiverArg owner p.method.receiver ++
      (lowerParams names owner p.method.params).map Lowered.value ++
      (if p.signature.hasWrite then [ascii "&ffi_writer"] else []) ++
      (if p.signature.passing = .out then [ascii "&ffi_result"] else []))) := by
    refine noHash_join (noHash_ascii _ (by decide)) ?_
    intro arg harg
    simp only [List.mem_append] at harg
    rcases harg with ((harg | harg) | harg) | harg
    · exact noHash_receiverArg owner p.method.receiver arg harg
    · obtain ⟨l, hl, rfl⟩ := List.mem_map.mp harg
      exact (lowerParams_plain hnames h l hl).value
    · split_ifs at harg
      · rw [List.mem_singleton.mp harg]
        exact noHash_ascii _ (by decide)
      · exact absurd harg List.not_mem_nil
    · split_ifs at harg
      · rw [List.mem_singleton.mp harg]
        exact noHash_ascii _ (by decide)
      · exact absurd harg List.not_mem_nil
  simp only [callText, noHash_append]
  and_intros <;> first | assumption | exact noHash_ascii _ (by decide)

theorem noHash_callLines (hnames : ∀ id, NoHash (names.name id)) (h : p.Plain) :
    ∀ line ∈ callLines names owner p, NoHash line := by
  have hcall : NoHash (callText names owner p) := noHash_callText hnames h
  have hresult := noHash_qualified h.signature.returns.cType
  rw [callLines]
  cases p.signature.passing with
  | void | direct | out =>
    simp only [List.forall_mem_cons, noHash_append]
    and_intros <;> first | assumption | exact noHash_ascii _ (by decide) | simp

theorem noHash_payload (hnames : ∀ id, NoHash (names.name id)) (ref : TypeRef) {mapped : Mapped}
    (hmapped : mapped.Plain) (position : Position) {expr : Text} (hexpr : NoHash expr) :
    NoHash (payload names ref mapped position expr) := by
  unfold payload
  cases mapped.native.kind with
  | void | writeable => exact noHash_ascii _ (by decide)
  | _ => exact Conversion.noHash_lift hnames ref hmapped.host position hexpr

theorem noHash_outcomeLines (hnames : ∀ id, NoHash (names.name id)) (returns : TypeRef)
    {o : Outcome} (h : o.Plain) : ∀ line ∈ outcomeLines names returns o, NoHash line := by
  cases returns with
  | fallible ok err =>
    have hok := noHash_payload hnames ok h.ok .okPayload
      (noHash_ascii "ffi_result.ok".toList (by decide))
    have herr := noHash_payload hnames err h.err .errPayload
      (noHash_ascii "ffi_result.err".toList (by decide))
    have hokType := h.ok.host
    have herrType := h.err.host
    simp only [outcomeLines, List.forall_mem_cons, noHash_append]
    and_intros <;> first | assumption | exact noHash_ascii _ (by decide) | simp
  | _ => exact List.forall_mem_nil _

theorem noHash_returnLines (hnames : ∀ id, NoHash (names.name id)) (h : p.Plain) :
    ∀ line ∈ returnLines names p, NoHash line := by
  unfold returnLines
  cases houtcome : p.signature.outcome with
  | some o => exact noHash_outcomeLines hnames _ (h.signature.outcome o houtcome)
  | none =>
    have hvalue := Conversion.noHash_lift hnames p.method.returns h.signature.returns.host .result
      (noHash_ascii "ffi_result".toList (by decide))
    cases p.signature.returns.native.kind with
    | void => exact List.forall_mem_nil _
    | _ =>
      simp only [List.forall_mem_cons, noHash_append]
      and_intros <;> first | assumption | exact noHash_ascii _ (by decide) | simp

theorem noHash_writerLines (hasWrite : Bool) : ∀ line ∈ writerLines hasWrite, NoHash line := by
  cases hasWrite with
  | false => exact List.forall_mem_nil _
  | true =>
    simp only [writerLines, ↓reduceIte, List.forall_mem_cons]
    and_intros <;> first | exact noHash_ascii _ (by decide) | simp

theorem noHash_flushLines (hasWrite : Bool) : ∀ line ∈ flushLines hasWrite, NoHash line := by
  cases hasWrite with
  | false => exact List.forall_mem_nil _
  | true => exact List.forall_mem_singleton.mpr (noHash_ascii _ (by decide))

theorem noHash_lines (hnames : ∀ id, NoHash (names.name id)) (h : p.Plain) :
    ∀ line ∈ lines names owner p, NoHash line := by
  have hlowered : ∀ l ∈ lowerParams names owner p.method.params, l.Plain :=
    lowerParams_plain hnames h
  intro line hline
  simp only [lines, List.mem_append, List.mem_flatMap] at hline
  rcases hline with ((((⟨l, hl, hline⟩ | hline) | hline) | ⟨l, hl, hline⟩) | hline) | hline
  · exact (hlowered l hl).before line hline
  · exact noHash_writerLines _ line hline
  · exact noHash_callLines hnames h line hline
  · exact (hlowered l hl).after line hline
  · exact noHash_flushLines _ line hline
  · exact noHash_returnLines hnames h line hline

end MethodBody

end

section
variable {p : TypePlan} {names : Names} {ns : Text}

theorem typeDecls_plain (h : p.Plain) : ∀ d ∈ p.typeDecls, d.Plain := by
  have hname := h.name
  have hoption := noHash_optionName hname
  have hvariants := h.variants
  unfold TypeDef.variants at hvariants
  cases hshape : p.type.shape with
  | object methods =>
    simp only [TypePlan.typeDecls, hshape]
    exact List.forall_mem_singleton.mpr hname
  | record fields methods =>
    simp only [TypePlan.typeDecls, hshape, List.forall_mem_cons]
    refine ⟨⟨hname, ?_⟩, ⟨hoption, hname⟩, List.forall_mem_nil _⟩
    intro member hmember
    obtain ⟨f, hf, rfl⟩ := List.mem_map.mp hmember
    exact ⟨(h.fields f hf).2.cType, (h.fields f hf).1⟩
  | enumeration variants =>
    simp only [hshape] at hvariants
    simp only [TypePlan.typeDecls, hshape, List.forall_mem_cons]
    refine ⟨⟨hname, ?_⟩, ⟨hoption, hname⟩, List.forall_mem_nil _⟩
    intro constant hconstant
    obtain ⟨v, hv, rfl⟩ := List.mem_map.mp hconstant
    have hvariant := hvariants v hv
    simp only [TypePlan.constantName, noHash_append]
    and_intros <;> first | assumption | exact noHash_ascii _ (by decide)
  | synonym primitive =>
    simp only [TypePlan.typeDecls, hshape]
    exact List.forall_mem_singleton.mpr ⟨noHash_cName primitive, hname⟩

theorem functionDecls_plain (h : p.Plain) : ∀ d ∈ p.functionDecls, d.Plain := by
  intro d hd
  simp only [TypePlan.functionDecls, List.mem_append, List.mem_filterMap, List.mem_map] at hd
  rcases hd with (⟨m, hm, hd⟩ | ⟨m, hm, rfl⟩) | ⟨symbol, hsymbol, rfl⟩
  · obtain ⟨o, ho, rfl⟩ := Option.map_eq_some_iff.mp hd
    have houtcome := (h.methods m hm).signature.outcome o ho
    exact ⟨houtcome.name, houtcome.members⟩
  · exact ⟨(h.methods m hm).contract, (h.methods m hm).signature.prototype⟩
  · exact ⟨h.name, h.destructor symbol hsymbol⟩

theorem hostMethods_plain (h : p.Plain) : ∀ d ∈ p.hostMethods names, d.Plain := by
  intro d hd
  obtain ⟨m, hm, rfl⟩ := List.mem_map.mp hd
  exact ⟨(h.methods m hm).contract, HostMethod.ofPlan_plain (h.methods m hm)⟩

theorem hostTypeDecl_plain (h : p.Plain) : (p.hostTypeDecl names).Plain := by
  have hvariants := h.variants
  unfold TypeDef.variants at hvariants
  cases hshape : p.type.shape with
  | object methods =>
    simp only [TypePlan.hostTypeDecl, hshape]
    exact ⟨h.name, hostMethods_plain h⟩
  | record fields methods =>
    simp only [TypePlan.hostTypeDecl, hshape]
    refine ⟨h.name, ?_, hostMethods_plain h⟩
    intro field hfield
    obtain ⟨f, hf, rfl⟩ := List.mem_map.mp hfield
    exact ⟨(h.fields f hf).2.host, noHash_hostIdentifier _ _ (h.fields f hf).1⟩
  | enumeration variants =>
    simp only [hshape] at hvariants
    simp only [TypePlan.hostTypeDecl, hshape]
    refine ⟨h.name, ?_⟩
    intro variant hvariant
    obtain ⟨v, hv, rfl⟩ := List.mem_map.mp hvariant
    exact noHash_escape (hvariants v hv)
  | synonym primitive =>
    simp only [TypePlan.hostTypeDecl, hshape]
    exact ⟨h.name, noHash_hostName primitive⟩

theorem conversionDecls_plain (h : p.Plain) (hnames : ∀ id, NoHash (names.name id)) :
    ∀ d ∈ p.conversionDecls names, d.Plain := by
  have hthis : NoHash (ascii "this->") := noHash_ascii _ (by decide)
  have hstruct : NoHash (ascii "c_struct.") := noHash_ascii _ (by decide)
  unfold TypePlan.conversionDecls
  cases p.type.shape with
  | object methods => exact List.forall_mem_singleton.mpr ⟨h.name, h.destructor⟩
  | record fields methods =>
    refine List.forall_mem_singleton.mpr ⟨h.name, ?_, ?_⟩
    · intro item hitem
      obtain ⟨f, hf, rfl⟩ := List.mem_map.mp hitem
      have hfield := noHash_hostIdentifier names p.type.name (h.fields f hf).1
      exact (Conversion.lower_plain hnames _ .field (noHash_append.mpr ⟨hthis, hfield⟩)
        noHash_nil).value
    · intro item hitem
      obtain ⟨f, hf, rfl⟩ := List.mem_map.mp hitem
      have hfield := noHash_escape (h.fields f hf).1
      exact Conversion.noHash_lift hnames _ (h.fields f hf).2.host .field
        (noHash_append.mpr ⟨hstruct, hfield⟩)
  | _ => exact List.forall_mem_nil _

theorem forwardTypes_plain (hnames : ∀ id, NoHash (names.name id)) :
    ∀ t ∈ p.forwardTypes names, NoHash t.2 := by
  intro t ht
  obtain ⟨id, -, ht⟩ := List.mem_filterMap.mp ht
  split at ht
  · cases ht
  · cases ht
    exact hnames id
  · cases ht

/-- The names of the other types are made of what identifiers are made of. -/
def Names.Plain (names : Names) : Prop := ∀ id, (names.name id).all Identifier.isPart = true

theorem Names.Plain.noHash (h : names.Plain) (id : TypeId) : NoHash (names.name id) :=
  notMem_of_all_isPart (h id) (by decide)

end

end Bindery
