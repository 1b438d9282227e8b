import Bindery.Proofs.Generation.Artifacts
import Bindery.Proofs.Generation.References
import Bindery.Proofs.Header.Inclusion

/-!
Nothing a run writes has a hash but directives and documentation: the names of a well-formed
registry are identifiers, and everything in a plan is spelled from them.
-/

set_option autoImplicit false

namespace Bindery

namespace Registry

theorem variant_valid_of_problems {t : TypeDef} {seen : List Text} {vs : List Variant}
    (h : variantProblems t seen vs = []) : ∀ v ∈ vs, Identifier.isValid v.name = true := by
  induction vs generalizing seen with
  | nil => exact List.forall_mem_nil _
  | cons v vs ih =>
    simp only [variantProblems, List.append_eq_nil_iff] at h
    exact List.forall_mem_cons.mpr ⟨badName_eq_nil_iff.mp h.1.1, ih h.2⟩

namespace WellFormed

variable {r : Registry} {t : TypeDef}

theorem method_valid (h : r.WellFormed) (ht : t ∈ r.types) {m : Method} (hm : m ∈ t.methods) :
    Identifier.isValid m.name = true ∧ ∀ p ∈ m.params, Identifier.isValid p.name = true := by
  have hmembers := h.members_valid t ht
  simp only [memberProblems, List.append_eq_nil_iff, List.flatMap_eq_nil_iff] at hmembers
  have hmethod := hmembers.1.1 m hm
  simp only [methodProblems, List.append_eq_nil_iff, List.flatMap_eq_nil_iff] at hmethod
  exact ⟨badName_eq_nil_iff.mp hmethod.1, fun p hp => badName_eq_nil_iff.mp (hmethod.2 p hp)⟩

theorem field_valid (h : r.WellFormed) (ht : t ∈ r.types) {f : Field} (hf : f ∈ t.fields) :
    Identifier.isValid f.name = true := by
  have hmembers := h.members_valid t ht
  simp only [memberProblems, List.append_eq_nil_iff, List.flatMap_eq_nil_iff] at hmembers
  exact badName_eq_nil_iff.mp (hmembers.1.2 f hf)

theorem variant_valid (h : r.WellFormed) (ht : t ∈ r.types) {v : Variant} (hv : v ∈ t.variants) :
    Identifier.isValid v.name = true := by
  have hmembers := h.members_valid t ht
  simp only [memberProblems, List.append_eq_nil_iff] at hmembers
  exact variant_valid_of_problems hmembers.2 v hv

end WellFormed

end Registry

theorem noHash_methodSymbol {owner : TypeDef} {m : Method} (howner : NoHash owner.name)
    (hm : NoHash m.name) : NoHash (methodSymbol owner m) :=
  noHash_append.mpr ⟨noHash_append.mpr ⟨howner, noHash_ascii _ (by decide)⟩, hm⟩

structure TransferPlan.Plain (p : TransferPlan) : Prop where
  inputs : ∀ i ∈ p.inputs, NoHash i.name
  returns : ∀ s ∈ p.returns.sources, NoHash s
  sides : ∀ sides ∈ p.sides, ∀ s ∈ sides.1.sources ++ sides.2.sources, NoHash s

namespace TransferPlan

theorem noHash_ticked {name : Text} (h : NoHash name) : NoHash (ticked name) := by
  simp only [ticked, noHash_append]
  and_intros <;> first | assumption | exact noHash_ascii _ (by decide)

theorem noHash_inputLine {i : InputTransfer} (h : NoHash i.name) :
    ∀ line ∈ inputLine i, NoHash line := by
  have hname := noHash_ticked h
  intro line hline
  unfold inputLine at hline
  cases htransfer : i.transfer with
  | borrow | borrowMut | move =>
    simp only [htransfer, Option.mem_some_iff] at hline
    subst hline
    exact noHash_append.mpr ⟨hname, noHash_ascii _ (by decide)⟩
  | _ => simp [htransfer] at hline

theorem noHash_outputLine {what : Text} {o : OutputTransfer} (hwhat : NoHash what)
    (h : ∀ s ∈ o.sources, NoHash s) : ∀ line ∈ (outputLine what o).toList, NoHash line := by
  have hsources : NoHash (Text.join ", " (o.sources.map ticked)) := by
    refine noHash_join (noHash_ascii _ (by decide)) fun name hname => ?_
    obtain ⟨s, hs, rfl⟩ := List.mem_map.mp hname
    exact noHash_ticked (h s hs)
  intro line hline
  rw [Option.mem_toList] at hline
  unfold outputLine at hline
  cases htransfer : o.transfer with
  | adopt | borrow =>
    simp only [htransfer, Option.some.injEq] at hline
    subst hline
    simp only [noHash_append]
    and_intros <;> first | assumption | exact noHash_ascii _ (by decide)
  | _ => simp [htransfer] at hline

theorem Plain.noHash_describe {p : TransferPlan} (h : p.Plain) :
    ∀ line ∈ p.describe, NoHash line := by
  intro line hline
  simp only [describe, List.mem_append, List.mem_filterMap] at hline
  rcases hline with (⟨i, hi, hline⟩ | hline) | hline
  · exact noHash_inputLine (h.inputs i hi) line hline
  · exact noHash_outputLine (noHash_ascii _ (by decide)) h.returns line hline
  · cases hsides : p.sides with
    | none => simp [hsides] at hline
    | some sides =>
      have hboth := h.sides sides hsides
      rw [List.forall_mem_append] at hboth
      simp only [hsides, List.mem_append] at hline
      rcases hline with hline | hline
      · exact noHash_outputLine (noHash_ascii _ (by decide)) hboth.1 line hline
      · exact noHash_outputLine (noHash_ascii _ (by decide)) hboth.2 line hline

end TransferPlan

namespace Registry

variable {r : Registry}

theorem output_sources {borrowed : List Text} {what : Text} {ref : TypeRef} {o : OutputTransfer}
    (h : r.output borrowed what ref = .ok o) : o.sources ⊆ borrowed := by
  unfold output at h
  dsimp only at h
  split_ifs at h
  · cases h
    exact List.nil_subset _
  · cases h
    exact List.Subset.refl _

theorem planOutputs_sources {inputs : List InputTransfer} {returns : TypeRef} {p : TransferPlan}
    (h : r.planOutputs inputs returns = .ok p) :
    p.inputs = inputs ∧ p.returns.sources ⊆ borrowedNames inputs ∧
      ∀ sides ∈ p.sides, sides.1.sources ++ sides.2.sources ⊆ borrowedNames inputs := by
  unfold planOutputs at h
  cases returns with
  | fallible ok err =>
    cases hok : r.output (borrowedNames inputs) "the success value" ok with
    | error message => simp [hok] at h
    | ok okSide =>
      cases herr : r.output (borrowedNames inputs) "the error value" err with
      | error message => simp [hok, herr] at h
      | ok errSide =>
        simp only [hok, herr, Except.ok.injEq] at h
        subst h
        refine ⟨rfl, List.nil_subset _, ?_⟩
        rintro _ ⟨⟩
        exact List.append_subset.mpr ⟨output_sources hok, output_sources herr⟩
  | _ =>
    dsimp only at h
    split at h
    · cases h
    · rename_i hwhole
      cases h
      exact ⟨rfl, output_sources hwhole, by simp⟩

theorem noHash_inputsOf {owner : TypeDef} {m : Method} (hparams : ∀ q ∈ m.params, NoHash q.name) :
    ∀ i ∈ inputsOf owner m, NoHash i.name := by
  intro i hi
  rcases List.mem_append.mp hi with hi | hi
  · have hself : i.name = selfParam := by
      cases hreceiver : m.receiver <;> simp_all [receiverInput]
    rw [hself]
    exact noHash_ascii _ (by decide)
  · obtain ⟨q, hq, rfl⟩ := List.mem_map.mp hi
    exact hparams q hq

theorem planTransfers_plain {owner : TypeDef} {m : Method} {p : TransferPlan}
    (hparams : ∀ q ∈ m.params, NoHash q.name) (h : r.planTransfers owner m = .ok p) : p.Plain := by
  have hinputs : ∀ i ∈ inputsOf owner m, NoHash i.name := noHash_inputsOf hparams
  have hborrowed : ∀ s ∈ borrowedNames (inputsOf owner m), NoHash s := by
    intro s hs
    obtain ⟨i, hi, rfl⟩ := List.mem_map.mp hs
    exact hinputs i (List.mem_filter.mp hi).1
  have hplan : r.planOutputs (inputsOf owner m) m.returns = .ok p := by
    unfold planTransfers at h
    cases hp : r.planOutputs (inputsOf owner m) m.returns <;> simp_all
  obtain ⟨hsame, hreturns, hsides⟩ := planOutputs_sources hplan
  refine ⟨?_, fun s hs => hborrowed s (hreturns hs),
    fun sides hmem s hs => hborrowed s (hsides sides hmem hs)⟩
  rwa [hsame]

end Registry

namespace Mapper

variable {m : Mapper} {owner : TypeDef} {method : Method} {s : Signature}

theorem outcomeOf_plain (hm : m.Plain) {returns : TypeRef} {native : Native}
    {outcome : Option Outcome} (hnative : NoHash native.cType)
    (h : m.outcomeOf returns native = .ok outcome) : ∀ o ∈ outcome, o.Plain := by
  intro o ho
  rcases outcomeOf_eq_ok_iff.mp h with ⟨ok, err, o', -, houtcome, rfl⟩ | ⟨-, rfl⟩
  · obtain rfl := Option.some.inj ho
    obtain ⟨hok, herr, hrecord⟩ := mapOutcome_eq_ok_iff.mp houtcome
    have hokPlain := mapWith_plain hm noHash_nil hok
    have herrPlain := mapWith_plain hm noHash_nil herr
    have hmember : ∀ x : Mapped, x.Plain → ∀ cType ∈ (payloadMember x).toList, NoHash cType := by
      intro x hx cType hcType
      unfold payloadMember at hcType
      split_ifs at hcType
      · rw [Option.toList_some, List.mem_singleton] at hcType
        rw [hcType]
        exact hx.cType
      · exact absurd hcType List.not_mem_nil
    refine ⟨?_, ?_, hokPlain, herrPlain⟩
    · rwa [hrecord]
    · rw [hrecord, List.forall_mem_append]
      exact ⟨hmember _ hokPlain, hmember _ herrPlain⟩
  · exact absurd ho (Option.not_mem_none o)

theorem mapParams_plain (hm : m.Plain) {params : List Param} {declared : List Mapped}
    (h : m.mapParams params = .ok declared) : ∀ x ∈ declared, x.Plain := by
  have hall := mapParams_eq_ok_iff.mp h
  clear h
  induction hall with
  | nil => exact List.forall_mem_nil _
  | cons hx _ ih => exact List.forall_mem_cons.mpr ⟨mapWith_plain hm noHash_nil hx.2, ih⟩

theorem noHash_abiParams {receiver : Option Mapped} {params : List Param} {declared : List Mapped}
    {returns : Native} (hreceiver : ∀ x ∈ receiver, x.Plain)
    (hparams : ∀ q ∈ params, NoHash q.name) (hdeclared : ∀ x ∈ declared, x.Plain)
    (hreturns : NoHash returns.cType) (hasWrite : Bool) (passing : Passing) :
    ∀ p ∈ abiParams receiver params declared hasWrite passing returns,
      NoHash p.name ∧ NoHash p.cType := by
  have hword : ∀ l : List Char, (l.all fun c => c.toNat.toUInt8 != 35) = true →
      NoHash (ascii (String.ofList l)) := noHash_ascii
  intro p hp
  simp only [abiParams, List.mem_append, List.mem_map] at hp
  rcases hp with ((⟨x, hx, rfl⟩ | ⟨⟨q, x⟩, hpair, rfl⟩) | hp) | hp
  · exact ⟨hword _ (by decide), (hreceiver x (Option.mem_toList.mp hx)).cType⟩
  · obtain ⟨hq, hx⟩ := List.of_mem_zip hpair
    exact ⟨hparams q hq, (hdeclared x hx).cType⟩
  · split_ifs at hp
    · rw [List.mem_singleton.mp hp]
      exact ⟨hword _ (by decide), hword _ (by decide)⟩
    · exact absurd hp List.not_mem_nil
  · split_ifs at hp
    · rw [List.mem_singleton.mp hp]
      exact ⟨hword _ (by decide), noHash_append.mpr ⟨hreturns, hword _ (by decide)⟩⟩
    · exact absurd hp List.not_mem_nil

theorem signature_plain (hm : m.Plain) (howner : NoHash owner.name) (hname : NoHash method.name)
    (hparams : ∀ q ∈ method.params, NoHash q.name) (h : m.signature owner method = .ok s) :
    s.Plain := by
  obtain ⟨receiver, declared, returns, outcome, hreceiver, hdeclared, hreturns, houtcome, rfl⟩ :=
    signature_eq_ok_iff.mp h
  have hsymbol := noHash_methodSymbol howner hname
  have hself : ∀ x ∈ receiver, x.Plain := by
    rcases mapReceiver_eq_ok_iff.mp hreceiver with ⟨-, rfl⟩ | ⟨ref, x, -, hx, rfl⟩
    · simp
    · rintro _ ⟨⟩
      exact mapWith_plain hm noHash_nil hx
  have hparamsPlain := mapParams_plain hm hdeclared
  have hreturn : returns.Plain :=
    mapWith_plain hm (noHash_append.mpr ⟨hsymbol, noHash_ascii _ (by decide)⟩)
      (mapIn_eq_ok_iff.mp hreturns)
  refine ⟨hsymbol, ?_, noHash_abiParams hself hparams hparamsPlain hreturn.cType _ _, hself,
    hparamsPlain, hreturn, outcomeOf_plain hm hreturn.cType houtcome⟩
  dsimp only
  split_ifs
  · exact hreturn.cType
  · exact noHash_ascii _ (by decide)

end Mapper

section
variable {c : Context} {t : TypeDef}

theorem mapper_plain (hr : c.registry.WellFormed) : c.mapper.Plain where
  dialect := by
    show c.target.dialect.Plain
    cases c.target with
    | c => exact Dialect.c_plain
    | cpp => exact Dialect.cpp_plain
  names t ht := noHash_of_isValid (hr.name_valid t ht)

theorem planMethod_plain (hr : c.registry.WellFormed) (ht : t ∈ c.registry.types) {m : Method}
    (hm : m ∈ t.methods) {p : MethodPlan} (h : planMethod c t m = .ok p) : p.Plain := by
  obtain ⟨rfl, hsignature, htransfers⟩ := planMethod_eq_ok_iff.mp h
  obtain ⟨hname, hparams⟩ := hr.method_valid ht hm
  have hparamsHash : ∀ q ∈ p.method.params, NoHash q.name := fun q hq =>
    noHash_of_isValid (hparams q hq)
  exact ⟨noHash_of_isValid hname, hparamsHash,
    Mapper.signature_plain (mapper_plain hr) (noHash_of_isValid (hr.name_valid t ht))
      (noHash_of_isValid hname) hparamsHash hsignature,
    (Registry.planTransfers_plain hparamsHash htransfers).noHash_describe⟩

theorem noHash_destructors (hr : c.registry.WellFormed) {id : TypeId} {symbol : Text}
    (h : (c.registry.destructors c.enabled).lookup id = some symbol) : NoHash symbol := by
  rw [Registry.destructors, lookup_table hr] at h
  obtain ⟨t, ht, hsymbol⟩ := Option.bind_eq_some_iff.mp h
  split_ifs at hsymbol
  cases hsymbol
  have hname := noHash_of_isValid (hr.name_valid t (Registry.mem_of_find? ht))
  exact noHash_append.mpr ⟨hname, noHash_ascii _ (by decide)⟩

theorem draftType_plain (hr : c.registry.WellFormed) (ht : t ∈ c.registry.types) :
    (draftType c t).plan.Plain where
  name_parts := all_isPart_of_isValid (hr.name_valid t ht)
  variants v hv := noHash_of_isValid (hr.variant_valid ht hv)
  fields f hf := by
    obtain ⟨hfield, hmapped⟩ := mem_planDefinition hf
    exact ⟨noHash_of_isValid (hr.field_valid ht hfield),
      Mapper.mapWith_plain (mapper_plain hr) noHash_nil hmapped⟩
  methods p hp := by
    obtain ⟨m, hm, hplan⟩ := List.mem_map.mp (ok_mem_of_partitionResults hp)
    rw [selectMethods_methods] at hm
    exact planMethod_plain hr ht (List.mem_filter.mp hm).1 hplan
  destructor symbol hsymbol := noHash_destructors hr (Option.mem_toList.mp hsymbol)

end

section
variable {r : Registry} {target : Target} {o : Options}

theorem names_plain (hr : r.WellFormed) : (runContext r target o).names.Plain := by
  intro id
  show (((nameTable target (enabledTypes r _)).find? id).map NameEntry.name |>.getD []).all
    Identifier.isPart = true
  rw [find?_nameTable hr]
  cases hfind : r.find? id with
  | none => rfl
  | some t =>
    dsimp only [Option.bind_some]
    split_ifs
    · exact all_isPart_of_isValid (hr.name_valid t (Registry.mem_of_find? hfind))
    · rfl

theorem Namespace.segments_ne_nil (t : Text) : segments t ≠ [] := by
  fun_cases segments t <;> simp_all

/-- The cuts lose nothing but the double colons. -/
theorem Namespace.join_segments (t : Text) : Text.join "::" (segments t) = t := by
  fun_induction segments t with
  | case1 => rfl
  | case2 t ih =>
    obtain ⟨s, ss, hs⟩ := List.exists_cons_of_ne_nil (segments_ne_nil t)
    rw [hs] at ih ⊢
    rw [Text.join, List.intercalate_cons_cons, ← Text.join, ih]
    rfl
  | case3 c t _ hnone ih => exact absurd hnone (segments_ne_nil t)
  | case4 c t _ s ss hs ih =>
    rw [hs] at ih
    rw [← ih]
    cases ss with
    | nil => rfl
    | cons s' ss => simp [Text.join, List.intercalate_cons_cons]

theorem noHash_of_validNamespace {ns : Text} (h : Namespace.isValid ns = true) : NoHash ns := by
  rw [← Namespace.join_segments ns]
  refine noHash_join (by decide) fun s hs => ?_
  have hsegment := List.all_eq_true.mp h s hs
  simp only [Namespace.isSegment, Bool.and_eq_true] at hsegment
  exact noHash_of_isValid hsegment.1.1.1

theorem noHash_hostNamespace (ho : o.problem? .cpp = none) : NoHash o.hostNamespace := by
  apply noHash_of_validNamespace
  simp only [Options.problem?, Target.optionProblem?] at ho
  split_ifs at ho with hwidth hvalid
  exact hvalid

end

end Bindery
