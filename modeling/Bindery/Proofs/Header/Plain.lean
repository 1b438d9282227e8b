import Bindery.Generation.Headers
import Bindery.Proofs.Generation.Outcome
import Bindery.Proofs.Mapping.Spelling

/-!
Declarations without a hash. The documentation of an item may hold anything, but stands in comments;
all else is names, spellings of types and signs, so the lines of a declaration name no file.
-/

set_option autoImplicit false

namespace Bindery

structure Outcome.Plain (o : Outcome) : Prop where
  name : NoHash o.record.name
  members : ∀ cType ∈ o.record.ok.toList ++ o.record.err.toList, NoHash cType
  ok : o.ok.Plain
  err : o.err.Plain

structure Signature.Plain (s : Signature) : Prop where
  symbol : NoHash s.symbol
  cReturn : NoHash s.cReturn
  params : ∀ p ∈ s.params, NoHash p.name ∧ NoHash p.cType
  receiver : ∀ x ∈ s.receiver, x.Plain
  declared : ∀ x ∈ s.declared, x.Plain
  returns : s.returns.Plain
  outcome : ∀ o ∈ s.outcome, o.Plain

theorem Signature.Plain.prototype {s : Signature} (h : s.Plain) : NoHash s.prototype := by
  have hparams : NoHash
      (if s.params.isEmpty then ascii "void" else Text.join ", " (s.params.map parameterText)) := by
    split_ifs
    · exact noHash_ascii _ (by decide)
    · refine noHash_join (noHash_ascii _ (by decide)) ?_
      intro text htext
      obtain ⟨p, hp, rfl⟩ := List.mem_map.mp htext
      obtain ⟨hname, htype⟩ := h.params p hp
      have hspace : NoHash (ascii " ") := noHash_ascii _ (by decide)
      simp [parameterText, hspace, htype, noHash_escape hname]
  have hspace : NoHash (ascii " ") := noHash_ascii _ (by decide)
  have hopen : NoHash (ascii "(") := noHash_ascii _ (by decide)
  have hclose : NoHash (ascii ")") := noHash_ascii _ (by decide)
  simp only [Signature.prototype, noHash_append]
  exact ⟨⟨⟨⟨⟨h.cReturn, hspace⟩, h.symbol⟩, hopen⟩, hparams⟩, hclose⟩

/-- Nothing but the documentation may hold a hash. -/
def CDecl.Plain : CDecl → Prop
  | object _ name => NoHash name
  | record _ name members => NoHash name ∧ ∀ m ∈ members, NoHash m.cType ∧ NoHash m.name
  | option name value => NoHash name ∧ NoHash value
  | enumeration _ name constants => NoHash name ∧ ∀ c ∈ constants, NoHash c.name
  | synonym _ target name => NoHash target ∧ NoHash name
  | result r => NoHash r.name ∧ ∀ cType ∈ r.ok.toList ++ r.err.toList, NoHash cType
  | function _ contract signature => (∀ line ∈ contract, NoHash line) ∧ NoHash signature.prototype
  | destructor type symbol => NoHash type ∧ NoHash symbol
  | support _ lines => ∀ line ∈ lines, NoHash line

theorem silent_doc (docs : Text) {extra : List Text} (h : ∀ line ∈ extra, NoHash line) :
    Silent (docComment [] docs extra) := silent_docComment rfl noHash_nil docs h

theorem silent_doc_margin (docs : Text) {extra : List Text} (h : ∀ line ∈ extra, NoHash line) :
    Silent (docComment CDecl.margin docs extra) :=
  silent_docComment (by decide) (noHash_ascii _ (by decide)) docs h

theorem silent_closedLines {lines : List Text} (h : ∀ line ∈ lines, NoHash line) :
    Silent (lines.flatMap Text.closed) := by
  apply Silent.flatMap
  intro line hline
  exact silent_of_noHash (h line hline) (by decide)

theorem silent_documented {docs code : Text} (hdocs : Silent docs) (hcode : NoHash code)
    (ending : Text) (hend : ∀ fresh, scan fresh ending = some true) :
    Silent (docs ++ (code ++ ending)) :=
  hdocs.append (silent_of_noHash hcode hend)

theorem silent_typedef {keyword name body : Text} (hkeyword : NoHash keyword) (hname : NoHash name)
    (hbody : Silent body) : Silent (CDecl.typedef keyword name body) := by
  have hhead : NoHash (ascii "typedef " ++ keyword ++ ascii " " ++ name) := by
    simp only [noHash_append]
    and_intros <;> first | assumption | exact noHash_ascii _ (by decide)
  have hclose : NoHash (ascii "\x7d " ++ name) :=
    noHash_append.mpr ⟨noHash_ascii _ (by decide), hname⟩
  have hopening := @silent_of_noHash _ (ascii " \x7b\n") hhead (by decide)
  have hclosing := @silent_of_noHash _ (ascii ";\n\n") hclose (by decide)
  have hall := (hopening.append hbody).append hclosing
  simpa only [CDecl.typedef, List.append_assoc] using hall

theorem silent_memberText {m : CMember} (htype : NoHash m.cType) (hname : NoHash m.name) :
    Silent (CDecl.memberText m) := by
  have hescaped := noHash_escape hname
  have hcode : NoHash (CDecl.margin ++ m.cType ++ ascii " " ++ Identifier.escape m.name) := by
    simp only [noHash_append]
    and_intros <;> first | assumption | exact noHash_ascii _ (by decide)
  have hall := silent_documented (silent_doc_margin m.docs (List.forall_mem_nil _)) hcode
    (ascii ";\n") (by decide)
  simpa only [CDecl.memberText, List.append_assoc] using hall

theorem silent_enumerator (docs : Text) {name : Text} (value : Int64) (hname : NoHash name) :
    Silent (docComment CDecl.margin docs [] ++ CDecl.margin ++ name ++ ascii " = " ++
      decimalInt value.toInt ++ ascii ",\n") := by
  have hvalue := noHash_decimalInt value.toInt
  have hcode : NoHash (CDecl.margin ++ name ++ ascii " = " ++ decimalInt value.toInt) := by
    simp only [noHash_append]
    and_intros <;> first | assumption | exact noHash_ascii _ (by decide)
  have hall := silent_documented (silent_doc_margin docs (List.forall_mem_nil _)) hcode
    (ascii ",\n") (by decide)
  simpa only [List.append_assoc] using hall

theorem silent_payloadText (name : Text) (hname : NoHash name) {cType : Option Text}
    (h : ∀ t ∈ cType.toList, NoHash t) : Silent (CDecl.payloadText name cType) := by
  cases cType with
  | none => exact silent_nil
  | some t =>
    have ht := h t (by simp)
    refine silent_of_noHash ?_ (by decide)
    simp only [noHash_append]
    and_intros <;> first | assumption | exact noHash_ascii _ (by decide)

theorem silent_resultBody {r : ResultRecord}
    (h : ∀ cType ∈ r.ok.toList ++ r.err.toList, NoHash cType) : Silent (CDecl.resultBody r) := by
  have hok := silent_payloadText (ascii "ok") (noHash_ascii _ (by decide))
    fun t ht => h t (List.mem_append_left _ ht)
  have herr := silent_payloadText (ascii "err") (noHash_ascii _ (by decide))
    fun t ht => h t (List.mem_append_right _ ht)
  have hopen : Silent (ascii "    union \x7b\n") := silent_of_scan (by decide)
  have hclose : Silent (ascii "    \x7d;\n") := silent_of_scan (by decide)
  rw [CDecl.resultBody]
  refine Silent.append ?_ (silent_of_scan (by decide))
  split_ifs
  · exact ((hopen.append hok).append herr).append hclose
  · exact silent_nil

theorem CDecl.silent_text {d : CDecl} (h : d.Plain) : Silent d.text := by
  have hnone : ∀ line ∈ ([] : List Text), NoHash line := by simp
  cases d with
  | object docs name =>
    have hname : NoHash name := h
    have hcode : NoHash (ascii "typedef struct " ++ name ++ ascii " " ++ name) := by
      simp only [noHash_append]
      and_intros <;> first | assumption | exact noHash_ascii _ (by decide)
    have hall := silent_documented (silent_doc docs hnone) hcode (ascii ";\n\n") (by decide)
    simpa only [CDecl.text, List.append_assoc] using hall
  | record docs name members =>
    refine (silent_doc docs hnone).append (silent_typedef (noHash_ascii _ (by decide)) h.1 ?_)
    apply Silent.flatMap
    intro m hm
    exact silent_memberText (h.2 m hm).1 (h.2 m hm).2
  | option name value =>
    obtain ⟨hname, hvalue⟩ := h
    refine silent_typedef (noHash_ascii _ (by decide)) hname (silent_of_noHash ?_ (by decide))
    exact noHash_append.mpr ⟨noHash_ascii _ (by decide), hvalue⟩
  | enumeration docs name constants =>
    refine (silent_doc docs hnone).append (silent_typedef (noHash_ascii _ (by decide)) h.1 ?_)
    apply Silent.flatMap
    intro c hc
    exact silent_enumerator c.docs c.value (h.2 c hc)
  | synonym docs target name =>
    obtain ⟨htarget, hname⟩ := h
    have hcode : NoHash (ascii "typedef " ++ target ++ ascii " " ++ name) := by
      simp only [noHash_append]
      and_intros <;> first | assumption | exact noHash_ascii _ (by decide)
    have hall := silent_documented (silent_doc docs hnone) hcode (ascii ";\n\n") (by decide)
    simpa only [CDecl.text, List.append_assoc] using hall
  | result r => exact silent_typedef (noHash_ascii _ (by decide)) h.1 (silent_resultBody h.2)
  | function docs contract signature =>
    have hall := silent_documented (silent_doc docs h.1) h.2 (ascii ";\n\n") (by decide)
    simpa only [CDecl.text, List.append_assoc] using hall
  | destructor type symbol =>
    obtain ⟨htype, hsymbol⟩ := h
    refine silent_of_noHash ?_ (by decide)
    simp only [noHash_append]
    and_intros <;> first | assumption | exact noHash_ascii _ (by decide)
  | support names lines => exact (silent_closedLines h).append fun _ => rfl

structure HostMethod.Plain (m : HostMethod) : Prop where
  name : NoHash m.name
  returns : NoHash m.returns
  params : ∀ p ∈ m.params, NoHash p.type ∧ NoHash p.name

structure HostMethodDecl.Plain (d : HostMethodDecl) : Prop where
  contract : ∀ line ∈ d.contract, NoHash line
  method : d.method.Plain

def CppDecl.Plain : CppDecl → Prop
  | forwards types => ∀ t ∈ types, NoHash t.2
  | handleClass _ name methods => NoHash name ∧ ∀ d ∈ methods, d.Plain
  | record _ name fields methods =>
    NoHash name ∧ (∀ f ∈ fields, NoHash f.type ∧ NoHash f.name) ∧ ∀ d ∈ methods, d.Plain
  | enumeration _ name variants => NoHash name ∧ ∀ v ∈ variants, NoHash v.name
  | synonym _ name target => NoHash name ∧ NoHash target
  | definition owner method _ body => NoHash owner ∧ method.Plain ∧ ∀ line ∈ body, NoHash line
  | handleConversions name destructor => NoHash name ∧ ∀ symbol ∈ destructor.toList, NoHash symbol
  | recordConversions name lowered lifted =>
    NoHash name ∧ (∀ item ∈ lowered, NoHash item) ∧ ∀ item ∈ lifted, NoHash item
  | support lines => ∀ line ∈ lines, NoHash line

theorem noHash_signatureText {owner : Text} {m : HostMethod} (howner : NoHash owner)
    (h : m.Plain) : NoHash (CppDecl.signatureText owner m) := by
  have hreturns := h.returns
  have hname := h.name
  have hparams : NoHash (Text.join ", " (m.params.map CppDecl.paramText)) := by
    refine noHash_join (noHash_ascii _ (by decide)) ?_
    intro text htext
    obtain ⟨p, hp, rfl⟩ := List.mem_map.mp htext
    obtain ⟨htype, hname⟩ := h.params p hp
    exact noHash_append.mpr ⟨noHash_append.mpr ⟨htype, noHash_ascii _ (by decide)⟩, hname⟩
  have hconst : NoHash (ascii (if m.isConst then " const" else "")) := by
    split_ifs <;> exact noHash_ascii _ (by decide)
  simp only [CppDecl.signatureText, noHash_append]
  and_intros <;> first | assumption | exact noHash_ascii _ (by decide)

theorem silent_methodText {d : HostMethodDecl} (h : d.Plain) : Silent (CppDecl.methodText d) := by
  have hsignature := noHash_signatureText noHash_nil h.method
  have hstatic : NoHash (ascii (if d.method.isStatic then "static " else "")) := by
    split_ifs <;> exact noHash_ascii _ (by decide)
  have hcode : NoHash (CppDecl.margin ++ ascii (if d.method.isStatic then "static " else "") ++
      CppDecl.signatureText [] d.method) := by
    simp only [noHash_append]
    and_intros <;> first | assumption | exact noHash_ascii _ (by decide)
  have hdocs : Silent (docComment CppDecl.margin d.docs d.contract) :=
    silent_doc_margin d.docs h.contract
  have hall := silent_documented hdocs hcode (ascii ";\n\n") (by decide)
  simpa only [CppDecl.methodText, List.append_assoc] using hall

theorem silent_fieldText {f : HostField} (htype : NoHash f.type) (hname : NoHash f.name) :
    Silent (CppDecl.fieldText f) := by
  have hcode : NoHash (CppDecl.margin ++ f.type ++ ascii " " ++ f.name) := by
    simp only [noHash_append]
    and_intros <;> first | assumption | exact noHash_ascii _ (by decide)
  have hdocs : Silent (docComment CppDecl.margin f.docs []) :=
    silent_doc_margin f.docs (List.forall_mem_nil _)
  have hall := silent_documented hdocs hcode (ascii ";\n") (by decide)
  simpa only [CppDecl.fieldText, List.append_assoc] using hall

theorem silent_forwardText {t : Kind × Text} (h : NoHash t.2) : Silent (CppDecl.forwardText t) := by
  obtain ⟨kind, name⟩ := t
  cases kind with
  | synonym => exact silent_nil
  | _ =>
    refine silent_of_noHash (noHash_append.mpr ⟨noHash_ascii _ (by decide), h⟩) (by decide)

theorem noHash_handleClassEnd {n : Text} (h : NoHash n) :
    ∀ line ∈ CppDecl.handleClassEnd n, NoHash line := by
  simp only [CppDecl.handleClassEnd, List.forall_mem_cons, noHash_append]
  and_intros <;> first | assumption | exact noHash_ascii _ (by decide) | simp

theorem noHash_handleConversionLines {n : Text} (h : NoHash n) :
    ∀ line ∈ CppDecl.handleConversionLines n, NoHash line := by
  simp only [CppDecl.handleConversionLines, List.forall_mem_cons, noHash_append]
  and_intros <;> first | assumption | exact noHash_ascii _ (by decide) | simp

theorem noHash_deleteLines {n destructor : Text} (h : NoHash n) (hdestructor : NoHash destructor) :
    ∀ line ∈ CppDecl.deleteLines n destructor, NoHash line := by
  simp only [CppDecl.deleteLines, List.forall_mem_cons, noHash_append]
  and_intros <;> first | assumption | exact noHash_ascii _ (by decide) | simp

theorem silent_aggregateFunction {head type : Text} {items : List Text} (hhead : NoHash head)
    (htype : NoHash type) (hitems : ∀ item ∈ items, NoHash item) :
    Silent (CppDecl.aggregateFunction head type items) := by
  have hopen : NoHash (head ++ ascii " \x7b\n    return " ++ type) := by
    simp only [noHash_append]
    and_intros <;> first | assumption | exact noHash_ascii _ (by decide)
  have hopening := @silent_of_noHash _ (ascii "\x7b\n") hopen (by decide)
  have hlines : Silent (items.flatMap CppDecl.itemLine) := by
    apply Silent.flatMap
    intro item hitem
    exact silent_of_noHash (noHash_append.mpr ⟨noHash_ascii _ (by decide), hitems item hitem⟩)
      (by decide)
  have hclosing : Silent (ascii "    \x7d;\n\x7d\n\n") := silent_of_scan (by decide)
  have hall := (hopening.append hlines).append hclosing
  simpa only [CppDecl.aggregateFunction, List.append_assoc] using hall

theorem CppDecl.silent_text {d : CppDecl} (h : d.Plain) : Silent d.text := by
  have hnone : ∀ line ∈ ([] : List Text), NoHash line := by simp
  cases d with
  | forwards types =>
    rw [CppDecl.text]
    split_ifs
    · exact silent_nil
    · exact (Silent.flatMap fun t ht => silent_forwardText (h t ht)).append fun _ => rfl
  | handleClass docs name methods =>
    obtain ⟨hname, hmethods⟩ := h
    have hhead : NoHash (ascii "class " ++ name) :=
      noHash_append.mpr ⟨noHash_ascii _ (by decide), hname⟩
    have hopening := silent_documented (silent_doc docs hnone) hhead
      (ascii " \x7b\npublic:\n") (by decide)
    have hlist := Silent.flatMap fun d hd => silent_methodText (hmethods d hd)
    have hall := (hopening.append hlist).append (silent_closedLines (noHash_handleClassEnd hname))
    simpa only [CppDecl.text, List.append_assoc] using hall
  | record docs name fields methods =>
    obtain ⟨hname, hfields, hmethods⟩ := h
    have hhead : NoHash (ascii "struct " ++ name) :=
      noHash_append.mpr ⟨noHash_ascii _ (by decide), hname⟩
    have hopening := silent_documented (silent_doc docs hnone) hhead (ascii " \x7b\n") (by decide)
    have hmembers := Silent.flatMap fun f hf => silent_fieldText (hfields f hf).1 (hfields f hf).2
    have hlist := Silent.flatMap fun d hd => silent_methodText (hmethods d hd)
    have hconversions : NoHash (ascii "    inline ::" ++ name ++ ascii " AsFFI() const;\n" ++
        ascii "    inline static " ++ name ++ ascii " FromFFI(::" ++ name) := by
      simp only [noHash_append]
      and_intros <;> first | assumption | exact noHash_ascii _ (by decide)
    have hclosing := @silent_of_noHash _ (ascii " c_struct);\n\x7d;\n\n") hconversions
      (by decide)
    have hblank : Silent (ascii "\n") := fun _ => rfl
    have hall := (((hopening.append hmembers).append hblank).append hlist).append hclosing
    simpa only [CppDecl.text, List.append_assoc] using hall
  | enumeration docs name variants =>
    have hhead : NoHash (ascii "enum class " ++ name) :=
      noHash_append.mpr ⟨noHash_ascii _ (by decide), h.1⟩
    have hopening := silent_documented (silent_doc docs hnone) hhead
      (ascii " : int32_t \x7b\n") (by decide)
    have hlist : Silent (variants.flatMap CppDecl.variantText) :=
      Silent.flatMap fun v hv => silent_enumerator v.docs v.value (h.2 v hv)
    have hclosing : Silent (ascii "\x7d;\n\n") := silent_of_scan (by decide)
    have hall := (hopening.append hlist).append hclosing
    simpa only [CppDecl.text, List.append_assoc] using hall
  | synonym docs name target =>
    obtain ⟨hname, htarget⟩ := h
    have hcode : NoHash (ascii "using " ++ name ++ ascii " = " ++ target) := by
      simp only [noHash_append]
      and_intros <;> first | assumption | exact noHash_ascii _ (by decide)
    have hall := silent_documented (silent_doc docs hnone) hcode (ascii ";\n\n") (by decide)
    simpa only [CppDecl.text, List.append_assoc] using hall
  | definition owner method locals body =>
    obtain ⟨howner, hmethod, hbody⟩ := h
    have hscope : NoHash (owner ++ ascii "::") :=
      noHash_append.mpr ⟨howner, noHash_ascii _ (by decide)⟩
    have hhead : NoHash (ascii "inline " ++ CppDecl.signatureText (owner ++ "::") method) :=
      noHash_append.mpr ⟨noHash_ascii _ (by decide), noHash_signatureText hscope hmethod⟩
    have hopening := @silent_of_noHash _ (ascii " \x7b\n") hhead (by decide)
    have hlines : Silent (body.flatMap CppDecl.bodyLine) := by
      apply Silent.flatMap
      intro line hline
      exact silent_of_noHash (noHash_append.mpr ⟨noHash_ascii _ (by decide), hbody line hline⟩)
        (by decide)
    have hclosing : Silent (ascii "\x7d\n\n") := silent_of_scan (by decide)
    have hall := (hopening.append hlines).append hclosing
    simpa only [CppDecl.text, List.append_assoc] using hall
  | handleConversions name destructor =>
    obtain ⟨hname, hdestructor⟩ := h
    apply silent_closedLines
    intro line hline
    rcases List.mem_append.mp hline with hline | hline
    · exact noHash_handleConversionLines hname line hline
    · obtain ⟨symbol, hsymbol, hline⟩ := List.mem_flatMap.mp hline
      exact noHash_deleteLines hname (hdestructor symbol hsymbol) line hline
  | recordConversions name lowered lifted =>
    obtain ⟨hname, hlowered, hlifted⟩ := h
    refine Silent.append (silent_aggregateFunction ?_ ?_ hlowered)
      (silent_aggregateFunction ?_ hname hlifted)
    · simp only [noHash_append]
      and_intros <;> first | assumption | exact noHash_ascii _ (by decide)
    · exact noHash_append.mpr ⟨noHash_ascii _ (by decide), hname⟩
    · simp only [noHash_append]
      and_intros <;> first | assumption | exact noHash_ascii _ (by decide)
  | support lines => exact (silent_closedLines h).append fun _ => rfl

end Bindery
