import Bindery.Proofs.Header.Bodies
import Bindery.Proofs.Json.Faithful
import Bindery.Generation.Manifest

/-!
What the text of each artifact includes: the runtime headers nothing but the C runtime, the headers
of a type the files they list, and the index nothing.
-/

set_option autoImplicit false

namespace Bindery

theorem view_plain {docs name pointer : Text} (hname : NoHash name) (hpointer : NoHash pointer) :
    (CRuntime.view docs name pointer).Plain := by
  refine ⟨hname, ?_⟩
  simp only [List.forall_mem_cons]
  exact ⟨⟨hpointer, noHash_ascii _ (by decide)⟩, ⟨noHash_ascii _ (by decide),
    noHash_ascii _ (by decide)⟩, List.forall_mem_nil _⟩

theorem slices_plain (p : Primitive) : ∀ d ∈ CRuntime.slices p, d.Plain := by
  have hname := noHash_cName p
  simp only [CRuntime.slices, List.forall_mem_cons]
  refine ⟨view_plain (noHash_cSlice p false) ?_, view_plain (noHash_cSlice p true) ?_,
    List.forall_mem_nil _⟩
  · simp only [noHash_append]
    and_intros <;> first | assumption | exact noHash_ascii _ (by decide)
  · exact noHash_append.mpr ⟨hname, noHash_ascii _ (by decide)⟩

theorem cRuntime_decls_plain : ∀ d ∈ CRuntime.header.decls, d.Plain := by
  intro d hd
  simp only [CRuntime.header, List.mem_append, List.mem_flatMap, List.mem_map] at hd
  rcases hd with ((hd | hd) | ⟨p, -, hd⟩) | ⟨p, -, rfl⟩
  · revert d
    simp only [List.forall_mem_cons]
    refine ⟨?_, ?_, ?_, List.forall_mem_nil _⟩ <;>
    · simp only [CRuntime.sink, CRuntime.sinkWrite, CRuntime.sinkFlush, CDecl.Plain,
        List.forall_mem_cons]
      and_intros <;> first | exact noHash_ascii _ (by decide) | simp
  · revert d
    simp only [CRuntime.textViews, List.forall_mem_cons]
    refine ⟨view_plain ?_ ?_, view_plain ?_ ?_, view_plain ?_ ?_, List.forall_mem_nil _⟩ <;>
      exact noHash_ascii _ (by decide)
  · exact slices_plain p d hd
  · exact ⟨noHash_cOption p, noHash_cName p⟩

theorem cppRuntime_decls_plain : ∀ d ∈ CppRuntime.header.decls, d.Plain := by
  simp only [CppRuntime.header, List.forall_mem_cons]
  refine ⟨?_, ?_, ?_, ?_, List.forall_mem_nil _⟩ <;>
  · simp only [CppRuntime.okPayload, CppRuntime.errPayload, CppRuntime.result,
      CppRuntime.stringSink, CppDecl.Plain, List.forall_mem_cons]
    and_intros <;> first | exact noHash_ascii _ (by decide) | simp

theorem includedFiles_cRuntime : includedFiles CRuntime.header.text = [] := by
  refine includedFiles_render ⟨?_, trivial⟩
    fun d hd => CDecl.silent_text (cRuntime_decls_plain d hd)
  decide

theorem includedFiles_cppRuntime : includedFiles CppRuntime.header.text = [CRuntime.file] := by
  refine includedFiles_render ⟨?_, noHash_ascii _ (by decide)⟩
    fun d hd => CppDecl.silent_text (cppRuntime_decls_plain d hd)
  decide

/-- A name that an include directive can quote. -/
def Quotable (file : Text) : Prop := Byte.newline ∉ file ∧ Byte.quote ∉ file

instance (file : Text) : Decidable (Quotable file) := inferInstanceAs (Decidable (_ ∧ _))

theorem quotable_of_isPart {name ext : Text} (h : name.all Identifier.isPart = true)
    (hext : Quotable ext) : Quotable (name ++ ext) := by
  simp only [Quotable, List.mem_append, not_or]
  exact ⟨⟨notMem_of_all_isPart h (by decide), hext.1⟩,
    ⟨notMem_of_all_isPart h (by decide), hext.2⟩⟩

theorem includedFiles_of_listed {δ : Type} {declText : δ → Text} {h : Header δ} {files : List Text}
    (hincludes : h.includes = [files.map Include.file]) (hfiles : ∀ f ∈ files, Quotable f)
    (hscope : h.scope.Plain) (hdecls : ∀ d ∈ h.decls, Silent (declText d)) :
    includedFiles (h.render declText) = files := by
  have hplain : h.Plain := by
    refine ⟨?_, hscope⟩
    rw [hincludes, List.forall_mem_singleton, List.forall_mem_map]
    exact hfiles
  rw [includedFiles_render hplain hdecls, h.files_eq, hincludes, List.flatMap_singleton,
    List.flatMap_map]
  exact List.flatMap_singleton' files

section
variable {p : TypePlan} {names : Names} {ns : Text}

theorem includedFiles_declaration (h : p.Plain) (hnames : names.Plain) :
    includedFiles (p.declarationHeader names).text = CRuntime.file ::
      p.fieldDeps.map fun id => UnitFile.declaration (names.name id) := by
  refine includedFiles_of_listed ?_ ?_ trivial fun d hd =>
    CDecl.silent_text (typeDecls_plain h d hd)
  · simp [TypePlan.declarationHeader, Function.comp_def]
  · simp only [List.forall_mem_cons, List.forall_mem_map]
    exact ⟨by decide, fun id _ => quotable_of_isPart (hnames id) (by decide)⟩

theorem includedFiles_functions (h : p.Plain) (hnames : names.Plain) :
    includedFiles (p.functionHeader names).text =
      [UnitFile.declaration p.type.name, CRuntime.file] ++
        p.deps.map fun id => UnitFile.declaration (names.name id) := by
  refine includedFiles_of_listed ?_ ?_ trivial fun d hd =>
    CDecl.silent_text (functionDecls_plain h d hd)
  · simp [TypePlan.functionHeader, Function.comp_def]
  · simp only [List.cons_append, List.nil_append, List.forall_mem_cons, List.forall_mem_map]
    exact ⟨quotable_of_isPart h.name_parts (by decide), by decide,
      fun id _ => quotable_of_isPart (hnames id) (by decide)⟩

theorem includedFiles_hostDeclaration (h : p.Plain) (hnames : names.Plain) (hns : NoHash ns) :
    includedFiles (p.hostDeclarationHeader names ns).text =
      [CppRuntime.file, UnitFile.declaration p.type.name] ++
        p.definitionDeps.map fun id => UnitFile.hostDeclaration (names.name id) := by
  refine includedFiles_of_listed ?_ ?_ hns fun d hd => CppDecl.silent_text ?_
  · simp [TypePlan.hostDeclarationHeader, Function.comp_def]
  · simp only [List.cons_append, List.nil_append, List.forall_mem_cons, List.forall_mem_map]
    exact ⟨by decide, quotable_of_isPart h.name_parts (by decide),
      fun id _ => quotable_of_isPart (hnames id) (by decide)⟩
  · rcases List.mem_pair.mp hd with rfl | rfl
    · exact forwardTypes_plain hnames.noHash
    · exact hostTypeDecl_plain h

theorem includedFiles_hostDefinitions (h : p.Plain) (hnames : names.Plain) (hns : NoHash ns) :
    includedFiles (p.hostDefinitionHeader names ns).text =
      [UnitFile.hostDeclaration p.type.name, UnitFile.functions p.type.name] ++
        p.deps.map (fun id => UnitFile.hostDeclaration (names.name id)) ++
        p.deps.map fun id => UnitFile.hostDefinitions (names.name id) := by
  refine includedFiles_of_listed ?_ ?_ hns fun d hd => CppDecl.silent_text ?_
  · simp [TypePlan.hostDefinitionHeader, Function.comp_def]
  · simp only [List.forall_mem_append, List.forall_mem_cons, List.forall_mem_map]
    exact ⟨⟨⟨quotable_of_isPart h.name_parts (by decide),
      quotable_of_isPart h.name_parts (by decide), List.forall_mem_nil _⟩,
      fun id _ => quotable_of_isPart (hnames id) (by decide)⟩,
      fun id _ => quotable_of_isPart (hnames id) (by decide)⟩
  · rcases List.mem_append.mp hd with hd | hd
    · obtain ⟨m, hm, rfl⟩ := List.mem_map.mp hd
      exact ⟨h.name, HostMethod.ofPlan_plain (h.methods m hm),
        MethodBody.noHash_lines hnames.noHash (h.methods m hm)⟩
    · exact conversionDecls_plain h hnames.noHash d hd

end

/-- No line of the text starts with a hash, nor does the part of a line it may go on with. -/
def Quiet (t : Text) : Prop := ∀ fresh, ∃ fresh', scan fresh t = some fresh'

theorem NoHash.quiet {t : Text} (h : NoHash t) : Quiet t := scan_of_noHash h

theorem Quiet.append {s t : Text} (hs : Quiet s) (ht : Quiet t) : Quiet (s ++ t) := by
  intro fresh
  obtain ⟨middle, hmiddle⟩ := hs fresh
  obtain ⟨last, hlast⟩ := ht middle
  exact ⟨last, by rw [scan_append, hmiddle, Option.bind_some, hlast]⟩

theorem Quiet.cons {c : UInt8} {t : Text} (hc : NoHash [c]) (ht : Quiet t) : Quiet (c :: t) :=
  hc.quiet.append ht

theorem Quiet.includedFiles {t : Text} (h : Quiet t) : includedFiles t = [] := by
  obtain ⟨last, hlast⟩ := h true
  have hend := includesFrom_append hlast []
  rwa [List.append_nil] at hend

theorem scan_false_of_newline_notMem {t : Text} (h : Byte.newline ∉ t) :
    scan false t = some false := by
  induction t with
  | nil => rfl
  | cons c t ih =>
    rw [List.mem_cons, not_or] at h
    simp only [scan, if_neg (Ne.symm h.1), Bool.false_and, Bool.false_eq_true, ↓reduceIte]
    exact ih h.2

theorem newline_notMem_escapeByte : ∀ c, Byte.newline ∉ Json.escapeByte c :=
  forall_byte (by decide +kernel)

theorem quiet_quote (s : Text) : Quiet (Json.quote s) := by
  have hline : Byte.newline ∉ s.flatMap Json.escapeByte ++ [Byte.quote] := by
    rw [List.mem_append, List.mem_flatMap, not_or]
    exact ⟨fun ⟨c, _, hc⟩ => newline_notMem_escapeByte c hc, by decide⟩
  intro fresh
  refine ⟨false, ?_⟩
  rw [Json.quote, List.append_assoc, scan_append]
  cases fresh <;> exact scan_false_of_newline_notMem hline

theorem noHash_lineBreak (indent depth : Nat) : NoHash (Json.lineBreak indent depth) := by
  rw [Json.lineBreak]
  split_ifs
  · exact noHash_nil
  · intro hmem
    rcases List.mem_cons.mp hmem with he | hmem
    · exact absurd he (by decide)
    · exact absurd (List.eq_of_mem_replicate hmem) (by decide)

theorem noHash_separator (indent : Nat) : NoHash (Json.separator indent) := by
  rw [Json.separator]
  split_ifs <;> exact noHash_ascii _ (by decide)

section
variable {indent depth : Nat} {tail : Text}

theorem quiet_itemsOnto {vs : List Json}
    (h : ∀ v ∈ vs, ∀ tail, Quiet tail → Quiet (v.renderOnto indent depth tail))
    (htail : Quiet tail) : Quiet (Json.itemsOnto indent depth vs tail) := by
  induction vs with
  | nil => exact htail
  | cons v vs ih =>
    rw [List.forall_mem_cons] at h
    rw [Json.itemsOnto]
    exact Quiet.cons (by decide) ((noHash_lineBreak _ _).quiet.append (h.1 _ (ih h.2)))

theorem quiet_membersOnto {ms : List (Text × Json)}
    (h : ∀ m ∈ ms, ∀ tail, Quiet tail → Quiet (m.2.renderOnto indent depth tail))
    (htail : Quiet tail) : Quiet (Json.membersOnto indent depth ms tail) := by
  induction ms with
  | nil => exact htail
  | cons m ms ih =>
    rw [List.forall_mem_cons] at h
    rw [Json.membersOnto]
    exact Quiet.cons (by decide) ((noHash_lineBreak _ _).quiet.append ((quiet_quote _).append
      ((noHash_separator _).quiet.append (h.1 _ (ih h.2)))))

theorem quiet_renderOnto {v : Json} (hv : v.Exact) (htail : Quiet tail) :
    Quiet (v.renderOnto indent depth tail) := by
  induction v using Json.induction generalizing depth tail with
  | null => exact (noHash_ascii "null".toList (by decide)).quiet.append htail
  | bool b =>
    refine Quiet.append (NoHash.quiet ?_) htail
    split_ifs <;> exact noHash_ascii _ (by decide)
  | number n =>
    refine Quiet.append (NoHash.quiet ?_) htail
    cases n with
    | int i => exact noHash_decimalInt _
    | nat n => exact noHash_decimal _
    | real x => exact hv.elim
  | string s => exact (quiet_quote s).append htail
  | array items ih =>
    have hitems := Json.exact_of_mem_items hv
    cases items with
    | nil => exact (noHash_ascii "[]".toList (by decide)).quiet.append htail
    | cons v vs =>
      have hclose := (noHash_lineBreak indent depth).quiet.append
        (Quiet.cons (c := Byte.closeBracket) (by decide) htail)
      have hrest : Quiet (Json.itemsOnto indent (depth + 1) vs _) := quiet_itemsOnto
        (fun u hu _ => ih u (List.mem_cons_of_mem v hu) (hitems u (List.mem_cons_of_mem v hu)))
        hclose
      rw [Json.renderOnto]
      exact Quiet.cons (by decide) ((noHash_lineBreak _ _).quiet.append
        (ih v List.mem_cons_self (hitems v List.mem_cons_self) hrest))
  | object ms ih =>
    have hmembers := Json.exact_of_mem_members hv.2
    cases ms with
    | nil => exact Quiet.cons (by decide) (Quiet.cons (by decide) htail)
    | cons m ms =>
      have hclose := (noHash_lineBreak indent depth).quiet.append
        (Quiet.cons (c := Byte.closeBrace) (by decide) htail)
      have hrest : Quiet (Json.membersOnto indent (depth + 1) ms _) := quiet_membersOnto
        (fun u hu _ => ih u (List.mem_cons_of_mem m hu) (hmembers u (List.mem_cons_of_mem m hu)))
        hclose
      rw [Json.renderOnto]
      exact Quiet.cons (by decide) ((noHash_lineBreak _ _).quiet.append ((quiet_quote _).append
        ((noHash_separator _).quiet.append
          (ih m List.mem_cons_self (hmembers m List.mem_cons_self) hrest))))

end

theorem faithful_strings (ts : List Text) (limit : Nat) :
    (Manifest.strings ts).Faithful (limit + 1) := by
  refine Json.faithful_array fun v hv => ?_
  obtain ⟨t, -, rfl⟩ := List.mem_map.mp hv
  exact Json.faithful_string t limit

theorem faithful_unitEntry (t : TypeDef) (u : GeneratedUnit) :
    (Manifest.unitEntry t u).Faithful 2 := by
  apply Json.faithful_ofMembers
  simp only [List.forall_mem_cons]
  exact ⟨Json.faithful_int _ _, Json.faithful_string _ _, Json.faithful_string _ _,
    faithful_strings _ _, faithful_strings _ _, List.forall_mem_nil _⟩

theorem faithful_manifest (r : Registry) (target : Target) (o : Options)
    (outcomes : List TypeOutcome) : (Manifest.json r target o outcomes).Faithful 4 := by
  have hunits : (Json.array (Manifest.unitEntries outcomes)).Faithful 3 := by
    refine Json.faithful_array fun v hv => ?_
    obtain ⟨outcome, -, hv⟩ := List.mem_filterMap.mp hv
    obtain ⟨u, -, rfl⟩ := Option.map_eq_some_iff.mp hv
    exact faithful_unitEntry outcome.type u
  apply Json.faithful_ofMembers
  rw [List.forall_mem_append]
  constructor
  · simp only [Manifest.sharedEntries, List.forall_mem_cons]
    exact ⟨Json.faithful_string _ _, Json.faithful_string _ _, Json.faithful_string _ _,
      Json.faithful_string _ _, Json.faithful_int _ _, faithful_strings _ _, faithful_strings _ _,
      hunits, List.forall_mem_nil _⟩
  · cases target with
    | c => exact List.forall_mem_nil _
    | cpp => exact List.forall_mem_singleton.mpr (Json.faithful_string _ _)

theorem includedFiles_manifest (r : Registry) (target : Target) (o : Options)
    (outcomes : List TypeOutcome) :
    includedFiles (Manifest.artifact r target o outcomes).content = [] := by
  have hend : Quiet [Byte.newline] := NoHash.quiet (by decide)
  exact (quiet_renderOnto (faithful_manifest r target o outcomes).exact hend).includedFiles

end Bindery
