import Bindery.Proofs.Document.Following

/-!
The report on a document whose types are in an array. It is put together from what is wrong with
the library's name and, in the order of the array, from what is wrong with each element by itself:
an element that cannot be read neither hides, nor moves, nor changes what is said about another,
though all of them share one list.
-/

set_option autoImplicit false

namespace Bindery

namespace Document

open Checked

theorem Checked.filterMap_value? {α : Type} {cs : List (Checked α)} {xs : List α}
    (h : all cs = good xs) : cs.filterMap value? = xs := by
  rw [all_eq_good_iff] at h
  induction h with
  | nil => rfl
  | cons hc _ ih => rw [List.filterMap_cons_some (value?_eq_some_iff.mpr hc), ih]

def elementPath (i : Nat) : Path := [.key "types", .index i]

/-- What reading the element at position `i` reports where nothing has been reported before. -/
def elementFaults (i : Nat) (t : Json) : List Fault :=
  ((Walk.readTypeDef (elementPath i) t).run []).2

def element? (i : Nat) (t : Json) : Option TypeDef :=
  ((Walk.readTypeDef (elementPath i) t).run []).1

/-- What has been reported when the whole document has been read. -/
def reported (v : Json) : List Fault := ((Walk.readRoot v).run []).2

/-- A library's name that is there has to be a string. -/
def libraryFaults (v : Json) : List Fault :=
  match v.get? "library" with
  | none => []
  | some (.string _) => []
  | some child => [⟨[.key "library"], .expected "string" child.kindName⟩]

def libraryName (v : Json) : Text :=
  match v.get? "library" with
  | some (.string name) => name
  | _ => []

def definitions (items : List Json) : List TypeDef :=
  items.zipIdx.filterMap fun (t, i) => element? i t

theorem elementFaults_eq (i : Nat) (t : Json) :
    elementFaults i t = (typeDef (elementPath i) t).faults :=
  congrArg Prod.snd (Walk.mirrors_readTypeDef (elementPath i) t [])

theorem element?_eq (i : Nat) (t : Json) : element? i t = (typeDef (elementPath i) t).value? :=
  congrArg Prod.fst (Walk.mirrors_readTypeDef (elementPath i) t [])

theorem reported_eq (v : Json) : reported v = (root v).faults :=
  congrArg Prod.snd (Walk.run_readRoot v)

/-- What has been reported before has no part in what an element comes to. -/
theorem run_readTypeDef (i : Nat) (t : Json) (es : List Fault) :
    (Walk.readTypeDef (elementPath i) t).run es = (element? i t, es ++ elementFaults i t) := by
  rw [element?_eq, elementFaults_eq]
  exact Walk.mirrors_readTypeDef (elementPath i) t es

theorem elementFaults_eq_nil_iff (i : Nat) (t : Json) :
    elementFaults i t = [] ↔ ∃ d, element? i t = some d := by
  simp only [elementFaults_eq, element?_eq, value?_eq_some_iff]
  exact Reports.faults_eq_nil_iff (reporting_typeDef (elementPath i) t)

theorem path_of_mem_elementFaults {i : Nat} {t : Json} {f : Fault} (h : f ∈ elementFaults i t) :
    ∃ below, f.path = elementPath i ++ below := by
  have hreports := reporting_typeDef (elementPath i) t
  rw [elementFaults_eq] at h
  cases hread : typeDef (elementPath i) t with
  | good d => simp [hread, faults] at h
  | bad fs =>
    rw [hread] at h hreports
    obtain ⟨below, -, hpath, -⟩ := hreports.2 f h
    exact ⟨below, hpath⟩

theorem faults_optionalString_library (v : Json) :
    (optionalString [] v "library" "").faults = libraryFaults v := by
  rw [optionalString, libraryFaults]
  cases v.get? "library" with
  | none => rfl
  | some child => cases child <;> rfl

theorem libraryName_of_good {v : Json} {name : Text}
    (h : optionalString [] v "library" "" = good name) : libraryName v = name := by
  rw [optionalString] at h
  rw [libraryName]
  cases hget : v.get? "library" with
  | none =>
    rw [hget] at h
    exact good.inj h
  | some child =>
    rw [hget] at h
    cases child with
    | string s => exact good.inj h
    | _ => cases h

section
variable {v : Json} {items : List Json}

theorem root_eq (h : v.get? "types" = some (.array items)) :
    root v = Prod.mk <$> optionalString [] v "library" "" <*>
      all (items.zipIdx.map fun (t, i) => typeDef (elementPath i) t) := by
  cases v with
  | object members =>
    simp only [root, required, h, andThen, asList]
    rfl
  | _ => cases h

theorem reported_eq_append (h : v.get? "types" = some (.array items)) :
    reported v = libraryFaults v ++ items.zipIdx.flatMap fun (t, i) => elementFaults i t := by
  simp only [reported_eq, elementFaults_eq]
  rw [root_eq h, faults_seq, faults_map, faults_optionalString_library, faults_all,
    List.flatMap_map]

theorem load_eq (h : v.get? "types" = some (.array items)) :
    Walk.load v =
      if reported v = [] then Registry.build (libraryName v) (definitions items)
      else .error ((reported v).map Fault.diagnostic) := by
  have hreports := reports_root v
  rw [Walk.load_eq_ofJson, reported_eq, ofJson]
  cases hroot : root v with
  | bad fs =>
    rw [hroot] at hreports
    exact (if_neg hreports.1).symm
  | good content =>
    rw [root_eq h, seq_eq_good_iff] at hroot
    obtain ⟨_, types, hpair, htypes, rfl⟩ := hroot
    obtain ⟨library, hlibrary, rfl⟩ := map_eq_good_iff.mp hpair
    have hdefinitions : definitions items = types := by
      simp only [definitions, element?_eq]
      rw [← filterMap_value? htypes, List.filterMap_map]
      rfl
    rw [libraryName_of_good hlibrary, hdefinitions]
    rfl

theorem flatMap_zipIdx_of_getElem? {α : Type} (g : Nat → Json → List α) {t : Json} {i : Nat}
    (h : items[i]? = some t) (start : Nat) :
    (items.zipIdx start).flatMap (fun x => if x.2 = start + i then g x.2 x.1 else []) =
      g (start + i) t := by
  induction items generalizing start i with
  | nil => simp at h
  | cons item items ih =>
    rw [List.zipIdx_cons, List.flatMap_cons]
    cases i with
    | zero =>
      obtain rfl : item = t := by simpa using h
      have hlater : (items.zipIdx (start + 1)).flatMap
          (fun x => if x.2 = start then g x.2 x.1 else []) = [] := by
        refine List.flatMap_eq_nil_iff.mpr fun x hx => if_neg ?_
        have hle := List.le_snd_of_mem_zipIdx hx
        omega
      rw [Nat.add_zero, hlater, List.append_nil]
      exact if_pos rfl
    | succ i =>
      have hnext := ih (by simpa using h) (start + 1)
      rw [if_neg (by dsimp only; omega), List.nil_append, ← Nat.succ_add_eq_add_succ]
      exact hnext

/-- What the report says about the element at position `i` and what is inside it. -/
def reportOn (i : Nat) (fs : List Fault) : List Fault :=
  fs.filter fun f => (elementPath i).isPrefixOf f.path

theorem reportOn_elementFaults (i j : Nat) (t : Json) :
    reportOn i (elementFaults j t) = if j = i then elementFaults j t else [] := by
  split_ifs with hij
  · subst hij
    refine List.filter_eq_self.mpr fun f hf => ?_
    obtain ⟨below, hpath⟩ := path_of_mem_elementFaults hf
    rw [hpath, List.isPrefixOf_iff_prefix]
    exact List.prefix_append _ _
  · refine List.filter_eq_nil_iff.mpr fun f hf hstarts => hij ?_
    obtain ⟨below, hpath⟩ := path_of_mem_elementFaults hf
    rw [hpath, List.isPrefixOf_iff_prefix] at hstarts
    simpa [elementPath, eq_comm] using hstarts

theorem reportOn_libraryFaults (i : Nat) (v : Json) : reportOn i (libraryFaults v) = [] := by
  rw [libraryFaults]
  cases v.get? "library" with
  | none => rfl
  | some child => cases child <;> rfl

theorem reportOn_reported (h : v.get? "types" = some (.array items)) {i : Nat} {t : Json}
    (ht : items[i]? = some t) : reportOn i (reported v) = elementFaults i t := by
  have hparts : items.zipIdx.flatMap (fun x => reportOn i (elementFaults x.2 x.1)) =
      elementFaults i t := by
    simp only [reportOn_elementFaults]
    simpa using flatMap_zipIdx_of_getElem? elementFaults ht 0
  rw [reported_eq_append h, reportOn, List.filter_append, List.filter_flatMap]
  exact congrArg₂ (· ++ ·) (reportOn_libraryFaults i v) hparts

theorem reported_eq_nil_iff (h : v.get? "types" = some (.array items)) :
    reported v = [] ↔
      libraryFaults v = [] ∧ ∀ i t, items[i]? = some t → elementFaults i t = [] := by
  rw [reported_eq_append h, List.append_eq_nil_iff, List.flatMap_eq_nil_iff]
  refine and_congr_right fun _ => ⟨fun hall i t ht => ?_, fun hall x hx => ?_⟩
  · exact hall (t, i) (List.mk_mem_zipIdx_iff_getElem?.mpr ht)
  · exact hall x.2 x.1 (List.mk_mem_zipIdx_iff_getElem?.mp hx)

theorem load_fails_iff (h : v.get? "types" = some (.array items)) :
    (∃ ds, Walk.load v = .error ds) ↔
      (libraryFaults v ≠ [] ∨ ∃ i t, items[i]? = some t ∧ elementFaults i t ≠ []) ∨
        ∃ ds, Registry.build (libraryName v) (definitions items) = .error ds := by
  rw [load_eq h]
  have hnil := reported_eq_nil_iff h
  by_cases hclean : reported v = []
  · obtain ⟨hlibrary, hitems⟩ := hnil.mp hclean
    have hnone : ¬∃ i t, items[i]? = some t ∧ elementFaults i t ≠ [] := by
      rintro ⟨i, t, ht, hne⟩
      exact hne (hitems i t ht)
    simp only [if_pos hclean, hlibrary, hnone, ne_eq, not_true_eq_false, or_false, false_or]
  · simp only [if_neg hclean]
    refine ⟨fun _ => .inl ?_, fun _ => ⟨_, rfl⟩⟩
    rcases not_and_or.mp (mt hnil.mpr hclean) with hlibrary | hitems
    · exact .inl hlibrary
    · right
      push Not at hitems
      exact hitems

/-- The report on a document is that on the library's name and those on the elements, each of which
depends on the element and its position only: from whatever list the reader of an element starts,
it adds the same faults to its end and comes to the same definition. -/
theorem faults_independent (h : v.get? "types" = some (.array items)) :
    (∀ i t es, (Walk.readTypeDef (elementPath i) t).run es =
      (element? i t, es ++ elementFaults i t)) ∧
    (∀ i t, elementFaults i t = [] ↔ ∃ d, element? i t = some d) ∧
    reported v = libraryFaults v ++ items.zipIdx.flatMap (fun (t, i) => elementFaults i t) ∧
    (∀ i t, items[i]? = some t → reportOn i (reported v) = elementFaults i t) ∧
    Walk.load v =
      (if reported v = [] then Registry.build (libraryName v) (definitions items)
      else .error ((reported v).map Fault.diagnostic)) ∧
    ((∃ ds, Walk.load v = .error ds) ↔
      (libraryFaults v ≠ [] ∨ ∃ i t, items[i]? = some t ∧ elementFaults i t ≠ []) ∨
        ∃ ds, Registry.build (libraryName v) (definitions items) = .error ds) ∧
    ofJson v = Walk.load v :=
  ⟨run_readTypeDef, elementFaults_eq_nil_iff, reported_eq_append h, fun _ _ => reportOn_reported h,
    load_eq h, load_fails_iff h, (Walk.load_eq_ofJson v).symm⟩

end

-- A document with a type that can be read between two that cannot.
namespace Patchy

def dial : Json :=
  .object [("kind", .string "opaque"), ("methods", .array [.object [("name", .string "turn"),
    ("returns", .object [("nullable", .object [("opaque", .number (.int 0))])])]]),
    ("name", .string "Dial")]

def handle : Json :=
  .object [("id", .number (.int 5)), ("kind", .string "opaque"), ("name", .string "Handle")]

def mode : Json :=
  .object [("id", .number (.int 7)), ("kind", .string "union"), ("name", .string "Mode")]

def document : Json :=
  .object [("library", .bool true), ("types", .array [dial, handle, mode])]

def faults : List Fault :=
  [⟨[.key "library"], .expected "string" "bool"⟩,
    ⟨[.key "types", .index 0], .missingKey "id"⟩,
    ⟨[.key "types", .index 0, .key "methods", .index 0, .key "returns", .key "nullable",
      .key "opaque"], .idRange⟩,
    ⟨[.key "types", .index 2, .key "kind"], .unknownKind "union"⟩]

end Patchy

theorem faults_independent_patchy :
    Patchy.document.get? "types" = some (.array [Patchy.dial, Patchy.handle, Patchy.mode]) ∧
    reported Patchy.document = Patchy.faults ∧
    Walk.load Patchy.document = .error (Patchy.faults.map Fault.diagnostic) ∧
    elementFaults 0 Patchy.dial = (Patchy.faults.drop 1).take 2 ∧
    elementFaults 1 Patchy.handle = [] ∧
    elementFaults 2 Patchy.mode = Patchy.faults.drop 3 ∧
    (Walk.readTypeDef (elementPath 1) Patchy.handle).run Patchy.faults =
      (some ⟨5, "Handle", [], [], .object []⟩, Patchy.faults) := by
  have htypes : Patchy.document.get? "types" =
      some (.array [Patchy.dial, Patchy.handle, Patchy.mode]) := rfl
  have hreported : reported Patchy.document = Patchy.faults := by
    rw [reported_eq]
    decide +kernel
  obtain ⟨hruns, -, -, helements, hload, -⟩ := faults_independent htypes
  rw [hreported] at helements hload
  have hhandle : elementFaults 1 Patchy.handle = [] := (helements 1 _ rfl).symm
  have hdefinition : element? 1 Patchy.handle = some ⟨5, "Handle", [], [], .object []⟩ := by
    rw [element?_eq]
    decide +kernel
  refine ⟨htypes, hreported, hload, (helements 0 _ rfl).symm, hhandle, (helements 2 _ rfl).symm, ?_⟩
  rw [hruns, hhandle, hdefinition, List.append_nil]

end Document

end Bindery
