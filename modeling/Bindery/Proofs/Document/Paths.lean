import Bindery.Proofs.Decimal
import Bindery.Proofs.Document.Faults

/-!
The paths in the messages of the reader. A message starts with the text of a path, from which the
path can be read off in one way only, and the path leads from the root of the document to a node
that is there. Where a key is said to be missing, the node is an object that does not have it.
-/

set_option autoImplicit false

namespace Bindery

namespace Document

theorem eq_of_append_cons {p : UInt8 → Prop} {a b r s : Text} {x y : UInt8} (ha : ∀ c ∈ a, p c)
    (hb : ∀ c ∈ b, p c) (hx : ¬p x) (hy : ¬p y) (h : a ++ x :: r = b ++ y :: s) :
    a = b ∧ x :: r = y :: s := by
  induction a generalizing b with
  | nil =>
    cases b with
    | nil => exact ⟨rfl, h⟩
    | cons c b =>
      obtain ⟨rfl, -⟩ := List.cons_eq_cons.mp h
      exact absurd (hb x List.mem_cons_self) hx
  | cons c a ih =>
    cases b with
    | nil =>
      obtain ⟨rfl, -⟩ := List.cons_eq_cons.mp h
      exact absurd (ha c List.mem_cons_self) hy
    | cons d b =>
      obtain ⟨rfl, htail⟩ := List.cons_eq_cons.mp h
      obtain ⟨rfl, hrest⟩ :=
        ih (List.forall_mem_cons.mp ha).2 (List.forall_mem_cons.mp hb).2 htail
      exact ⟨rfl, hrest⟩

def stepsText (path : Path) (rest : Text) : Text := path.flatMap Step.text ++ Byte.colon :: rest

theorem stepsText_key (name : Text) (path : Path) (rest : Text) :
    stepsText (.key name :: path) rest = Byte.dot :: (name ++ stepsText path rest) := by
  simp only [stepsText, List.flatMap_cons, List.append_assoc]
  rfl

theorem stepsText_index (i : Nat) (path : Path) (rest : Text) :
    stepsText (.index i :: path) rest =
      Byte.openBracket :: (decimal i ++ Byte.closeBracket :: stepsText path rest) := by
  simp only [stepsText, List.flatMap_cons, Step.text, List.append_assoc]
  rfl

/-- The byte a path begins with, written before a colon. -/
def openingByte : Path → UInt8
  | [] => Byte.colon
  | .key _ :: _ => Byte.dot
  | .index _ :: _ => Byte.openBracket

theorem stepsText_eq_cons (path : Path) (rest : Text) :
    ∃ t, stepsText path rest = openingByte path :: t := by
  cases path with
  | nil => exact ⟨rest, rfl⟩
  | cons step path =>
    cases step with
    | key name => exact ⟨_, stepsText_key name path rest⟩
    | index i => exact ⟨_, stepsText_index i path rest⟩

/-- A word ends where the next step or the colon begins. -/
theorem openingByte_notWord (path : Path) :
    ¬(Byte.isLower (openingByte path) = true ∨ openingByte path = Byte.underscore) := by
  rcases path with _ | ⟨_ | _, _⟩ <;> simp only [openingByte] <;> decide

theorem eq_of_stepsText_key {a b : Text} {p q : Path} {r s : Text} (ha : IsWord a) (hb : IsWord b)
    (h : stepsText (.key a :: p) r = stepsText (.key b :: q) s) :
    a = b ∧ stepsText p r = stepsText q s := by
  obtain ⟨t, ht⟩ := stepsText_eq_cons p r
  obtain ⟨u, hu⟩ := stepsText_eq_cons q s
  rw [stepsText_key, stepsText_key, List.cons_inj_right, ht, hu] at h
  rw [ht, hu]
  exact eq_of_append_cons ha hb (openingByte_notWord p) (openingByte_notWord q) h

theorem eq_of_stepsText_index {i j : Nat} {p q : Path} {r s : Text}
    (h : stepsText (.index i :: p) r = stepsText (.index j :: q) s) :
    i = j ∧ stepsText p r = stepsText q s := by
  have hdigits := fun k c (hc : c ∈ decimal k) => isDigit_of_mem_decimal hc
  rw [stepsText_index, stepsText_index, List.cons_inj_right] at h
  obtain ⟨hij, hrest⟩ := eq_of_append_cons (hdigits i) (hdigits j) (by decide) (by decide) h
  exact ⟨decimal_injective hij, (List.cons_inj_right _).mp hrest⟩

theorem eq_of_stepsText_eq {p q : Path} {r s : Text} (hp : p.IsPlain) (hq : q.IsPlain)
    (h : stepsText p r = stepsText q s) : p = q := by
  induction p generalizing q with
  | nil =>
    obtain ⟨t, ht⟩ := stepsText_eq_cons q s
    have hopening : Byte.colon = openingByte q := (List.cons_eq_cons.mp (h.trans ht)).1
    rcases q with _ | ⟨_ | _, q⟩
    · rfl
    · exact absurd hopening (by simp only [openingByte]; decide)
    · exact absurd hopening (by simp only [openingByte]; decide)
  | cons step p ih =>
    obtain ⟨t, ht⟩ := stepsText_eq_cons (step :: p) r
    obtain ⟨u, hu⟩ := stepsText_eq_cons q s
    have hopening := (List.cons_eq_cons.mp (ht.symm.trans (h.trans hu))).1
    obtain ⟨hstep, hbelow⟩ := List.forall_mem_cons.mp hp
    rcases step with name | i <;> rcases q with _ | ⟨name' | j, q⟩
    case key.cons.key =>
      obtain ⟨hstep', hbelow'⟩ := List.forall_mem_cons.mp hq
      obtain ⟨rfl, hrest⟩ := eq_of_stepsText_key hstep hstep' h
      rw [ih hbelow hbelow' hrest]
    case index.cons.index =>
      obtain ⟨-, hbelow'⟩ := List.forall_mem_cons.mp hq
      obtain ⟨rfl, hrest⟩ := eq_of_stepsText_index h
      rw [ih hbelow hbelow' hrest]
    -- Steps of two kinds, or a step and the end, begin with different bytes.
    all_goals exact absurd hopening (by simp only [openingByte]; decide)

/-- A message starts with the path of a node of the document. No other path can be read off it. -/
structure Locates (doc : Json) (message : Text) (path : Path) (node : Json) (reason : Text) :
    Prop where
  written : message = "at " ++ path.text ++ ": " ++ reason
  plain : path.IsPlain
  unique : ∀ (other : Path) (rest : Text), other.IsPlain →
    message = "at " ++ other.text ++ ":" ++ rest → other = path
  reached : follow? doc path = some node

theorem located_message {path : Path} (rest : Text) :
    "at " ++ path.text ++ ":" ++ rest = "at $" ++ stepsText path rest := by
  simp only [Path.text, stepsText, List.append_assoc]
  rfl

theorem Fault.Concerns.locates {f : Fault} {doc : Json} (h : f.Concerns [] doc) :
    ∃ node, Locates doc f.message f.path node f.problem.message ∧ f.problem.IsTrueOf node := by
  obtain ⟨path, node, hpath, hplain, hnode, htrue⟩ := h
  rw [List.nil_append] at hpath
  subst hpath
  refine ⟨node, ⟨rfl, hplain, fun other rest hother heq => ?_, hnode⟩, htrue⟩
  have hmessage : f.message = "at " ++ f.path.text ++ ":" ++ (Byte.space :: f.problem.message) := by
    simp only [Fault.message, List.append_assoc]
    rfl
  rw [hmessage, located_message, located_message] at heq
  exact (eq_of_stepsText_eq hplain hother (List.append_cancel_left heq)).symm

theorem quoted_injective {a b : Text} (h : Text.quoted a = Text.quoted b) : a = b :=
  List.append_cancel_left (List.append_cancel_right h)

theorem eq_missingKey {problem : Problem} {key : Text}
    (h : problem.message = "missing required key " ++ Text.quoted key) :
    problem = .missingKey key := by
  have hhead : problem.message.head? = some 109 := by
    rw [h]
    rfl
  cases problem with
  | missingKey name => rw [quoted_injective (List.append_cancel_left h)]
  | documentShape => cases hhead
  | expected what found => cases hhead
  | _ => cases hhead

/-- Every complaint about the shape of a document says where: the path in its message leads to a
node of the document. -/
theorem read_faults_located {text : Text} {doc : Json} (hparse : Json.parse text = .ok doc)
    (hshape : ∀ content, root doc ≠ .good content) :
    ∃ ds, read text = .error ds ∧ ds ≠ [] ∧ ∀ d ∈ ds, d.kind = .lowering ∧
      ∃ path node reason, Locates doc d.message path node reason ∧
        ∀ key, reason = "missing required key " ++ Text.quoted key →
          ∃ members, node = .object members ∧ members.lookup key = none := by
  have hreports := reports_root doc
  cases hroot : root doc with
  | good content => exact absurd hroot (hshape content)
  | bad faults =>
    rw [hroot] at hreports
    refine ⟨faults.map Fault.diagnostic, by simp only [read, hparse, ofJson, hroot], ?_, ?_⟩
    · simpa using hreports.1
    · intro d hd
      obtain ⟨f, hf, rfl⟩ := List.mem_map.mp hd
      obtain ⟨node, hlocates, htrue⟩ := (hreports.2 f hf).locates
      refine ⟨rfl, f.path, node, f.problem.message, hlocates, fun key hkey => ?_⟩
      rw [eq_missingKey hkey] at htrue
      exact htrue

-- A document with a defect in the library's name and in two of its types.
namespace Defective

def pieces : List Text :=
  ["\x7b\"library\":3,", "\"types\":[", "\x7b\"name\":", "\"Dial\",", "\"kind\":", "\"opaque\",",
    "\"methods\":[", "\x7b\"name\":", "\"turn\",", "\"returns\":", "\x7b\"nullable\":",
    "\x7b\"opaque\":0", "\x7d\x7d\x7d]\x7d,", "\x7b\"id\":7,", "\"name\":", "\"Mode\",",
    "\"kind\":", "\"union\"\x7d]\x7d"]

def text : Text := pieces.flatten

def faults : List Fault :=
  [⟨[.key "library"], .expected "string" "number"⟩,
    ⟨[.key "types", .index 0], .missingKey "id"⟩,
    ⟨[.key "types", .index 0, .key "methods", .index 0, .key "returns", .key "nullable",
      .key "opaque"], .idRange⟩,
    ⟨[.key "types", .index 1, .key "kind"], .unknownKind "union"⟩]

def found? : Option (List Fault) :=
  match Json.parse text with
  | .error _ => none
  | .ok doc =>
    match root doc with
    | .good _ => none
    | .bad fs => some fs

theorem root_text : ∃ doc, Json.parse text = .ok doc ∧ root doc = .bad faults := by
  have hfound : found? = some faults := by decide +kernel
  unfold found? at hfound
  cases hparse : Json.parse text with
  | error e => simp [hparse] at hfound
  | ok doc =>
    cases hroot : root doc with
    | good content => simp [hparse, hroot] at hfound
    | bad fs =>
      simp only [hparse, hroot, Option.some_inj] at hfound
      exact ⟨doc, rfl, by rw [hroot, hfound]⟩

end Defective

theorem read_faults_located_defective :
    ∃ doc, Json.parse Defective.text = .ok doc ∧ root doc = .bad Defective.faults ∧
      ∃ ds, read Defective.text = .error ds ∧ ds ≠ [] ∧ ∀ d ∈ ds, d.kind = .lowering ∧
        ∃ path node reason, Locates doc d.message path node reason ∧
          ∀ key, reason = "missing required key " ++ Text.quoted key →
            ∃ members, node = .object members ∧ members.lookup key = none := by
  obtain ⟨doc, hparse, hroot⟩ := Defective.root_text
  refine ⟨doc, hparse, hroot, read_faults_located hparse fun content hgood => ?_⟩
  rw [hroot] at hgood
  cases hgood

end Document

end Bindery
