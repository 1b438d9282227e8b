import Bindery.Diagnostic.Printer
import Bindery.Proofs.Json.Faithful
import Bindery.Proofs.Json.Literals

/-!
What a printer shows to other programs. Every listing is one line; read as JSON it is the list of
the errors and then of the omissions, each with all that the record says, whatever bytes are in its
texts. A printer counts the errors over all its listings, in either format.
-/

set_option autoImplicit false

namespace Bindery

open Json

/-- There is a value, and it is that number as an integer. -/
def IsInteger (n : Nat) (v : Option Json) : Prop :=
  ∃ i : Int64, v = some (.number (.int i)) ∧ i.toInt = n

def Json.keys : Json → List Text
  | .object members => members.map Prod.fst
  | _ => []

namespace Diagnostic

/-- The value is an object that tells all of an error and nothing else. -/
structure Reports (d : Diagnostic) (v : Json) : Prop where
  keys : v.keys = ["code", "kind", "message", "method", "severity", "type", "type_id"]
  severity : v.get? "severity" = some (.string "error")
  code : v.get? "code" = some (.string d.kind.code)
  kind : v.get? "kind" = some (.string d.kind.name)
  typeId : IsInteger d.typeId (v.get? "type_id")
  typeName : v.get? "type" = some (.string d.typeName)
  method : v.get? "method" = some (.string d.method)
  message : v.get? "message" = some (.string d.message)

/-- The value is an object that tells all of an omission and nothing else. -/
structure Notes (o : Omission) (v : Json) : Prop where
  keys : v.keys = ["message", "method", "severity", "type", "type_id"]
  severity : v.get? "severity" = some (.string "note")
  typeId : IsInteger o.typeId (v.get? "type_id")
  typeName : v.get? "type" = some (.string o.typeName)
  method : v.get? "method" = some (.string o.method)
  message : v.get? "message" = some (.string o.reason)

/-- Ids have thirty-two bits. -/
def IdsFit (errors : List Diagnostic) (omissions : List Omission) : Prop :=
  (∀ d ∈ errors, d.typeId < 2 ^ 32) ∧ ∀ o ∈ omissions, o.typeId < 2 ^ 32

theorem isInteger_ofNat {n : Nat} (h : n < 2 ^ 32) :
    IsInteger n (some (.number (.int (Int64.ofNat n)))) :=
  ⟨_, rfl, Int64.toInt_ofNat_of_lt (by omega)⟩

theorem reports_json {d : Diagnostic} (h : d.typeId < 2 ^ 32) : Reports d d.json where
  keys := rfl
  severity := rfl
  code := rfl
  kind := rfl
  typeId := isInteger_ofNat h
  typeName := rfl
  method := rfl
  message := rfl

theorem notes_json {o : Omission} (h : o.typeId < 2 ^ 32) : Notes o o.json where
  keys := rfl
  severity := rfl
  typeId := isInteger_ofNat h
  typeName := rfl
  method := rfl
  message := rfl

variable {errors : List Diagnostic} {omissions : List Omission}

/-- The text is one line, and what it says as JSON is each of the errors and then each of the
omissions. -/
structure Lists (errors : List Diagnostic) (omissions : List Omission) (text : Text) : Prop where
  line : ∃ body, text = body ++ [Byte.newline] ∧ Visible body
  items : ∃ es os, parse text = .ok (.array (es ++ os)) ∧ List.Forall₂ Reports errors es ∧
    List.Forall₂ Notes omissions os

theorem faithful_json (d : Diagnostic) : d.json.Faithful 1 :=
  faithful_ofMembers (by simp [faithful_string, faithful_int])

theorem faithful_omission_json (o : Omission) : o.json.Faithful 1 :=
  faithful_ofMembers (by simp [faithful_string, faithful_int])

theorem faithful_jsonList (errors : List Diagnostic) (omissions : List Omission) :
    (jsonList errors omissions).Faithful 2 := by
  apply faithful_array
  intro v hv
  rcases List.mem_append.mp hv with hv | hv
  · obtain ⟨d, -, rfl⟩ := List.mem_map.mp hv
    exact faithful_json d
  · obtain ⟨o, -, rfl⟩ := List.mem_map.mp hv
    exact faithful_omission_json o

theorem lists_jsonList (hids : IdsFit errors omissions) :
    Lists errors omissions (jsonList errors omissions).compact.closed := by
  have hfaithful := faithful_jsonList errors omissions
  have hline : Visible (jsonList errors omissions).compact :=
    visible_renderOnto hfaithful.exact 0 (by simp [Visible])
  refine ⟨⟨_, rfl, hline⟩, errors.map json, omissions.map Omission.json,
    (hfaithful.mono (by decide)).parse_closed, ?_, ?_⟩
  · exact List.forall₂_map_right_iff.mpr
      (List.forall₂_same.mpr fun d hd => reports_json (hids.1 d hd))
  · exact List.forall₂_map_right_iff.mpr
      (List.forall₂_same.mpr fun o ho => notes_json (hids.2 o ho))

namespace Printer

def printAll (p : Printer) : List (List Diagnostic × List Omission) → List Text × Printer
  | [] => ([], p)
  | (errors, omissions) :: calls =>
    let (text, shown) := p.print errors omissions
    let (texts, last) := shown.printAll calls
    (text :: texts, last)

theorem print_format (p : Printer) (errors : List Diagnostic) (omissions : List Omission) :
    (p.print errors omissions).2.format = p.format := rfl

theorem print_errorCount (p : Printer) (errors : List Diagnostic) (omissions : List Omission) :
    (p.print errors omissions).2.errorCount = p.errorCount + errors.length := rfl

theorem lists_print {p : Printer} (hp : p.format = .json) (hids : IdsFit errors omissions) :
    Lists errors omissions (p.print errors omissions).1 := by
  have htext : (p.print errors omissions).1 = (jsonList errors omissions).compact.closed := by
    simp only [print, listing, hp]
  rw [htext]
  exact lists_jsonList hids

theorem printAll_errorCount (p : Printer) (calls : List (List Diagnostic × List Omission)) :
    (p.printAll calls).2.errorCount = p.errorCount + (calls.map fun c => c.1.length).sum := by
  induction calls generalizing p with
  | nil => rfl
  | cons call calls ih =>
    have hcount := ih (p.print call.1 call.2).2
    rw [print_errorCount, Nat.add_assoc] at hcount
    rw [List.map_cons, List.sum_cons]
    exact hcount

theorem printAll_lists {p : Printer} (hp : p.format = .json)
    {calls : List (List Diagnostic × List Omission)} (hids : ∀ c ∈ calls, IdsFit c.1 c.2) :
    List.Forall₂ (fun c text => Lists c.1 c.2 text) calls (p.printAll calls).1 := by
  induction calls generalizing p with
  | nil => exact .nil
  | cons call calls ih =>
    rw [List.forall_mem_cons] at hids
    exact .cons (lists_print hp hids.1) (ih ((print_format p call.1 call.2).trans hp) hids.2)

/-- Each of the listings for other programs is one line that reads back as all there was to show,
and the count of a printer is that of all the errors it has shown. -/
theorem printAll_lossless (p : Printer) (calls : List (List Diagnostic × List Omission)) :
    (p.format = .json → (∀ c ∈ calls, IdsFit c.1 c.2) →
      List.Forall₂ (fun c text => Lists c.1 c.2 text) calls (p.printAll calls).1) ∧
    (p.printAll calls).2.errorCount = p.errorCount + (calls.map fun c => c.1.length).sum :=
  ⟨fun hp hids => printAll_lists hp hids, printAll_errorCount p calls⟩

def garbled : Diagnostic := ⟨.lowering, 4294967295, "Gauge", [], [34, 92, 1, 10, 255]⟩

def garbledCalls : List (List Diagnostic × List Omission) :=
  [([garbled, garbled], [⟨8, "Level", "read", "not \"c\""⟩]), ([], []), ([garbled], [])]

theorem printAll_lossless_garbled :
    (∀ c ∈ garbledCalls, IdsFit c.1 c.2) ∧
    List.Forall₂ (fun c text => Lists c.1 c.2 text) garbledCalls
      (printAll ⟨.json, false, 0⟩ garbledCalls).1 ∧
    (printAll ⟨.json, false, 0⟩ garbledCalls).2.errorCount = 3 := by
  have hids : ∀ c ∈ garbledCalls, IdsFit c.1 c.2 := by
    unfold IdsFit
    decide
  have hshown := printAll_lossless ⟨.json, false, 0⟩ garbledCalls
  exact ⟨hids, hshown.1 rfl hids, hshown.2⟩

end Printer

end Diagnostic

end Bindery
