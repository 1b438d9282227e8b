import Bindery.Generation.Unit
import Bindery.Json.Printer

/-!
The index of a run in JSON: what was generated, for which types, with which options.
-/

set_option autoImplicit false

namespace Bindery.Manifest

def file : Text := "weld-manifest.json"

def integer (i : Int) : Json := .number (.int (Int64.ofInt i))

def strings (ts : List Text) : Json := .array (ts.map Json.string)

def unitEntry (t : TypeDef) (u : GeneratedUnit) : Json :=
  .ofMembers
    [("id", integer t.id),
      ("type", .string t.name),
      ("kind", .string t.kind.name),
      ("files", strings (u.artifacts.map Artifact.path)),
      ("symbols", strings u.symbols)]

def unitEntries (outcomes : List TypeOutcome) : List Json :=
  outcomes.filterMap fun o => o.generated.map (unitEntry o.type)

/-- The namespace is part of the index where it is part of the output. -/
def namespaceEntry (target : Target) (ns : Text) : List (Text × Json) :=
  match target with
  | .c => []
  | .cpp => [("namespace", .string ns)]

def sharedEntries (r : Registry) (target : Target) (o : Options) (outcomes : List TypeOutcome) :
    List (Text × Json) :=
  [("generator", .string "weld"),
    ("version", .string version),
    ("backend", .string target.name),
    ("library", .string r.library),
    ("pointer_width", integer o.pointerWidth),
    ("features", strings (Sorted.ofList Text.before o.features)),
    ("runtime", strings (target.runtime.map Artifact.path)),
    ("units", .array (unitEntries outcomes))]

def json (r : Registry) (target : Target) (o : Options) (outcomes : List TypeOutcome) : Json :=
  .ofMembers (sharedEntries r target o outcomes ++ namespaceEntry target o.hostNamespace)

def artifact (r : Registry) (target : Target) (o : Options) (outcomes : List TypeOutcome) :
    Artifact :=
  ⟨file, (json r target o outcomes).pretty 2, 0⟩

end Bindery.Manifest
