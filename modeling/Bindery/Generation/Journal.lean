import Bindery.Generation.Pool
import Bindery.Log.Record

/-!
What reading a document and running the generator write to the log, in order. The records follow
from the same values that the results are made of.
-/

set_option autoImplicit false

namespace Bindery.Journal

open Log

def reading (r : Registry) : List Record :=
  [⟨.debug, "ir", "registry " ++ Text.quoted r.library ++ " holds " ++ decimal r.size ++ " types"⟩,
    ⟨.info, "ir", "loaded " ++ decimal r.size ++ " types"⟩]

/-- A signature is traced by its prototype, and a rejected reference by the reason. -/
def signature : Except SignatureFault Signature → List Record
  | .ok s => [⟨.trace, "abi", s.prototype⟩]
  | .error (.rejected _ ref position fault) =>
    [⟨.trace, "mapper",
      "rejected " ++ ref.text ++ " as " ++ position.name ++ ": " ++ fault.message⟩]
  | .error _ => []

def renderedLanguage : Target → Text
  | .c => "C"
  | .cpp => "C++"

def abandoned (d : Draft) : Record :=
  ⟨.debug, "emit",
    d.plan.type.name ++ ": " ++ decimal d.errors.length ++ " error(s), no artifacts"⟩

def rendered (target : Target) (t : TypeDef) (methods artifacts : Nat) : List Record :=
  [⟨.debug, "emit", "rendering " ++ renderedLanguage target ++ " units for " ++ t.name⟩,
    ⟨.debug, "emit",
      t.name ++ ": " ++ decimal methods ++ " method(s), " ++ decimal artifacts ++ " artifact(s)"⟩]

/-- What became of a draft. Nothing is said of one that lacks a destructor. -/
def outcome (c : Context) (d : Draft) : List Record :=
  if d.errors.isEmpty then
    match (d.finish c).generated with
    | some u => rendered c.target d.plan.type d.plan.methods.length u.artifacts.length
    | none => []
  else [abandoned d]

def ofType (c : Context) (t : TypeDef) : List Record :=
  (selectMethods c.availability t t.methods).methods.flatMap
      (fun m => signature (c.mapper.signature t m)) ++
    outcome c (draftType c t)

def workers (jobs : Int) (types : Nat) : Int := Pool.width 4 jobs types

def scheduling (jobs : Int) (types : Nat) : List Record :=
  if workers jobs types ≤ 1 then []
  else
    [⟨.debug, "emit",
      "processing " ++ decimal types ++ " types on " ++ decimalInt (workers jobs types) ++
        " threads"⟩]

def disabled (target : Target) (omissions : List Omission) : List Record :=
  omissions.map fun o =>
    ⟨.debug, "filter", "type " ++ o.typeName ++ " disabled for " ++ target.name⟩

def summary (report : Report) : Record :=
  if report.success then
    ⟨.info, "emit",
      decimal report.artifacts.length ++ " artifacts, " ++ decimal report.allSymbols.length ++
        " native symbols"⟩
  else ⟨.warn, "emit", decimal report.errors.length ++ " error(s) collected"⟩

def generation (r : Registry) (target : Target) (o : Options) : List Record :=
  match o.problem? target with
  | some _ => []
  | none =>
    let selection := (Availability.mk target.name o.features).select r
    let types := enabledTypes r selection.enabled
    [⟨.info, "emit",
        "generating " ++ target.name ++ " bindings for " ++ Text.quoted r.library ++ " (" ++
          decimal r.size ++ " types)"⟩] ++
      disabled target selection.omissions ++
      [⟨.debug, "ownership",
        decimal (r.destructors selection.enabled).length ++ " destructor entries"⟩] ++
      scheduling o.jobs types.length ++
      types.flatMap (ofType (contextOf r target o selection.enabled)) ++
      [summary (generate r target o)]

end Bindery.Journal
