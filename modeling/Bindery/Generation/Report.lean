import Bindery.Generation.Collision
import Bindery.Generation.Manifest

/-!
A run of the generator over a registry. Types are worked on one by one, clashing ones are
withdrawn, and what is left makes up the report: artifacts in order of their paths, units in order
of their ids.
-/

set_option autoImplicit false

namespace Bindery

structure UnitSymbols where
  id : TypeId
  typeName : Text
  symbols : List Text
  deriving DecidableEq, Repr

structure Report where
  artifacts : List Artifact
  units : List UnitSymbols
  omissions : List Omission
  errors : List Diagnostic
  deriving DecidableEq, Repr

namespace Report

def success (r : Report) : Bool := r.errors.isEmpty

def findArtifact? (r : Report) (path : Text) : Option Artifact :=
  r.artifacts.find? fun a => a.path == path

def allSymbols (r : Report) : List Text :=
  (r.units.flatMap UnitSymbols.symbols).mergeSort Text.notAfter

def failed (message : Text) : Report := ⟨[], [], [], [.general .lowering message]⟩

end Report

def Options.problem? (o : Options) (target : Target) : Option Text :=
  if o.pointerWidth ≠ 32 ∧ o.pointerWidth ≠ 64 then
    some ("pointer width must be 32 or 64, got " ++ decimalInt o.pointerWidth)
  else target.optionProblem? o

def enabledTypes (r : Registry) (enabled : List TypeId) : List TypeDef :=
  r.types.filter fun t => enabled.contains t.id

def nameTable (target : Target) (types : List TypeDef) : NameTable :=
  types.foldl (fun table t => table.add t.id ⟨t.name, t.kind.name, target.unitFiles t.name⟩) .empty

def contextOf (r : Registry) (target : Target) (o : Options) (enabled : List TypeId) : Context where
  registry := r
  target
  options := o
  enabled
  names := (nameTable target (enabledTypes r enabled)).toNames

def unitsOf (outcomes : List TypeOutcome) : List UnitSymbols :=
  outcomes.filterMap fun o => o.generated.map fun u => ⟨o.type.id, o.type.name, u.symbols⟩

def artifactsOf (outcomes : List TypeOutcome) : List Artifact :=
  outcomes.flatMap fun o =>
    match o.generated with
    | some u => u.artifacts
    | none => []

def sortArtifacts (artifacts : List Artifact) : List Artifact :=
  artifacts.mergeSort fun a b => Text.notAfter a.path b.path

def assembleReport (r : Registry) (target : Target) (o : Options) (selection : Selection)
    (outcomes : List TypeOutcome) : Report where
  artifacts :=
    sortArtifacts (artifactsOf outcomes ++
      (if o.manifest then [Manifest.artifact r target o outcomes] else []) ++ target.runtime)
  units := unitsOf outcomes
  omissions := selection.omissions ++ outcomes.flatMap TypeOutcome.omissions
  errors := selection.errors ++ outcomes.flatMap TypeOutcome.errors

def processAll (r : Registry) (target : Target) (o : Options) (enabled : List TypeId) :
    List TypeOutcome :=
  (enabledTypes r enabled).map (processType (contextOf r target o enabled))

/-- Runs the generator. The number of jobs plays no part: each type's outcome has a place of its
own. -/
def generate (r : Registry) (target : Target) (o : Options) : Report :=
  match o.problem? target with
  | some message => .failed message
  | none =>
    let selection := (Availability.mk target.name o.features).select r
    assembleReport r target o selection
      (resolveCollisions (processAll r target o selection.enabled))

end Bindery
