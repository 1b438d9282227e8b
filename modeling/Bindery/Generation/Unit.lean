import Bindery.Generation.Target

/-!
One type at a time: its plan is drawn up, and rendered if nothing is wrong with it. A type with any
error contributes no headers.
-/

set_option autoImplicit false

namespace Bindery

structure Context where
  registry : Registry
  target : Target
  options : Options
  enabled : List TypeId
  names : Names

namespace Context

def availability (c : Context) : Availability := ⟨c.target.name, c.options.features⟩

def mapper (c : Context) : Mapper where
  registry := c.registry
  enabled := c.enabled
  dialect := c.target.dialect
  capabilities := .full
  pointerWidth := c.options.pointerWidth

end Context

structure GeneratedUnit where
  symbols : List Text
  names : List Text
  artifacts : List Artifact
  deriving DecidableEq, Repr

structure TypeOutcome where
  type : TypeDef
  errors : List Diagnostic
  omissions : List Omission
  generated : Option GeneratedUnit
  deriving DecidableEq, Repr

/-- The prefixes of support types: `Weld` before an upper-case letter, `weld_` in any case. -/
def usesSupportPrefix (name : Text) : Bool :=
  (match Text.after? "Weld" name with
  | some (c :: _) => Byte.isUpper c
  | _ => false) || Text.startsWith (Text.lower name) "weld_"

def typeNameProblems (t : TypeDef) : List Diagnostic :=
  (if Identifier.isReserved t.name then
    [.ofType .namingConflict t (Text.quoted t.name ++ " is a reserved word")]
  else []) ++
    if usesSupportPrefix t.name then
      [.ofType .namingConflict t
        (Text.quoted t.name ++ " uses a prefix reserved for runtime support types")]
    else []

structure MethodSelection where
  methods : List Method
  errors : List Diagnostic
  omissions : List Omission
  deriving DecidableEq, Repr

def selectMethods (a : Availability) (t : TypeDef) : List Method → MethodSelection
  | [] => ⟨[], [], []⟩
  | m :: ms =>
    let rest := selectMethods a t ms
    match a.ofMethod t m with
    | .error d => { rest with errors := d :: rest.errors }
    | .ok true => { rest with methods := m :: rest.methods }
    | .ok false => { rest with omissions := a.omission t m.name :: rest.omissions }

def planMethod (c : Context) (t : TypeDef) (m : Method) : Except Diagnostic MethodPlan :=
  match c.mapper.signature t m with
  | .error fault => .error (fault.diagnostic t m)
  | .ok signature =>
    match c.registry.planTransfers t m with
    | .error d => .error d
    | .ok transfers => .ok ⟨m, signature, transfers⟩

def mapProblem (t : TypeDef) (fault : MapFault) : Diagnostic := .ofType fault.kind t fault.message

/-- The fields in order, with the errors of each: a name used before, a type that cannot stand
there. -/
def planFields (c : Context) (t : TypeDef) :
    (seen : List Text) → List Field → List FieldPlan × List Diagnostic
  | _, [] => ([], [])
  | seen, f :: fs =>
    let rest := planFields c t (f.name :: seen) fs
    let repeated : List Diagnostic :=
      if seen.contains f.name then
        [.ofType .namingConflict t ("field " ++ Text.quoted f.name ++ " is declared twice")]
      else []
    match c.mapper.map f.type .field [] with
    | .ok mapped => (⟨f, mapped⟩ :: rest.1, repeated ++ rest.2)
    | .error fault => (rest.1, repeated ++ mapProblem t fault :: rest.2)

def fieldClashes (t : TypeDef) (methods : List Method) : List Diagnostic :=
  (methods.filter fun m => t.fields.any fun f => f.name == m.name).map fun m =>
    .ofMethod .namingConflict t m.name "method has the same name as a field"

def planRecord (c : Context) (t : TypeDef) (methods : List Method) :
    List FieldPlan × List Diagnostic :=
  if t.fields.isEmpty then ([], [.ofType .unsupportedType t "struct has no fields"])
  else
    match c.mapper.recordLayout t with
    | .error fault => ([], [mapProblem t fault])
    | .ok _ =>
      let planned := planFields c t [] t.fields
      (planned.1, planned.2 ++ fieldClashes t methods)

def enumerationProblems (t : TypeDef) : List Diagnostic :=
  if t.variants.isEmpty then [.ofType .unsupportedType t "enum has no variants"]
  else
    match Mapper.checkEnumeration t with
    | .error fault => [mapProblem t fault]
    | .ok () => []

def planDefinition (c : Context) (t : TypeDef) (methods : List Method) :
    List FieldPlan × List Diagnostic :=
  match t.kind with
  | .object => ([], [])
  | .record => planRecord c t methods
  | .enumeration => ([], enumerationProblems t)
  | .synonym => ([], [])

def isRecord (r : Registry) (id : TypeId) : Bool :=
  match r.find? id with
  | some t => t.kind = .record
  | none => false

def assemblePlan (c : Context) (t : TypeDef) (fields : List FieldPlan)
    (methods : List MethodPlan) : TypePlan :=
  let fieldIds := fields.flatMap fun f => f.mapped.deps
  let methodIds := methods.flatMap fun m => m.signature.deps
  { type := t
    methods
    fields
    destructor := (c.registry.destructors c.enabled).lookup t.id
    definitionDeps := (idSet (fieldIds.filter (isRecord c.registry))).filter (· != t.id)
    deps := (idSet (fieldIds ++ methodIds)).filter (· != t.id) }

def TypePlan.generate (p : TypePlan) (c : Context) : GeneratedUnit where
  symbols := p.symbols
  names := p.declaredNames
  artifacts := c.target.render p c.names c.options.hostNamespace

def partitionResults {ε α : Type} : List (Except ε α) → List α × List ε
  | [] => ([], [])
  | .ok a :: rs => let rest := partitionResults rs; (a :: rest.1, rest.2)
  | .error e :: rs => let rest := partitionResults rs; (rest.1, e :: rest.2)

structure Draft where
  plan : TypePlan
  errors : List Diagnostic
  omissions : List Omission
  deriving DecidableEq, Repr

def draftType (c : Context) (t : TypeDef) : Draft :=
  let chosen := selectMethods c.availability t t.methods
  let definition := planDefinition c t chosen.methods
  let planned := partitionResults (chosen.methods.map (planMethod c t))
  { plan := assemblePlan c t definition.1 planned.1
    errors :=
      typeNameProblems t ++ chosen.errors ++ checkSymbols t chosen.methods ++ definition.2 ++
        planned.2
    omissions := chosen.omissions }

/-- A draft without errors is rendered, if every object it refers to can be destroyed. -/
def Draft.finish (d : Draft) (c : Context) : TypeOutcome :=
  let t := d.plan.type
  if d.errors.isEmpty then
    match c.registry.checkDestructors c.enabled t d.plan.deps with
    | [] => ⟨t, [], d.omissions, some (d.plan.generate c)⟩
    | missing => ⟨t, missing, d.omissions, none⟩
  else ⟨t, d.errors, d.omissions, none⟩

def processType (c : Context) (t : TypeDef) : TypeOutcome := (draftType c t).finish c

end Bindery
