import Bindery.Generation.Headers

/-!
The languages headers are generated for, and the options of a run. The C++ headers stand on the C
headers, which are generated along with them.
-/

set_option autoImplicit false

namespace Bindery

inductive Target where
  | c
  | cpp
  deriving DecidableEq, Repr

/-- A generated file, relative to the output directory; the owner is zero for shared files. -/
structure Artifact where
  path : Text
  content : Text
  owner : TypeId
  deriving DecidableEq, Repr

structure Options where
  features : List Text
  pointerWidth : Int
  hostNamespace : Text
  jobs : Int
  manifest : Bool
  deriving DecidableEq, Repr

namespace Namespace

def segments : Text → List Text
  | [] => [[]]
  | 58 :: 58 :: t => [] :: segments t
  | c :: t =>
    match segments t with
    | [] => [[c]]
    | s :: ss => (c :: s) :: ss

/-- An identifier that is neither a reserved word nor the name of a namespace in use. -/
def isSegment (s : Text) : Bool :=
  Identifier.isValid s && !Identifier.isReserved s && s != ascii "std" && s != CppRuntime.scope

def isValid (ns : Text) : Bool := (segments ns).all isSegment

end Namespace

namespace Target

def name : Target → Text
  | c => "c"
  | cpp => "cpp"

def ofName? (t : Text) : Option Target :=
  if t = "c" then some c
  else if t = "cpp" ∨ t = "c++" then some cpp
  else none

def dialect : Target → Dialect
  | c => .c
  | cpp => .cpp

def invalidNamespace (ns : Text) : Text := "invalid C++ namespace " ++ Text.quoted ns

def optionProblem? (t : Target) (o : Options) : Option Text :=
  match t with
  | c => none
  | cpp =>
    if Namespace.isValid o.hostNamespace then none
    else some (invalidNamespace o.hostNamespace)

def unitFiles (t : Target) (type : Text) : List Text :=
  match t with
  | c => [UnitFile.declaration type, UnitFile.functions type]
  | cpp =>
    [UnitFile.declaration type, UnitFile.functions type, UnitFile.hostDeclaration type,
      UnitFile.hostDefinitions type]

def cArtifact (h : CHeader) (owner : TypeId) : Artifact := ⟨h.file, h.text, owner⟩

def cppArtifact (h : CppHeader) (owner : TypeId) : Artifact := ⟨h.file, h.text, owner⟩

def runtime : Target → List Artifact
  | c => [cArtifact CRuntime.header 0]
  | cpp => [cArtifact CRuntime.header 0, cppArtifact CppRuntime.header 0]

def render (t : Target) (p : TypePlan) (names : Names) (ns : Text) : List Artifact :=
  let id := p.type.id
  let native := [cArtifact (p.declarationHeader names) id, cArtifact (p.functionHeader names) id]
  match t with
  | c => native
  | cpp =>
    native ++ [cppArtifact (p.hostDeclarationHeader names ns) id,
      cppArtifact (p.hostDefinitionHeader names ns) id]

end Target

end Bindery
