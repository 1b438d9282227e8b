import Bindery.Files.Path
import Bindery.Generation.Target

/-!
The settings of a run: what to read, what to generate, where to put it. They come from a settings
file and from the command line, so nothing in them has been checked.
-/

set_option autoImplicit false

namespace Bindery

structure Settings where
  /-- The document; empty where none was given. -/
  document : Text := []
  target : Text := "cpp"
  outputDirectory : Text := "bindings"
  features : List Text := []
  jobs : Int := 1
  pointerWidth : Int := 64
  manifest : Bool := true
  hostNamespace : Text := "bindings"
  /-- The directory that relative paths start from. -/
  base : Text := []
  deriving DecidableEq, Repr

namespace Settings

inductive Problem where
  | noDocument
  | unknownTarget (name : Text)
  | pointerWidth (width : Int)
  | jobs (count : Int)
  | hostNamespace (ns : Text)
  deriving DecidableEq, Repr

def Problem.message : Problem → Text
  | noDocument => "no IR document given ([generate] ir or --ir)"
  | unknownTarget name => "unknown backend " ++ Text.quoted name ++ " (expected c or cpp)"
  | pointerWidth width => "pointer-width must be 32 or 64, got " ++ decimalInt width
  | jobs count => "jobs must be at least 1, got " ++ decimalInt count
  | hostNamespace ns => Target.invalidNamespace ns

/-- The namespace matters only for the target that uses it. -/
def namespaceProblems (s : Settings) : List Problem :=
  match Target.ofName? s.target with
  | some .cpp =>
    if Namespace.isValid s.hostNamespace then [] else [.hostNamespace s.hostNamespace]
  | _ => []

def problems (s : Settings) : List Problem :=
  (if s.document.isEmpty then [.noDocument] else []) ++
    (if (Target.ofName? s.target).isNone then [.unknownTarget s.target] else []) ++
    (if s.pointerWidth = 32 ∨ s.pointerWidth = 64 then [] else [.pointerWidth s.pointerWidth]) ++
    (if s.jobs < 1 then [.jobs s.jobs] else []) ++ s.namespaceProblems

def documentPath (s : Settings) : Text := Path.join s.base s.document

def outputPath (s : Settings) : Text := Path.join s.base s.outputDirectory

def options (s : Settings) : Options where
  features := Sorted.ofList Text.before s.features
  pointerWidth := s.pointerWidth
  hostNamespace := s.hostNamespace
  jobs := s.jobs
  manifest := s.manifest

end Settings

end Bindery
