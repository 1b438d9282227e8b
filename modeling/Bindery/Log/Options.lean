import Bindery.Log.Line

/-!
The logging options of the command line. They may stand anywhere among the arguments, and the
environment is asked only where they leave the level open.
-/

set_option autoImplicit false

namespace Bindery.Log

structure Config where
  level : Level := .info
  format : Format := .text
  filter : Text := []
  /-- Empty where no file is asked for. -/
  file : Text := []
  console : Bool := true
  coloured : Bool := true
  deriving DecidableEq, Repr

inductive Flag where
  | level (name : Text)
  | filter (filter : Text)
  | file (path : Text)
  | format (name : Text)
  | quiet
  | verbose (degree : Nat)
  deriving DecidableEq, Repr

namespace Flag

def verbosity? : Text → Option Nat
  | 45 :: 118 :: vs => if vs.all (· == 118) then some (vs.length + 1) else none
  | _ => none

def valued? (arg : Text) : Option Flag :=
  match Text.after? "--log-level=" arg with
  | some v => some (level v)
  | none =>
    match Text.after? "--log-filter=" arg with
    | some v => some (filter v)
    | none =>
      match Text.after? "--log-file=" arg with
      | some v => some (file v)
      | none => (Text.after? "--log-format=" arg).map format

def ofArgument? (arg : Text) : Option Flag :=
  match valued? arg with
  | some flag => some flag
  | none =>
    if arg = "-q" ∨ arg = "--quiet" then some quiet
    else if arg = "--verbose" then some (verbose 1)
    else (verbosity? arg).map verbose

end Flag

def isOption (arg : Text) : Bool := (Flag.ofArgument? arg).isSome

structure Reading where
  config : Config
  levelGiven : Bool
  verbosity : Nat
  deriving DecidableEq, Repr

namespace Reading

def start : Reading := ⟨{ level := .warn }, false, 0⟩

/-- A level that is not known counts as given and changes nothing. -/
def step (s : Reading) : Flag → Reading
  | .level name =>
    { s with
      config := { s.config with level := (Level.ofName? name).getD s.config.level }
      levelGiven := true }
  | .filter f => { s with config := { s.config with filter := f } }
  | .file path => { s with config := { s.config with file := path } }
  | .format name => { s with config := { s.config with format := .ofName name } }
  | .quiet => { s with config := { s.config with level := .error }, levelGiven := true }
  | .verbose degree => { s with verbosity := max s.verbosity degree }

end Reading

def verbosityLevel : Nat → Level
  | 0 => .warn
  | 1 => .info
  | 2 => .debug
  | _ => .trace

/-- The value of the environment variable is a filter if it has an equals sign or a comma, and
otherwise the name of a level. -/
def withEnvironment (c : Config) (value : Text) : Config :=
  if value.contains Byte.equals || value.contains Byte.comma then { c with filter := value }
  else { c with level := (Level.ofName? value).getD c.level }

/-- A level that was given stands, then verbosity counts, and the environment last. -/
def Reading.finish (s : Reading) (environment : Text) : Config :=
  if s.levelGiven then s.config
  else if 0 < s.verbosity then { s.config with level := verbosityLevel s.verbosity }
  else if s.config.filter.isEmpty then withEnvironment s.config environment
  else s.config

/-- The logging configuration from all arguments, and from the environment variable, which is empty
where it is not set. -/
def Config.ofArguments (args : List Text) (environment : Text) : Config :=
  ((args.filterMap Flag.ofArgument?).foldl Reading.step .start).finish environment

end Bindery.Log
