import Bindery.Diagnostic.Printer
import Bindery.Files.Resolve
import Bindery.Log.Options
import Bindery.Settings.Reader

/-!
The options that follow a command. Settings are read from a file first and then changed by the
options, of which the last one of a kind counts.
-/

set_option autoImplicit false

namespace Bindery.Command

/-- Options that take a value, `--key value` or `--key=value`. -/
inductive Key where
  | config
  | document
  | target
  | output
  | feature
  | hostNamespace
  | jobs
  | pointerWidth
  deriving DecidableEq, Repr

namespace Key

def all : List Key :=
  [config, document, target, output, feature, hostNamespace, jobs, pointerWidth]

def flag : Key → Text
  | config => "--config"
  | document => "--ir"
  | target => "--backend"
  | output => "--out"
  | feature => "--feature"
  | hostNamespace => "--namespace"
  | jobs => "--jobs"
  | pointerWidth => "--pointer-width"

def valueName : Key → Text
  | config => "a file"
  | document => "a file"
  | target => "a name"
  | output => "a directory"
  | feature => "a name"
  | hostNamespace => "a name"
  | jobs => "a number"
  | pointerWidth => "32 or 64"

end Key

inductive UsageFault where
  | valueRequired (key : Key)
  | unknownOption (argument : Text)
  | unknownFormat (name : Text)
  | settingsAbsent (path : Text)
  | settingsFault (path : Text) (fault : Settings.Fault)
  | invalid (first : Settings.Problem) (others : List Settings.Problem)
  deriving DecidableEq, Repr

def furtherProblem (p : Settings.Problem) : Text := "\nerror: " ++ p.message

def UsageFault.message : UsageFault → Text
  | valueRequired key => key.flag ++ " requires " ++ key.valueName
  | unknownOption argument => "unknown option " ++ Text.quoted argument
  | unknownFormat name => "unknown diagnostic format " ++ Text.quoted name
  | settingsAbsent path => "config file " ++ Text.quoted path ++ " not found"
  | settingsFault path fault => path ++ ": " ++ fault.message
  | invalid first others => first.message ++ others.flatMap furtherProblem

inductive Breakdown where
  | emptyPath
  | pathTooLong (path : Text)
  | directoryRead
  deriving DecidableEq, Repr

def Breakdown.message : Breakdown → Text
  | emptyPath => "filesystem error: cannot make absolute path: Invalid argument []"
  | pathTooLong path => "filesystem error: status: File name too long [" ++ path ++ "]"
  | directoryRead => "basic_filebuf::underflow error reading the file: Is a directory"

inductive OptionFault where
  | usage (fault : UsageFault)
  | breakdown (cause : Breakdown)
  deriving DecidableEq, Repr

structure Options where
  settings : Settings := {}
  format : Diagnostic.Format := .text
  deriving DecidableEq, Repr

/-- The last file that the arguments name. Every argument is looked at, whether or not it is the
value of another option. -/
def namedFile : (found : Option Text) → List Text → Except OptionFault (Option Text)
  | found, [] => .ok found
  | found, arg :: rest =>
    if arg = Key.config.flag then
      match rest with
      | [] => .error (.usage (.valueRequired .config))
      | path :: rest => namedFile (some path) rest
    else
      match Text.after? "--config=" arg with
      | some path => namedFile (some path) rest
      | none => namedFile found rest

def defaultFile : Text := "weld.toml"

/-- The file to read settings from: the named one, or else the usual one if it is there. -/
def settingsFile (files : FileTree) (args : List Text) : Except OptionFault (Option Text) :=
  match namedFile none args with
  | .error fault => .error fault
  | .ok (some path) => .ok (some path)
  | .ok none => .ok (if files.contains defaultFile then some defaultFile else none)

/-- The settings of a file. Relative paths in it start from its directory. -/
def loadSettings (files : FileTree) (path : Text) : Except OptionFault Settings :=
  match files.resolve path with
  | .ok (.file _ content) =>
    match Settings.parse content with
    | .ok settings => .ok { settings with base := Path.parent path }
    | .error fault => .error (.usage (.settingsFault path fault))
  | .ok (.directory _) => .error (.breakdown .directoryRead)
  | .error .tooLong => .error (.breakdown (.pathTooLong path))
  | _ => .error (.usage (.settingsAbsent path))

inductive Argument where
  | logging
  | withoutManifest
  | format (name : Text)
  | inline (key : Key) (value : Text)
  | separate (key : Key)
  | unknown
  deriving DecidableEq, Repr

namespace Argument

/-- `-j` is short for `--jobs` where the value is an argument of its own. -/
def separate? (arg : Text) : Option Argument :=
  if arg = "-j" then some (separate .jobs)
  else (Key.all.find? fun k => k.flag == arg).map separate

def inline? (arg : Text) : Option Argument :=
  Key.all.findSome? fun k => (Text.after? (k.flag ++ "=") arg).map (inline k)

def special? (arg : Text) : Option Argument :=
  if Log.isOption arg then some logging
  else if arg = "--no-manifest" then some withoutManifest
  else (Text.after? "--diagnostic-format=" arg).map format

def ofText (arg : Text) : Argument :=
  match special? arg with
  | some a => a
  | none =>
    match separate? arg with
    | some a => a
    | none => (inline? arg).getD unknown

end Argument

inductive Assignment where
  | document (path : Text)
  | target (name : Text)
  | output (path : Text)
  | feature (name : Text)
  | hostNamespace (ns : Text)
  | jobs (count : Int)
  | pointerWidth (width : Int)
  | withoutManifest
  | format (format : Diagnostic.Format)
  deriving DecidableEq, Repr

/-- An integer of thirty-two bits in decimal: digits with at most a minus sign before them. -/
def integer? (t : Text) : Option Int :=
  let negative := t.head? == some Byte.minus
  let digits := if negative then t.drop 1 else t
  let value : Int := if negative then -(digitsValue digits : Int) else digitsValue digits
  if digits.isEmpty || !digits.all Byte.isDigit then none
  else if value < -2147483648 ∨ 2147483647 < value then none
  else some value

def requireInteger (key : Key) (value : Text) (use : Int → Assignment) :
    Except OptionFault (Option Assignment) :=
  match integer? value with
  | some n => .ok (some (use n))
  | none => .error (.usage (.valueRequired key))

/-- Paths are taken from the working directory, not from the settings file, which has been read
already. An empty path has no place there. -/
def requirePath (directory value : Text) (use : Text → Assignment) :
    Except OptionFault (Option Assignment) :=
  if value.isEmpty then .error (.breakdown .emptyPath)
  else .ok (some (use (Path.join directory value)))

def assignment (directory : Text) (key : Key) (value : Text) :
    Except OptionFault (Option Assignment) :=
  match key with
  | .config => .ok none
  | .document => requirePath directory value .document
  | .target => .ok (some (.target value))
  | .output => requirePath directory value .output
  | .feature => .ok (some (.feature value))
  | .hostNamespace => .ok (some (.hostNamespace value))
  | .jobs => requireInteger .jobs value .jobs
  | .pointerWidth => requireInteger .pointerWidth value .pointerWidth

def followed (first : Except OptionFault (Option Assignment))
    (others : Except OptionFault (List Assignment)) : Except OptionFault (List Assignment) :=
  match first, others with
  | .error fault, _ => .error fault
  | .ok _, .error fault => .error fault
  | .ok none, .ok rest => .ok rest
  | .ok (some a), .ok rest => .ok (a :: rest)

def formatAssignment (name : Text) : Except OptionFault (Option Assignment) :=
  match Diagnostic.Format.ofName? name with
  | some f => .ok (some (.format f))
  | none => .error (.usage (.unknownFormat name))

def assignments (directory : Text) : List Text → Except OptionFault (List Assignment)
  | [] => .ok []
  | arg :: rest =>
    match Argument.ofText arg with
    | .logging => assignments directory rest
    | .withoutManifest => followed (.ok (some .withoutManifest)) (assignments directory rest)
    | .format name => followed (formatAssignment name) (assignments directory rest)
    | .inline key value => followed (assignment directory key value) (assignments directory rest)
    | .unknown => .error (.usage (.unknownOption arg))
    | .separate key =>
      match rest with
      | value :: rest => followed (assignment directory key value) (assignments directory rest)
      | [] => if key = .config then .ok [] else .error (.usage (.valueRequired key))

namespace Options

/-- Features are collected apart, because together they replace those of the file. -/
def apply (o : Options) : Assignment → Options
  | .document path => { o with settings := { o.settings with document := path } }
  | .target name => { o with settings := { o.settings with target := name } }
  | .output path => { o with settings := { o.settings with outputDirectory := path } }
  | .feature _ => o
  | .hostNamespace ns => { o with settings := { o.settings with hostNamespace := ns } }
  | .jobs count => { o with settings := { o.settings with jobs := count } }
  | .pointerWidth width => { o with settings := { o.settings with pointerWidth := width } }
  | .withoutManifest => { o with settings := { o.settings with manifest := false } }
  | .format f => { o with format := f }

end Options

def Assignment.feature? : Assignment → Option Text
  | feature name => some name
  | _ => none

def withFeatures (o : Options) (features : List Text) : Options :=
  if features.isEmpty then o else { o with settings := { o.settings with features } }

def changed (settings : Settings) (changes : List Assignment) : Options :=
  withFeatures (changes.foldl Options.apply { settings }) (changes.filterMap Assignment.feature?)

def validated (o : Options) : Except OptionFault Options :=
  match o.settings.problems with
  | [] => .ok o
  | first :: others => .error (.usage (.invalid first others))

def applyArguments (directory : Text) (settings : Settings) (args : List Text) :
    Except OptionFault Options :=
  match assignments directory args with
  | .error fault => .error fault
  | .ok changes => validated (changed settings changes)

def initialSettings (files : FileTree) (args : List Text) :
    Except OptionFault (Option Text × Settings) :=
  match settingsFile files args with
  | .error fault => .error fault
  | .ok none => .ok (none, {})
  | .ok (some path) =>
    match loadSettings files path with
    | .error fault => .error fault
    | .ok settings => .ok (some path, settings)

def parseOptions (files : FileTree) (args : List Text) : Except OptionFault Options :=
  match initialSettings files args with
  | .error fault => .error fault
  | .ok (_, settings) => applyArguments files.workingDirectory settings args

end Bindery.Command
