import Bindery.Command.Options
import Bindery.Command.Session
import Bindery.Command.Usage
import Bindery.Files.Write
import Bindery.Generation.Journal
import Bindery.Interface.Document

/-!
The commands from their arguments to their effects. All of them read the document and run the
generator; they differ in what they do with the report, and a report with an error is never written.
-/

set_option autoImplicit false

namespace Bindery.Command

inductive Mode where
  | generate
  | check
  | symbols
  deriving DecidableEq, Repr

namespace Mode

def name : Mode → Text
  | generate => "generate"
  | check => "check"
  | symbols => "symbols"

def ofName? (t : Text) : Option Mode := [generate, check, symbols].find? fun m => m.name == t

end Mode

inductive Ending where
  | exit (code : Nat)
  | brokenOff (cause : Breakdown)
  deriving DecidableEq, Repr

abbrev Ended := Session × Ending

def succeeded (s : Session) : Ended := (s, .exit 0)

def failed (s : Session) : Ended := (s, .exit 1)

def source : Text := "generate"

def unreadable (path : Text) : Diagnostic :=
  .general .lowering ("cannot open IR file " ++ Text.quoted path)

def readDocument (files : FileTree) (path : Text) :
    List Log.Record × Except (List Diagnostic) Registry :=
  match files.read? path with
  | none => ([], .error [unreadable path])
  | some text =>
    let opened : Log.Record := ⟨.debug, "ir", "reading " ++ path⟩
    match Document.read text with
    | .error errors => ([opened], .error errors)
    | .ok registry => (opened :: Journal.reading registry, .ok registry)

def written (path : Text) : Log.Record := ⟨.debug, source, "Wrote " ++ path⟩

def unchanged (path : Text) : Log.Record := ⟨.trace, source, "Unchanged " ++ path⟩

/-- Writes artifacts in order up to the first that fails, and counts those that were not there yet
as they should be. -/
def writeArtifacts (directory : Text) :
    List Artifact → Session → Except FileTree.Fault Nat × Session
  | [], s => (.ok 0, s)
  | a :: rest, s =>
    let path := Path.join directory a.path
    match s.files.writeIfChanged path a.content with
    | (.error fault, files) => (.error fault, s.withFiles files)
    | (.ok new, files) =>
      let logged := (s.withFiles files).log (if new then written path else unchanged path)
      match writeArtifacts directory rest logged with
      | (.error fault, s) => (.error fault, s)
      | (.ok count, s) => (.ok (if new then count + 1 else count), s)

def writeSummary (count total : Nat) (directory : Text) : Log.Record :=
  ⟨.info, source,
    decimal count ++ " of " ++ decimal total ++ " files written to " ++ directory⟩

def printerOf (env : Environment) (o : Options) : Diagnostic.Printer where
  format := o.format
  coloured := o.format = .text && env.terminal

def symbolLines (report : Report) : Text := report.allSymbols.flatMap Text.closed

def finalSummary (printer : Diagnostic.Printer) (report : Report) : Text :=
  printer.summary 0 report.artifacts.length report.allSymbols.length

def conclude (mode : Mode) (printer : Diagnostic.Printer) (directory : Text) (report : Report)
    (s : Session) : Ended :=
  match mode with
  | .check => succeeded (s.say (finalSummary printer report))
  | .symbols => succeeded (s.print (symbolLines report))
  | .generate =>
    match writeArtifacts directory report.artifacts s with
    | (.error fault, s) => failed (s.say ("error: " ++ fault.message ++ "\n"))
    | (.ok count, s) =>
      succeeded ((s.log (writeSummary count report.artifacts.length directory)).say
        (finalSummary printer report))

def registryRecord (r : Registry) : Log.Record :=
  ⟨.debug, source,
    "Registry " ++ Text.quoted r.library ++ " holds " ++ decimal r.size ++ " types"⟩

def produce (mode : Mode) (printer : Diagnostic.Printer) (settings : Settings) (target : Target)
    (r : Registry) (s : Session) : Ended :=
  let report := generate r target settings.options
  let shown :=
    (s.logAll (registryRecord r :: Journal.generation r target settings.options)).say
      (printer.listing report.errors report.omissions)
  if report.success then conclude mode printer settings.outputPath report shown
  else failed (shown.say (printer.summary report.errors.length 0 0))

/-- Reads the document and runs the generator over it. The target is known because the settings
were checked. -/
def execute (mode : Mode) (env : Environment) (o : Options) (s : Session) : Ended :=
  let path := o.settings.documentPath
  let printer := printerOf env o
  let begun := s.log ⟨.info, source, "Reading IR from " ++ path⟩
  match readDocument begun.files path with
  | (records, .error errors) =>
    failed (((begun.logAll records).say (printer.listing errors [])).say
      (printer.summary errors.length 0 0))
  | (records, .ok registry) =>
    match Target.ofName? o.settings.target with
    | some target => produce mode printer o.settings target registry (begun.logAll records)
    | none =>
      failed ((begun.logAll records).say
        ("error: unknown backend " ++ Text.quoted o.settings.target ++ "\n"))

def withoutOptions (fault : OptionFault) (s : Session) : Ended :=
  match fault with
  | .usage fault => failed (s.say ("error: " ++ fault.message ++ "\n" ++ usageHint))
  | .breakdown cause => (s, .brokenOff cause)

def logLoaded (path : Option Text) (s : Session) : Session :=
  match path with
  | some p => s.log ⟨.debug, source, "Loaded " ++ p⟩
  | none => s

def runMode (mode : Mode) (env : Environment) (args : List Text) (s : Session) : Ended :=
  match initialSettings s.files args with
  | .error fault => withoutOptions fault s
  | .ok (path, settings) =>
    let loaded := logLoaded path s
    match applyArguments s.files.workingDirectory settings args with
    | .error fault => withoutOptions fault loaded
    | .ok options => execute mode env options loaded

def unknownCommand (command : Text) (s : Session) : Ended :=
  failed (s.say ("Unknown command: " ++ command ++ "\n" ++ usageHint))

/-- Chooses the command. Without arguments there is only help. -/
def dispatch (env : Environment) (args : List Text) (s : Session) : Ended :=
  match args with
  | [] => succeeded (s.print usageText)
  | command :: rest =>
    if command = "--help" ∨ command = "-h" then succeeded (s.print usageText)
    else if command = "--version" ∨ command = "-V" then succeeded (s.print versionText)
    else
      let begun := s.log ⟨.debug, source, "Command: " ++ command⟩
      match Mode.ofName? command with
      | some mode => runMode mode env rest begun
      | none => unknownCommand command begun

structure Outcome where
  ending : Ending
  output : Text
  errors : Text
  files : FileTree

/-- Log files are closed at an exit; a run that is broken off leaves them as they are. -/
def closed (e : Ended) : Session :=
  match e.2 with
  | .exit _ => e.1.finish
  | .brokenOff _ => e.1

/-- Runs the program: its arguments without its own name, what is around it, and the files. -/
def run (args : List Text) (env : Environment) (files : FileTree) : Outcome :=
  let ended :=
    dispatch env args (.start files (Log.Config.ofArguments args env.logging) env.terminal)
  let s := closed ended
  ⟨ended.2, s.output, s.channels.console, s.files⟩

end Bindery.Command
