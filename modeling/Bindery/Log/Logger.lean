import Bindery.Log.Filter
import Bindery.Log.Options
import Bindery.Log.Sink

/-!
The logger: a gate in front of the sinks. It is passed along with the channels its sinks write to.
-/

set_option autoImplicit false

namespace Bindery.Log

structure Logger where
  gate : Gate := {}
  sinks : List Sink := []
  /-- Milliseconds since the start. -/
  elapsed : Int := 0
  deriving DecidableEq, Repr

namespace Logger

def silent : Logger := { gate := ⟨.off, { default := .off }⟩ }

def closeSinks (l : Logger) (c : Channels) : Channels :=
  l.sinks.foldl (fun c s => s.close c) c

def clearSinks (l : Logger) (c : Channels) : Logger × Channels :=
  ({ l with sinks := [] }, l.closeSinks c)

def addSink (l : Logger) (s : Sink) : Logger := { l with sinks := l.sinks ++ [s] }

def missingFile (path : Text) : Text := "warning: could not open log file: " ++ path ++ "\n"

/-- Adds the file of a configuration. A file that cannot be opened is left out with a warning. -/
def addFile (l : Logger) (config : Config) (c : Channels) : Logger × Channels :=
  if config.file.isEmpty then (l, c)
  else
    match LogFile.open? c.files config.file .append with
    | some (file, files) => (l.addSink (.file file config.format), { c with files })
    | none => (l, { c with console := c.console ++ missingFile config.file })

/-- Starts over with a configuration. Colours are for terminals that have them. -/
def start (l : Logger) (config : Config) (terminal : Bool) (c : Channels) : Logger × Channels :=
  let cleared := l.clearSinks c
  let gated := { cleared.1 with gate := Gate.ofConfig config.level config.filter }
  let withConsole :=
    if config.console then gated.addSink (.console config.format (config.coloured && terminal))
    else gated
  withConsole.addFile config cleared.2

/-- Gives a record to every sink, whatever the gate says. -/
def deliver (l : Logger) (r : Record) (c : Channels) : Logger × Channels :=
  let written := Sink.forAll (fun s c => s.write l.elapsed r c) l.sinks c
  ({ l with sinks := written.1 }, written.2)

def log (l : Logger) (r : Record) (c : Channels) : Logger × Channels :=
  if l.gate.passes r.level r.source then l.deliver r c else (l, c)

def flush (l : Logger) (c : Channels) : Logger × Channels :=
  let flushed := Sink.forAll Sink.flush l.sinks c
  ({ l with sinks := flushed.1 }, flushed.2)

end Logger

end Bindery.Log
