import Bindery.Log.Logger

/-!
A running command: the files it works on, what it has written to its two outputs, and its log.
-/

set_option autoImplicit false

namespace Bindery.Command

structure Environment where
  /-- The environment variable for logging, empty where it is not set. -/
  logging : Text := []
  /-- Whether messages go to a terminal that shows colours. -/
  terminal : Bool := false
  deriving DecidableEq, Repr

structure Session where
  channels : Log.Channels
  logger : Log.Logger := {}
  output : Text := []

namespace Session

def files (s : Session) : FileTree := s.channels.files

def withFiles (s : Session) (files : FileTree) : Session :=
  { s with channels := { s.channels with files } }

def print (s : Session) (text : Text) : Session := { s with output := s.output ++ text }

def say (s : Session) (text : Text) : Session :=
  { s with channels := { s.channels with console := s.channels.console ++ text } }

def log (s : Session) (r : Log.Record) : Session :=
  let logged := s.logger.log r s.channels
  { s with logger := logged.1, channels := logged.2 }

def logAll (s : Session) (records : List Log.Record) : Session := records.foldl log s

def start (files : FileTree) (config : Log.Config) (terminal : Bool) : Session :=
  let started := Log.Logger.start {} config terminal { files }
  { logger := started.1, channels := started.2 }

/-- Ends a session; log files are written out. -/
def finish (s : Session) : Session := { s with channels := s.logger.closeSinks s.channels }

end Session

end Bindery.Command
