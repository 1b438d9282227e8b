import Bindery.Files.Resolve
import Bindery.Log.Line

/-!
Where records go: to the console, to a file, or to a recorder that keeps them as they are. A log
file is written through a buffer, which reaches the file when it is flushed or closed, with a line
that is long or leaves no room, and after every record of an error.
-/

set_option autoImplicit false

namespace Bindery.Log

inductive Event where
  | record (r : Record)
  | flush
  deriving DecidableEq, Repr

structure Channels where
  files : FileTree
  console : Text := []
  recorded : List (Nat × Event) := []

inductive OpenMode where
  | append
  | truncate
  deriving DecidableEq, Repr

/-- An open log file with the lines that have not reached it. A file that was not opened for
appending is written from a position of its own. -/
structure LogFile where
  place : Place
  mode : OpenMode
  position : Nat := 0
  pending : Text := []
  deriving DecidableEq, Repr

/-- Puts bytes over a text from a position on; a gap is filled with zero bytes. -/
def overwrite (text : Text) (position : Nat) (bytes : Text) : Text :=
  text.take position ++ List.replicate (position - text.length) 0 ++ bytes ++
    text.drop (position + bytes.length)

namespace LogFile

def capacity : Nat := 8191

/-- The bytes of a line that is too long to wait, however much room there is. -/
def longLine : Nat := 1024

def open? (files : FileTree) (path : Text) (mode : OpenMode) : Option (LogFile × FileTree) :=
  match files.writable? path with
  | none => none
  | some place =>
    let content :=
      match mode with
      | .append => files.contentAt place
      | .truncate => []
    some (⟨place, mode, 0, []⟩, files.putFile place content)

/-- The content of the file once what is pending has reached it. -/
def written (f : LogFile) (content : Text) : Text :=
  match f.mode with
  | .append => content ++ f.pending
  | .truncate => overwrite content f.position f.pending

def flush (f : LogFile) (files : FileTree) : LogFile × FileTree :=
  if f.pending.isEmpty then (f, files)
  else
    ({ f with position := f.position + f.pending.length, pending := [] },
      files.putFile f.place (f.written (files.contentAt f.place)))

/-- Whether a line can wait. One that would fill the buffer cannot. -/
def hasRoomFor (f : LogFile) (line : Text) : Bool :=
  line.length < longLine && f.pending.length + line.length < capacity

/-- Adds a line. One that cannot wait goes to the file at once, after those that did. -/
def write (f : LogFile) (line : Text) (files : FileTree) : LogFile × FileTree :=
  let added := { f with pending := f.pending ++ line }
  if f.hasRoomFor line then (added, files) else added.flush files

end LogFile

inductive Sink where
  | console (format : Format) (coloured : Bool)
  | file (file : LogFile) (format : Format)
  | recorder (id : Nat)
  deriving DecidableEq, Repr

namespace Sink

def flush (s : Sink) (c : Channels) : Sink × Channels :=
  match s with
  | console format coloured => (console format coloured, c)
  | file f format =>
    let flushed := f.flush c.files
    (file flushed.1 format, { c with files := flushed.2 })
  | recorder id => (recorder id, { c with recorded := c.recorded ++ [(id, .flush)] })

/-- Errors do not wait in the buffer. -/
def writeFile (f : LogFile) (format : Format) (elapsed : Int) (r : Record) (c : Channels) :
    Sink × Channels :=
  let added := f.write (r.line format false elapsed) c.files
  let now := if r.level.reaches .error then added.1.flush added.2 else added
  (file now.1 format, { c with files := now.2 })

def write (s : Sink) (elapsed : Int) (r : Record) (c : Channels) : Sink × Channels :=
  match s with
  | console format coloured =>
    (console format coloured, { c with console := c.console ++ r.line format coloured elapsed })
  | file f format => writeFile f format elapsed r c
  | recorder id => (recorder id, { c with recorded := c.recorded ++ [(id, .record r)] })

/-- Closing a file flushes it; the others have nothing to close. -/
def close (s : Sink) (c : Channels) : Channels :=
  match s with
  | file f _ => { c with files := (f.flush c.files).2 }
  | _ => c

def forAll (act : Sink → Channels → Sink × Channels) : List Sink → Channels → List Sink × Channels
  | [], c => ([], c)
  | s :: ss, c =>
    let first := act s c
    let rest := forAll act ss first.2
    (first.1 :: rest.1, rest.2)

end Sink

end Bindery.Log
