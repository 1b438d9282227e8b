import Bindery.Command.Run

/-!
The command line. The parts of the disk that a run looks at are copied into a file tree, the run is
computed on the tree, and the files that it changed are written back.
-/

set_option autoImplicit false

namespace Bindery.CommandLine

def ofString (s : String) : Text := s.toUTF8.toList

def toBytes (t : Text) : ByteArray := ⟨t.toArray⟩

def asString (t : Text) : String := (String.fromUTF8? (toBytes t)).getD ""

def pathOf (place : Place) : Text :=
  if place.isEmpty then "/" else place.flatMap fun name => Byte.slash :: name

/-- What the disk has at a place; directories are shown empty. -/
def look (place : Place) : IO (Option FileNode) := do
  let path := (← IO.currentDir) / asString (pathOf place)
  if ← path.isDir then
    return some .emptyDirectory
  if ← path.pathExists then
    return some (.file (← IO.FS.readBinFile path).toList)
  return none

def addObserved (tree : FileTree) (place : Place) (seen : FileNode) : FileTree :=
  match tree.node? place, seen with
  | some (.directory _), .directory _ => tree
  | _, seen => tree.put place seen

def observeFrom (here : Place) : List Path.Step → FileTree → IO FileTree
  | [], tree => return tree
  | .stay :: rest, tree => observeFrom here rest tree
  | .up :: rest, tree => observeFrom here.dropLast rest tree
  | .down name :: rest, tree => do
    match ← look (here ++ [name]) with
    | none => return tree
    | some seen => observeFrom (here ++ [name]) rest (addObserved tree (here ++ [name]) seen)

def observe (tree : FileTree) (path : Text) : IO FileTree :=
  observeFrom (tree.origin path) (Path.steps path) tree

def changes (before after : FileTree) : List (Text × Text) :=
  after.files.filter fun e => before.file? e.1 != some e.2

def observeInputs (tree : FileTree) (args : List Text) : IO FileTree := do
  let named :=
    match Command.namedFile none args with
    | .ok (some path) => path
    | _ => Command.defaultFile
  let tree ← observe tree named
  match Command.parseOptions tree args with
  | .ok options => observe tree options.settings.documentPath
  | .error _ => return tree

/-- Copies the files that a run would write, so that it can tell which of them are new. -/
def observeOutputs (tree : FileTree) (args : List Text) (env : Command.Environment) : IO FileTree :=
  (changes tree (Command.run args env tree).files).foldlM (fun tree e => observe tree e.1) tree

def writeBack (before after : FileTree) : IO Unit := do
  for (path, content) in changes before after do
    IO.FS.createDirAll (asString (Path.parent path))
    IO.FS.writeBinFile (asString path) (toBytes content)

def environment : IO Command.Environment := do
  let setting ← IO.getEnv "WELD_LOG"
  let term ← IO.getEnv "TERM"
  let terminal ← (← IO.getStderr).isTty
  return ⟨ofString (setting.getD ""), terminal && term.isSome && term != some "dumb"⟩

end Bindery.CommandLine

open Bindery Bindery.CommandLine in
def main (args : List String) : IO UInt32 := do
  let arguments := args.map ofString
  let env ← environment
  let fresh ← observe (.fresh (ofString (← IO.currentDir).toString)) "."
  let inputs ← observeInputs fresh (arguments.drop 1)
  let before ← observeOutputs inputs arguments env
  let outcome := Command.run arguments env before
  writeBack before outcome.files
  (← IO.getStdout).write (toBytes outcome.output)
  (← IO.getStderr).write (toBytes outcome.errors)
  match outcome.ending with
  | .exit code => return code.toUInt32
  | .brokenOff cause =>
    (← IO.getStderr).write (toBytes (Text.closed cause.message))
    return 134
