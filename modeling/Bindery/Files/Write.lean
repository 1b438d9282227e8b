import Bindery.Files.Resolve

/-!
Making directories and writing files. What was made before an obstacle stays.
-/

set_option autoImplicit false

namespace Bindery.FileTree

def build (t : FileTree) : (here : Place) → List Path.Step → Except Obstacle Unit × FileTree
  | _, [] => (.ok (), t)
  | here, .stay :: rest => build t here rest
  | here, .up :: rest => build t here.dropLast rest
  | here, .down name :: rest =>
    if Path.nameLimit < name.length then (.error .tooLong, t)
    else
      match t.node? (here ++ [name]) with
      | some (.directory _) => build t (here ++ [name]) rest
      | some (.file _) => (.error .occupied, t)
      | none => build (t.put (here ++ [name]) .emptyDirectory) (here ++ [name]) rest

def isDown : Path.Step → Bool
  | .down _ => true
  | _ => false

def isTooDeep (steps : List Path.Step) : Bool := Path.depthLimit < (steps.filter isDown).length

/-- Follows steps as far as there are directories and makes the others. A file that is met before
anything is missing is no directory. -/
def extend (t : FileTree) : (here : Place) → List Path.Step → Except Obstacle Unit × FileTree
  | _, [] => (.ok (), t)
  | here, .stay :: rest => extend t here rest
  | here, .up :: rest => extend t here.dropLast rest
  | here, .down name :: rest =>
    match t.node? (here ++ [name]) with
    | some (.directory _) => extend t (here ++ [name]) rest
    | some (.file _) => (.error (if isTooDeep rest then .tooLong else .notDirectory), t)
    | none =>
      if isTooDeep (.down name :: rest) then (.error .tooLong, t)
      else build t here (.down name :: rest)

def createDirectories (t : FileTree) (path : Text) : Except Obstacle Unit × FileTree :=
  let visible := Text.untilZero path
  match t.resolve path with
  | .ok (.directory _) => (.ok (), t)
  | .ok (.file _ _) => (.error .notDirectory, t)
  | .error .tooLong => (.error .tooLong, t)
  | _ =>
    if visible.isEmpty then (.error .absent, t)
    else t.extend (t.origin visible) (Path.steps visible)

inductive Fault where
  | unreadable (path : Text)
  | directory (path : Text) (obstacle : Obstacle)
  | unwritable (path : Text)
  deriving DecidableEq, Repr

/-- What is said about a fault; it is cut before the first zero byte. -/
def Fault.message (f : Fault) : Text :=
  Text.untilZero <|
    match f with
    | unreadable path => "Cannot open file: " ++ path
    | directory path obstacle => "Cannot create directory " ++ path ++ ": " ++ obstacle.message
    | unwritable path => "Cannot write file: " ++ path

def read (t : FileTree) (path : Text) : Except Fault Text :=
  match t.read? path with
  | some content => .ok content
  | none => .error (.unreadable path)

def prepare (t : FileTree) (path : Text) : Except Fault Unit × FileTree :=
  if (Path.parent path).isEmpty then (.ok (), t)
  else
    match t.createDirectories (Path.parent path) with
    | (.ok (), made) => (.ok (), made)
    | (.error obstacle, made) => (.error (.directory (Path.parent path) obstacle), made)

/-- Writes a file unless it holds the content already; tells whether it was written. -/
def writeIfChanged (t : FileTree) (path content : Text) : Except Fault Bool × FileTree :=
  if t.file? path = some content then (.ok false, t)
  else
    match t.prepare path with
    | (.error fault, prepared) => (.error fault, prepared)
    | (.ok (), prepared) =>
      match prepared.writable? path with
      | some place => (.ok true, prepared.putFile place content)
      | none => (.error (.unwritable path), prepared)

/-- A tree of nothing but the way to the working directory. -/
def fresh (workingDirectory : Text) : FileTree :=
  (build { workingDirectory } [] (Path.steps workingDirectory)).2

end Bindery.FileTree
