import Bindery.Files.Tree

/-!
Where paths lead. A path is followed from the root or from the working directory one part at a time,
as far as its first zero byte.
-/

set_option autoImplicit false

namespace Bindery.FileTree

inductive Obstacle where
  | absent
  | notDirectory
  | occupied
  | tooLong
  deriving DecidableEq, Repr

def Obstacle.message : Obstacle → Text
  | absent => "No such file or directory"
  | notDirectory => "Not a directory"
  | occupied => "File exists"
  | tooLong => "File name too long"

inductive Spot where
  | directory (place : Place)
  | file (place : Place) (content : Text)
  | vacant (place : Place)
  deriving DecidableEq, Repr

/-- Follows steps from a directory; the root is above itself. A path that goes on after a file or
after nothing leads nowhere. -/
def walk (t : FileTree) : (here : Place) → List Path.Step → Except Obstacle Spot
  | here, [] => .ok (.directory here)
  | here, .stay :: rest => walk t here rest
  | here, .up :: rest => walk t here.dropLast rest
  | here, .down name :: rest =>
    if Path.nameLimit < name.length then .error .tooLong
    else
      match t.node? (here ++ [name]) with
      | some (.directory _) => walk t (here ++ [name]) rest
      | some (.file content) =>
        if rest.isEmpty then .ok (.file (here ++ [name]) content) else .error .notDirectory
      | none => if rest.isEmpty then .ok (.vacant (here ++ [name])) else .error .absent

def placeOf (path : Text) : Place :=
  (Path.steps path).filterMap fun
    | .down name => some name
    | _ => none

def origin (t : FileTree) (path : Text) : Place :=
  if Path.isAbsolute path then [] else placeOf t.workingDirectory

def resolve (t : FileTree) (path : Text) : Except Obstacle Spot :=
  let visible := Text.untilZero path
  if visible.isEmpty then .error .absent
  else if Path.lengthLimit < visible.length then .error .tooLong
  else t.walk (t.origin visible) (Path.steps visible)

def contains (t : FileTree) (path : Text) : Bool :=
  match t.resolve path with
  | .ok (.directory _) => true
  | .ok (.file _ _) => true
  | _ => false

def file? (t : FileTree) (path : Text) : Option Text :=
  match t.resolve path with
  | .ok (.file _ content) => some content
  | _ => none

/-- The content of what is at a path. A directory can be opened, but there is nothing to read. -/
def read? (t : FileTree) (path : Text) : Option Text :=
  match t.resolve path with
  | .ok (.file _ content) => some content
  | .ok (.directory _) => some []
  | _ => none

/-- The place of a file that can be written at a path, whether it is there already or not. -/
def writable? (t : FileTree) (path : Text) : Option Place :=
  match t.resolve path with
  | .ok (.file place _) => some place
  | .ok (.vacant place) => some place
  | _ => none

end Bindery.FileTree
