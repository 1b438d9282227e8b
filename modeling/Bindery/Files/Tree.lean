import Bindery.Files.Path
import Bindery.Sorted

/-!
A file system as a tree of named nodes with a working directory in it. A place is the list of names
on the way from the root.
-/

set_option autoImplicit false

namespace Bindery

abbrev Place := List Text

inductive FileNode where
  | file (content : Text)
  | directory (entries : List (Text × FileNode))

namespace FileNode

def emptyDirectory : FileNode := directory []

def at? : FileNode → Place → Option FileNode
  | n, [] => some n
  | file _, _ :: _ => none
  | directory entries, name :: rest =>
    match entries.lookup name with
    | some n => n.at? rest
    | none => none

/-- Puts a node at a place, with directories on the way where there is nothing. Below a file there
is no place to put it. -/
def put : FileNode → Place → FileNode → FileNode
  | _, [], new => new
  | file content, _ :: _, _ => file content
  | directory entries, name :: rest, new =>
    directory (Sorted.update Text.before name emptyDirectory (fun n => n.put rest new) entries)

mutual

def contents (path : Text) : FileNode → List (Text × Text)
  | file content => [(path, content)]
  | directory entries => contentsOfEntries path entries

def contentsOfEntries (path : Text) : List (Text × FileNode) → List (Text × Text)
  | [] => []
  | (name, n) :: rest =>
    contents (path ++ [Byte.slash] ++ name) n ++ contentsOfEntries path rest

end

end FileNode

structure FileTree where
  root : FileNode := .emptyDirectory
  /-- An absolute path. -/
  workingDirectory : Text

namespace FileTree

def node? (t : FileTree) (place : Place) : Option FileNode := t.root.at? place

def put (t : FileTree) (place : Place) (node : FileNode) : FileTree :=
  { t with root := t.root.put place node }

def putFile (t : FileTree) (place : Place) (content : Text) : FileTree :=
  t.put place (.file content)

def contentAt (t : FileTree) (place : Place) : Text :=
  match t.node? place with
  | some (.file content) => content
  | _ => []

def pathBefore (a b : Text × Text) : Bool := Text.notAfter a.1 b.1

def files (t : FileTree) : List (Text × Text) := (t.root.contents []).mergeSort pathBefore

end FileTree

end Bindery
