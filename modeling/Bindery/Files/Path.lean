import Bindery.Text

/-!
Paths as they are written. Nothing is normalised: joining and cutting work on the text.
-/

set_option autoImplicit false

namespace Bindery.Path

def isSlash (c : UInt8) : Bool := c == Byte.slash

def isAbsolute (path : Text) : Bool := path.head? == some Byte.slash

/-- A path seen from a base. A slash goes between the two unless the base is empty or ends in one,
and an absolute path stands alone. -/
def join (base path : Text) : Text :=
  if isAbsolute path || base.isEmpty then path
  else if base.getLast? == some Byte.slash then base ++ path
  else base ++ [Byte.slash] ++ path

def trimSlashes (t : Text) : Text := (t.reverse.dropWhile isSlash).reverse

def throughLastSlash (t : Text) : Text := (t.reverse.dropWhile fun c => !isSlash c).reverse

/-- What is before the last name. The parent of a lone name is empty, and that of a name below the
root is the root; a path of slashes alone is its own parent. -/
def parent (path : Text) : Text :=
  if path.all isSlash then path
  else
    let directory := throughLastSlash path
    if directory.isEmpty then []
    else if directory.all isSlash then [Byte.slash]
    else trimSlashes directory

inductive Step where
  | stay
  | up
  | down (name : Text)
  deriving DecidableEq, Repr

/-- An empty part, where slashes meet, goes nowhere; neither does a dot. -/
def Step.ofPart (part : Text) : Step :=
  if part.isEmpty ∨ part = "." then stay
  else if part = ".." then up
  else down part

def steps (path : Text) : List Step := (Text.splitOn Byte.slash path).map Step.ofPart

def nameLimit : Nat := 255

def lengthLimit : Nat := 4095

def depthLimit : Nat := 1000

end Bindery.Path
