import Bindery.Log.Record
import Bindery.Sorted

/-!
Which records are wanted: a least level for each source that has one, and a default for the others.
A filter is written as tokens between commas, `emit=trace,mapper=debug,*=warn`.
-/

set_option autoImplicit false

namespace Bindery.Log

inductive Directive where
  | source (name : Text) (level : Level)
  | default (level : Level)
  deriving DecidableEq, Repr

namespace Directive

/-- The two sides of the first equals sign. -/
def sides? (token : Text) : Option (Text × Text) :=
  match token.dropWhile (· != Byte.equals) with
  | [] => none
  | _ :: level => some (token.takeWhile (· != Byte.equals), level)

def ofSides (name : Text) (level : Level) : Directive :=
  if name = "*" then default level else source name level

/-- A bare name asks for everything; an unknown level asks for nothing. -/
def ofToken? (token : Text) : Option Directive :=
  match sides? token with
  | none => if token.isEmpty then none else some (source token .trace)
  | some (name, level) => (Level.ofName? level).map (ofSides name)

def ofText (filter : Text) : List Directive :=
  (Text.splitOn Byte.comma filter).filterMap ofToken?

end Directive

structure Filter where
  default : Level := .info
  /-- At most one level for each source. -/
  levels : List (Text × Level) := []
  deriving DecidableEq, Repr

namespace Filter

def apply (f : Filter) : Directive → Filter
  | .source name level => { f with levels := Sorted.put Text.before name level f.levels }
  | .default level => { f with default := level }

/-- Takes over a written filter. The levels of sources are forgotten first, the default is kept
unless a token sets it. -/
def parse (f : Filter) (filter : Text) : Filter :=
  (Directive.ofText filter).foldl apply { f with levels := [] }

def threshold (f : Filter) (source : Text) : Level := (f.levels.lookup source).getD f.default

def accepts (f : Filter) (level : Level) (source : Text) : Bool :=
  level.reaches (f.threshold source)

def minLevel (f : Filter) : Level := f.levels.foldl (fun least e => e.2.lesser least) f.default

end Filter

/-- A filter behind a single level that is looked at first. -/
structure Gate where
  level : Level := .info
  filter : Filter := {}
  deriving DecidableEq, Repr

namespace Gate

def ofConfig (level : Level) (filter : Text) : Gate :=
  if filter.isEmpty then ⟨level, { default := level }⟩
  else
    let f := Filter.parse { default := level } filter
    ⟨f.minLevel, f⟩

def setLevel (g : Gate) (level : Level) : Gate := ⟨level, { g.filter with default := level }⟩

def setFilter (g : Gate) (filter : Text) : Gate :=
  let f := g.filter.parse filter
  ⟨f.minLevel, f⟩

def passes (g : Gate) (level : Level) (source : Text) : Bool :=
  level.reaches g.level && g.filter.accepts level source

end Gate

end Bindery.Log
