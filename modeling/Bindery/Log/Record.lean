import Bindery.Text

/-!
Log records: a level, the part of the program that speaks, and a message.
-/

set_option autoImplicit false

namespace Bindery.Log

/-- Severities in increasing order; `off` is above all that is ever logged. -/
inductive Level where
  | trace
  | debug
  | info
  | warn
  | error
  | off
  deriving DecidableEq, Repr

namespace Level

def all : List Level := [trace, debug, info, warn, error, off]

def rank : Level → Nat
  | trace => 0
  | debug => 1
  | info => 2
  | warn => 3
  | error => 4
  | off => 5

def reaches (level threshold : Level) : Bool := threshold.rank ≤ level.rank

def lesser (a b : Level) : Level := if a.rank < b.rank then a else b

def name : Level → Text
  | trace => "TRACE"
  | debug => "DEBUG"
  | info => "INFO"
  | warn => "WARN"
  | error => "ERROR"
  | off => "OFF"

/-- Names are read in any case. -/
def ofName? (t : Text) : Option Level := all.find? fun l => l.name == Text.upper t

def colour : Level → Text
  | trace => "\x1b[90m"
  | debug => "\x1b[36m"
  | info => "\x1b[32m"
  | warn => "\x1b[33m"
  | error => "\x1b[31m"
  | off => ""

end Level

structure Record where
  level : Level
  source : Text
  message : Text
  deriving DecidableEq, Repr

end Bindery.Log
