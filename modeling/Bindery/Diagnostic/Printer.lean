import Bindery.Diagnostic.Basic
import Bindery.Json.Printer

/-!
How errors and omissions are shown: as text for people, in colour where the terminal has it, or as
one line of JSON for other programs.
-/

set_option autoImplicit false

namespace Bindery

inductive Style where
  | plain
  | bold
  | red
  | green
  | cyan
  | brightRed
  deriving DecidableEq, Repr

def Style.code : Style → Text
  | plain => "\x1b[0m"
  | bold => "\x1b[1m"
  | red => "\x1b[31m"
  | green => "\x1b[32m"
  | cyan => "\x1b[36m"
  | brightRed => "\x1b[91m"

def Style.on (coloured : Bool) (s : Style) : Text := if coloured then s.code else []

namespace Diagnostic

inductive Format where
  | text
  | json
  deriving DecidableEq, Repr

namespace Format

def name : Format → Text
  | text => "text"
  | json => "json"

def ofName? (t : Text) : Option Format := [text, json].find? fun f => f.name == t

end Format

/-- Names the type by its number, where the error is about one. -/
def noteLine (coloured : Bool) (d : Diagnostic) : Text :=
  if d.typeId = 0 then []
  else
    "  " ++ Style.cyan.on coloured ++ "= note" ++ Style.plain.on coloured ++ ": " ++
      d.kind.name ++ " in type #" ++ decimal d.typeId ++ "\n"

def errorText (coloured : Bool) (d : Diagnostic) : Text :=
  Style.bold.on coloured ++ Style.brightRed.on coloured ++ "error[" ++ d.kind.code ++ "]" ++
    Style.plain.on coloured ++ Style.bold.on coloured ++ ": " ++ d.placed ++
    Style.plain.on coloured ++ "\n" ++ noteLine coloured d

end Diagnostic

namespace Omission

def place (o : Omission) : Text :=
  if o.method.isEmpty then o.typeName else o.typeName ++ "::" ++ o.method

def noteText (coloured : Bool) (o : Omission) : Text :=
  Style.bold.on coloured ++ Style.cyan.on coloured ++ "note" ++ Style.plain.on coloured ++ ": " ++
    o.place ++ " omitted (" ++ o.reason ++ ")\n"

def json (o : Omission) : Json :=
  .ofMembers
    [("severity", .string "note"),
      ("type_id", .number (.int (Int64.ofNat o.typeId))),
      ("type", .string o.typeName),
      ("method", .string o.method),
      ("message", .string o.reason)]

end Omission

namespace Diagnostic

def json (d : Diagnostic) : Json :=
  .ofMembers
    [("severity", .string "error"),
      ("code", .string d.kind.code),
      ("kind", .string d.kind.name),
      ("type_id", .number (.int (Int64.ofNat d.typeId))),
      ("type", .string d.typeName),
      ("method", .string d.method),
      ("message", .string d.message)]

/-- One array of all errors and then all omissions. -/
def jsonList (errors : List Diagnostic) (omissions : List Omission) : Json :=
  .array (errors.map json ++ omissions.map Omission.json)

structure Printer where
  format : Format
  coloured : Bool := false
  errorCount : Nat := 0
  deriving DecidableEq, Repr

namespace Printer

def listing (p : Printer) (errors : List Diagnostic) (omissions : List Omission) : Text :=
  match p.format with
  | .json => (jsonList errors omissions).compact.closed
  | .text =>
    errors.flatMap (errorText p.coloured) ++ omissions.flatMap (Omission.noteText p.coloured)

def print (p : Printer) (errors : List Diagnostic) (omissions : List Omission) : Text × Printer :=
  (p.listing errors omissions, { p with errorCount := p.errorCount + errors.length })

def counted (n : Nat) (one many : Text) : Text := decimal n ++ " " ++ if n = 1 then one else many

def failureText (coloured : Bool) (errors : Nat) : Text :=
  Style.bold.on coloured ++ Style.red.on coloured ++ "error" ++ Style.plain.on coloured ++
    Style.bold.on coloured ++ ": generation failed with " ++ counted errors "error" "errors" ++
    Style.plain.on coloured ++ "\n"

def successText (coloured : Bool) (files symbols : Nat) : Text :=
  Style.bold.on coloured ++ Style.green.on coloured ++ "finished" ++ Style.plain.on coloured ++
    ": " ++ counted files "file" "files" ++ ", " ++ counted symbols "symbol" "symbols" ++ "\n"

/-- The last line of a run; other programs get none. -/
def summary (p : Printer) (errors files symbols : Nat) : Text :=
  match p.format with
  | .json => []
  | .text =>
    if errors = 0 then successText p.coloured files symbols else failureText p.coloured errors

end Printer

end Diagnostic

end Bindery
