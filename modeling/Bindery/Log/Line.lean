import Bindery.Log.Record

/-!
The two forms of a line of the log. Times are milliseconds since the start of the run.
-/

set_option autoImplicit false

namespace Bindery.Log

inductive Format where
  | text
  | json
  deriving DecidableEq, Repr

namespace Format

def name : Format → Text
  | text => "text"
  | json => "json"

/-- Anything but `json` is text. -/
def ofName (t : Text) : Format := if t = "json" then json else text

end Format

namespace Record

def levelColumn (coloured : Bool) (level : Level) : Text :=
  if coloured then level.colour ++ Text.padRight 5 level.name ++ "\x1b[0m"
  else Text.padRight 5 level.name

/-- `[   12ms] WARN  source: message` -/
def textLine (coloured : Bool) (elapsed : Int) (r : Record) : Text :=
  "[" ++ Text.padLeft 5 (decimalInt elapsed) ++ "ms] " ++ levelColumn coloured r.level ++ " " ++
    r.source ++ ": " ++ r.message ++ "\n"

/-- Quotes, backslashes and the three usual blanks are escaped, other bytes stand as they are. -/
def escapeByte (c : UInt8) : Text :=
  if c = Byte.quote then "\\\""
  else if c = Byte.backslash then "\\\\"
  else if c = Byte.newline then "\\n"
  else if c = Byte.carriageReturn then "\\r"
  else if c = Byte.tab then "\\t"
  else [c]

/-- An object on one line; only the message is escaped. -/
def jsonLine (elapsed : Int) (r : Record) : Text :=
  "\x7b\"elapsed_ms\":" ++ decimalInt elapsed ++ ",\"level\":\"" ++ r.level.name ++
    "\",\"module\":\"" ++ r.source ++ "\",\"msg\":\"" ++ r.message.flatMap escapeByte ++ "\"\x7d\n"

def line (format : Format) (coloured : Bool) (elapsed : Int) (r : Record) : Text :=
  match format with
  | .text => r.textLine coloured elapsed
  | .json => r.jsonLine elapsed

end Record

end Bindery.Log
