import Bindery.Settings.Basic
import Bindery.Settings.Cursor

/-!
Reading a settings file: sections of `key = value` lines with strings, integers, truth values and
lists of strings, and comments from `#` to the end of the line. The first problem ends the reading
and is reported with the line that was reached.
-/

set_option autoImplicit false

namespace Bindery.Settings

inductive Section where
  | generate
  | cpp
  deriving DecidableEq, Repr

namespace Section

def name : Section → Text
  | generate => "generate"
  | cpp => "cpp"

def ofName? (t : Text) : Option Section := [generate, cpp].find? fun s => s.name == t

end Section

inductive Issue where
  | expectedString
  | unterminatedString
  | expectedInteger
  | expectedTruth
  | expectedArray
  | expectedItem
  | expectedArrayEnd
  | expectedKey
  | expectedEquals
  | unknownKey (key : Text) (inSection : Section)
  | expectedSection
  | expectedSectionEnd
  | unknownSection (name : Text)
  deriving DecidableEq, Repr

def Issue.message : Issue → Text
  | expectedString => "Expected string"
  | unterminatedString => "Unterminated string"
  | expectedInteger => "Expected integer"
  | expectedTruth => "Expected true or false"
  | expectedArray => "Expected array"
  | expectedItem => "Expected string in array"
  | expectedArrayEnd => "Expected closing bracket"
  | expectedKey => "Expected key"
  | expectedEquals => "Expected '=' after key"
  | unknownKey key s => "Unknown key " ++ Text.quoted key ++ " in [" ++ s.name ++ "]"
  | expectedSection => "Expected section header"
  | expectedSectionEnd => "Expected ']' after section name"
  | unknownSection name => "Unknown section [" ++ name ++ "]"

structure Fault where
  line : Nat
  issue : Issue
  deriving DecidableEq, Repr

def Fault.message (f : Fault) : Text := "Line " ++ decimal f.line ++ ": " ++ f.issue.message

abbrev Result (α : Type) := Except Fault (α × Cursor)

def Cursor.fault (c : Cursor) (issue : Issue) : Fault := ⟨c.line, issue⟩

def isWordByte (b : UInt8) : Bool :=
  Byte.isAlphanumeric b || b == Byte.underscore || b == Byte.minus

def word (c : Cursor) : Text × Cursor :=
  (c.rest.takeWhile isWordByte, ⟨c.rest.dropWhile isWordByte, c.line⟩)

def unescape (b : UInt8) : UInt8 :=
  if b = 110 then Byte.newline else if b = 116 then Byte.tab else b

/-- The bytes up to the closing quote, and what follows it. There is no closing quote if the line
or the file ends first; a backslash takes the next byte with it, whatever it is. -/
def stringBody : Text → Option (Text × Text)
  | [] => none
  | b :: rest =>
    if b = Byte.quote then some ([], rest)
    else if b = Byte.newline then none
    else if b = Byte.backslash then
      match rest with
      | [] => none
      | e :: rest => (stringBody rest).map fun r => (unescape e :: r.1, r.2)
    else (stringBody rest).map fun r => (b :: r.1, r.2)

def stringValue (c : Cursor) : Result Text :=
  match c.rest with
  | [] => .error (c.fault .expectedString)
  | b :: rest =>
    if b = Byte.quote then
      match stringBody rest with
      | some (value, rest) => .ok (value, ⟨rest, c.line⟩)
      | none => .error (c.fault .unterminatedString)
    else .error (c.fault .expectedString)

def digits (t : Text) : Text × Text := (t.takeWhile Byte.isDigit, t.dropWhile Byte.isDigit)

/-- A number has at most nine characters, the sign included. -/
def integerValue (c : Cursor) : Result Int :=
  let negative := c.nextIs Byte.minus
  let read := digits (if negative then c.rest.drop 1 else c.rest)
  if read.1.isEmpty || 9 < read.1.length + (if negative then 1 else 0) then
    .error (c.fault .expectedInteger)
  else
    .ok (if negative then -(digitsValue read.1 : Int) else digitsValue read.1, ⟨read.2, c.line⟩)

def truthValue (c : Cursor) : Result Bool :=
  let read := word c
  if read.1 = "true" then .ok (true, read.2)
  else if read.1 = "false" then .ok (false, read.2)
  else .error (c.fault .expectedTruth)

def skipComma (c : Cursor) : Cursor := if c.nextIs Byte.comma then c.skipOne.skipSpace else c

/-- The items up to the closing bracket. Commas between them may be left out; `fuel` exceeds the
number of bytes to come. -/
def items : (fuel : Nat) → Cursor → Result (List Text)
  | 0, c => .error (c.fault .expectedArrayEnd)
  | fuel + 1, c =>
    if c.atEnd then .error (c.fault .expectedArrayEnd)
    else if c.nextIs Byte.closeBracket then .ok ([], c.skipOne)
    else
      let lead := c.skipLead
      if lead.nextIs Byte.quote then
        match stringValue lead with
        | .error fault => .error fault
        | .ok (item, after) =>
          match items fuel (skipComma after.skipSpace) with
          | .error fault => .error fault
          | .ok (rest, final) => .ok (item :: rest, final)
      else if lead.nextIs Byte.closeBracket then items fuel lead
      else .error (lead.fault .expectedItem)

def listValue (c : Cursor) : Result (List Text) :=
  if c.nextIs Byte.openBracket then items (c.rest.length + 1) c.skipOne.skipSpace
  else .error (c.fault .expectedArray)

/-- Reads `key =` and the blanks after it, or finds the end of the section. -/
def key (c : Cursor) : Result (Option Text) :=
  let lead := c.skipLead
  if lead.atEnd || lead.nextIs Byte.openBracket then .ok (none, lead)
  else
    let read := word lead
    if read.1.isEmpty then .error (lead.fault .expectedKey)
    else
      let equals := read.2.skipSpace
      if equals.nextIs Byte.equals then .ok (some read.1, equals.skipOne.skipInline)
      else .error (equals.fault .expectedEquals)

def stored {α : Type} (r : Result α) (store : α → Settings) : Result Settings :=
  match r with
  | .ok (value, c) => .ok (store value, c)
  | .error fault => .error fault

def generateEntry (s : Settings) (key : Text) (c : Cursor) : Result Settings :=
  if key = "ir" then stored (stringValue c) fun v => { s with document := v }
  else if key = "backend" then stored (stringValue c) fun v => { s with target := v }
  else if key = "out-dir" then stored (stringValue c) fun v => { s with outputDirectory := v }
  else if key = "features" then stored (listValue c) fun v => { s with features := v }
  else if key = "jobs" then stored (integerValue c) fun v => { s with jobs := v }
  else if key = "pointer-width" then stored (integerValue c) fun v => { s with pointerWidth := v }
  else if key = "manifest" then stored (truthValue c) fun v => { s with manifest := v }
  else .error (c.fault (.unknownKey key .generate))

def cppEntry (s : Settings) (key : Text) (c : Cursor) : Result Settings :=
  if key = "namespace" then stored (stringValue c) fun v => { s with hostNamespace := v }
  else .error (c.fault (.unknownKey key .cpp))

def entry (inSection : Section) (s : Settings) (key : Text) (c : Cursor) : Result Settings :=
  match inSection with
  | .generate => generateEntry s key c
  | .cpp => cppEntry s key c

/-- The entries of a section up to the next one or the end. `fuel` exceeds the number of bytes to
come. -/
def entries (inSection : Section) : (fuel : Nat) → Settings → Cursor → Result Settings
  | 0, s, c => .ok (s, c)
  | fuel + 1, s, c =>
    match key c with
    | .error fault => .error fault
    | .ok (none, c) => .ok (s, c)
    | .ok (some k, c) =>
      match entry inSection s k c with
      | .error fault => .error fault
      | .ok (s, c) => entries inSection fuel s c

def header (c : Cursor) : Result Section :=
  if c.nextIs Byte.openBracket then
    let read := word c.skipOne
    if read.2.nextIs Byte.closeBracket then
      match Section.ofName? read.1 with
      | some s => .ok (s, read.2.skipOne)
      | none => .error (c.fault (.unknownSection read.1))
    else .error (c.fault .expectedSectionEnd)
  else .error (c.fault .expectedSection)

def sections : (fuel : Nat) → Settings → Cursor → Except Fault Settings
  | 0, s, _ => .ok s
  | fuel + 1, s, c =>
    let lead := c.skipTrivia
    if lead.atEnd then .ok s
    else
      match header lead with
      | .error fault => .error fault
      | .ok (inSection, c) =>
        match entries inSection (c.rest.length + 1) s c with
        | .error fault => .error fault
        | .ok (s, c) => sections fuel s c

def parse (content : Text) : Except Fault Settings :=
  sections (content.length + 1) {} (.start content)

end Bindery.Settings
