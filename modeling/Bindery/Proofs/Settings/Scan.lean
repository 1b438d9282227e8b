import Bindery.Proofs.Settings.Keys

/-!
Reading settings with a state. Bytes are taken one after another; where something is wrong the
problem is noted and the reading goes on until a loop looks whether there is a note. Two things can
then go wrong that have nothing to do with the text: a loop may go round more often than there are
bytes, and what is given to the conversion of integers may be no integer, or one too large. Each
breaks the reading off.
-/

set_option autoImplicit false

namespace Bindery.Settings.Scan

inductive Halt where
  | endless
  | notAnInteger (t : Text)
  | outOfRange (t : Text)
  deriving DecidableEq, Repr

/-- A problem, and what had been taken when it was found. -/
structure Note where
  taken : Text
  /-- Of the bytes taken, those that a backslash in a string took with it. -/
  escaped : Text
  line : Nat
  issue : Issue
  deriving DecidableEq, Repr

def Note.fault (p : Note) : Fault := ⟨p.line, p.issue⟩

structure State where
  taken : Text := []
  rest : Text
  /-- Not bounded: a counter of thirty-two bits agrees for fewer than `2 ^ 31 - 1` line breaks. -/
  line : Nat := 1
  escaped : Text := []
  /-- What has been given to the conversion of integers. -/
  converted : List Text := []
  /-- In the order in which they were found. -/
  notes : List Note := []
  deriving DecidableEq, Repr

/-- The message of the first problem; empty if there is none. -/
def State.message (st : State) : Text :=
  match st.notes with
  | [] => []
  | p :: _ => p.fault.message

end Scan

open Scan in
abbrev Scan := StateT State (Except Halt)

namespace Scan

def halt {α : Type} (h : Halt) : Scan α := fun _ => .error h

def atEnd : Scan Bool := fun st => .ok (st.rest.isEmpty, st)

/-- Compares the next byte; at the end, where there is none, a zero stands for it. -/
def nextIs (byte : UInt8) : Scan Bool := fun st => .ok (st.rest.headD 0 == byte, st)

def nextIsSpace : Scan Bool := fun st => .ok (Byte.isSpace (st.rest.headD 0), st)

/-- Takes a row of bytes; the line stays. -/
def takeWhile (p : UInt8 → Bool) : Scan Text := fun st =>
  .ok (st.rest.takeWhile p,
    { st with taken := st.taken ++ st.rest.takeWhile p, rest := st.rest.dropWhile p })

def advance : Scan Unit := fun st =>
  .ok ((), { st with taken := st.taken ++ st.rest.take 1, rest := st.rest.drop 1 })

def countLines (t : Text) : Scan Unit := fun st =>
  .ok ((), { st with line := st.line + t.count Byte.newline })

def skipSpace : Scan Unit := do
  let blanks ← takeWhile Byte.isSpace
  countLines blanks

def skipComment : Scan Unit := do
  if ← nextIs Byte.hash then
    let _ ← takeWhile (· != Byte.newline)
    return ()
  else return ()

def skipLead : Scan Unit := do
  skipSpace
  skipComment
  skipSpace

def word : Scan Text := takeWhile isWordByte

def note (issue : Issue) : Scan Unit := fun st =>
  .ok ((), { st with notes := st.notes ++ [⟨st.taken, st.escaped, st.line, issue⟩] })

def failed : Scan Bool := fun st => .ok (!st.notes.isEmpty, st)

/-- A string up to its closing quote or to where it breaks off. -/
structure Row where
  value : Text
  taken : Text
  escaped : Text
  rest : Text
  deriving DecidableEq, Repr

def Row.read : Text → Row
  | [] => ⟨[], [], [], []⟩
  | b :: rest =>
    if b = Byte.quote ∨ b = Byte.newline then ⟨[], [], [], b :: rest⟩
    else if b = Byte.backslash then
      match rest with
      | [] => ⟨[], [b], [], []⟩
      | e :: rest =>
        let row := read rest
        ⟨unescape e :: row.value, b :: e :: row.taken, e :: row.escaped, row.rest⟩
    else
      let row := read rest
      ⟨b :: row.value, b :: row.taken, row.escaped, row.rest⟩

def stringRow : Scan Text := fun st =>
  let row := Row.read st.rest
  .ok (row.value, { st with
    taken := st.taken ++ row.taken, rest := row.rest, escaped := st.escaped ++ row.escaped })

def string : Scan Text := do
  if ← nextIs Byte.quote then
    advance
    let value ← stringRow
    if ← nextIs Byte.quote then
      advance
      return value
    else
      note .unterminatedString
      return []
  else
    note .expectedString
    return []

/-- Reads blanks, a sign and digits, as many as there are, into a number of 32 bits. -/
def conversion (t : Text) : Except Halt Int :=
  let signed := t.dropWhile Byte.isSpace
  let negative := signed.head? == some Byte.minus
  let plus := signed.head? == some Byte.plus
  let digits := (if negative || plus then signed.drop 1 else signed).takeWhile Byte.isDigit
  let value : Int := if negative then -(digitsValue digits : Int) else digitsValue digits
  if digits.isEmpty then .error (.notAnInteger t)
  else if value < -2147483648 ∨ 2147483647 < value then .error (.outOfRange t)
  else .ok value

def convert (t : Text) : Scan Int := fun st =>
  match conversion t with
  | .ok value => .ok (value, { st with converted := st.converted ++ [t] })
  | .error h => .error h

def minusSign : Scan Text := do
  if ← nextIs Byte.minus then
    advance
    return [Byte.minus]
  else return []

def integer : Scan (Option Int) := do
  let sign ← minusSign
  let digits ← takeWhile Byte.isDigit
  let numeral := sign ++ digits
  if numeral = [] ∨ numeral = [Byte.minus] ∨ 9 < numeral.length then
    note .expectedInteger
    return none
  else
    let value ← convert numeral
    return some value

def truth : Scan (Option Bool) := do
  let value ← word
  if value = "true" then return some true
  else if value = "false" then return some false
  else
    note .expectedTruth
    return none

def skipComma : Scan Unit := do
  skipSpace
  if ← nextIs Byte.comma then
    advance
    skipSpace
  else return ()

def closeList (found : List Text) : Scan (List Text) := do
  if ← nextIs Byte.closeBracket then
    advance
    return found
  else
    note .expectedArrayEnd
    return found

def items : (rounds : Nat) → (found : List Text) → Scan (List Text)
  | 0, _ => halt .endless
  | rounds + 1, found => do
    if ← atEnd then closeList found
    else if ← nextIs Byte.closeBracket then closeList found
    else
      skipLead
      if ← nextIs Byte.quote then
        let item ← string
        if ← failed then return found ++ [item]
        else
          skipComma
          items rounds (found ++ [item])
      else if ← nextIs Byte.closeBracket then
        skipComma
        items rounds found
      else
        note .expectedItem
        return found

/-- No loop has to go round more often than once for every byte, and once more to find the end. -/
def rounds : Scan Nat := fun st => .ok (st.rest.length + 1, st)

def list : Scan (List Text) := do
  if ← nextIs Byte.openBracket then
    advance
    skipSpace
    let n ← rounds
    items n []
  else
    note .expectedArray
    return []

def value : (kind : Kind) → Scan (Option kind.Value)
  | .text => do
    let v ← string
    return some v
  | .list => do
    let v ← list
    return some v
  | .integer => integer
  | .truth => truth

def key : Scan (Option Text) := do
  skipLead
  if ← atEnd then return none
  else if ← nextIs Byte.openBracket then return none
  else
    let name ← word
    if name.isEmpty then
      note .expectedKey
      return none
    else
      skipSpace
      if ← nextIs Byte.equals then
        advance
        let _ ← takeWhile fun b => b == Byte.space || b == Byte.tab
        return some name
      else
        note .expectedEquals
        return none

/-- Stores what has been read, also where a problem was noted. -/
def entry (inSection : Section) (s : Settings) (name : Text) : Scan Settings :=
  match Setting.find? inSection name with
  | some k => do
    match ← value k.kind with
    | some v => return k.put s v
    | none => return s
  | none => do
    note (.unknownKey name inSection)
    return s

/-- The settings, unless a problem has been noted. -/
def verdict (s : Settings) : Scan (Option Settings) := do
  if ← failed then return none else return some s

def entries (inSection : Section) : (rounds : Nat) → Settings → Scan (Option Settings)
  | 0, _ => halt .endless
  | rounds + 1, s => do
    match ← key with
    | none => verdict s
    | some name =>
      let s ← entry inSection s name
      if ← failed then return none else entries inSection rounds s

def header : Scan (Option Section) := do
  advance
  let name ← word
  if ← nextIs Byte.closeBracket then
    advance
    match Section.ofName? name with
    | some inSection => return some inSection
    | none =>
      note (.unknownSection name)
      return none
  else
    note .expectedSectionEnd
    return none

def oneSection (s : Settings) : Scan (Option Settings) := do
  match ← header with
  | none => return none
  | some inSection =>
    let n ← rounds
    entries inSection n s

def sections : (rounds : Nat) → Settings → Scan (Option Settings)
  | 0, _ => halt .endless
  | n + 1, s => do
    if ← atEnd then verdict s
    else
      skipSpace
      skipComment
      if ← atEnd then verdict s
      else if ← nextIs Byte.openBracket then
        match ← oneSection s with
        | none => return none
        | some s => sections n s
      else if ← nextIsSpace then sections n s
      else
        note .expectedSection
        return none

def parse (content : Text) : Except Halt (Option Settings × State) :=
  sections (content.length + 1) {} { rest := content }

end Bindery.Settings.Scan
