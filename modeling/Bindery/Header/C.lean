import Bindery.Header.Basic
import Bindery.Transfer

/-!
Declarations of the C headers, the identifiers they declare, and their text.
-/

set_option autoImplicit false

namespace Bindery

structure CMember where
  docs : Text
  cType : Text
  name : Text
  deriving DecidableEq, Repr

structure CConstant where
  docs : Text
  name : Text
  value : Int64
  deriving DecidableEq, Repr

inductive CDecl where
  /-- A type known by name only. -/
  | object (docs name : Text)
  | record (docs name : Text) (members : List CMember)
  /-- A value with a flag that tells whether it is there. -/
  | option (name value : Text)
  | enumeration (docs name : Text) (constants : List CConstant)
  | synonym (docs target name : Text)
  | result (r : ResultRecord)
  | function (docs : Text) (contract : List Text) (signature : Signature)
  | destructor (type symbol : Text)
  /-- Support code that declares the given names. -/
  | support (names : List Text) (lines : List Text)
  deriving DecidableEq, Repr

namespace CDecl

/-- The identifiers a declaration puts into the one name space of C. -/
def names : CDecl → List Text
  | object _ name => [name]
  | record _ name _ => [name]
  | option name _ => [name]
  | enumeration _ name constants => name :: constants.map CConstant.name
  | synonym _ _ name => [name]
  | result r => [r.name]
  | function _ _ signature => [signature.symbol]
  | destructor _ symbol => [symbol]
  | support names _ => names

def margin : Text := "    "

def memberText (m : CMember) : Text :=
  docComment margin m.docs [] ++ margin ++ m.cType ++ " " ++ Identifier.escape m.name ++ ";\n"

def constantText (c : CConstant) : Text :=
  docComment margin c.docs [] ++ margin ++ c.name ++ " = " ++ decimalInt c.value.toInt ++ ",\n"

def typedef (keyword name body : Text) : Text :=
  "typedef " ++ keyword ++ " " ++ name ++ " \x7b\n" ++ body ++ "\x7d " ++ name ++ ";\n\n"

def payloadText (name : Text) (cType : Option Text) : Text :=
  match cType with
  | none => []
  | some t => "        " ++ t ++ " " ++ name ++ ";\n"

def resultBody (r : ResultRecord) : Text :=
  (if r.ok.isSome || r.err.isSome then
    "    union \x7b\n" ++ payloadText "ok" r.ok ++ payloadText "err" r.err ++ "    \x7d;\n"
  else []) ++ "    bool is_ok;\n"

def text : CDecl → Text
  | object docs name => docComment [] docs [] ++ "typedef struct " ++ name ++ " " ++ name ++ ";\n\n"
  | record docs name members =>
    docComment [] docs [] ++ typedef "struct" name (members.flatMap memberText)
  | option name value =>
    typedef "struct" name ("    " ++ value ++ " value;\n    bool is_some;\n")
  | enumeration docs name constants =>
    docComment [] docs [] ++ typedef "enum" name (constants.flatMap constantText)
  | synonym docs target name =>
    docComment [] docs [] ++ "typedef " ++ target ++ " " ++ name ++ ";\n\n"
  | result r => typedef "struct" r.name (resultBody r)
  | function docs contract signature =>
    docComment [] docs contract ++ signature.prototype ++ ";\n\n"
  | destructor type symbol =>
    "/// Releases a `" ++ type ++ "` owned by the caller.\nvoid " ++ symbol ++ "(" ++ type ++
      "* self);\n\n"
  | support _ lines => lines.flatMap Text.closed ++ "\n"

end CDecl

abbrev CHeader := Header CDecl

def CHeader.text (h : CHeader) : Text := Header.render CDecl.text h

namespace CHeader

def names (h : CHeader) : List Text := h.decls.flatMap CDecl.names

end CHeader

end Bindery
