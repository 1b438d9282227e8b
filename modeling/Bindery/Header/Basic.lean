import Bindery.Text

/-!
Generated headers as data: a file name, what it includes, the scope its declarations stand in, and
the declarations. The text is made last, between an include guard taken from the file name.
-/

set_option autoImplicit false

namespace Bindery

def version : Text := "0.1.0"

def banner : Text := "// Generated by weld " ++ version ++ ". Do not edit.\n"

/-- Letters in upper case, digits as they are, everything else an underscore. -/
def guardByte (c : UInt8) : UInt8 :=
  if Byte.isAlphanumeric c then Byte.toUpper c else Byte.underscore

def guardName (file : Text) : Text := ("WELD_" ++ file).map guardByte

def openGuard (file : Text) : Text :=
  "#ifndef " ++ guardName file ++ "\n#define " ++ guardName file ++ "\n\n"

def closeGuard (file : Text) : Text := "#endif // " ++ guardName file ++ "\n"

def openLinkage : Text := "#ifdef __cplusplus\nextern \"C\" \x7b\n#endif\n\n"

def closeLinkage : Text := "#ifdef __cplusplus\n\x7d // extern \"C\"\n#endif\n\n"

inductive Include where
  | file (name : Text)
  | system (name : Text)
  deriving DecidableEq, Repr

def Include.text : Include → Text
  | file name => "#include \"" ++ name ++ "\"\n"
  | system name => "#include <" ++ name ++ ">\n"

inductive Scope where
  | linkage
  | named (ns : Text)
  deriving DecidableEq, Repr

def Scope.opening : Scope → Text
  | linkage => openLinkage
  | named ns => "namespace " ++ ns ++ " \x7b\n\n"

def Scope.closing : Scope → Text
  | linkage => closeLinkage
  | named ns => "\x7d // namespace " ++ ns ++ "\n\n"

/-- A header whose declarations are of type `δ`. Includes come in groups, each followed by an empty
line. -/
structure Header (δ : Type) where
  file : Text
  includes : List (List Include)
  scope : Scope
  decls : List δ

namespace Header

variable {δ : Type}

def includeText (groups : List (List Include)) : Text :=
  groups.flatMap fun group => group.flatMap Include.text ++ "\n"

def files (h : Header δ) : List Text :=
  h.includes.flatten.filterMap fun i =>
    match i with
    | .file name => some name
    | .system _ => none

def render (declText : δ → Text) (h : Header δ) : Text :=
  banner ++ openGuard h.file ++ includeText h.includes ++ h.scope.opening ++
    h.decls.flatMap declText ++ h.scope.closing ++ closeGuard h.file

end Header

/-- The lines of a text; a line break at the end closes the last line and starts none. -/
def Text.lines (t : Text) : List Text :=
  let pieces := Text.splitOn Byte.newline t
  if pieces.getLast? = some [] then pieces.dropLast else pieces

def commentLine (indent line : Text) : Text :=
  indent ++ "///" ++ (if line.isEmpty then [] else Byte.space :: line) ++ "\n"

def noteLine (indent line : Text) : Text := indent ++ "/// " ++ line ++ "\n"

def blankComment (indent : Text) : Text := indent ++ "///\n"

/-- The documentation of an item, then further lines, with an empty comment line between the two
where both are there. -/
def docComment (indent docs : Text) (extra : List Text) : Text :=
  (Text.lines docs).flatMap (commentLine indent) ++
    (if docs.isEmpty || extra.isEmpty then [] else blankComment indent) ++
    extra.flatMap (noteLine indent)

end Bindery
