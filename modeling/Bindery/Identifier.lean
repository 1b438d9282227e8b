import Bindery.Text

/-!
Identifiers of the generated languages: their grammar, the words reserved in C or C++, and the
escape that keeps a reserved word usable as a member name.
-/

set_option autoImplicit false

namespace Bindery.Identifier

def isStart (c : UInt8) : Bool := Byte.isAlpha c || c == Byte.underscore

def isPart (c : UInt8) : Bool := isStart c || Byte.isDigit c

def isValid : Text → Bool
  | [] => false
  | c :: t => isStart c && t.all isPart

def reservedWords : List Text :=
  (["alignas", "alignof", "and", "and_eq", "asm", "auto", "bitand", "bitor", "bool", "break",
    "case", "catch", "char", "char8_t", "char16_t", "char32_t", "class", "co_await", "co_return",
    "co_yield", "compl", "concept", "const", "consteval", "constexpr", "constinit", "const_cast",
    "continue", "decltype", "default", "delete", "do", "double", "dynamic_cast", "else", "enum",
    "explicit", "export", "extern", "false", "float", "for", "friend", "goto", "if", "inline",
    "int", "long", "mutable", "namespace", "new", "noexcept", "not", "not_eq", "nullptr",
    "operator", "or", "or_eq", "private", "protected", "public", "register", "reinterpret_cast",
    "requires", "restrict", "return", "short", "signed", "sizeof", "static", "static_assert",
    "static_cast", "struct", "switch", "template", "this", "thread_local", "throw", "true", "try",
    "typedef", "typeid", "typename", "union", "unsigned", "using", "virtual", "void", "volatile",
    "wchar_t", "while", "xor", "xor_eq"] : List String).map ascii

def isReserved (name : Text) : Bool := reservedWords.contains name

/-- A reserved word gets an underscore behind it, every other name stays. -/
def escape (name : Text) : Text := if isReserved name then name ++ "_" else name

end Bindery.Identifier
