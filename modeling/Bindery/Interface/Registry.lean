import Bindery.Diagnostic.Basic

/-!
A registry holds the types of one library in order of their ids. Building one checks ids and names
and reports every problem together.
-/

set_option autoImplicit false

namespace Bindery

structure Registry where
  library : Text
  types : List TypeDef
  deriving DecidableEq, Repr

namespace Registry

def find? (r : Registry) (id : TypeId) : Option TypeDef := r.types.find? fun t => t.id == id

def findNamed? (r : Registry) (name : Text) : Option TypeDef :=
  r.types.find? fun t => t.name == name

def size (r : Registry) : Nat := r.types.length

def unknownId (id : TypeId) : Text := "unknown type id " ++ decimal id

def resolve (r : Registry) (id : TypeId) : Except Diagnostic TypeDef :=
  match r.find? id with
  | some t => .ok t
  | none => .error (.general .unknownId (unknownId id))

def badName (t : TypeDef) (what : Text) (method name : Text) : List Diagnostic :=
  if Identifier.isValid name then []
  else [.ofMethod .lowering t method ("invalid " ++ what ++ " name " ++ Text.quoted name)]

def methodProblems (t : TypeDef) (m : Method) : List Diagnostic :=
  badName t "method" [] m.name ++
    m.params.flatMap fun p => badName t "parameter" m.name p.name

/-- A variant may not repeat the name of an earlier one. -/
def variantProblems (t : TypeDef) : (seen : List Text) → List Variant → List Diagnostic
  | _, [] => []
  | seen, v :: vs =>
    badName t "variant" [] v.name ++
      (if seen.contains v.name then
        [.ofType .lowering t ("duplicate enum variant " ++ Text.quoted v.name)]
      else []) ++
      variantProblems t (v.name :: seen) vs

def memberProblems (t : TypeDef) : List Diagnostic :=
  t.methods.flatMap (methodProblems t) ++
    t.fields.flatMap (fun f => badName t "field" [] f.name) ++
    variantProblems t [] t.variants

/-- Problems of the types in order. A type with a reserved or repeated id, or a repeated name, is
not looked into and takes no id or name itself. -/
def problems : (ids : List TypeId) → (names : List Text) → List TypeDef → List Diagnostic
  | _, _, [] => []
  | ids, names, t :: ts =>
    if t.id = 0 then .ofType .lowering t "type id 0 is reserved" :: problems ids names ts
    else
      (if Identifier.isValid t.name then []
      else [.ofType .lowering t ("invalid type name " ++ Text.quoted t.name)]) ++
        if ids.contains t.id then
          .ofType .lowering t ("duplicate type id " ++ decimal t.id) :: problems ids names ts
        else if names.contains t.name then
          .ofType .lowering t ("duplicate type name " ++ Text.quoted t.name) ::
            problems ids names ts
        else memberProblems t ++ problems (t.id :: ids) (t.name :: names) ts

/-- Types in order of their ids; types of one id keep their order. -/
def sortTypes (types : List TypeDef) : List TypeDef :=
  types.mergeSort fun a b => a.id ≤ b.id

def build (library : Text) (types : List TypeDef) : Except (List Diagnostic) Registry :=
  let sorted := sortTypes types
  match problems [] [] sorted with
  | [] => .ok ⟨library, sorted⟩
  | found => .error found

end Registry

end Bindery
