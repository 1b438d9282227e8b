import Bindery.Header.CppRuntime

/-!
The headers of one type: its C declaration, its C functions, its C++ declaration and the C++
definitions.
-/

set_option autoImplicit false

namespace Bindery

namespace UnitFile

def declaration (type : Text) : Text := type ++ ".d.h"

def functions (type : Text) : Text := type ++ ".h"

def hostDeclaration (type : Text) : Text := type ++ ".d.hpp"

def hostDefinitions (type : Text) : Text := type ++ ".hpp"

end UnitFile

namespace TypePlan

def constantName (type variant : Text) : Text := type ++ "_" ++ variant

def typeDecls (p : TypePlan) : List CDecl :=
  let t := p.type
  match t.shape with
  | .object _ => [.object t.docs t.name]
  | .record _ _ =>
    [.record t.docs t.name
        (p.fields.map fun f => ⟨f.field.docs, f.mapped.native.cType, f.field.name⟩),
      .option (optionName t.name) t.name]
  | .enumeration variants =>
    [.enumeration t.docs t.name
        (variants.map fun v => ⟨v.docs, constantName t.name v.name, v.value⟩),
      .option (optionName t.name) t.name]
  | .synonym primitive => [.synonym t.docs primitive.cName t.name]

/-- A declaration header includes those of the types its fields refer to. -/
def declarationHeader (p : TypePlan) (names : Names) : CHeader where
  file := UnitFile.declaration p.type.name
  includes :=
    [.file CRuntime.file ::
      p.fieldDeps.map fun id => .file (UnitFile.declaration (names.name id))]
  scope := .linkage
  decls := p.typeDecls

def functionDecls (p : TypePlan) : List CDecl :=
  p.methods.filterMap (fun m => m.signature.outcome.map fun o => .result o.record) ++
    p.methods.map (fun m => .function m.method.docs m.transfers.describe m.signature) ++
    p.destructor.toList.map (.destructor p.type.name)

def functionHeader (p : TypePlan) (names : Names) : CHeader where
  file := UnitFile.functions p.type.name
  includes :=
    [[.file (UnitFile.declaration p.type.name), .file CRuntime.file] ++
      p.deps.map fun id => .file (UnitFile.declaration (names.name id))]
  scope := .linkage
  decls := p.functionDecls

def declaredNames (p : TypePlan) : List Text := (p.typeDecls ++ p.functionDecls).flatMap CDecl.names

/-- The functions a type exports: its methods in order, then its destructor. -/
def symbols (p : TypePlan) : List Text :=
  p.methods.map (fun m => m.signature.symbol) ++ p.destructor.toList

/-- Types that are referred to and not defined by an include are announced. -/
def forwardTypes (p : TypePlan) (names : Names) : List (Kind × Text) :=
  (p.deps.filter fun id => !p.definitionDeps.contains id).filterMap fun id =>
    match names.kind id with
    | some .synonym => none
    | some kind => some (kind, names.name id)
    | none => none

def hostFields (p : TypePlan) (names : Names) : List HostField :=
  p.fields.map fun f =>
    ⟨f.field.docs, f.mapped.host, hostIdentifier names p.type.name f.field.name⟩

def hostMethods (p : TypePlan) (names : Names) : List HostMethodDecl :=
  p.methods.map (MethodPlan.declaration names p.type)

def hostTypeDecl (p : TypePlan) (names : Names) : CppDecl :=
  let t := p.type
  match t.shape with
  | .object _ => .handleClass t.docs t.name (p.hostMethods names)
  | .record _ _ => .record t.docs t.name (p.hostFields names) (p.hostMethods names)
  | .enumeration variants =>
    .enumeration t.docs t.name
      (variants.map fun v => ⟨v.docs, Identifier.escape v.name, v.value⟩)
  | .synonym primitive => .synonym t.docs t.name primitive.hostName

def hostDeclarationHeader (p : TypePlan) (names : Names) (ns : Text) : CppHeader where
  file := UnitFile.hostDeclaration p.type.name
  includes :=
    [[.file CppRuntime.file, .file (UnitFile.declaration p.type.name)] ++
      p.definitionDeps.map fun id => .file (UnitFile.hostDeclaration (names.name id))]
  scope := .named ns
  decls := [.forwards (p.forwardTypes names), p.hostTypeDecl names]

def loweredFields (p : TypePlan) (names : Names) : List Text :=
  p.fields.map fun f =>
    (Conversion.lower names f.field.type .field
      ("this->" ++ hostIdentifier names p.type.name f.field.name) []).value

def liftedFields (p : TypePlan) (names : Names) : List Text :=
  p.fields.map fun f =>
    Conversion.lift names f.field.type f.mapped.host .field
      ("c_struct." ++ Identifier.escape f.field.name)

def conversionDecls (p : TypePlan) (names : Names) : List CppDecl :=
  match p.type.shape with
  | .object _ => [.handleConversions p.type.name p.destructor]
  | .record _ _ =>
    [.recordConversions p.type.name (p.loweredFields names) (p.liftedFields names)]
  | _ => []

def hostDefinitionHeader (p : TypePlan) (names : Names) (ns : Text) : CppHeader where
  file := UnitFile.hostDefinitions p.type.name
  includes :=
    [[.file (UnitFile.hostDeclaration p.type.name), .file (UnitFile.functions p.type.name)] ++
      p.deps.map (fun id => .file (UnitFile.hostDeclaration (names.name id))) ++
      p.deps.map fun id => .file (UnitFile.hostDefinitions (names.name id))]
  scope := .named ns
  decls := p.methods.map (MethodPlan.definition names p.type) ++ p.conversionDecls names

end TypePlan

end Bindery
