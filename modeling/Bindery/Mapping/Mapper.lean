import Bindery.Mapping.Dialect
import Bindery.Mapping.Fault
import Bindery.Interface.Registry

/-!
Mapping a type reference in a position. A record is laid out from its fields, which are mapped in
turn; the records being laid out are remembered, so one that contains itself is found.
-/

set_option autoImplicit false

namespace Bindery

structure Mapper where
  registry : Registry
  enabled : List TypeId
  dialect : Dialect
  capabilities : Capabilities
  pointerWidth : Int

namespace Mapper

def lookup (m : Mapper) (id : TypeId) (expected : Kind) : Except MapFault TypeDef :=
  match m.registry.find? id with
  | none => .error (.unknownId id)
  | some t =>
    if !m.enabled.contains id then .error (.notEnabled t.name)
    else if t.kind = expected then .ok t
    else .error (.wrongKind t.name t.kind expected)

def fitsInt32 (i : Int64) : Bool := -2147483648 ≤ i.toInt && i.toInt ≤ 2147483647

def checkVariants (name : Text) (variants : List Variant) : Except MapFault Unit :=
  match variants.find? fun v => !fitsInt32 v.value with
  | some v => .error (.discriminant name v.name v.value)
  | none => .ok ()

def checkEnumeration (t : TypeDef) : Except MapFault Unit := checkVariants t.name t.variants

def mapUnit (m : Mapper) (position : Position) : Except MapFault Mapped :=
  if position = .result ∨ position.isPayload then
    .ok ⟨m.dialect.unit position, ⟨"void", .void, ⟨0, 1⟩⟩, []⟩
  else .error (.unitAt position)

def mapPrimitive (m : Mapper) (p : Primitive) : Mapped :=
  ⟨m.dialect.primitive p, ⟨p.cName, .scalar, .ofPrimitive p m.pointerWidth⟩, []⟩

/-- A handle is a pointer, to a constant where the object is only looked at. -/
def handleType (name : Text) (ownership : Ownership) (isMutable : Bool) : Text :=
  if ownership = .borrowed ∧ isMutable = false then "const " ++ name ++ "*" else name ++ "*"

def mapObject (m : Mapper) (id : TypeId) (ownership : Ownership) (isMutable : Bool)
    (position : Position) : Except MapFault Mapped :=
  match m.lookup id .object with
  | .error fault => .error fault
  | .ok t =>
    if position = .field ∧ ownership = .owned then .error (.ownedField t.name)
    else
      let native : Native :=
        ⟨handleType t.name ownership isMutable, .handle, .pointer m.pointerWidth⟩
      .ok ⟨m.dialect.object t.name ownership isMutable position native, native, [id]⟩

/-- A reference to a record is a pointer, but the record is laid out all the same. -/
def mapRecord (m : Mapper) (layoutOf : TypeDef → Except MapFault Layout) (id : TypeId)
    (byRef : Bool) (position : Position) : Except MapFault Mapped :=
  match m.lookup id .record with
  | .error fault => .error fault
  | .ok t =>
    if byRef = true ∧ position ≠ .param then .error (.recordRefPosition t.name)
    else
      match layoutOf t with
      | .error fault => .error fault
      | .ok layout =>
        let native : Native :=
          if byRef then ⟨"const " ++ t.name ++ "*", .recordPtr, .pointer m.pointerWidth⟩
          else ⟨t.name, .record, layout⟩
        .ok ⟨m.dialect.record t.name byRef native, native, [id]⟩

def mapEnumeration (m : Mapper) (id : TypeId) : Except MapFault Mapped :=
  match m.lookup id .enumeration with
  | .error fault => .error fault
  | .ok t =>
    match checkEnumeration t with
    | .error fault => .error fault
    | .ok () => .ok ⟨m.dialect.enumeration t.name, ⟨t.name, .enumeration, .enumeration⟩, [id]⟩

def sliceFault? (m : Mapper) (view : View) (isMutable : Bool) (position : Position) :
    Option MapFault :=
  if position = .field then some .sliceField
  else
    match view with
    | .scalars _ => none
    | .utf8 => if isMutable then some .mutableText else none
    | .utf16 =>
      if !m.capabilities.utf16Slices then some .noUtf16
      else if isMutable then some .mutableText
      else none
    | .strings =>
      if !m.capabilities.stringArrays then some .noStringArrays
      else if position ≠ .param then some .stringsPosition
      else if isMutable then some .mutableText
      else none

def mapSlice (m : Mapper) (view : View) (isMutable : Bool) (position : Position) :
    Except MapFault Mapped :=
  match m.sliceFault? view isMutable position with
  | some fault => .error fault
  | none =>
    let native : Native := ⟨view.cName isMutable, .slice, .slice m.pointerWidth⟩
    .ok ⟨m.dialect.slice view isMutable native, native, []⟩

def mapWriteable (m : Mapper) (position : Position) : Except MapFault Mapped :=
  if !m.capabilities.writeables then .error .noWriteables
  else if position = .param ∨ position = .result ∨ position = .okPayload then
    let native : Native := ⟨"WeldWriteable*", .writeable, .pointer m.pointerWidth⟩
    .ok ⟨m.dialect.writeable position native, native, []⟩
  else .error (.writeableAt position)

def nullableFieldHolds : TypeRef → Bool
  | .primitive _ => true
  | .enumeration _ => true
  | .record _ byRef => !byRef
  | .object _ ownership _ => ownership = .borrowed
  | _ => false

def nullableFault? (inner : TypeRef) (position : Position) : Option MapFault :=
  if position = .nullablePayload then some .nestedNullable
  else
    match inner with
    | .fallible _ _ => some .nullableFallible
    | .writeable => some .nullableWriteable
    | .unit => some .nullableUnit
    | _ =>
      if position = .field ∧ nullableFieldHolds inner = false then some (.nullableField inner)
      else
        match inner with
        | .record _ true => some .nullableRecordRef
        | .slice .strings _ => some .nullableStrings
        | _ => none

/-- The native form of a nullable value: handles and slices have a null of their own, other values
get a flag beside them. -/
def nullableNative (m : Mapper) (inner : TypeRef) (mapped : Mapped) : Except MapFault Native :=
  match mapped.native.kind with
  | .handle | .slice => .ok mapped.native
  | .scalar | .enumeration | .record =>
    if !m.capabilities.nullableScalars then .error .noNullableValues
    else
      let cType :=
        match inner with
        | .primitive p => p.cOption
        | _ => optionName mapped.native.cType
      .ok ⟨cType, .option, .option mapped.native.layout⟩
  | _ => .error (.nullableOther inner)

/-- The record of a fallible outcome: the union of the payloads, if there are any, and a flag. -/
def resultLayout (ok err : Native) : Layout :=
  match ([ok, err].filter Native.isPayload).map Native.layout with
  | [] => .record [.flag]
  | payloads => .record [.union payloads, .flag]

def mapWith (m : Mapper) (layoutOf : TypeDef → Except MapFault Layout) :
    TypeRef → Position → (resultName : Text) → Except MapFault Mapped
  | .unit, position, _ => m.mapUnit position
  | .primitive p, _, _ => .ok (m.mapPrimitive p)
  | .object id ownership isMutable, position, _ => m.mapObject id ownership isMutable position
  | .record id byRef, position, _ => m.mapRecord layoutOf id byRef position
  | .enumeration id, _, _ => m.mapEnumeration id
  | .slice view isMutable, position, _ => m.mapSlice view isMutable position
  | .writeable, position, _ => m.mapWriteable position
  | .nullable inner, position, _ =>
    match nullableFault? inner position with
    | some fault => .error fault
    | none =>
      match m.mapWith layoutOf inner .nullablePayload [] with
      | .error fault => .error fault
      | .ok mapped =>
        match m.nullableNative inner mapped with
        | .error fault => .error fault
        | .ok native => .ok ⟨m.dialect.nullable mapped native, native, mapped.deps⟩
  | .fallible ok err, position, resultName =>
    if position ≠ .result then
      .error (if position.isPayload then .nestedFallible else .falliblePosition)
    else if err = .writeable then .error .writeableError
    else
      match m.mapWith layoutOf ok .okPayload [] with
      | .error fault => .error fault
      | .ok okMapped =>
        match m.mapWith layoutOf err .errPayload [] with
        | .error fault => .error fault
        | .ok errMapped =>
          let native : Native :=
            ⟨resultName, .result, resultLayout okMapped.native errMapped.native⟩
          .ok ⟨m.dialect.fallible okMapped errMapped native, native,
            okMapped.deps ++ errMapped.deps⟩

/-- The layouts of fields, with the first fault placed in its field. -/
def fieldLayouts (mapField : TypeRef → Except MapFault Mapped) (owner : Text) :
    List Field → Except MapFault (List Layout)
  | [] => .ok []
  | f :: fs =>
    match mapField f.type with
    | .error fault => .error (.inField owner f.name fault)
    | .ok mapped =>
      match fieldLayouts mapField owner fs with
      | .error fault => .error fault
      | .ok layouts => .ok (mapped.native.layout :: layouts)

/-- The layout of a record inside the records `enclosing`. Records that enclose one another are
distinct, so a nesting deeper than there are types repeats one. -/
def layoutWithin (m : Mapper) :
    (depth : Nat) → (enclosing : List TypeId) → TypeDef → Except MapFault Layout
  | 0, _, t => .error (.containsItself t.name)
  | depth + 1, enclosing, t =>
    if enclosing.contains t.id then .error (.containsItself t.name)
    else
      let nested := m.layoutWithin depth (t.id :: enclosing)
      match fieldLayouts (fun ref => m.mapWith nested ref .field []) t.name t.fields with
      | .error fault => .error fault
      | .ok layouts => .ok (.record layouts)

def recordLayout (m : Mapper) (t : TypeDef) : Except MapFault Layout :=
  m.layoutWithin (m.registry.size + 1) [] t

/-- Maps a reference in a position. The name is that of the result record, should the reference be
a fallible return. -/
def map (m : Mapper) (ref : TypeRef) (position : Position) (resultName : Text) :
    Except MapFault Mapped :=
  m.mapWith m.recordLayout ref position resultName

end Mapper

end Bindery
