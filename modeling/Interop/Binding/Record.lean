import Interop.Binding.Bitfield

/-!
# Emission of records

A struct, class or union becomes a struct. Its members stand in five groups: fields, synthesized
nested types, accessors, methods, and named nested types.
-/

namespace Interop.Binding

open Native (DeclId TypeId)
open Emit
open Managed (Member Attribute)

/-- The members of a struct by groups. -/
structure RecordItems where
  fields : List Member := []
  nested : List Member := []
  accessors : List Member := []
  methods : List Member := []
  named : List Member := []

namespace RecordItems

def append (a b : RecordItems) : RecordItems where
  fields := a.fields ++ b.fields
  nested := a.nested ++ b.nested
  accessors := a.accessors ++ b.accessors
  methods := a.methods ++ b.methods
  named := a.named ++ b.named

instance : Append RecordItems := ⟨append⟩

def members (items : RecordItems) : List Member :=
  items.fields ++ items.nested ++ items.accessors ++ items.methods ++ items.named

end RecordItems

def collect (f : α → Emit RecordItems) : List α → Emit RecordItems
  | [] => return {}
  | a :: rest => do
    let first ← f a
    return first ++ (← collect f rest)

/-! ## Fields -/

/-- The element type and the length of an array field. An array without a length has one element in
the layout. -/
def arrayShape (type : TypeId) (location : Location) : Emit (Option (TypeId × Nat)) := do
  let shape :=
    match ← canonicalKind type with
    | .constantArray element size => some (element, size.toNat)
    | .incompleteArray element => some (element, 1)
    | _ => none
  match shape with
  | none => return none
  | some (element, size) =>
    match ← canonicalKind element with
    | .constantArray _ _ | .incompleteArray _ =>
      unsupported "field" location "multi-dimensional array fields are not supported"
    | _ => return some (element, size)

/-- The attribute for the place of a field in a union. A field that does not start where the union
does is reported. -/
def unionOffset (d : Native.Decl) (f : Native.Field) : Emit Attribute := do
  match f.offsetBits with
  | some bits =>
    if bits = 0 then return .fieldOffset 0
    else
      reportLayout ("union member `" ++ d.name ++ "` is not at offset zero") d.location
      return .fieldOffset (bits.toNat / 8)
  | none => return .fieldOffset 0

def startOffset (isUnion : Bool) : List Attribute :=
  if isUnion then [.fieldOffset 0] else []

def fieldObsoleteAttribute (id : DeclId) (type : TypeId) : Emit (Option Attribute) := do
  match ← obsoleteAttribute id with
  | some mark => return some mark
  | none => typedefObsoleteAttribute type

/-- The name of the type of an array field. -/
def bufferName (field : String) : String :=
  "_" ++ field ++ "_e__FixedBuffer"

def inlineArray (name : String) (element : Managed.TypeName) (size : Nat) : Member :=
  .record [.inlineArray size] false name [.field [] .plain element "e0" none]

def nativeSpelling (type : TypeId) : Emit String := do
  let env ← env
  nativeSpelling? env.ast env.symbols type

/-- A field of an array type: a fixed buffer if C# allows one of such elements, otherwise a field of
a type of its own. -/
def arrayField (id : DeclId) (d : Native.Decl) (type element : TypeId) (size : Nat)
    (offset : List Attribute) : Emit RecordItems := do
  let element ← mapType element .pointee d.location
  let spelled ← nativeSpelling type
  let obsolete ← fieldObsoleteAttribute id type
  let name ← nameOf id
  let attrs := offset ++ .nativeTypeName spelled :: obsolete.toList
  if Managed.isFixedBufferElement element.name then
    markPointers
    return { fields := [.field attrs (.buffer size) element.type name none] }
  else
    importNamespace compilerServicesNamespace
    return {
      fields := [.field attrs .plain (.named (bufferName name)) name none]
      nested := [inlineArray (bufferName name) element.type size] }

/-- A field that is no bit field. -/
def emitField (id : DeclId) (d : Native.Decl) (f : Native.Field) (isUnion : Bool) :
    Emit RecordItems := do
  let offset ← if isUnion then pure [← unionOffset d f] else pure []
  match ← arrayShape f.type d.location with
  | some (element, size) => arrayField id d f.type element size offset
  | none =>
    let mapped ← mapType f.type .field d.location
    let obsolete ← fieldObsoleteAttribute id f.type
    let attrs := offset ++ mapped.nativeAttribute ++ obsolete.toList
    return { fields := [.field attrs .plain mapped.type (← nameOf id) none] }

/-- The name of a storage field for bit fields. Several ones are numbered, and those of a base are
told apart by its name. -/
def storageName (position count : Nat) (base : Option String) : String :=
  let name := if 1 < count then "_bitfield" ++ (position + 1).repr else "_bitfield"
  match base with
  | some base => "_" ++ base ++ name
  | none => name

/-- A storage field and the properties of its bit fields, where its first bit field stands; nothing
where any other bit field stands. -/
def emitBitUnit (id : DeclId) (units : List BitUnit) (isUnion : Bool) (base : Option String) :
    Emit RecordItems := do
  match units.zipIdx.find? (fun (u, _) => u.first = id) with
  | none => return {}
  | some (u, position) =>
    let place := storageName position units.length base
    let properties ← forEach (bitProperty place u) u.slots
    return {
      fields := [.field (startOffset isUnion) .plain (.named u.storage) place none]
      accessors := properties }

/-! ## Anonymous records -/

def forwardBits (id : DeclId) (d : Native.Decl) (type : TypeId) (path : Managed.Expr) :
    Emit Member := do
  let mapped ← mapType type .field d.location
  let name ← nameOf id
  let target := .member path false name
  return .property [] mapped.type name target (.binary .assign target (.ident "value"))

def forwardField (anonymous id : DeclId) (d : Native.Decl) (type : TypeId) (path : Managed.Expr) :
    Emit Member := do
  let name ← nameOf id
  let target := .member path false name
  importNamespace codeAnalysisNamespace
  match ← arrayShape type d.location with
  | some (element, size) =>
    let element ← mapType element .pointee d.location
    if Managed.isFixedBufferElement element.name then
      markPointers
      importNamespace systemNamespace
      importNamespace interopServicesNamespace
      return .accessor [.unscopedRef] false (.span element.type) name
        (.call (.namePath "MemoryMarshal" ["CreateSpan"])
          [.byRef (.subscript target (.literal "0")), .literal size.repr])
    else
      let owner ← qualifiedName anonymous
      return .accessor [.unscopedRef] true (.named (owner ++ "." ++ bufferName name)) name
        (.byRef target)
  | none =>
    let mapped ← mapType type .field d.location
    return .accessor [.unscopedRef] true mapped.type name (.byRef target)

/-- The accessors for one member of an anonymous record, where `inner` gives those of an anonymous
record inside it. -/
def forwardMember (inner : DeclId → Managed.Expr → Emit (List Member)) (anonymous : DeclId)
    (path : Managed.Expr) (id : DeclId) : Emit (List Member) := do
  let d ← decl id
  match d.kind with
  | .field { bitWidth := some _, type, .. } => return [← forwardBits id d type path]
  | .field f => return [← forwardField anonymous id d f.type path]
  | .record r =>
    match r.isAnonymous, (← symbols).anonymous? id with
    | true, some member => inner id (.member path false member.field)
    | _, _ => return []
  | _ => return []

/-- The accessors for all members of an anonymous record that `path` leads to, one level of
anonymous records per unit of fuel. -/
def forwardFrom : (fuel : Nat) → DeclId → Managed.Expr → Emit (List Member)
  | 0, _, _ => ofResult (.error .broken)
  | fuel + 1, anonymous, path => do
    let ast ← ast
    let parts ← forEach (forwardMember (forwardFrom fuel) anonymous path)
      (← ast.recordMembers? anonymous)
    return parts.flatten

def forwardingAccessors (anonymous : DeclId) (field : String) : Emit (List Member) := do
  forwardFrom ((← ast).decls.size + 1) anonymous (.ident field)

/-- An anonymous record: a field, the accessors that forward to it and, unless the record around it
is a base, its type. -/
def emitAnonymous (nested : DeclId → Emit Member) (id : DeclId) (d : Native.Decl)
    (isUnion isInherited : Bool) : Emit RecordItems := do
  match (← symbols).anonymous? id with
  | none => malformed "record" d.location "anonymous record has no enclosing field"
  | some member =>
    let type ← qualifiedName id
    let types ← if isInherited then pure [] else pure [← nested id]
    let accessors ← forwardingAccessors id member.field
    return {
      fields :=
        [.field (startOffset isUnion ++ [.nativeTypeName (provenanceName d)]) .plain (.named type)
          member.field none]
      nested := types
      accessors }

/-! ## Members -/

def nestedType (d : Native.Decl) (m : Emit Member) : Emit RecordItems := do
  match ← skippableMember m with
  | none => return {}
  | some member => if d.name = "" then return { nested := [member] } else return { named := [member] }

def emitOwnMember (nested : DeclId → Emit Member) (record id : DeclId) (d : Native.Decl) :
    Emit RecordItems := do
  match d.kind with
  | .record _ =>
    if (← symbols).isShadowed id then return {} else nestedType d (nested id)
  | .enum _ => nestedType d (emitEnum id)
  | .method m =>
    if m.isVirtual then return {}
    else return { methods := (← skippableMember (emitMethod record id)).toList }
  | .var _ => return { fields := (← skippableMember (emitGlobal id)).toList }
  | .constructor _ _ | .destructor _ _ =>
    report (.ofUnsupported
      ⟨d.kind.title, d.location, "special member functions have no struct equivalent"⟩)
    return {}
  | .other kind =>
    report (.ofUnsupported ⟨kind, d.location, "member kind has no C# form"⟩)
    return {}
  | _ => return {}

/-- One member of a record, or of a base whose fields the record takes over. -/
def emitMember (nested : DeclId → Emit Member) (record : DeclId) (isUnion isInherited : Bool)
    (units : List BitUnit) (id : DeclId) : Emit RecordItems := do
  let d ← decl id
  match d.kind with
  | .field { bitWidth := some _, .. } =>
    let base ← if isInherited then pure (some (← nameOf record)) else pure none
    emitBitUnit id units isUnion base
  | .field f => emitField id d f isUnion
  | .record { isAnonymous := true, .. } => emitAnonymous nested id d isUnion isInherited
  | _ => if isInherited then return {} else emitOwnMember nested record id d

def emitMembers (nested : DeclId → Emit Member) (record : DeclId) (isUnion isInherited : Bool) :
    Emit RecordItems := do
  let ast ← ast
  let members ← ast.recordMembers? record
  let units ← bitUnitsOf isUnion members
  collect (emitMember nested record isUnion isInherited units) members

def baseRecords (bases : List Native.Base) : Emit (List DeclId) := do
  let ast ← ast
  let records ← forEach (fun b : Native.Base => (ast.recordOf? b.type : Emit (Option DeclId))) bases
  return records.filterMap id

/-- The fields of a base class of a record with a vtable, those of its own bases first, one level
per unit of fuel. -/
def flattenFrom (nested : DeclId → Emit Member) : (fuel : Nat) → DeclId → Emit RecordItems
  | 0, _ => ofResult (.error .broken)
  | fuel + 1, base => do
    let base := (← symbols).definition base
    let inherited ←
      match (← decl base).kind with
      | .record r => do collect (flattenFrom nested fuel) (← baseRecords r.bases)
      | _ => pure {}
    return inherited ++ (← emitMembers nested base false true)

/-- What a record takes over from its bases. One with a vtable starts with the pointer to it,
followed by the fields of all its bases; any other one starts with its first base. -/
def emitBases (nested : DeclId → Emit Member) (record : DeclId) (d : Native.Decl)
    (r : Native.Record) : Emit RecordItems := do
  if (← symbols).isPolymorphic record then
    markPointers
    let pointer : RecordItems :=
      { fields := [.field [] .plain (.pointer (.pointer (.named "void"))) "lpVtbl" none] }
    let fuel := (← ast).decls.size + 1
    let inherited ← collect (flattenFrom nested fuel) (← baseRecords r.bases)
    return pointer ++ inherited ++ { methods := ← emitTrampolines record }
  else
    match r.bases with
    | [] => return {}
    | base :: _ =>
      let mapped ← mapType base.type .field d.location
      return { fields := [.field (startOffset (r.tag = .union)) .plain mapped.type "Base" none] }

/-! ## The struct -/

def layoutAttribute (isUnion : Bool) (packed : Option UInt32) : Emit (Option Attribute) := do
  if isUnion || packed.isSome then
    importNamespace interopServicesNamespace
    return some (.structLayout isUnion (packed.map UInt32.toNat))
  else return none

def basesAttribute (d : Native.Decl) (r : Native.Record) : Emit (Option Attribute) := do
  match r.bases with
  | [] => return none
  | bases =>
    let ast ← ast
    let spelled ← forEach
      (fun b : Native.Base => do return (← (ast.type? b.type : Emit Native.Ty)).spelling) bases
    return some (.nativeTypeName
      (r.tag.keyword ++ " " ++ d.name ++ " : " ++ Text.joinWith ", " spelled))

/-- A record, given the emission of those inside it. -/
def recordRule (nested : DeclId → Emit Member) (id : DeclId) : Emit Member := do
  let d ← decl id
  match d.kind with
  | .record r =>
    if !r.isDefinition then return .record [] false (← nameOf id) []
    else
      match (← symbols).vtable? id with
      | some (.error u) => ofResult (.error (.unsupported u))
      | _ =>
        let isUnion := decide (r.tag = .union)
        let (items, usesPointers) ← within id <| contained do
          let inherited ← emitBases nested id d r
          return inherited ++ (← emitMembers nested id isUnion false)
        let layout ← layoutAttribute isUnion d.attrs.packed
        let bases ← basesAttribute d r
        let obsolete ← typeObsoleteAttribute id
        return .record (layout.toList ++ bases.toList ++ obsolete.toList) usesPointers (← nameOf id)
          items.members
  | _ => malformed "record" d.location "not a record"

def recordTo : (depth : Nat) → DeclId → Emit Member
  | 0, _ => ofResult (.error .broken)
  | depth + 1, id => recordRule (recordTo depth) id

/-- The emission of the records of the tree: none is deeper than there are declarations. -/
def emitRecord (id : DeclId) : Emit Member := do
  recordTo ((← ast).decls.size + 1) id

end Interop.Binding
