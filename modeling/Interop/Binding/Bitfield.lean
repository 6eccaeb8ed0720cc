import Interop.Binding.Constant

/-!
# Bit fields

C# has no bit fields. Neighbouring bit fields share a storage field, and each one becomes a property
that reads and writes its bits there.
-/

namespace Interop.Binding

open Native (DeclId TypeId)
open Emit
open Managed (Member IntegerType TypeName)

/-! ## Placement -/

/-- A bit field: its storage type, the bits of that type, and how many of them it takes. -/
structure BitField where
  field : DeclId
  storage : String
  bits : Nat
  width : Nat

/-- What a member of a record means for the bit fields around it. -/
inductive BitItem where
  | bitField (f : BitField)
  /-- Ends the storage field: no further bit field is added to it. -/
  | boundary
  /-- Has no bearing. -/
  | neutral

/-- The bits of a bit field in its storage field. -/
structure BitSlot where
  field : DeclId
  offset : Nat
  width : Nat

/-- Bit fields that share a storage field, lowest bits first. -/
structure BitUnit where
  first : DeclId
  storage : String
  bits : Nat
  used : Nat
  slots : List BitSlot

namespace BitUnit

def start (f : BitField) : BitUnit where
  first := f.field
  storage := f.storage
  bits := f.bits
  used := f.width
  slots := [⟨f.field, 0, f.width⟩]

def fits (u : BitUnit) (f : BitField) : Bool :=
  u.bits = f.bits && u.used + f.width ≤ u.bits

def add (u : BitUnit) (f : BitField) : BitUnit where
  first := u.first
  storage := u.storage
  bits := u.bits
  used := u.used + f.width
  slots := u.slots ++ [⟨f.field, u.used, f.width⟩]

end BitUnit

/-- The storage fields of consecutive members, given the one that is being filled. If `isUnion`, no
two bit fields share one. -/
def placeBits (isUnion : Bool) : Option BitUnit → List BitItem → List BitUnit
  | current, [] => current.toList
  | current, .neutral :: rest => placeBits isUnion current rest
  | current, .boundary :: rest => current.toList ++ placeBits isUnion none rest
  | none, .bitField f :: rest => placeBits isUnion (some (.start f)) rest
  | some u, .bitField f :: rest =>
    if !isUnion && u.fits f then placeBits isUnion (some (u.add f)) rest
    else u :: placeBits isUnion (some (.start f)) rest

/-- The integer type that stores a bit field: that of an enumeration, and a byte for a truth
value. -/
def bitStorage (type : TypeId) (location : Location) : Emit String := do
  let ast ← ast
  let stored ←
    match ← canonicalKind type with
    | .enum id =>
      match (← ast.decl? id).kind with
      | .enum e => pure e.integerType
      | _ => pure type
    | _ => pure type
  let mapped ← mapType stored .field location
  if mapped.name = "bool" then return "byte"
  else if mapped.name = "char" then
    unsupported "bitfield" location "character bitfields are not supported"
  else if (IntegerType.ofName? mapped.name).isSome then return mapped.name
  else
    unsupported "bitfield" location ("bitfield of type `" ++ mapped.name ++ "` is not supported")

def storageBits (storage : String) : Nat :=
  ((IntegerType.ofName? storage).map IntegerType.bits).getD 8

/-- Reports a layout that the native compiler may have chosen differently. -/
def reportLayout (message : String) (location : Location) : Emit Unit :=
  report (.ambiguousLayout message location)

/-- What a member of a record means for the bit fields around it. A bit field of no width only ends
the storage field. -/
def bitItemOf (isUnion : Bool) (id : DeclId) : Emit BitItem := do
  let d ← decl id
  match d.kind with
  | .field { bitWidth := some width, type, .. } =>
    if width = 0 then return .boundary
    else
      let storage ← bitStorage type d.location
      let bits := storageBits storage
      if bits < width.toNat then
        reportLayout ("bitfield `" ++ d.name ++ "` is wider than its type") d.location
      if isUnion then
        reportLayout ("bitfield `" ++ d.name ++ "` is a union member") d.location
      return .bitField ⟨id, storage, bits, min width.toNat bits⟩
  | .field _ | .record _ => return .boundary
  | _ => return .neutral

def bitUnitsOf (isUnion : Bool) (members : List DeclId) : Emit (List BitUnit) := do
  return placeBits isUnion none (← forEach (bitItemOf isUnion) members)

/-! ## Access -/

/-- A bit field and its C# property. -/
structure BitAccess where
  place : String
  storage : String
  bits : Nat
  offset : Nat
  width : Nat
  type : TypeName

namespace BitAccess

def isPromoted (a : BitAccess) : Bool :=
  a.bits < 32

def arithmetic (a : BitAccess) : String :=
  if a.isPromoted then "int" else a.storage

def isSigned (a : BitAccess) : Bool :=
  ((IntegerType.ofName? a.storage).map (·.signed)).getD false

def literalSuffix (a : BitAccess) : String :=
  if a.storage = "uint" then "u"
  else if a.storage = "ulong" then "UL"
  else if a.storage = "long" then "L"
  else ""

def count (n : Nat) : Managed.Expr :=
  .literal n.repr

def field (a : BitAccess) : Managed.Expr :=
  .ident a.place

/-- As many ones as the bit field is wide. All ones of a signed type have no hexadecimal form. -/
def mask (a : BitAccess) : Managed.Expr :=
  if a.isSigned && !a.isPromoted && a.bits ≤ a.width then
    .paren (.unary .minus (.literal ("1" ++ a.literalSuffix)))
  else .literal ("0x" ++ Text.hex true 1 (Nat.pow 2 (min a.width 64) - 1) ++ a.literalSuffix)

/-- The bits of the field, moved down. Those of a signed type are moved up first, so that the sign
is kept. -/
def raw (a : BitAccess) : Managed.Expr :=
  if a.isSigned then
    let bits := if a.isPromoted then 32 else a.bits
    let left := bits - a.offset - a.width
    let right := bits - a.width
    let raised := if 0 < left then .paren (.binary .shl a.field (count left)) else a.field
    if 0 < right then .binary .shr raised (count right) else raised
  else if a.offset = 0 then .binary .and a.field a.mask
  else .binary .and (.paren (.binary .shr a.field (count a.offset))) a.mask

def getter (a : BitAccess) : Managed.Expr :=
  if a.type.text = "bool" then .binary .ne (.paren a.raw) (.literal "0")
  else if a.type.text = a.arithmetic then a.raw
  else .castTo a.type a.raw

def operand (a : BitAccess) : Managed.Expr :=
  if a.type.text = "bool" then
    .paren (.conditional (.ident "value") (.literal ("1" ++ a.literalSuffix))
      (.literal ("0" ++ a.literalSuffix)))
  else if Managed.convertsImplicitly a.type.text a.arithmetic then .ident "value"
  else .castTo (.named a.arithmetic) (.ident "value")

def kept (a : BitAccess) : Managed.Expr :=
  if a.offset = 0 then .unary .complement a.mask
  else .unary .complement (.paren (.binary .shl a.mask (count a.offset)))

def inserted (a : BitAccess) : Managed.Expr :=
  let cut : Managed.Expr := .paren (.binary .and a.operand a.mask)
  if a.offset = 0 then cut else .paren (.binary .shl cut (count a.offset))

def setter (a : BitAccess) : Managed.Expr :=
  let combined : Managed.Expr := .binary .or (.paren (.binary .and a.field a.kept)) a.inserted
  .binary .assign a.field
    (if a.isPromoted then .castTo (.named a.storage) combined else combined)

end BitAccess

def bitProperty (place : String) (u : BitUnit) (slot : BitSlot) : Emit Member := do
  let d ← decl slot.field
  match d.kind with
  | .field { bitWidth := some declared, type, .. } =>
    let mapped ← mapType type .field d.location
    let access : BitAccess :=
      { place, storage := u.storage, bits := u.bits, offset := slot.offset, width := slot.width,
        type := mapped.type }
    let obsolete ← obsoleteAttribute slot.field
    let spelled := mapped.native ++ " : " ++ declared.toNat.repr
    return .property (.nativeTypeName spelled :: obsolete.toList) mapped.type (← nameOf slot.field)
      access.getter access.setter
  | _ => malformed "bitfield" d.location "not a bitfield"

end Interop.Binding
