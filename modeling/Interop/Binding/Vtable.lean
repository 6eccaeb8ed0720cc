import Interop.Diagnostic
import Interop.Native.Ast

/-!
# Vtable layouts

The slots of a record's vtable. A record inherits the slots of its base in order; a virtual method
takes over the slot of the method it overrides, and any other virtual method is appended in
declaration order. Layouts exist only along single, non-virtual inheritance.

All layouts of a tree are computed in one pass in declaration order. Each record is laid out once,
and a record that is met again while its bases are being laid out is refused.
-/

namespace Interop.Binding

open Native

abbrev Layout := List DeclId

abbrev LayoutResult := Except Unsupported Layout

/-! ## Overriding -/

def parameterSpellings? (ast : Ast) (id : DeclId) : Option (List String) := do
  match ← ast.declType? id with
  | none => return []
  | some type =>
    match (← ast.type? type).kind with
    | .function proto =>
      proto.params.mapM fun p => do return (← ast.type? (← ast.canonical? p)).spelling
    | _ => return []

/-- Whether one method overrides another: their names and the spellings of their parameter types
agree. -/
def overrides? (ast : Ast) (derived base : DeclId) : Option Bool := do
  if (← ast.decl? derived).name ≠ (← ast.decl? base).name then return false
  return (← parameterSpellings? ast derived) == (← parameterSpellings? ast base)

/-- The layout with one more virtual method: in the first slot whose method it overrides, or in a
new slot at the end. -/
def place? (ast : Ast) (method : DeclId) : Layout → Option Layout
  | [] => some [method]
  | slot :: rest => do
    if ← overrides? ast method slot then return method :: rest
    else return slot :: (← place? ast method rest)

def placeMembers? (ast : Ast) (layout : Layout) : List DeclId → Option LayoutResult
  | [] => some (.ok layout)
  | member :: rest => do
    let d ← ast.decl? member
    match d.kind with
    | .method m =>
      if m.isVirtual then placeMembers? ast (← place? ast member layout) rest
      else placeMembers? ast layout rest
    | .destructor true _ =>
      return .error ⟨"destructor", d.location, "virtual destructor slot layout is ABI-specific"⟩
    | _ => placeMembers? ast layout rest

def placeOn? (ast : Ast) (members : List DeclId) : LayoutResult → Option LayoutResult
  | .error u => some (.error u)
  | .ok layout => placeMembers? ast layout members

/-! ## Inheritance -/

def baseRecord? (ast : Ast) (d : Decl) (r : Record) : Option (Except Unsupported (Option DeclId)) :=
  match r.bases with
  | [] => some (.ok none)
  | [base] =>
    if base.isVirtual then
      some (.error ⟨"record", d.location, "virtual base classes are not supported"⟩)
    else do
      match ← ast.recordOf? base.type with
      | some record => return .ok (some record)
      | none =>
        let spelling := (← ast.type? base.type).spelling
        return .error ⟨"record", d.location, "base `" ++ spelling ++ "` is not a record"⟩
  | _ => some (.error ⟨"record", d.location, "multiple inheritance has no single-vtable layout"⟩)

abbrev Layouts := List (DeclId × LayoutResult)

/-- The layout of a record, and all layouts that are known afterwards. `pending` lists the records
whose bases are being laid out. -/
def layOut? (ast : Ast) (definition : DeclId → DeclId) :
    (fuel : Nat) → (pending : List DeclId) → Layouts → DeclId → Option (LayoutResult × Layouts)
  | 0, _, _, _ => none
  | fuel + 1, pending, known, id => do
    let record := definition id
    match known.lookup record with
    | some done => return (done, known)
    | none =>
      let d ← ast.decl? record
      if pending.contains record then
        return (.error ⟨"record", d.location, "record inherits from itself"⟩, known)
      match d.kind with
      | .record r =>
        let (inherited, known) ←
          match ← baseRecord? ast d r with
          | .error u => pure (.error u, known)
          | .ok none => pure (.ok [], known)
          | .ok (some base) => layOut? ast definition fuel (record :: pending) known base
        let result ← placeOn? ast r.members inherited
        return (result, (record, result) :: known)
      | _ => return (.ok [], (record, .ok []) :: known)

def isEmptyLayout : LayoutResult → Bool
  | .ok [] => true
  | _ => false

def vtables? (ast : Ast) (definition : DeclId → DeclId) : Option Layouts := do
  let definitions := ast.declsWithIds.filterMap fun (id, d) =>
    match d.kind with
    | .record r => if r.isDefinition then some id else none
    | _ => none
  let known ← definitions.foldlM (fun known id => do
    return (← layOut? ast definition (ast.decls.size + 1) [] known id).2) []
  return known.filter fun (_, result) => !isEmptyLayout result

end Interop.Binding
