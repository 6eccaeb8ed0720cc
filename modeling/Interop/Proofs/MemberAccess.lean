import Interop.Proofs.StructMembers

/-!
# Access to members

An access to a field is emitted as a path: the object, a dot or an arrow, the fields `Base` up to the
record that has the field, the fields of the anonymous records around it, and the name of the field.
`HasPathType` gives C# types to such paths, and `Reaches` says that the last name stands for what the field
is emitted as. Which variable an access goes through is found behind all implicit conversions, while the
`Base` fields are counted from the record after them. The two agree for every variable that is no
reference, and for a reference to an object that is seen as one of its own record (`IsDirect`).
-/

namespace Interop.Binding

open Native (DeclId TypeId ExprId)
open Relation (ReflTransGen)
open Emit
open Managed (Member TypeName)
open Vtable (FirstBase firstBase_unique)

variable {env : Env} {scope : Scope}
variable {record x root base inner struct object : DeclId} {isPointer : Bool} {id : ExprId} {type : TypeId}
  {usage : Usage} {names : List String} {settings : Settings} {out : Managed.Expr} {written : TypeName}
  {found : Option Nat} {d : Native.Decl} {e : Native.Expr} {parts : Parts}

/-! ## Types of C# paths -/

/-- A struct, or a pointer to it over any number of levels. -/
inductive ObjectType where
  | struct (record : DeclId)
  | pointer (target : ObjectType)

namespace ObjectType

def IsWritten (env : Env) (record : Option DeclId) : ObjectType → TypeName → Prop
  | .struct id, .named name => qualifiedName? env.ast env.symbols id record = some name
  | .pointer target, .pointer inner => target.IsWritten env record inner
  | _, _ => False

def of (isPointer : Bool) (record : DeclId) : ObjectType :=
  if isPointer then .pointer (.struct record) else .struct record

end ObjectType

def HasField (env : Env) (struct : DeclId) (name : String) (type : ObjectType) : Prop :=
  ∃ members attrs written, IsLegalStruct env struct members ∧
    lookup? members name = some (.field attrs .plain written name none) ∧
    type.IsWritten env (some struct) written

inductive IsVariable (env : Env) (x : DeclId) : TypeId → Usage → Prop
  | param {d : Native.Decl} {type : TypeId} (hd : env.ast.decl? x = some d)
      (hkind : d.kind = .param type) : IsVariable env x type .parameter
  | localVar {d : Native.Decl} {v : Native.Var} (hd : env.ast.decl? x = some d)
      (hkind : d.kind = .var v) (hglobal : env.symbols.isGlobal x = false)
      (hparent : ∀ parent ∈ d.parent, ∃ p, env.ast.decl? parent = some p ∧ ∀ r, p.kind ≠ .record r) :
      IsVariable env x v.type .localVar

/-- **The types of C# expressions** over one variable. -/
inductive HasPathType (env : Env) (scope : Scope) (x : DeclId) : Managed.Expr → ObjectType → Prop
  | use {native : TypeId} {usage : Usage} {written : TypeName} {type : ObjectType}
      (hx : IsVariable env x native usage) (hnative : IsTypeIn env scope.record native usage written)
      (hwritten : type.IsWritten env scope.record written) :
      HasPathType env scope x (.ident (env.symbols.name x)) type
  | paren {e : Managed.Expr} {type : ObjectType} (he : HasPathType env scope x e type) :
      HasPathType env scope x (.paren e) type
  | cast {e : Managed.Expr} {source target : ObjectType} {written : TypeName}
      (he : HasPathType env scope x e (.pointer source))
      (hwritten : (ObjectType.pointer target).IsWritten env scope.record written) :
      HasPathType env scope x (.cast written e) (.pointer target)
  | dot {e : Managed.Expr} {struct : DeclId} {name : String} {type : ObjectType}
      (he : HasPathType env scope x e (.struct struct)) (hfield : HasField env struct name type) :
      HasPathType env scope x (.member e false name) type
  | arrow {e : Managed.Expr} {struct : DeclId} {name : String} {type : ObjectType}
      (he : HasPathType env scope x e (.pointer (.struct struct))) (hfield : HasField env struct name type) :
      HasPathType env scope x (.member e true name) type

/-- **The expression is the field** of the object that it leads to. -/
def Reaches (env : Env) (scope : Scope) (x : DeclId) (e : Managed.Expr) (field : DeclId) : Prop :=
  ∃ object isArrow struct members m, e = .member object isArrow (env.symbols.name field) ∧
    HasPathType env scope x object (.of isArrow struct) ∧ IsLegalStruct env struct members ∧
    lookup? members (env.symbols.name field) = some m ∧ IsEmittedFor env struct field m

inductive Leads (env : Env) : DeclId → List String → DeclId → Prop
  | nil {struct : DeclId} : Leads env struct [] struct
  | cons {struct next last : DeclId} {name : String} {names : List String}
      (hfield : HasField env struct name (.struct next)) (hrest : Leads env next names last) :
      Leads env struct (name :: names) last

namespace Leads

theorem append (h : Leads env first names middle) (h' : Leads env middle names' last) :
    Leads env first (names ++ names') last := by
  induction h with
  | nil => exact h'
  | cons hfield _ ih => exact .cons hfield (ih h')

theorem singleton (h : HasField env first name (.struct last)) : Leads env first [name] last :=
  .cons h .nil

end Leads

namespace HasPathType

variable {x : DeclId} {e : Managed.Expr} {type : ObjectType}
variable {struct last : DeclId} {isArrow : Bool} {names : List String}

theorem grouped (h : HasPathType env scope x e type) : HasPathType env scope x e.grouped type := by
  unfold Managed.Expr.grouped
  split
  · exact h
  · exact .paren h

theorem member {name : String} (h : HasPathType env scope x e (.of isArrow struct))
    (hfield : HasField env struct name type) : HasPathType env scope x (.member e isArrow name) type := by
  cases isArrow with
  | false => exact .dot h hfield
  | true => exact .arrow h hfield

theorem path (h : HasPathType env scope x e (.struct struct)) (hnames : Leads env struct names last) :
    HasPathType env scope x (.path e false names) (.struct last) := by
  induction hnames generalizing e with
  | nil => exact h
  | cons hfield _ ih => exact ih (.dot h hfield)

theorem path_append (h : HasPathType env scope x e (.of isArrow struct))
    (hnames : Leads env struct names last) (name : String) :
    ∃ object isArrow', Managed.Expr.path e isArrow (names ++ [name]) = .member object isArrow' name ∧
      HasPathType env scope x object (.of isArrow' last) := by
  induction hnames generalizing e isArrow with
  | nil => exact ⟨e, isArrow, rfl, h⟩
  | cons hfield _ ih => exact @ih _ false (h.member hfield)

end HasPathType

theorem reaches_of_leads {e : Managed.Expr} (h : HasPathType env scope x e (.of isArrow struct))
    (hnames : Leads env struct names last) (hlast : Provides env last record)
    (hfield : IsFieldIn env record field) :
    Reaches env scope x (.path e isArrow (names ++ [env.symbols.name field])) field := by
  obtain ⟨object, isArrow', hpath, hobject⟩ := h.path_append hnames (env.symbols.name field)
  obtain ⟨members, m, hlegal, hlookup, hemitted⟩ := hlast.field hfield
  exact ⟨object, isArrow', last, members, m, hpath, hobject, hlegal, hlookup, hemitted⟩

/-! ## Steps to a base -/

/-- The second record is the first one or one of its first bases. -/
abbrev Extends (env : Env) : DeclId → DeclId → Prop :=
  ReflTransGen (FirstBase env.ast env.symbols.definition)

def AllLegal (env : Env) (records : DeclId → Prop) : Prop :=
  ∀ record, records record → ∃ members, IsLegalStruct env record members

theorem Symbols.Describes.isPolymorphic_definition {s : Symbols} {ast : Native.Ast}
    (hs : s.Describes ast settings) (id : DeclId) :
    s.isPolymorphic (s.definition id) = s.isPolymorphic id := by
  unfold Symbols.isPolymorphic Symbols.vtable?
  rw [hs.definition_definition]

section

variable {settings : Settings} (hs : env.symbols.Describes env.ast settings)
  (htypedefs : PlainTypedefs env.ast)
include hs htypedefs

theorem hasField_base (h : IsLegalStruct env record members)
    (hpolymorphic : env.symbols.isPolymorphic record = false)
    (hbase : FirstBase env.ast env.symbols.definition record base) :
    HasField env record "Base" (.struct base) ∧ env.symbols.isPolymorphic base = false := by
  obtain ⟨own, hshape, -⟩ := h.1.shape hs htypedefs
  cases hshape with
  | polymorphic htrue => simp [hpolymorphic] at htrue
  | root _ hroot => exact absurd hbase (hroot base)
  | derived _ hplain hfield hdata =>
    obtain rfl := firstBase_unique hbase hfield.1
    obtain ⟨-, attrs, name, hname, rfl⟩ := hfield
    refine ⟨⟨members, attrs, .named name, h, ?_, hname⟩, hplain⟩
    refine lookup_eq_of_mem h.2 (List.mem_of_mem_filter (p := isDataField) ?_) rfl
    rw [hdata]
    exact .head _

omit hs htypedefs in
@[simp] theorem gives_baseSteps :
    (baseSteps record base).Gives env scope found ↔
      baseStepsFrom env.ast env.symbols (env.symbols.definition base) (env.ast.decls.size + 1)
        (env.symbols.definition record) = some found := by
  simp [baseSteps]

theorem leads_of_baseStepsFrom (h : baseStepsFrom env.ast env.symbols base fuel record = some found)
    (hbase : Extends env record base) (hpolymorphic : env.symbols.isPolymorphic record = false)
    (hstructs : AllLegal env (Extends env record)) :
    ∃ hops, found = some hops ∧ Leads env record (List.replicate hops "Base") base := by
  induction fuel generalizing record found with
  | zero => cases h
  | succ fuel ih =>
    rw [baseStepsFrom] at h
    split at h
    · rename_i heq
      subst heq
      exact ⟨0, (Option.some.inj h).symm, .nil⟩
    · rename_i hne
      -- The base is further up, so there is a first base on the way to it.
      obtain ⟨first, hfirst, hrest⟩ := (ReflTransGen.cases_head hbase).resolve_left hne
      obtain ⟨members, hlegal⟩ := hstructs record .refl
      obtain ⟨hfield, hplain⟩ := hasField_base hs htypedefs hlegal hpolymorphic hfirst
      obtain ⟨found', hfound', rfl⟩ : ∃ found',
          baseStepsFrom env.ast env.symbols base fuel first = some found' ∧ found = found'.map (· + 1) := by
        obtain ⟨d, r, b, others, id, hd, hkind, hbases, hid, rfl⟩ := hfirst
        simp only [hd, hkind, hbases, hid, bind, Option.bind_some, Option.bind_eq_some_iff, pure,
          Option.some.injEq] at h
        obtain ⟨found', hfound', rfl⟩ := h
        exact ⟨found', hfound', rfl⟩
      obtain ⟨hops, rfl, hleads⟩ := ih hfound' hrest hplain fun between hbetween =>
        hstructs between (.head hfirst hbetween)
      exact ⟨hops + 1, rfl, .cons hfield hleads⟩

end

/-! ## Anonymous records -/

inductive IsInside (env : Env) (named : DeclId) : DeclId → List String → Prop
  | self (h : env.symbols.anonymous? named = none) : IsInside env named named []
  | anonymous {id : DeclId} {member : AnonymousMember} {names : List String}
      (hid : env.symbols.anonymous? id = some member)
      (henclosing : IsInside env named member.enclosing names) :
      IsInside env named id (names ++ [member.field])

namespace IsInside

variable {id : DeclId}

theorem namedOwnerFrom_eq (h : IsInside env named id names) {owner : DeclId}
    (howner : namedOwnerFrom env.symbols fuel id = some owner) : owner = named := by
  induction h generalizing fuel with
  | self hnamed =>
    cases fuel with
    | zero => cases howner
    | succ fuel =>
      rw [namedOwnerFrom, hnamed] at howner
      exact (Option.some.inj howner).symm
  | anonymous hid _ ih =>
    cases fuel with
    | zero => cases howner
    | succ fuel =>
      rw [namedOwnerFrom, hid] at howner
      exact ih howner

theorem forwardingFrom_eq (h : IsInside env named id names) {inner : List String}
    (hinner : env.symbols.forwardingFrom fuel id = some inner) : inner.reverse = names := by
  induction h generalizing fuel inner with
  | self hnamed =>
    cases fuel with
    | zero => cases hinner
    | succ fuel =>
      rw [Symbols.forwardingFrom, hnamed] at hinner
      rw [← Option.some.inj hinner]
      rfl
  | anonymous hid _ ih =>
    cases fuel with
    | zero => cases hinner
    | succ fuel =>
      simp only [Symbols.forwardingFrom, hid, Option.map_eq_some_iff] at hinner
      obtain ⟨outer, houter, rfl⟩ := hinner
      rw [List.reverse_cons, ih houter]

end IsInside

def Within (env : Env) (outer inner : DeclId) : Prop :=
  FirstBase env.ast env.symbols.definition outer inner ∨
    ∃ member, env.symbols.anonymous? inner = some member ∧ member.enclosing = outer

theorem within_of_firstBases (h : Extends env outer inner) : ReflTransGen (Within env) outer inner :=
  h.lift id fun _ _ => .inl

theorem IsInside.leads (hs : env.symbols.Describes env.ast settings) (htypedefs : PlainTypedefs env.ast)
    {id : DeclId} (h : IsInside env named id names) (hstruct : Provides env struct named)
    (hstructs : AllLegal env (ReflTransGen (Within env) named)) :
    ReflTransGen (Within env) named id ∧ ∃ last, Leads env struct names last ∧ Provides env last id := by
  induction h with
  | self => exact ⟨.refl, struct, .nil, hstruct⟩
  | @anonymous id member names hid _ ih =>
    obtain ⟨hwithin, last, hleads, hlast⟩ := ih
    have hwithin := hwithin.tail (.inr ⟨member, hid, rfl⟩)
    obtain ⟨members, hlegal⟩ := hstructs id hwithin
    obtain ⟨members', attrs, type, hlegal', hlookup, htype⟩ := hlast.anonymous hs hid
    have hfield : HasField env last member.field (.struct id) :=
      ⟨members', attrs, .named type, hlegal', hlookup, htype⟩
    exact ⟨hwithin, id, hleads.append (.singleton hfield), provides_self hs htypedefs hlegal⟩

/-! ## Native accesses -/

inductive IsObjectType (env : Env) (type : TypeId) : Bool → DeclId → Prop
  | record {id : DeclId} (hid : env.ast.recordOf? type = some (some id)) :
      IsObjectType env type false (env.symbols.definition id)
  | pointer {target : TypeId} {id : DeclId} (hkind : env.ast.canonicalKind? type = some (.pointer target))
      (hid : env.ast.recordOf? target = some (some id)) :
      IsObjectType env type true (env.symbols.definition id)

inductive IsDeclaredAs (env : Env) (type : TypeId) : (isReference isPointer : Bool) → DeclId → Prop
  | value {isPointer : Bool} {record : DeclId} (h : IsObjectType env type isPointer record) :
      IsDeclaredAs env type false isPointer record
  | reference {kind : Native.TypeKind} {referent : TypeId} {isPointer : Bool} {record : DeclId}
      (hkind : env.ast.canonicalKind? type = some kind)
      (hreferent : kind = .lvalueReference referent ∨ kind = .rvalueReference referent)
      (h : IsObjectType env referent isPointer record) : IsDeclaredAs env type true isPointer record

/-- **Reading a variable** through parentheses and conversions, as an object of a base after one to it. -/
inductive Reads (env : Env) (x : DeclId) (isPointer : Bool) (root : DeclId) : ExprId → DeclId → Prop
  | use {id : ExprId} {e : Native.Expr} (he : env.ast.expr? id = some e) (hkind : e.kind = .declRef x)
      (htype : IsObjectType env e.type isPointer root) : Reads env x isPointer root id root
  | paren {id inner : ExprId} {e : Native.Expr} {record : DeclId} (he : env.ast.expr? id = some e)
      (hkind : e.kind = .paren inner) (htype : IsObjectType env e.type isPointer record)
      (hinner : Reads env x isPointer root inner record) : Reads env x isPointer root id record
  | convert {id operand : ExprId} {e : Native.Expr} {kind : Native.CastKind} {record : DeclId}
      (he : env.ast.expr? id = some e) (hkind : e.kind = .implicitCast kind operand)
      (hsame : kind = .lvalueToRValue ∨ kind = .noOp) (htype : IsObjectType env e.type isPointer record)
      (hoperand : Reads env x isPointer root operand record) : Reads env x isPointer root id record
  | toBase {id operand : ExprId} {e : Native.Expr} {record base : DeclId}
      (he : env.ast.expr? id = some e) (hkind : e.kind = .implicitCast .derivedToBase operand)
      (hbase : ReflTransGen (FirstBase env.ast env.symbols.definition) record base)
      (htype : IsObjectType env e.type isPointer base)
      (hoperand : Reads env x isPointer root operand record) : Reads env x isPointer root id base

section

variable (hs : env.symbols.Describes env.ast settings) (htypedefs : PlainTypedefs env.ast)
include hs htypedefs

theorem isWritten_pointer {id : DeclId} (hkind : env.ast.canonicalKind? type = some kind)
    (htarget : kind = .pointer target ∨ kind = .lvalueReference target ∨ kind = .rvalueReference target)
    (hid : env.ast.recordOf? target = some (some id)) (hwritten : IsTypeIn env outer type usage written) :
    (ObjectType.of true (env.symbols.definition id)).IsWritten env outer written := by
  obtain ⟨location, mapped, hmapped, rfl⟩ := hwritten
  obtain ⟨usesPointers, hmanaged⟩ :=
    @managedFrom_of_mapType _ _ _ env ⟨outer, none⟩ _ (gives_mapType.mpr hmapped)
  obtain ⟨name, hname, htype⟩ := PlainTypedefs.managedFrom_pointer
    (c := ⟨env.ast, env.symbols, outer, location⟩) htypedefs hkind htarget hid hmanaged
  rw [show mapped.type = .pointer (.named name) from htype]
  exact (hs.qualifiedName_definition _ outer).trans hname

theorem IsObjectType.isWritten (h : IsObjectType env type isPointer record)
    (hwritten : IsTypeIn env outer type usage written) :
    (ObjectType.of isPointer record).IsWritten env outer written := by
  cases h with
  | record hid =>
    obtain ⟨location, mapped, hmapped, rfl⟩ := hwritten
    obtain ⟨usesPointers, hmanaged⟩ :=
      @managedFrom_of_mapType _ _ _ env ⟨outer, none⟩ _ (gives_mapType.mpr hmapped)
    obtain ⟨name, hname, htype⟩ := PlainTypedefs.managedFrom_record
      (c := ⟨env.ast, env.symbols, outer, location⟩) htypedefs hid hmanaged
    rw [show mapped.type = .named name from htype]
    exact (hs.qualifiedName_definition _ outer).trans hname
  | pointer hkind hid => exact isWritten_pointer hs htypedefs hkind (.inl rfl) hid hwritten

theorem isWritten_of_reference (h : IsDeclaredAs env type true false record)
    (hwritten : IsTypeIn env outer type usage written) :
    (ObjectType.of true record).IsWritten env outer written := by
  cases h with
  | reference hkind hreferent hrecord =>
    cases hrecord with
    | record hid => exact isWritten_pointer hs htypedefs hkind (.inr hreferent) hid hwritten

end

/-! ## Emitted objects -/

theorem gives_isInRecord_of_record {owner : DeclId} (hparent : d.parent = some owner)
    (hp : env.ast.decl? owner = some p) (hrecord : p.kind = .record r) :
    (isInRecord d).Gives env scope true := by
  simp [isInRecord, hparent, isRecord, hp, hrecord]

theorem gives_isInRecord_of_other
    (hparent : ∀ parent ∈ d.parent, ∃ p, env.ast.decl? parent = some p ∧ ∀ r, p.kind ≠ .record r) :
    (isInRecord d).Gives env scope false := by
  unfold isInRecord
  split
  · rename_i parent hp
    obtain ⟨p, hdecl, hother⟩ := hparent parent hp
    simp [isRecord, hdecl]
  · simp

theorem gives_declRefRule_var (hd : env.ast.decl? x = some d) (hkind : d.kind = .var v)
    (hglobal : env.symbols.isGlobal x = false) :
    (declRefRule e x).Gives env scope out ↔ ∃ isStatic, (isInRecord d).Gives env scope isStatic ∧
      (if isStatic then memberReference x else localUse (env.symbols.name x) v.type).Gives env scope out := by
  simp only [declRefRule, gives_bind, gives_decl, exists_found hd, gives_nameOf, exists_eq_left, hkind,
    gives_symbols, hglobal, Bool.false_eq_true, if_false]

theorem IsVariable.localUse_of_declRefRule (h : IsVariable env x type usage)
    (hout : (declRefRule e x).Gives env scope out) :
    (localUse (env.symbols.name x) type).Gives env scope out := by
  cases h with
  | param hd hkind =>
    simpa only [declRefRule, gives_bind, gives_decl, exists_found hd, gives_nameOf, exists_eq_left,
      hkind] using hout
  | localVar hd hkind hglobal hparent =>
    obtain ⟨isStatic, hstatic, hout⟩ := (gives_declRefRule_var hd hkind hglobal).mp hout
    -- What is around the variable is no record.
    obtain rfl := hstatic.unique (gives_isInRecord_of_other hparent)
    simpa using hout

theorem IsObjectType.not_reference (h : IsObjectType env type isPointer record)
    (hb : (isReference type).Gives env scope b) : b = false := by
  obtain ⟨kind, hkind, rfl⟩ := gives_isReference.mp hb
  cases h with
  | record hid =>
    obtain rfl := Option.mem_unique hkind (canonicalKind_of_recordOf hid)
    rfl
  | pointer hpointer =>
    obtain rfl := Option.mem_unique hkind hpointer
    rfl

theorem Reads.isObjectType (h : Reads env x isPointer root id record) :
    ∃ e, env.ast.expr? id = some e ∧ IsObjectType env e.type isPointer record := by
  cases h with
  | use he _ htype => exact ⟨_, he, htype⟩
  | paren he _ htype => exact ⟨_, he, htype⟩
  | convert he _ _ htype => exact ⟨_, he, htype⟩
  | toBase he _ _ htype => exact ⟨_, he, htype⟩

theorem Reads.firstBases (h : Reads env x isPointer root id record) : Extends env root record := by
  induction h with
  | use => exact .refl
  | paren _ _ _ _ ih => exact ih
  | convert _ _ _ _ _ ih => exact ih
  | toBase _ _ hbase _ _ ih => exact ih.trans hbase

theorem Reads.ignoreImplicit {inner : ExprId} (h : Reads env x isPointer root id record)
    (hinner : env.ast.ignoreImplicitFrom fuel id = some inner) :
    ∃ e, env.ast.expr? inner = some e ∧ e.kind = .declRef x := by
  induction h generalizing fuel with
  | use he hkind _ =>
    cases fuel with
    | zero => cases hinner
    | succ fuel =>
      simp only [Native.Ast.ignoreImplicitFrom, he, hkind, bind, Option.bind_some,
        Option.some.injEq] at hinner
      subst hinner
      exact ⟨_, he, hkind⟩
  | paren he hkind _ _ ih | convert he hkind _ _ _ ih | toBase he hkind _ _ _ ih =>
    cases fuel with
    | zero => cases hinner
    | succ fuel =>
      simp only [Native.Ast.ignoreImplicitFrom, he, hkind, bind, Option.bind_some] at hinner
      exact ih hinner

theorem valueRule_of_partsTo (h : ((partsTo depth).value id).Gives env scope out) :
    ∃ depth, (valueRule (partsTo depth) id).Gives env scope out := by
  cases depth with
  | zero => simp [partsTo] at h
  | succ depth => exact ⟨depth, h⟩

section

variable {settings : Settings} (hs : env.symbols.Describes env.ast settings)
  (htypedefs : PlainTypedefs env.ast)
include hs htypedefs

theorem hierarchyCast_hasPathType (hsource : IsObjectType env source isPointer record)
    (htarget : IsObjectType env target isPointer base) (hbase : Extends env record base)
    (hstructs : AllLegal env (Extends env record))
    (hoperand : ∀ e, (parts.value operand).Gives env scope e → HasPathType env scope x e (.of isPointer record))
    (h : (hierarchyCast parts target source operand location).Gives env scope out) :
    HasPathType env scope x out (.of isPointer base) := by
  simp only [hierarchyCast, gives_bind, gives_isPointer] at h
  obtain ⟨e, he, isPointer', ⟨kind, hkind, rfl⟩, h⟩ := h
  have he := hoperand e he
  have hwritten := htarget
  cases htarget with
  | pointer hpointer hid =>
    obtain rfl := Option.mem_unique hkind hpointer
    simp only [Native.TypeKind.isPointer, if_true, castTo, gives_bind, gives_pure] at h
    obtain ⟨mapped, hmapped, rfl⟩ := h
    exact .cast (.paren he)
      (hwritten.isWritten hs htypedefs ⟨location, mapped, gives_mapType.mp hmapped, rfl⟩)
  | @record id hid =>
    obtain rfl := Option.mem_unique hkind (canonicalKind_of_recordOf hid)
    cases hsource with
    | @record id' hid' =>
      simp only [Native.TypeKind.isPointer, Bool.false_eq_true, if_false, gives_bind, gives_ast,
        gives_symbols, exists_eq_left, gives_lift_option, exists_found hid, exists_found hid'] at h
      split at h
      · simp at h
      · rename_i hpolymorphic
        simp only [gives_bind, gives_baseSteps] at h
        obtain ⟨found, hfound, h⟩ := h
        rw [← hs.isPolymorphic_definition, Bool.not_eq_true] at hpolymorphic
        obtain ⟨hops, rfl, hleads⟩ :=
          leads_of_baseStepsFrom hs htypedefs hfound hbase hpolymorphic hstructs
        simp only [gives_pure] at h
        subst h
        exact he.grouped.path hleads

theorem Reads.hasPathType (h : Reads env x isPointer root id record) (hx : IsVariable env x native usage)
    (hnative : IsObjectType env native isPointer root)
    (hwritten : IsTypeIn env scope.record native usage written) (hstructs : AllLegal env (Extends env root))
    (hout : ((partsTo depth).value id).Gives env scope out) :
    HasPathType env scope x out (.of isPointer record) := by
  induction h generalizing depth out with
  | use he hkind htype =>
    obtain ⟨depth, hout⟩ := valueRule_of_partsTo hout
    simp only [valueRule, gives_bind, gives_exprOf, exists_found he, hkind] at hout
    have hout := hx.localUse_of_declRefRule hout
    simp only [localUse, gives_bind] at hout
    obtain ⟨isReference, hreference, hout⟩ := hout
    obtain rfl := hnative.not_reference hreference
    simp only [Bool.false_eq_true, if_false, gives_pure] at hout
    subst hout
    exact .use hx hwritten (hnative.isWritten hs htypedefs hwritten)
  | paren he hkind htype _ ih =>
    obtain ⟨depth, hout⟩ := valueRule_of_partsTo hout
    simp only [valueRule, gives_bind, gives_exprOf, exists_found he, hkind,
      gives_pure] at hout
    obtain ⟨inner, hinner, rfl⟩ := hout
    exact .paren (ih hinner)
  | convert he hkind hsame htype _ ih =>
    obtain ⟨depth, hout⟩ := valueRule_of_partsTo hout
    simp only [valueRule, gives_bind, gives_exprOf, exists_found he, hkind,
      implicitCastRule] at hout
    obtain ⟨source, -, hout⟩ := hout
    rcases hsame with rfl | rfl
    · exact ih hout
    · exact ih hout
  | toBase he hkind hbase htype hoperand ih =>
    obtain ⟨depth, hout⟩ := valueRule_of_partsTo hout
    simp only [valueRule, gives_bind, gives_exprOf, exists_found he, hkind,
      implicitCastRule] at hout
    obtain ⟨source, hsource, hout⟩ := hout
    obtain ⟨source', hsource', htype'⟩ := hoperand.isObjectType
    obtain rfl := Option.mem_unique hsource' hsource
    refine hierarchyCast_hasPathType hs htypedefs htype' htype hbase (fun between hbetween => ?_)
      (fun _ => ih) hout
    exact hstructs between (hoperand.firstBases.trans hbetween)

/-! ## Steps to a field -/

omit hs htypedefs in
theorem memberSteps_cases (h : (memberSteps (some object) field).Gives env scope steps)
    (hd : env.ast.decl? field = some d) (hparent : d.parent = some owner)
    (hinside : IsInside env named owner names) :
    ∃ hops, steps = List.replicate hops "Base" ++ names ∧
      (hops = 0 ∧ (env.symbols.definition object = env.symbols.definition named ∨
          env.symbols.isPolymorphic (env.symbols.definition object) = true) ∨
        env.symbols.definition object ≠ env.symbols.definition named ∧
          env.symbols.isPolymorphic (env.symbols.definition object) = false ∧
          ∃ found, (baseSteps (env.symbols.definition object) named).Gives env scope found ∧
            hops = found.getD 0) := by
  simp only [memberSteps, gives_bind, gives_symbols, exists_eq_left, gives_decl, exists_found hd, hparent,
    gives_lift_option] at h
  obtain ⟨named', hnamed, h⟩ := h
  obtain rfl := hinside.namedOwnerFrom_eq hnamed
  -- The fields of the anonymous records come last in any case.
  have hforward : ∀ {path}, env.symbols.forwardingPath? owner = some path → path = names := by
    intro path hpath
    simp only [Symbols.forwardingPath?, Option.map_eq_some_iff] at hpath
    obtain ⟨inner, hinner, rfl⟩ := hpath
    exact hinside.forwardingFrom_eq hinner
  split at h
  · rename_i hnone
    simp only [gives_bind, gives_pure, exists_eq_left', gives_lift_option] at h
    obtain ⟨path, hpath, rfl⟩ := h
    simp only [Bool.or_eq_true, decide_eq_true_eq] at hnone
    exact ⟨0, by rw [hforward hpath], .inl ⟨rfl, hnone⟩⟩
  · rename_i hsome
    simp only [gives_bind, gives_pure, gives_lift_option, exists_eq_left'] at h
    obtain ⟨found, hfound, path, hpath, rfl⟩ := h
    simp only [Bool.or_eq_true, decide_eq_true_eq, not_or, Bool.not_eq_true] at hsome
    exact ⟨found.getD 0, by rw [hforward hpath], .inr ⟨hsome.1, hsome.2, found, hfound, rfl⟩⟩

theorem leads_of_memberSteps (h : (memberSteps (some object) field).Gives env scope steps)
    (hd : env.ast.decl? field = some d) (hparent : d.parent = some owner)
    (hinside : IsInside env named owner names) (hroot : Extends env root (env.symbols.definition object))
    (hnamed : Extends env (env.symbols.definition object) named)
    (hstructs : AllLegal env (ReflTransGen (Within env) root))
    (hsame : root = env.symbols.definition object ∨ env.symbols.isPolymorphic root = true ∧
      (env.symbols.isPolymorphic (env.symbols.definition object) = true ∨
      env.symbols.definition object = named)) :
    ∃ last, Leads env root steps last ∧ Provides env last owner := by
  have hbases : AllLegal env (Extends env root) := fun _ hbase => hstructs _ (within_of_firstBases hbase)
  have hinner : AllLegal env (ReflTransGen (Within env) named) :=
    fun inner hwithin => hstructs inner ((within_of_firstBases (hroot.trans hnamed)).trans hwithin)
  obtain ⟨namedMembers, hnamedStruct⟩ := hbases _ (hroot.trans hnamed)
  have hdefinition := hs.definition_of_isRecordDefinition hnamedStruct.1.1
  obtain ⟨hops, rfl, ⟨rfl, hnone⟩ | ⟨hne, hplain, found, hfound, rfl⟩⟩ :=
    memberSteps_cases h hd hparent hinside
  · -- The struct of the variable has the fields of the named record itself.
    rw [hdefinition] at hnone
    have hprovides : Provides env root named := by
      obtain ⟨members, hlegal⟩ := hbases _ .refl
      cases hpolymorphic : env.symbols.isPolymorphic root with
      | true =>
        refine provides_of_polymorphic hs htypedefs hlegal hpolymorphic (hroot.trans hnamed) ?_
        intro between hbetween
        obtain ⟨members, hstruct⟩ := hbases _ hbetween.to_reflTransGen
        exact ⟨members, hstruct.1⟩
      | false =>
        simp only [hpolymorphic, Bool.false_eq_true, false_and, or_false] at hsame
        rw [← hsame, hpolymorphic] at hnone
        obtain rfl := hnone.resolve_right nofun
        exact provides_self hs htypedefs hlegal
    obtain ⟨-, last, hleads, hlast⟩ := hinside.leads hs htypedefs hprovides hinner
    exact ⟨last, hleads, hlast⟩
  · rw [hdefinition] at hne
    obtain rfl : root = env.symbols.definition object := by
      rcases hsame with hsame | ⟨-, hpolymorphic | heq⟩
      · exact hsame
      · simp [hplain] at hpolymorphic
      · exact absurd heq hne
    rw [gives_baseSteps, hdefinition, hs.definition_definition] at hfound
    obtain ⟨hops, rfl, hsteps⟩ := leads_of_baseStepsFrom hs htypedefs hfound hnamed hplain hbases
    obtain ⟨-, last, hleads, hlast⟩ :=
      hinside.leads hs htypedefs (provides_self hs htypedefs hnamedStruct) hinner
    exact ⟨last, hsteps.append hleads, hlast⟩

end

/-! ## Accesses -/

theorem IsObjectType.recordOf (h : IsObjectType env type isPointer record) :
    ∃ id, env.symbols.definition id = record ∧
      (if isPointer then env.ast.pointeeRecord? type else env.ast.recordOf? type) = some (some id) := by
  cases h with
  | record hid => exact ⟨_, rfl, hid⟩
  | pointer hkind hid =>
    refine ⟨_, rfl, ?_⟩
    simp only [if_true, Native.Ast.pointeeRecord?, hkind, bind, Option.bind_some]
    exact hid

theorem Reads.referenceName_eq {isReference : Bool} (h : Reads env x isPointer root id record)
    (hx : IsVariable env x type usage) (hdeclared : IsDeclaredAs env type isReference isPointer root)
    (hreference : (referenceName id).Gives env scope reference) :
    reference = if isReference then some (env.symbols.name x) else none := by
  simp only [referenceName, gives_bind, gives_ignoreImplicit, gives_exprOf] at hreference
  obtain ⟨inner, hinner, e, he, hreference⟩ := hreference
  obtain ⟨e', he', hkind⟩ := h.ignoreImplicit hinner
  obtain rfl := Option.mem_unique he' he
  simp only [hkind, gives_bind] at hreference
  obtain ⟨flag, hflag, hreference⟩ := hreference
  have hflag : (Binding.isReference type).Gives env scope flag := by
    cases hx with
    | param hd hkind | localVar hd hkind =>
      simpa only [isReferenceDecl, gives_bind, gives_decl, exists_found hd, hkind] using hflag
  obtain rfl : flag = isReference := by
    cases hdeclared with
    | value hobject => exact hobject.not_reference hflag
    | reference hkind hreferent =>
      obtain ⟨kind', hkind', rfl⟩ := gives_isReference.mp hflag
      obtain rfl := Option.mem_unique hkind' hkind
      rcases hreferent with rfl | rfl
      · rfl
      · rfl
  cases flag <;> simpa [eq_comm] using hreference

theorem Reads.ne_thisPointer (h : Reads env x isPointer root id record) (he : env.ast.expr? id = some e)
    (implicit : Bool) : e.kind ≠ .thisPointer implicit := by
  cases h with
  | use he' hkind | paren he' hkind | convert he' hkind | toBase he' hkind =>
    obtain rfl := Option.mem_unique he' he
    rw [hkind]
    nofun

theorem gives_ite_lift {α β : Type} {flag : Bool} {o o' : Option α} {next : α → Emit β} {b : β} :
    (if flag then (do let a ← (o : Emit α); next a) else do
      let a ← (o' : Emit α)
      next a).Gives env scope b ↔
      ∃ a, (if flag then o else o') = some a ∧ (next a).Gives env scope b := by
  cases flag with
  | true => simp
  | false => simp

theorem Reads.accessedObject_cases {result : Option (Managed.Expr × Bool) × Option DeclId}
    (h : Reads env x isPointer root id record)
    (hresult : (accessedObject parts id isPointer).Gives env scope result) :
    ∃ seen reference, env.symbols.definition seen = record ∧
      (referenceName id).Gives env scope reference ∧
      ((∃ name, reference = some name ∧ result = (some (.ident name, true), some seen)) ∨
        reference = none ∧ ∃ e, (parts.value id).Gives env scope e ∧
          result = (some (e, isPointer), some seen)) := by
  obtain ⟨e, he, htype⟩ := h.isObjectType
  obtain ⟨seen, hseen, hrecord⟩ := htype.recordOf
  simp only [accessedObject, gives_bind, gives_exprOf, exists_found he] at hresult
  split at hresult
  · rename_i hkind
    exact absurd hkind (h.ne_thisPointer he true)
  · rename_i hkind
    exact absurd hkind (h.ne_thisPointer he false)
  · simp only [gives_bind, gives_ast, exists_eq_left, gives_ite_lift, exists_found hrecord] at hresult
    obtain ⟨reference, hreference, hresult⟩ := hresult
    refine ⟨seen, reference, hseen, hreference, ?_⟩
    cases reference with
    | some name =>
      simp only [gives_bind, gives_pure] at hresult
      obtain ⟨_, -, rfl⟩ := hresult
      exact .inl ⟨name, rfl, rfl⟩
    | none =>
      simp only [gives_bind, gives_pure] at hresult
      obtain ⟨object, hobject, _, -, rfl⟩ := hresult
      exact .inr ⟨rfl, object, hobject, rfl⟩

/-- A field that is read through a variable. -/
structure FieldAccess where
  id : ExprId
  /-- The variable, whether it is a reference, whether the object is behind a pointer, and its record. -/
  var : DeclId
  isReference : Bool
  isPointer : Bool
  root : DeclId
  object : ExprId
  record : DeclId
  field : DeclId
  owner : DeclId
  named : DeclId

/-- **The access has the types that C++ asks for**, and the variable has a C# type. -/
structure FieldAccess.IsWellTyped (a : FieldAccess) (env : Env) (scope : Scope) : Prop where
  declared : ∃ type usage written, IsVariable env a.var type usage ∧
    IsDeclaredAs env type a.isReference a.isPointer a.root ∧ IsTypeIn env scope.record type usage written
  object : Reads env a.var a.isPointer a.root a.object a.record
  access : ∃ e, env.ast.expr? a.id = some e ∧ e.kind = .member a.object a.field a.isPointer
  field : IsFieldIn env a.owner a.field
  parent : ∃ d, env.ast.decl? a.field = some d ∧ d.parent = some a.owner
  inside : ∃ names, IsInside env a.named a.owner names
  base : ReflTransGen (FirstBase env.ast env.symbols.definition) a.record a.named

/-- The object is seen as one of its own record, or its struct has the fields of all its bases. -/
def FieldAccess.IsDirect (a : FieldAccess) (env : Env) : Prop :=
  a.isReference = true → a.isPointer = false ∧ (a.root = a.record ∨
    env.symbols.isPolymorphic a.root = true ∧
      (env.symbols.isPolymorphic a.record = true ∨ a.record = a.named))

/-- **A direct access to a field reaches it.** -/
theorem direct_access_reaches_field {settings : Settings} {ast : Native.Ast}
    (hprepare : prepare settings ast = .ok env) (htypedefs : PlainTypedefs env.ast) {a : FieldAccess}
    (ha : a.IsWellTyped env scope) (hdirect : a.IsDirect env)
    (hstructs : ∀ inner, Relation.ReflTransGen (Within env) a.root inner →
      ∃ members, IsLegalStruct env inner members)
    {out : Managed.Expr} (h : (emitValue a.id).Gives env scope out) :
    Reaches env scope a.var out a.field := by
  have hs := Symbols.describes_of_prepare hprepare
  obtain ⟨type, usage, written, hx, hdeclared, hwritten⟩ := ha.declared
  obtain ⟨e, he, hkind⟩ := ha.access
  simp only [emitValue, allParts, gives_bind, gives_pure, gives_ast] at h
  obtain ⟨_, ⟨_, rfl, rfl⟩, h⟩ := h
  obtain ⟨depth, h⟩ := valueRule_of_partsTo h
  simp only [valueRule, gives_bind, gives_exprOf, he, Option.some.injEq, exists_eq_left', hkind] at h
  obtain ⟨d, hd, hparent⟩ := ha.parent
  obtain ⟨names, hinside⟩ := ha.inside
  obtain ⟨d', f, hd', hfield, -⟩ := ha.field.declared
  obtain rfl : d' = d := Option.some.inj (hd'.symm.trans hd)
  simp only [memberRule, gives_bind, gives_decl, hd, Option.some.injEq, exists_eq_left', hfield, memberOf,
    gives_nameOf, gives_pure] at h
  obtain ⟨result, hresult, steps, hsteps, name, rfl, rfl⟩ := h
  obtain ⟨seen, reference, hseen, hreference, hcases⟩ := ha.object.accessedObject_cases hresult
  have hreference := ha.object.referenceName_eq hx hdeclared hreference
  have hbase := ha.base
  have hroot := ha.object.firstBases
  rw [← hseen] at hbase hroot
  rcases hcases with ⟨name, rfl, rfl⟩ | ⟨rfl, object, hobject, rfl⟩
  · -- The variable is a reference and stands for a pointer to the object.
    obtain ⟨hisReference, rfl⟩ : a.isReference = true ∧ name = env.symbols.name a.var := by
      cases hisReference : a.isReference with
      | true =>
        rw [hisReference] at hreference
        exact ⟨rfl, Option.some.inj hreference⟩
      | false =>
        rw [hisReference] at hreference
        cases hreference
    obtain ⟨hisPointer, hsame⟩ := hdirect hisReference
    rw [hisReference, hisPointer] at hdeclared
    rw [← hseen] at hsame
    obtain ⟨last, hleads, hlast⟩ :=
      leads_of_memberSteps hs htypedefs hsteps hd hparent hinside hroot hbase hstructs hsame
    have htype : HasPathType env scope a.var (.ident (env.symbols.name a.var)) (.of true a.root) :=
      .use hx hwritten (isWritten_of_reference hs htypedefs hdeclared hwritten)
    exact reaches_of_leads htype hleads hlast ha.field
  · have hisReference : a.isReference = false := by
      cases hisReference : a.isReference with
      | true =>
        rw [hisReference] at hreference
        cases hreference
      | false => rfl
    rw [hisReference] at hdeclared
    cases hdeclared with
    | value hnative =>
      have htype := ha.object.hasPathType hs htypedefs hx hnative hwritten
        (fun base hbase => hstructs base (within_of_firstBases hbase)) hobject
      rw [← hseen] at htype
      obtain ⟨last, hleads, hlast⟩ := leads_of_memberSteps hs htypedefs hsteps hd hparent hinside .refl
        hbase (fun inner hinner => hstructs inner ((within_of_firstBases hroot).trans hinner)) (.inl rfl)
      exact reaches_of_leads htype hleads hlast ha.field

/-! ## An access through the base, and one through two pointers -/

def sprites : Env where
  ast :=
    { file := "sprites.h"
      topLevel := [⟨0⟩, ⟨4⟩, ⟨6⟩]
      decls :=
        #[{ kind := .record { tag := .struct, members := [⟨1⟩, ⟨2⟩] }, name := "Point" },
          { kind := .field { type := ⟨0⟩ }, name := "x", parent := some ⟨0⟩ },
          { kind := .record { tag := .struct, isAnonymous := true, members := [⟨3⟩] },
            parent := some ⟨0⟩ },
          { kind := .field { type := ⟨0⟩ }, name := "depth", parent := some ⟨2⟩ },
          { kind := .record { tag := .struct, bases := [{ type := ⟨3⟩ }], members := [⟨5⟩] },
            name := "Sprite" },
          { kind := .field { type := ⟨1⟩ }, name := "layer", parent := some ⟨4⟩ },
          { kind := .function { type := ⟨8⟩, params := [⟨7⟩, ⟨8⟩], body := some ⟨2⟩ }, name := "draw" },
          { kind := .param ⟨5⟩, name := "sprite" },
          { kind := .param ⟨7⟩, name := "place" }]
      types :=
        #[.ofBuiltin .float, .ofBuiltin .int, .ofBuiltin .void,
          { kind := .record ⟨0⟩, spelling := "Point" },
          { kind := .record ⟨4⟩, spelling := "Sprite" },
          { kind := .lvalueReference ⟨4⟩, spelling := "Sprite &" },
          { kind := .pointer ⟨3⟩, spelling := "Point *" },
          { kind := .lvalueReference ⟨6⟩, spelling := "Point *&" },
          { kind := .function { result := ⟨2⟩, params := [⟨5⟩, ⟨7⟩] }, spelling := "void (Sprite &, Point *&)" }]
      exprs :=
        #[{ kind := .declRef ⟨7⟩, type := ⟨4⟩ },
          { kind := .member ⟨0⟩ ⟨3⟩ false, type := ⟨0⟩ },
          { kind := .declRef ⟨8⟩, type := ⟨6⟩ },
          { kind := .implicitCast .lvalueToRValue ⟨2⟩, type := ⟨6⟩ },
          { kind := .member ⟨3⟩ ⟨1⟩ true, type := ⟨0⟩ }]
      stmts :=
        #[{ kind := .expr ⟨1⟩ }, { kind := .expr ⟨4⟩ }, { kind := .compound [⟨0⟩, ⟨1⟩] }] }
  settings := {}
  symbols :=
    { names := #["Point", "x", "_Anonymous_e__Struct", "depth", "Sprite", "layer", "draw", "sprite", "place"]
      anonymous := [(⟨2⟩, ⟨⟨0⟩, "Anonymous"⟩)]
      namingTypedefs := []
      definitions := []
      shadowed := []
      globals := [⟨6⟩]
      vtables := [] }

def spriteDepth : FieldAccess where
  id := ⟨1⟩
  var := ⟨7⟩
  isReference := true
  isPointer := false
  root := ⟨4⟩
  object := ⟨0⟩
  record := ⟨4⟩
  field := ⟨3⟩
  owner := ⟨2⟩
  named := ⟨0⟩

def placeX : FieldAccess where
  id := ⟨4⟩
  var := ⟨8⟩
  isReference := true
  isPointer := true
  root := ⟨0⟩
  object := ⟨3⟩
  record := ⟨0⟩
  field := ⟨1⟩
  owner := ⟨0⟩
  named := ⟨0⟩

theorem within_sprites (h : Within sprites outer inner) (houter : outer = ⟨4⟩ ∨ outer = ⟨0⟩ ∨ outer = ⟨2⟩) :
    inner = ⟨0⟩ ∨ inner = ⟨2⟩ := by
  rcases h with ⟨d, r, b, others, id, hd, hkind, hbases, hid, rfl⟩ | ⟨member, hmember, -⟩
  · left
    rcases houter with rfl | rfl | rfl
    · obtain rfl := Option.some.inj hd
      obtain rfl := Native.DeclKind.record.inj hkind
      obtain ⟨rfl, -⟩ := List.cons.inj hbases
      obtain rfl := Option.some.inj (Option.some.inj hid)
      rfl
    · obtain rfl := Option.some.inj hd
      obtain rfl := Native.DeclKind.record.inj hkind
      cases hbases
    · obtain rfl := Option.some.inj hd
      obtain rfl := Native.DeclKind.record.inj hkind
      cases hbases
  · right
    by_contra hne
    simp [Symbols.anonymous?, sprites, List.lookup, beq_eq_false_iff_ne.mpr hne] at hmember

theorem sprites_legal (h : ReflTransGen (Within sprites) outer inner) (houter : outer = ⟨4⟩ ∨ outer = ⟨0⟩) :
    ∃ members, IsLegalStruct sprites inner members := by
  have hinner : inner = ⟨4⟩ ∨ inner = ⟨0⟩ ∨ inner = ⟨2⟩ := by
    induction h with
    | refl => tauto
    | tail _ hstep ih => exact .inr (within_sprites hstep ih)
  rcases hinner with rfl | rfl | rfl
  · exact ⟨_, isStructOf_of_emitRecord ⟨_, _, rfl, rfl, rfl⟩ (gives_of_run (c := {}) rfl), by decide⟩
  · exact ⟨_, isStructOf_of_emitRecord ⟨_, _, rfl, rfl, rfl⟩ (gives_of_run (c := {}) rfl), by decide⟩
  · exact ⟨_, isStructOf_of_emitRecord ⟨_, _, rfl, rfl, rfl⟩ (gives_of_run (c := {}) rfl), by decide⟩

theorem spriteDepth_isWellTyped : spriteDepth.IsWellTyped sprites {} where
  declared := ⟨⟨5⟩, .parameter, _, .param rfl rfl,
    .reference rfl (.inl rfl) (.record rfl), {}, _, rfl, rfl⟩
  object := .use rfl rfl (.record rfl)
  access := ⟨_, rfl, rfl⟩
  field := ⟨⟨_, _, rfl, rfl, by decide, by decide⟩, _, _, rfl, rfl, by decide⟩
  parent := ⟨_, rfl, rfl⟩
  inside := ⟨_, .anonymous rfl (.self rfl)⟩
  base := .single ⟨_, _, _, _, ⟨0⟩, rfl, rfl, rfl, rfl, rfl⟩

theorem placeX_isWellTyped : placeX.IsWellTyped sprites {} where
  declared := ⟨⟨7⟩, .parameter, _, .param rfl rfl,
    .reference rfl (.inl rfl) (.pointer rfl rfl), {}, _, rfl, rfl⟩
  object := .convert rfl rfl (.inl rfl) (.pointer rfl rfl) (.use rfl rfl (.pointer rfl rfl))
  access := ⟨_, rfl, rfl⟩
  field := ⟨⟨_, _, rfl, rfl, by decide, by decide⟩, _, _, rfl, rfl, by decide⟩
  parent := ⟨_, rfl, rfl⟩
  inside := ⟨_, .self rfl⟩
  base := .refl

theorem spriteDepth_reaches_field :
    spriteDepth.IsWellTyped sprites {} ∧ spriteDepth.IsDirect sprites ∧
      ∃ out, (emitValue spriteDepth.id).Gives sprites {} out ∧
        out.text = "sprite->Base.Anonymous.depth" ∧
        Reaches sprites {} spriteDepth.var out spriteDepth.field := by
  have hdirect : spriteDepth.IsDirect sprites := fun _ => ⟨rfl, .inl rfl⟩
  have hout : (emitValue spriteDepth.id).Gives sprites {} _ := gives_of_run (c := {}) rfl
  refine ⟨spriteDepth_isWellTyped, hdirect, _, hout, rfl, ?_⟩
  exact direct_access_reaches_field (show prepare {} sprites.ast = .ok sprites from rfl)
    (plainTypedefs_of_all rfl) spriteDepth_isWellTyped hdirect
    (fun inner hinner => sprites_legal hinner (.inl rfl)) hout

theorem placeX_not_reaches_field :
    placeX.IsWellTyped sprites {} ∧
      (∀ inner, Relation.ReflTransGen (Within sprites) placeX.root inner →
        ∃ members, IsLegalStruct sprites inner members) ∧
      ∃ out, (emitValue placeX.id).Gives sprites {} out ∧ out.text = "place->x" ∧
        ¬ Reaches sprites {} placeX.var out placeX.field := by
  have hout : (emitValue placeX.id).Gives sprites {} _ := gives_of_run (c := {}) rfl
  refine ⟨placeX_isWellTyped, fun inner hinner => sprites_legal hinner (.inr rfl), _, hout, rfl, ?_⟩
  rintro ⟨object, isArrow, struct, members, m, hpath, htype, -⟩
  obtain ⟨rfl, rfl, -⟩ := Managed.Expr.member.inj hpath
  cases htype with
  | use hx hnative hwritten =>
    cases hx with
    | param hd hkind =>
      obtain rfl := Option.some.inj hd
      obtain rfl := Native.DeclKind.param.inj hkind
      obtain ⟨location, mapped, hmapped, rfl⟩ := hnative
      obtain rfl := Except.ok.inj hmapped
      exact hwritten
    | localVar hd hkind =>
      obtain rfl := Option.some.inj hd
      cases hkind

end Interop.Binding
