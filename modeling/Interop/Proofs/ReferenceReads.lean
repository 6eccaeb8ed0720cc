import Interop.Proofs.MemberAccess

/-!
# Reads of references

A native reference is a pointer in C#, and its read has the type of the referent only if the pointer is
followed, once. `ReadsEntity` says which expressions read what was declared with a type, and `HasReadType`
gives C# types to what is emitted. Parameters and local variables are followed; global variables, static
members, fields and results of calls are not.
-/

namespace Interop.Binding

open Native (DeclId TypeId ExprId Decl)
open Emit
open Managed (TypeName)

variable {env : Env} {scope : Scope}
variable {type referent : TypeId} {written : TypeName} {out : Managed.Expr} {x : DeclId} {c : TypeContext}
  {isArrow : Bool} {usage : Usage} {base : ExprId} {record : Option DeclId}

/-! ## The C# types of references -/

def IsReferenceTo (ast : Native.Ast) (type referent : TypeId) : Prop :=
  ast.canonicalKind? type = some (.lvalueReference referent) ∨
    ast.canonicalKind? type = some (.rvalueReference referent)

def IsFunctionType (ast : Native.Ast) (type : TypeId) : Prop :=
  ∃ proto, ast.canonicalKind? type = some (.function proto)

def IsMapped (env : Env) (record : Option DeclId) (type : TypeId) (usage : Usage) (managed : TypeName) :
    Prop :=
  ∃ location usesPointers, (TypeContext.mk env.ast env.symbols record location).managedFrom
    (env.ast.types.size + 1) type usage = .ok (managed, usesPointers)

theorem isFunction_eq_ok (h : c.isFunction type = .ok b) : b = true ↔ IsFunctionType c.ast type := by
  simp only [TypeContext.isFunction, bind_eq_ok, found_eq_ok] at h
  obtain ⟨kind, hkind, h⟩ := h
  split at h
  · obtain rfl := pure_eq_ok.mp h
    exact ⟨fun _ => ⟨_, hkind⟩, fun _ => rfl⟩
  · rename_i hother
    obtain rfl := pure_eq_ok.mp h
    refine ⟨fun htrue => absurd htrue (by decide), ?_⟩
    rintro ⟨proto, hproto⟩
    exact absurd (Option.mem_unique hkind hproto) (hother proto)

theorem IsReferenceTo.isReference_eq (h : IsReferenceTo env.ast type referent)
    (hb : (isReference type).Gives env scope b) : b = true := by
  obtain ⟨kind, hkind, rfl⟩ := gives_isReference.mp hb
  rcases h with h | h
  · rw [← Option.mem_unique h hkind]
    rfl
  · rw [← Option.mem_unique h hkind]
    rfl

theorem IsReferenceTo.pointerTo (h : IsReferenceTo env.ast type referent) (htypedefs : PlainTypedefs env.ast)
    (hwritten : IsTypeIn env record type usage written) :
    ∃ location usesPointers, ∃ fuel ≤ env.ast.types.size + 1,
      (TypeContext.mk env.ast env.symbols record location).pointerTo
        ((TypeContext.mk env.ast env.symbols record location).managedFrom fuel) referent =
          .ok (written, usesPointers) := by
  obtain ⟨location, mapped, hmapped, rfl⟩ := hwritten
  obtain ⟨usesPointers, hmanaged⟩ :=
    @managedFrom_of_mapType _ _ _ env ⟨record, none⟩ _ (gives_mapType.mpr hmapped)
  have hpointer : ∃ kind, env.ast.canonicalKind? type = some kind ∧
      (kind = .pointer referent ∨ kind = .lvalueReference referent ∨ kind = .rvalueReference referent) := by
    rcases h with h | h
    · exact ⟨_, h, .inr (.inl rfl)⟩
    · exact ⟨_, h, .inr (.inr rfl)⟩
  obtain ⟨kind, hkind, hpointee⟩ := hpointer
  obtain ⟨fuel, hfuel, hpointer⟩ := PlainTypedefs.pointerTo_of_managedFrom
    (c := ⟨env.ast, env.symbols, record, location⟩) htypedefs hkind hpointee hmanaged
  exact ⟨location, usesPointers, fuel, by omega, hpointer⟩

theorem IsReferenceTo.written_eq (h : IsReferenceTo env.ast type referent)
    (htypedefs : PlainTypedefs env.ast) (hwritten : IsTypeIn env record type usage written) :
    (IsFunctionType env.ast referent ∧
        ∃ convention params result, written = .functionPointer convention params result) ∨
      (¬ IsFunctionType env.ast referent ∧
        ∃ t, written = .pointer t ∧ IsMapped env record referent .pointee t) := by
  obtain ⟨location, usesPointers, fuel, hfuel, hpointer⟩ := h.pointerTo htypedefs hwritten
  rcases pointerTo_eq_ok hpointer with ⟨hfunction, _, hfunctionPointer⟩ | ⟨hfunction, inner, q, hinner, hwritten⟩
  · obtain ⟨_, _, _, _, -, -, -, hwritten⟩ := functionPointer_eq_ok hfunctionPointer
    exact .inl ⟨(isFunction_eq_ok hfunction).mp rfl, _, _, _, congrArg Prod.fst hwritten⟩
  · refine .inr ⟨fun h => absurd ((isFunction_eq_ok hfunction).mpr h) (by decide), ?_⟩
    exact ⟨inner, congrArg Prod.fst hwritten, location, q, managedFrom_mono hfuel hinner⟩

/-! ## What expressions read -/

/-- What an expression can read. -/
inductive Entity where
  | var (id : DeclId)
  | global (id : DeclId)
  | staticMember (id : DeclId)
  | field (id : DeclId)
  | result

def Entity.isLocal : Entity → Bool
  | .var _ => true
  | _ => false

inductive CalledAs (env : Env) (callee : ExprId) : TypeId → Prop
  | function {target : ExprId} {e : Native.Expr} {id : DeclId} {d : Decl} {f : Native.Function}
      (htarget : env.ast.ignoreImplicit? callee = some target) (he : env.ast.expr? target = some e)
      (hkind : e.kind = .declRef id) (hd : env.ast.decl? id = some d) (hf : d.kind = .function f) :
      CalledAs env callee f.type
  | method {target base : ExprId} {e : Native.Expr} {id : DeclId} {isArrow : Bool} {d : Decl}
      {m : Native.Method} (htarget : env.ast.ignoreImplicit? callee = some target)
      (he : env.ast.expr? target = some e)
      (hkind : e.kind = .declRef id ∨ e.kind = .member base id isArrow)
      (hd : env.ast.decl? id = some d) (hm : d.kind = .method m) : CalledAs env callee m.type
  | value {e : Native.Expr} (he : env.ast.expr? callee = some e) : CalledAs env callee e.type

def HasPrototype (ast : Native.Ast) (type : TypeId) (proto : Native.Prototype) : Prop :=
  ∃ target t, ast.functionProto? type = some (some target) ∧ ast.type? target = some t ∧
    t.kind = .function proto

/-- **Reading** what is declared with the type, through conversions that change nothing. -/
inductive ReadsEntity (env : Env) : ExprId → Entity → TypeId → Prop
  | var {id : ExprId} {e : Native.Expr} {x : DeclId} {type : TypeId} {usage : Usage}
      (he : env.ast.expr? id = some e) (hkind : e.kind = .declRef x)
      (hx : IsVariable env x type usage) : ReadsEntity env id (.var x) type
  | global {id : ExprId} {e : Native.Expr} {x : DeclId} {d : Decl} {v : Native.Var}
      (he : env.ast.expr? id = some e) (hkind : e.kind = .declRef x)
      (hd : env.ast.decl? x = some d) (hv : d.kind = .var v)
      (hglobal : env.symbols.isGlobal x = true) : ReadsEntity env id (.global x) v.type
  | staticMember {id : ExprId} {e : Native.Expr} {x parent : DeclId} {d p : Decl}
      {v : Native.Var} {r : Native.Record} (he : env.ast.expr? id = some e)
      (hkind : e.kind = .declRef x) (hd : env.ast.decl? x = some d) (hv : d.kind = .var v)
      (hglobal : env.symbols.isGlobal x = false) (hparent : d.parent = some parent)
      (hp : env.ast.decl? parent = some p) (hr : p.kind = .record r) :
      ReadsEntity env id (.staticMember x) v.type
  | staticMemberOf {id base : ExprId} {e : Native.Expr} {x : DeclId} {isArrow : Bool} {d : Decl}
      {v : Native.Var} (he : env.ast.expr? id = some e) (hkind : e.kind = .member base x isArrow)
      (hd : env.ast.decl? x = some d) (hv : d.kind = .var v) :
      ReadsEntity env id (.staticMember x) v.type
  | field {id : ExprId} {e : Native.Expr} {x : DeclId} {d : Decl} {f : Native.Field}
      (he : env.ast.expr? id = some e) (hkind : e.kind = .declRef x)
      (hd : env.ast.decl? x = some d) (hf : d.kind = .field f) : ReadsEntity env id (.field x) f.type
  | fieldOf {id base : ExprId} {e : Native.Expr} {x : DeclId} {isArrow : Bool} {d : Decl}
      {f : Native.Field} (he : env.ast.expr? id = some e) (hkind : e.kind = .member base x isArrow)
      (hd : env.ast.decl? x = some d) (hf : d.kind = .field f) : ReadsEntity env id (.field x) f.type
  | result {id callee : ExprId} {e : Native.Expr} {args : List ExprId} {type : TypeId}
      {proto : Native.Prototype} (he : env.ast.expr? id = some e) (hkind : e.kind = .call callee args)
      (hcallee : CalledAs env callee type) (hproto : HasPrototype env.ast type proto) :
      ReadsEntity env id .result proto.result
  | paren {id inner : ExprId} {e : Native.Expr} {entity : Entity} {type : TypeId}
      (he : env.ast.expr? id = some e) (hkind : e.kind = .paren inner)
      (hinner : ReadsEntity env inner entity type) : ReadsEntity env id entity type
  | convert {id operand : ExprId} {e : Native.Expr} {kind : Native.CastKind} {entity : Entity}
      {type : TypeId} (he : env.ast.expr? id = some e) (hkind : e.kind = .implicitCast kind operand)
      (hsame : kind = .lvalueToRValue ∨ kind = .noOp) (hoperand : ReadsEntity env operand entity type) :
      ReadsEntity env id entity type

/-! ## The C# types of reads -/

/-- The C# expression is what stands for the entity itself, a pointer where it is a reference. -/
def Entity.IsUse (env : Env) (scope : Scope) : Entity → Managed.Expr → Prop
  | .var x, e => e = .ident (env.symbols.name x)
  | .global x, e => e = .ident (env.symbols.name x)
  | .staticMember x, e => (memberReference x).Gives env scope e
  | .field x, e => ∃ object steps, e = onObject object steps (env.symbols.name x)
  | .result, e => ∃ callee args, e = .call callee args

/-- **The types of C# expressions** over one entity, which is of the type `written`. -/
inductive HasReadType (env : Env) (scope : Scope) (entity : Entity) (written : TypeName) :
    Managed.Expr → TypeName → Prop
  | use {e : Managed.Expr} (he : entity.IsUse env scope e) : HasReadType env scope entity written e written
  | follow {e : Managed.Expr} {target : TypeName}
      (he : HasReadType env scope entity written e (.pointer target)) :
      HasReadType env scope entity written (.unary .deref e) target
  | paren {e : Managed.Expr} {type : TypeName} (he : HasReadType env scope entity written e type) :
      HasReadType env scope entity written (.paren e) type

theorem exists_path_append (e : Managed.Expr) (isArrow : Bool) (names : List String) (name : String) :
    ∃ object isArrow', Managed.Expr.path e isArrow (names ++ [name]) = .member object isArrow' name := by
  induction names generalizing e isArrow with
  | nil => exact ⟨e, isArrow, rfl⟩
  | cons first rest ih => exact ih (.member e isArrow first) false

theorem Entity.IsUse.cases {entity : Entity} (h : entity.IsUse env scope e) :
    (∃ name, e = .ident name) ∨ (∃ object isArrow name, e = .member object isArrow name) ∨
      ∃ callee args, e = .call callee args := by
  cases entity with
  | var x => exact .inl ⟨_, h⟩
  | global x => exact .inl ⟨_, h⟩
  | staticMember x =>
    simp only [IsUse, memberReference, gives_bind, gives_nameOf, gives_decl] at h
    obtain ⟨name, -, d, -, h⟩ := h
    split at h
    · simp only [gives_bind] at h
      obtain ⟨record, -, h⟩ := h
      split at h
      · exact .inl ⟨_, (gives_pure.mp h).symm⟩
      · simp only [gives_bind, gives_pure] at h
        obtain ⟨qualified, -, rfl⟩ := h
        exact .inr (.inl ⟨_, _, _, rfl⟩)
    · exact .inl ⟨_, (gives_pure.mp h).symm⟩
  | field x =>
    obtain ⟨object, steps, rfl⟩ := h
    rcases object with - | ⟨object, isArrow⟩
    · rcases steps with - | ⟨first, rest⟩
      · exact .inl ⟨_, rfl⟩
      · obtain ⟨object, isArrow, hpath⟩ :=
          exists_path_append (.ident first) false rest (env.symbols.name x)
        exact .inr (.inl ⟨object, isArrow, _, hpath⟩)
    · obtain ⟨object', isArrow', hpath⟩ :=
        exists_path_append object isArrow steps (env.symbols.name x)
      exact .inr (.inl ⟨object', isArrow', _, hpath⟩)
  | result => exact .inr (.inr h)

namespace HasReadType

variable {entity : Entity} {written : TypeName} {e : Managed.Expr} {type : TypeName}

theorem of_isUse (he : entity.IsUse env scope e) (h : HasReadType env scope entity written e type) :
    type = written := by
  cases h with
  | use => rfl
  | follow => rcases he.cases with ⟨_, h⟩ | ⟨_, _, _, h⟩ | ⟨_, _, h⟩ <;> cases h
  | paren => rcases he.cases with ⟨_, h⟩ | ⟨_, _, _, h⟩ | ⟨_, _, h⟩ <;> cases h

theorem of_deref (h : HasReadType env scope entity written (.unary .deref e) type) :
    HasReadType env scope entity written e (.pointer type) := by
  cases h with
  | use he => rcases he.cases with ⟨_, h⟩ | ⟨_, _, _, h⟩ | ⟨_, _, h⟩ <;> cases h
  | follow he => exact he

theorem of_paren (h : HasReadType env scope entity written (.paren e) type) :
    HasReadType env scope entity written e type := by
  cases h with
  | use he => rcases he.cases with ⟨_, h⟩ | ⟨_, _, _, h⟩ | ⟨_, _, h⟩ <;> cases h
  | paren he => exact he

end HasReadType

/-! ## Emitted reads -/

inductive IsReadOf (env : Env) (scope : Scope) (entity : Entity) : Managed.Expr → Prop
  | followed {e : Managed.Expr} (he : entity.IsUse env scope e) (hlocal : entity.isLocal = true) :
      IsReadOf env scope entity (.unary .deref e)
  | bare {e : Managed.Expr} (he : entity.IsUse env scope e) (hlocal : entity.isLocal = false) :
      IsReadOf env scope entity e
  | paren {e : Managed.Expr} (he : IsReadOf env scope entity e) : IsReadOf env scope entity (.paren e)

theorem isUse_of_memberOf (h : (memberOf parts base isArrow x).Gives env scope out) :
    (Entity.field x).IsUse env scope out := by
  simp only [memberOf, gives_bind, gives_nameOf, gives_pure] at h
  obtain ⟨⟨object, record⟩, -, steps, -, name, rfl, rfl⟩ := h
  exact ⟨object, steps, rfl⟩

theorem isUse_of_callRule (h : (callRule parts e callee args).Gives env scope out) :
    Entity.result.IsUse env scope out := by
  have hindirect : (indirectCall parts callee args e.location).Gives env scope out →
      Entity.result.IsUse env scope out := by
    intro h
    simp only [indirectCall, gives_bind, gives_markPointers, gives_pure] at h
    obtain ⟨f, -, _, -, as, -, _, -, rfl⟩ := h
    exact ⟨_, _, rfl⟩
  simp only [callRule, gives_bind] at h
  obtain ⟨target, -, t, -, h⟩ := h
  split at h
  · rw [gives_bind] at h
    obtain ⟨d, -, h⟩ := h
    split at h
    · simp only [gives_bind, gives_pure] at h
      obtain ⟨_, -, as, -, name, -, rfl⟩ := h
      exact ⟨_, _, rfl⟩
    · simp only [gives_bind, gives_pure] at h
      obtain ⟨as, -, f, -, rfl⟩ := h
      exact ⟨_, _, rfl⟩
    · exact hindirect h
  · rw [gives_bind] at h
    obtain ⟨d, -, h⟩ := h
    split at h
    · simp only [methodCall, gives_bind] at h
      obtain ⟨as, -, h⟩ := h
      split at h
      · simp only [gives_bind, gives_pure] at h
        obtain ⟨f, -, rfl⟩ := h
        exact ⟨_, _, rfl⟩
      · split at h
        · simp only [gives_bind, gives_pure] at h
          obtain ⟨receiver, -, f, -, rfl⟩ := h
          exact ⟨_, _, rfl⟩
        · simp only [gives_bind, gives_pure] at h
          obtain ⟨f, -, rfl⟩ := h
          exact ⟨_, _, rfl⟩
    · exact hindirect h
  · exact hindirect h

section

variable {id : ExprId} {e : Native.Expr} {depth : Nat} {out : Managed.Expr} (he : env.ast.expr? id = some e)
  (hout : ((partsTo depth).value id).Gives env scope out)
include he hout

theorem declRefRule_of_partsTo (hkind : e.kind = .declRef x) : (declRefRule e x).Gives env scope out := by
  obtain ⟨depth, hout⟩ := valueRule_of_partsTo hout
  simpa only [valueRule, gives_bind, gives_exprOf, exists_found he, hkind] using hout

theorem memberRule_of_partsTo (hkind : e.kind = .member base x isArrow) :
    ∃ depth, (memberRule (partsTo depth) e base x isArrow).Gives env scope out := by
  obtain ⟨depth, hout⟩ := valueRule_of_partsTo hout
  refine ⟨depth, ?_⟩
  simpa only [valueRule, gives_bind, gives_exprOf, exists_found he, hkind] using hout

end

theorem ReadsEntity.isReadOf {id : ExprId} (h : ReadsEntity env id entity type)
    (href : IsReferenceTo env.ast type referent) (hout : ((partsTo depth).value id).Gives env scope out) :
    IsReadOf env scope entity out := by
  induction h generalizing depth out with
  | var he hkind hx =>
    have hout := hx.localUse_of_declRefRule (declRefRule_of_partsTo he hout hkind)
    simp only [localUse, gives_bind] at hout
    obtain ⟨isReference, hreference, hout⟩ := hout
    obtain rfl := href.isReference_eq hreference
    simp only [if_true, gives_bind, gives_markPointers, gives_pure] at hout
    obtain ⟨-, -, rfl⟩ := hout
    exact .followed rfl rfl
  | global he hkind hd hv hglobal =>
    have hout := declRefRule_of_partsTo he hout hkind
    simp only [declRefRule, gives_bind, gives_decl, exists_found hd, gives_nameOf, exists_eq_left, hv,
      gives_symbols, hglobal, if_true, gives_pure] at hout
    obtain ⟨_, -, rfl⟩ := hout
    exact .bare rfl rfl
  | staticMember he hkind hd hv hglobal hparent hp hr =>
    have hout := declRefRule_of_partsTo he hout hkind
    obtain ⟨isStatic, hstatic, hout⟩ := (gives_declRefRule_var hd hv hglobal).mp hout
    obtain rfl := hstatic.unique (gives_isInRecord_of_record hparent hp hr)
    exact .bare hout rfl
  | staticMemberOf he hkind hd hv =>
    obtain ⟨depth, hout⟩ := memberRule_of_partsTo he hout hkind
    simp only [memberRule, gives_bind, gives_decl, exists_found hd, hv] at hout
    exact .bare hout rfl
  | field he hkind hd hf =>
    have hout := declRefRule_of_partsTo he hout hkind
    simp only [declRefRule, gives_bind, gives_decl, exists_found hd, gives_nameOf, exists_eq_left, hf,
      gives_pure] at hout
    exact .bare ⟨none, [], hout.symm⟩ rfl
  | fieldOf he hkind hd hf =>
    obtain ⟨depth, hout⟩ := memberRule_of_partsTo he hout hkind
    simp only [memberRule, gives_bind, gives_decl, exists_found hd, hf] at hout
    exact .bare (isUse_of_memberOf hout) rfl
  | result he hkind hcallee hproto =>
    obtain ⟨depth, hout⟩ := valueRule_of_partsTo hout
    simp only [valueRule, gives_bind, gives_exprOf, exists_found he, hkind] at hout
    exact .bare (isUse_of_callRule hout) rfl
  | paren he hkind _ ih =>
    obtain ⟨depth, hout⟩ := valueRule_of_partsTo hout
    simp only [valueRule, gives_bind, gives_exprOf, exists_found he, hkind, gives_pure] at hout
    obtain ⟨inner, hinner, rfl⟩ := hout
    exact .paren (ih href hinner)
  | convert he hkind hsame _ ih =>
    obtain ⟨depth, hout⟩ := valueRule_of_partsTo hout
    simp only [valueRule, gives_bind, gives_exprOf, exists_found he, hkind, implicitCastRule] at hout
    obtain ⟨source, -, hout⟩ := hout
    rcases hsame with rfl | rfl
    · exact ih href hout
    · exact ih href hout

theorem IsReadOf.hasReadType_iff {type : TypeName} (h : IsReadOf env scope entity out) :
    HasReadType env scope entity written out type ↔
      if entity.isLocal = true then written = .pointer type else written = type := by
  induction h with
  | followed he hlocal =>
    rw [if_pos hlocal]
    constructor
    · intro h
      exact (h.of_deref.of_isUse he).symm
    · rintro rfl
      exact .follow (.use he)
  | bare he hlocal =>
    rw [if_neg (by simp [hlocal])]
    constructor
    · intro h
      exact (h.of_isUse he).symm
    · rintro rfl
      exact .use he
  | paren _ ih => exact ⟨fun h => ih.mp h.of_paren, fun h => .paren (ih.mpr h)⟩

theorem pointer_ne_self (t : TypeName) : TypeName.pointer t ≠ t := by
  intro h
  have hsize := congrArg sizeOf h
  simp at hsize

/-! ## Initializers of references -/

section

variable {x : DeclId} {d : Decl} {v : Native.Var} {init : ExprId} (hd : env.ast.decl? x = some d)
  (hv : d.kind = .var v) (hinit : v.init = some init)
include hd hv hinit

theorem localDecl_of_reference (href : IsReferenceTo env.ast v.type referent)
    (h : (localDecl location x).Gives env scope (written, declarator)) :
    ∃ address, (emitAddress init).Gives env scope address ∧
      declarator = ⟨env.symbols.name x, some address⟩ := by
  simp only [localDecl, gives_bind, gives_decl, hd, gives_nameOf, Option.some.injEq, exists_eq_left',
    exists_eq_left, hv] at h
  split at h
  · simp at h
  · simp only [gives_bind] at h
    obtain ⟨mapped, -, isReference, hreference, h⟩ := h
    obtain rfl := href.isReference_eq hreference
    simp only [if_true, hinit, gives_bind, gives_pure, Prod.mk.injEq] at h
    obtain ⟨address, haddress, -, rfl⟩ := h
    exact ⟨address, haddress, rfl⟩

theorem emitGlobal_of_init (h : (emitGlobal x).Gives env scope m) :
    ∃ attrs access written value,
      m = .field attrs access written (env.symbols.name x) (some value) ∧
      (emitValue init).Gives env scope value := by
  simp only [emitGlobal, gives_bind, gives_decl, exists_found hd, hv, hinit] at h
  split at h
  · simp at h
  · simp only [gives_bind, gives_nameOf, gives_ast, gives_pure, exists_eq_left] at h
    obtain ⟨mapped, -, obsolete, -, t, -, value, hvalue, rfl⟩ := h
    exact ⟨_, _, _, value, rfl, hvalue⟩

end

/-! ## Reads and initializers of references -/

/-- **A reference is followed exactly if it is a local variable or a parameter.** The read of any other one
has the pointer type instead. -/
theorem references_followed_iff_local (htypedefs : PlainTypedefs env.ast) :
    (∀ id entity type referent out, ReadsEntity env id entity type →
      IsReferenceTo env.ast type referent → (emitValue id).Gives env scope out →
      ∀ record usage written, IsTypeIn env record type usage written →
        (¬ IsFunctionType env.ast referent → ∃ t, IsMapped env record referent .pointee t ∧
          (HasReadType env scope entity written out t ↔ entity.isLocal = true) ∧
          (HasReadType env scope entity written out (.pointer t) ↔ entity.isLocal = false)) ∧
        (IsFunctionType env.ast referent →
          ((∃ t, HasReadType env scope entity written out t) ↔ entity.isLocal = false))) ∧
    ∀ x d v init referent, env.ast.decl? x = some d → d.kind = .var v → v.init = some init →
      IsReferenceTo env.ast v.type referent →
        (∀ location written declarator, (localDecl location x).Gives env scope (written, declarator) →
          ∃ address, (emitAddress init).Gives env scope address ∧
            declarator = ⟨env.symbols.name x, some address⟩) ∧
        ∀ m, (emitGlobal x).Gives env scope m → ∃ attrs access written value,
          m = .field attrs access written (env.symbols.name x) (some value) ∧
            (emitValue init).Gives env scope value := by
  refine ⟨?_, ?_⟩
  · intro id entity type referent out hreads href hout record usage written hwritten
    obtain ⟨depth, hout⟩ : ∃ depth, ((partsTo depth).value id).Gives env scope out := by
      simp only [emitValue, allParts, gives_bind, gives_pure, gives_ast] at hout
      obtain ⟨parts, ⟨ast, rfl, rfl⟩, hout⟩ := hout
      exact ⟨_, hout⟩
    have hread := hreads.isReadOf href hout
    rcases href.written_eq htypedefs hwritten with
      ⟨hfunction, convention, params, result, rfl⟩ | ⟨hobject, t, rfl, hmapped⟩
    · refine ⟨fun hobject => absurd hfunction hobject, fun _ => ?_⟩
      simp only [hread.hasReadType_iff]
      cases entity.isLocal <;> simp
    · refine ⟨fun _ => ⟨t, hmapped, ?_, ?_⟩, fun hfunction => absurd hfunction hobject⟩
      · rw [hread.hasReadType_iff]
        cases entity.isLocal <;> simp [pointer_ne_self]
      · rw [hread.hasReadType_iff]
        cases entity.isLocal <;> simp [(pointer_ne_self _).symm]
  · intro x d v init referent hd hv hinit href
    exact ⟨fun location written declarator h => localDecl_of_reference hd hv hinit href h,
      fun m h => emitGlobal_of_init hd hv hinit h⟩

/-- A program whose references are global, a field, a result and a parameter. -/
def totals : Env where
  ast :=
    { file := "totals.h"
      topLevel := [⟨0⟩, ⟨1⟩, ⟨2⟩, ⟨4⟩, ⟨5⟩]
      decls :=
        #[{ kind := .var { type := ⟨0⟩ }, name := "counter" },
          { kind := .var { type := ⟨1⟩, init := some ⟨0⟩ }, name := "total" },
          { kind := .record { tag := .struct, members := [⟨3⟩] }, name := "Cell" },
          { kind := .field { type := ⟨1⟩ }, name := "value", parent := some ⟨2⟩ },
          { kind := .function { type := ⟨3⟩ }, name := "pick" },
          { kind := .function { type := ⟨5⟩, params := [⟨6⟩, ⟨7⟩], body := some ⟨1⟩ }, name := "add" },
          { kind := .param ⟨1⟩, name := "step", parent := some ⟨5⟩ },
          { kind := .param ⟨2⟩, name := "cell", parent := some ⟨5⟩ }]
      types :=
        #[.ofBuiltin .int,
          { kind := .lvalueReference ⟨0⟩, spelling := "int &" },
          { kind := .record ⟨2⟩, spelling := "Cell" },
          { kind := .function { result := ⟨1⟩, params := [], convention := some .c }, spelling := "int &()" },
          { kind := .pointer ⟨3⟩, spelling := "int &(*)()" },
          { kind := .function { result := ⟨0⟩, params := [⟨1⟩, ⟨2⟩] }, spelling := "int (int &, Cell)" }]
      exprs :=
        #[{ kind := .declRef ⟨0⟩, type := ⟨0⟩ },
          { kind := .declRef ⟨1⟩, type := ⟨0⟩ },
          { kind := .implicitCast .lvalueToRValue ⟨1⟩, type := ⟨0⟩ },
          { kind := .declRef ⟨6⟩, type := ⟨0⟩ },
          { kind := .implicitCast .lvalueToRValue ⟨3⟩, type := ⟨0⟩ },
          { kind := .declRef ⟨4⟩, type := ⟨3⟩ },
          { kind := .implicitCast .functionToPointerDecay ⟨5⟩, type := ⟨4⟩ },
          { kind := .call ⟨6⟩ [], type := ⟨0⟩ },
          { kind := .implicitCast .lvalueToRValue ⟨7⟩, type := ⟨0⟩ },
          { kind := .declRef ⟨7⟩, type := ⟨2⟩ },
          { kind := .member ⟨9⟩ ⟨3⟩ false, type := ⟨0⟩ },
          { kind := .implicitCast .lvalueToRValue ⟨10⟩, type := ⟨0⟩ },
          { kind := .binary .add ⟨2⟩ ⟨4⟩, type := ⟨0⟩ },
          { kind := .binary .add ⟨12⟩ ⟨8⟩, type := ⟨0⟩ },
          { kind := .binary .add ⟨13⟩ ⟨11⟩, type := ⟨0⟩ }]
      stmts := #[{ kind := .ret (some ⟨14⟩) }, { kind := .compound [⟨0⟩] }] }
  settings := {}
  symbols :=
    { names := #["counter", "total", "Cell", "value", "pick", "add", "step", "cell"]
      anonymous := []
      namingTypedefs := []
      definitions := []
      shadowed := []
      globals := [⟨0⟩, ⟨1⟩, ⟨4⟩, ⟨5⟩]
      vtables := [] }

theorem step_followed :
    PlainTypedefs totals.ast ∧ ReadsEntity totals ⟨4⟩ (.var ⟨6⟩) ⟨1⟩ ∧
      IsReferenceTo totals.ast ⟨1⟩ ⟨0⟩ ∧ ¬ IsFunctionType totals.ast ⟨0⟩ ∧
      IsTypeIn totals none ⟨1⟩ .parameter (.pointer (.named "int")) ∧
      ∃ out t, (emitValue ⟨4⟩).Gives totals {} out ∧ out.text = "*step" ∧
        IsMapped totals none ⟨0⟩ .pointee t ∧
        HasReadType totals {} (.var ⟨6⟩) (.pointer (.named "int")) out t := by
  have htypedefs : PlainTypedefs totals.ast := plainTypedefs_of_all rfl
  have hreads : ReadsEntity totals ⟨4⟩ (.var ⟨6⟩) ⟨1⟩ :=
    .convert rfl rfl (.inl rfl) (.var rfl rfl (.param rfl rfl))
  have href : IsReferenceTo totals.ast ⟨1⟩ ⟨0⟩ := .inl rfl
  have hobject : ¬ IsFunctionType totals.ast ⟨0⟩ := by
    rintro ⟨proto, hproto⟩
    cases Option.some.inj hproto
  have hwritten : IsTypeIn totals none ⟨1⟩ .parameter (.pointer (.named "int")) := ⟨{}, _, rfl, rfl⟩
  have hout : (emitValue ⟨4⟩).Gives totals {} _ := gives_of_run (c := {}) rfl
  obtain ⟨t, hmapped, hlocal, -⟩ := ((references_followed_iff_local htypedefs).1 _ _ _ _ _ hreads href
    hout _ _ _ hwritten).1 hobject
  exact ⟨htypedefs, hreads, href, hobject, hwritten, _, t, hout, rfl, hmapped, hlocal.mpr rfl⟩

theorem total_not_followed :
    prepare {} totals.ast = .ok totals ∧
      IsTypeIn totals none ⟨1⟩ .globalVar (.pointer (.named "int")) ∧
      (ReadsEntity totals ⟨2⟩ (.global ⟨1⟩) ⟨1⟩ ∧ (emitValue ⟨2⟩).Gives totals {} (.ident "total") ∧
        ¬ HasReadType totals {} (.global ⟨1⟩) (.pointer (.named "int")) (.ident "total")
          (.named "int")) ∧
      (ReadsEntity totals ⟨8⟩ .result ⟨1⟩ ∧ (emitValue ⟨8⟩).Gives totals {} (.call (.ident "pick") []) ∧
        ¬ HasReadType totals {} .result (.pointer (.named "int")) (.call (.ident "pick") [])
          (.named "int")) ∧
      (ReadsEntity totals ⟨11⟩ (.field ⟨3⟩) ⟨1⟩ ∧
        (emitValue ⟨11⟩).Gives totals {} (.member (.ident "cell") false "value") ∧
        ¬ HasReadType totals {} (.field ⟨3⟩) (.pointer (.named "int"))
          (.member (.ident "cell") false "value") (.named "int")) ∧
      (∃ attrs, (emitGlobal ⟨1⟩).Gives totals {}
        (.field attrs .static (.pointer (.named "int")) "total" (some (.ident "counter")))) ∧
      (emitAddress ⟨0⟩).Gives totals {} (.unary .addressOf (.ident "counter")) := by
  have hpointer : ∀ (entity : Entity) (e : Managed.Expr), entity.IsUse totals {} e →
      ¬ HasReadType totals {} entity (.pointer (.named "int")) e (.named "int") := by
    intro entity e he h
    cases h.of_isUse he
  have htotal : ReadsEntity totals ⟨1⟩ (.global ⟨1⟩) ⟨1⟩ :=
    @ReadsEntity.global _ _ _ _ _ { type := ⟨1⟩, init := some ⟨0⟩ } rfl rfl rfl rfl rfl
  have hpick : ReadsEntity totals ⟨7⟩ .result ⟨1⟩ :=
    @ReadsEntity.result _ _ ⟨6⟩ _ [] ⟨3⟩ { result := ⟨1⟩, params := [], convention := some .c } rfl rfl
      (@CalledAs.function _ _ ⟨5⟩ _ _ _ { type := ⟨3⟩ } rfl rfl rfl rfl rfl) ⟨_, _, rfl, rfl, rfl⟩
  have hvalue : ReadsEntity totals ⟨10⟩ (.field ⟨3⟩) ⟨1⟩ :=
    @ReadsEntity.fieldOf _ _ ⟨9⟩ _ _ false _ { type := ⟨1⟩ } rfl rfl rfl rfl
  refine ⟨rfl, ⟨{}, _, rfl, rfl⟩, ⟨?_, gives_of_run (c := {}) rfl, ?_⟩, ⟨?_, gives_of_run (c := {}) rfl, ?_⟩,
    ⟨?_, gives_of_run (c := {}) rfl, ?_⟩, ⟨_, gives_of_run (c := {}) rfl⟩, gives_of_run (c := {}) rfl⟩
  · exact .convert rfl rfl (.inl rfl) htotal
  · exact hpointer _ _ rfl
  · exact .convert rfl rfl (.inl rfl) hpick
  · exact hpointer _ _ ⟨_, _, rfl⟩
  · exact .convert rfl rfl (.inl rfl) hvalue
  · exact hpointer _ _ ⟨some (.ident "cell", false), [], rfl⟩

end Interop.Binding
