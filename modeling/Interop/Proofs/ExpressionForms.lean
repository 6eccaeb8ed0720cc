import Interop.Proofs.Emission
import Interop.Proofs.Identifiers
import Interop.Proofs.SourceTrees
import Interop.Proofs.SymbolTable

/-!
# Emitted expressions are the intended ones

Every rule of emission works on the emission of the parts of an expression. `Parts.Sound` says that
what the parts give stands for the intended trees; each rule then keeps this for the expression it
emits, and by recursion on the depth it holds for all expressions.
-/

namespace Interop.Binding

open Native (ExprId TypeId DeclId ExprKind TypeKind CastKind CastStyle)
open Csharp (Tree Denotes)
open Emit

variable {env : Env} {scope : Scope}
variable {id inner : ExprId} {s : Source} {op : BinaryOp} {n : Native.Expr} {t : Tree}
  {value : ExprId → Emit Managed.Expr} {fuel : Nat}

/-! ## What the steps read -/

@[simp] theorem gives_isBool :
    (isBool type).Gives env scope b ↔ ∃ kind, env.ast.canonicalKind? type = some kind ∧ kind.isBool = b := by
  simp [isBool, TypeKind.isBool]

@[simp] theorem gives_isPointer :
    (isPointer type).Gives env scope b ↔
      ∃ kind, env.ast.canonicalKind? type = some kind ∧ kind.isPointer = b := by
  simp only [isPointer, gives_bind, gives_canonicalKind]
  refine exists_congr fun kind => and_congr_right fun _ => ?_
  cases kind <;> simp [TypeKind.isPointer]

@[simp] theorem gives_isUnsigned :
    (isUnsigned type).Gives env scope b ↔
      ∃ kind, env.ast.canonicalKind? type = some kind ∧ kind.isUnsigned = b := by
  simp only [isUnsigned, gives_bind, gives_canonicalKind]
  refine exists_congr fun kind => and_congr_right fun _ => ?_
  cases kind <;> simp [TypeKind.isUnsigned]

@[simp] theorem gives_isReference :
    (isReference type).Gives env scope b ↔
      ∃ kind, env.ast.canonicalKind? type = some kind ∧ kind.isReference = b := by
  simp only [isReference, gives_bind, gives_canonicalKind]
  refine exists_congr fun kind => and_congr_right fun _ => ?_
  cases kind <;> simp [TypeKind.isReference]

@[simp] theorem gives_mapType :
    (mapType type usage location).Gives env scope m ↔
      (TypeContext.mk env.ast env.symbols scope.record location).map type usage = .ok m := by
  simp [mapType]

theorem IsNode.kind_eq {type : TypeKind} {e : Native.Expr} (h : IsNode env id kind type)
    (he : env.ast.expr? id = some e) : e.kind = kind := by
  obtain ⟨e', he', rfl, -⟩ := h
  rw [Option.mem_unique he he']

theorem IsNode.type_eq {type : TypeKind} {e : Native.Expr} (h : IsNode env id kind type)
    (he : env.ast.expr? id = some e) : env.ast.canonicalKind? e.type = some type := by
  obtain ⟨e', he', -, htype⟩ := h
  rw [Option.mem_unique he he', htype]

theorem HasManagedType.type_eq {e : Native.Expr} (h : HasManagedType env id name)
    (he : env.ast.expr? id = some e)
    (hm : (TypeContext.mk env.ast env.symbols record location).map e.type .cast = .ok m) :
    m.type = .named name := by
  obtain ⟨e', he', hmap⟩ := h
  obtain rfl := Option.mem_unique he he'
  obtain ⟨m', hm', hname⟩ := hmap record location
  rw [Except.ok.inj (hm.symm.trans hm'), hname]

/-! ## Parentheses -/

theorem Holds.paren_or_core (h : Holds env id s) :
    (∃ type inner x, s = .paren type x ∧ IsNode env id (.paren inner) type ∧ Holds env inner x) ∨
      s.core = s ∧ ∃ kind, IsNode env id kind s.type ∧ ∀ inner, kind ≠ .paren inner := by
  cases h with
  | paren hnode hx => exact .inl ⟨_, _, _, rfl, hnode, hx⟩
  | integer hnode | truth hnode | declRef hnode | unary hnode | binary hnode | conditional hnode
  | subscript hnode | implicitCast hnode | explicitCast hnode => exact .inr ⟨rfl, _, hnode, nofun⟩

theorem Holds.core (h : Holds env id s) (hinner : ignoreParensFrom env.ast fuel id = some inner) :
    Holds env inner s.core := by
  induction fuel generalizing id s with
  | zero => cases hinner
  | succ fuel ih =>
    rcases h.paren_or_core with ⟨type, inner', x, rfl, ⟨e, he, hkind, -⟩, hx⟩ |
      ⟨hcore, kind, ⟨e, he, rfl, -⟩, hkind⟩
    · simp only [ignoreParensFrom, he, hkind, bind, Option.bind_some] at hinner
      exact (ih hx hinner : Holds env inner x.core)
    · have hself : ignoreParensFrom env.ast (fuel + 1) id = some id := by
        simp only [ignoreParensFrom, he, bind, Option.bind_some]
        rfl
      rw [hcore, ← Option.mem_unique hself hinner]
      exact h

theorem Holds.behindImplicit (h : Holds env id s)
    (hinner : env.ast.ignoreImplicitFrom fuel id = some inner) : ∃ x, Holds env inner x := by
  induction fuel generalizing id s with
  | zero => cases hinner
  | succ fuel ih =>
    have hself := h
    cases h with
    | paren hnode hx | implicitCast hnode _ hx =>
      obtain ⟨e, he, hkind, -⟩ := hnode
      simp only [Native.Ast.ignoreImplicitFrom, he, hkind, bind, Option.bind_some] at hinner
      exact ih hx hinner
    | integer hnode | truth hnode | declRef hnode | unary hnode | binary hnode | conditional hnode
    | subscript hnode | explicitCast hnode =>
      obtain ⟨e, he, hkind, -⟩ := hnode
      simp only [Native.Ast.ignoreImplicitFrom, he, hkind, bind, Option.bind_some,
        Option.some.injEq] at hinner
      exact ⟨_, hinner ▸ hself⟩

/-! ## Local variables -/

theorem IsLocal.gives_declRefRule {e : Native.Expr} {id : DeclId} (h : IsLocal env id) :
    (declRefRule e id).Gives env scope (.ident (env.symbols.name id)) := by
  cases h with
  | @var d v type hd hkind hglobal hparent htype hreference _ =>
    have houtside : (isInRecord d).Gives env scope false := by
      unfold isInRecord
      cases hp : d.parent with
      | none => simp
      | some parent =>
        obtain ⟨p, hdecl, hrecord⟩ := hparent parent hp
        simp only [isRecord, gives_bind, gives_decl]
        refine ⟨p, hdecl, ?_⟩
        split
        · exact absurd ‹_› (hrecord _)
        · simp
    -- A variable is neither a global nor a static member here, so its name is used as it is.
    simp only [declRefRule, gives_bind, gives_decl, gives_nameOf]
    refine ⟨d, hd, _, rfl, ?_⟩
    simp only [hkind, gives_bind, gives_symbols]
    refine ⟨_, rfl, ?_⟩
    simp only [hglobal, Bool.false_eq_true, if_false, gives_bind]
    refine ⟨false, houtside, ?_⟩
    simp [localUse, htype, hreference]
  | @param d paramType type hd hkind htype hreference _ =>
    simp [declRefRule, hd, hkind, localUse, htype, hreference]

theorem IsLocal.gives_isReferenceDecl {id : DeclId} (h : IsLocal env id) :
    (isReferenceDecl id).Gives env scope false := by
  cases h with
  | var hd hkind _ _ htype hreference => simp [isReferenceDecl, hd, hkind, htype, hreference]
  | param hd hkind htype hreference => simp [isReferenceDecl, hd, hkind, htype, hreference]

/-- The C# names of local variables and parameters are names. -/
def NamesLocals (env : Env) : Prop :=
  ∀ id, IsLocal env id → Csharp.isName (env.symbols.name id) = true

theorem namesLocals_of_prepare {settings : Settings} {ast : Native.Ast} (hsettings : settings.fault? = none)
    (h : prepare settings ast = .ok env) : NamesLocals env := by
  have hdescribes := Symbols.describes_of_prepare h
  intro id hlocal
  cases hlocal with
  | @var d v type hd hkind _ _ _ _ hword =>
    have hname := hdescribes.name id d hd
    simp only [declName?, hkind, pure, Option.some.injEq] at hname
    rw [← hname]
    exact Managed.isName_escapeIdentifier (isWord_remapped hsettings hword)
  | @param d paramType type hd hkind _ _ hword =>
    have hname := hdescribes.name id d hd
    simp only [declName?, hkind] at hname
    split at hname
    · -- A parameter without a name is called after its position.
      simp only [bind, Option.bind_eq_some_iff, pure, Option.some.injEq] at hname
      obtain ⟨position, -, hname⟩ := hname
      rw [← hname]
      exact Managed.isName_numbered position
    · rename_i hnamed
      simp only [pure, Option.some.injEq] at hname
      rw [← hname]
      exact Managed.isName_escapeIdentifier (hword.resolve_left hnamed)

theorem Holds.referenceName_eq_none {name : Option String} (h : Holds env id s)
    (hname : (referenceName id).Gives env scope name) : name = none := by
  simp only [referenceName, gives_bind, gives_ignoreImplicit, gives_exprOf] at hname
  obtain ⟨inner, hinner, e, he, hname⟩ := hname
  obtain ⟨x, hx⟩ := h.behindImplicit hinner
  cases hx with
  | declRef hnode hlocal =>
    rw [hnode.kind_eq he] at hname
    simp only [gives_bind] at hname
    obtain ⟨flag, hflag, hname⟩ := hname
    obtain rfl := hflag.unique hlocal.gives_isReferenceDecl
    simpa [eq_comm] using hname
  | integer hnode | truth hnode | paren hnode | unary hnode | binary hnode | conditional hnode
  | subscript hnode | implicitCast hnode | explicitCast hnode =>
    rw [hnode.kind_eq he] at hname
    simpa [eq_comm] using hname

/-! ## Shared forms -/

theorem denotes_grouped (h : Denotes e t) : Denotes e.grouped t := by
  unfold Managed.Expr.grouped
  split
  · exact h
  · exact .paren h

theorem denotes_zero : Denotes (.literal "0") (.number 0 .none) :=
  .number (by decide)

theorem denotes_ofTruth (h : Denotes c t) : Denotes (.ofTruth c) (Forms.asInteger t) :=
  .conditional (denotes_grouped h) (.number (by decide)) denotes_zero

theorem denotes_truthAs {kind : TypeKind} (htype : env.ast.canonicalKind? type = some kind)
    (hc : Denotes c t) (h : (truthAs type c).Gives env scope e) :
    Denotes e (Forms.ofTruth kind t).value := by
  simp only [truthAs, gives_bind, gives_isBool, htype, Option.some.injEq, exists_eq_left'] at h
  rw [Forms.ofTruth]
  split at h
  · rename_i hbool
    rw [if_pos hbool, ← gives_pure.mp h]
    exact hc
  · rename_i hbool
    rw [if_neg hbool, ← gives_pure.mp h]
    exact denotes_ofTruth hc

theorem isTypeWord_of_primitive (h : name ∈ primitiveTypes) : Csharp.isTypeWord name = true := by
  have hall : ∀ name ∈ primitiveTypes, Csharp.isTypeWord name = true := by decide
  exact hall name h

section Casts

variable {id : ExprId}

theorem denotes_castTo (hn : env.ast.expr? id = some n) (hmanaged : HasManagedType env id managed)
    (hprimitive : managed ∈ primitiveTypes) (hx : Denotes x t)
    (h : (castTo n.type x location).Gives env scope e) : Denotes e (.cast managed t) := by
  simp only [castTo, gives_bind, gives_mapType, gives_pure] at h
  obtain ⟨m, hm, rfl⟩ := h
  rw [hmanaged.type_eq hn hm]
  exact .cast (isTypeWord_of_primitive hprimitive) hx

theorem denotes_uncheckedCast (hn : env.ast.expr? id = some n) (hmanaged : HasManagedType env id managed)
    (hprimitive : managed ∈ primitiveTypes) (hx : Denotes x t)
    (h : (uncheckedCast n.type x location).Gives env scope e) :
    Denotes e (.unchecked (.cast managed t)) := by
  simp only [uncheckedCast, gives_bind, gives_mapType, gives_pure] at h
  obtain ⟨m, hm, rfl⟩ := h
  rw [hmanaged.type_eq hn hm]
  exact .unchecked (.cast (isTypeWord_of_primitive hprimitive) hx)

end Casts

/-! ## The rules -/

/-- What the parts of an expression give stands for the intended trees. -/
structure Parts.Sound (parts : Parts) (env : Env) (scope : Scope) : Prop where
  value : ∀ {id s e}, Holds env id s → (parts.value id).Gives env scope e → Denotes e s.value
  condition : ∀ {id s e}, Holds env id s → (parts.condition id).Gives env scope e →
    Denotes e s.condition

theorem integerRule_denotes {spelling : String} {value : Nat} (hn : env.ast.expr? id = some n)
    (hvalue : Native.integer? spelling.toList = some value) (hmanaged : HasManagedType env id managed)
    (h : (integerRule n spelling).Gives env scope e) :
    Denotes e (.number value (Csharp.Suffix.ofType managed)) := by
  obtain ⟨body, hbody, hreads⟩ := integer_of_nativeInteger hvalue
  simp only [integerRule, hbody, gives_bind, gives_mapType, gives_pure] at h
  obtain ⟨m, hm, rfl⟩ := h
  have hname : m.name = managed := by
    rw [MappedType.name, hmanaged.type_eq hn hm]
    rfl
  rw [hname]
  exact .number (hreads managed)

section Operators

variable {parts : Parts} {x : Source}

theorem Holds.gives_promotedOperand (h : Holds env operand x) (scope : Scope) :
    ∃ promoted, (promotedOperand operand).Gives env scope promoted ∧
      ∀ inner ∈ promoted, ∃ n, env.ast.expr? inner = some n ∧
        (enumOf n.type).Gives env scope none := by
  obtain ⟨kind, n, hn, rfl, -⟩ := h.isNode
  simp only [promotedOperand, gives_bind, gives_exprOf, exists_found hn]
  split
  · rename_i inner hkind
    refine ⟨_, .pure, fun _ hinner => ?_⟩
    cases hinner
    cases h with
    | implicitCast hnode hcast hinner =>
      -- Only truth values are promoted in these trees.
      cases (hnode.kind_eq hn).symm.trans hkind
      obtain ⟨_, m, hm, -, htype⟩ := hinner.isNode
      refine ⟨m, hm, ?_⟩
      rcases hcast with hcast | hcast | ⟨-, hbool, -⟩
      · cases hcast
      · cases hcast
      · rw [TypeKind.isBool, beq_iff_eq] at hbool
        simp [enumOf, htype, hbool]
    | integer hnode | truth hnode | declRef hnode | paren hnode | unary hnode | binary hnode
    | conditional hnode | subscript hnode | explicitCast hnode =>
      cases (hnode.kind_eq hn).symm.trans hkind
  · exact ⟨none, .pure, by simp⟩

theorem gives_enumOperands (hx : Holds env lhs x) (hy : Holds env rhs y) :
    (enumOperands op lhs rhs).Gives env scope none := by
  obtain ⟨left, hleft, hleftEnum⟩ := hx.gives_promotedOperand scope
  obtain ⟨right, hright, hrightEnum⟩ := hy.gives_promotedOperand scope
  unfold enumOperands
  split
  · simp
  · simp only [gives_bind]
    refine ⟨left, hleft, right, hright, ?_⟩
    cases left with
    | none => simp
    | some left =>
      cases right with
      | none => simp
      | some right =>
        obtain ⟨l, hl, hlenum⟩ := hleftEnum left rfl
        obtain ⟨r, hr, hrenum⟩ := hrightEnum right rfl
        simp only [gives_bind, gives_exprOf, gives_symbols]
        exact ⟨l, hl, none, hlenum, r, hr, none, hrenum, _, rfl, by simp⟩

theorem binaryRaw_denotes_logical (hparts : parts.Sound env scope) (hop : op.isLogical = true)
    (hx : Holds env lhs x) (hy : Holds env rhs y) (h : (binaryRaw parts op lhs rhs).Gives env scope e) :
    Denotes e (.binary op x.condition y.condition) := by
  simp only [binaryRaw, hop, if_true, gives_bind, gives_pure] at h
  obtain ⟨l, hl, r, hr, rfl⟩ := h
  refine .binary ?_ (hparts.condition hx hl) (hparts.condition hy hr)
  rintro rfl
  cases hop

theorem binaryRaw_denotes (hparts : parts.Sound env scope) (hop : op.isLogical = false)
    (hcomma : op ≠ .comma) (hx : Holds env lhs x) (hy : Holds env rhs y)
    (h : (binaryRaw parts op lhs rhs).Gives env scope e) : Denotes e (.binary op x.value y.value) := by
  simp only [binaryRaw, hop, Bool.false_eq_true, if_false, gives_bind] at h
  obtain ⟨operands, hoperands, h⟩ := h
  obtain rfl := hoperands.unique (gives_enumOperands hx hy)
  simp only [gives_bind, gives_pure] at h
  obtain ⟨l, hl, r, hr, rfl⟩ := h
  exact .binary hcomma (hparts.value hx hl) (hparts.value hy hr)

theorem logicalNot_denotes (hparts : parts.Sound env scope) (hx : Holds env operand x)
    (h : (logicalNot parts operand).Gives env scope e) : Denotes e (.unary .logicalNot x.condition) := by
  simp only [logicalNot, gives_bind, gives_pure] at h
  obtain ⟨c, hc, rfl⟩ := h
  exact .unary (hparts.condition hx hc) fun hop => absurd hop (by decide)

theorem binaryRule_denotes {type : TypeKind} (hparts : parts.Sound env scope)
    (htype : env.ast.canonicalKind? n.type = some type) (hop : op ≠ .comma) (hx : Holds env lhs x)
    (hy : Holds env rhs y) (h : (binaryRule parts n op lhs rhs).Gives env scope e) :
    Denotes e (Source.binary type op x y).value := by
  simp only [binaryRule, if_neg hop, gives_bind] at h
  obtain ⟨raw, hraw, h⟩ := h
  rw [Source.value]
  cases hlogical : op.isLogical with
  | true =>
    simp only [hlogical, Bool.or_true, if_true] at h
    rw [Source.forms_logical hlogical]
    exact denotes_truthAs htype (binaryRaw_denotes_logical hparts hlogical hx hy hraw) h
  | false =>
    have hraw := binaryRaw_denotes hparts hlogical hop hx hy hraw
    cases hcomparison : op.isComparison with
    | true =>
      simp only [hcomparison, Bool.true_or, if_true] at h
      rw [Source.forms_comparison hcomparison]
      exact denotes_truthAs htype hraw h
    | false =>
      simp only [hlogical, hcomparison, Bool.or_self, Bool.false_eq_true, if_false, gives_pure] at h
      rw [Source.forms_binary hlogical hcomparison]
      exact h ▸ hraw

theorem unaryRule_denotes {type : TypeKind} {op : UnaryOp} (hparts : parts.Sound env scope)
    (htype : env.ast.canonicalKind? n.type = some type) (hlvalue : op = .addressOf → x.isLvalue = true)
    (hx : Holds env operand x) (h : (unaryRule parts n op operand).Gives env scope e) :
    Denotes e (Source.unary type op x).value := by
  unfold unaryRule at h
  split at h
  · rw [gives_bind] at h
    obtain ⟨c, hc, h⟩ := h
    exact denotes_truthAs htype (logicalNot_denotes hparts hx hc) h
  · -- The operand is no reference, so its address is taken.
    rw [gives_bind] at h
    obtain ⟨name, hname, h⟩ := h
    obtain rfl := hx.referenceName_eq_none hname
    simp only [gives_bind, gives_markPointers, gives_pure] at h
    obtain ⟨_, _, v, hv, rfl⟩ := h
    exact .unary (hparts.value hx hv) fun _ => Source.value_ne_addressOf (hlvalue rfl)
  · rename_i hnot haddress
    simp only [gives_bind, gives_markPointersIf, gives_pure] at h
    obtain ⟨_, _, v, hv, rfl⟩ := h
    rw [Source.value, Source.forms_unary hnot]
    exact .unary (hparts.value hx hv) fun hop => absurd hop haddress

theorem conditionalRule_denotes {cond : ExprId} {c : Source} (type : TypeKind)
    (hparts : parts.Sound env scope) (hc : Holds env cond c) (hx : Holds env lhs x) (hy : Holds env rhs y)
    (h : (conditionalRule parts cond lhs rhs).Gives env scope e) :
    Denotes e (Source.conditional type c x y).value := by
  simp only [conditionalRule, gives_bind, gives_pure] at h
  obtain ⟨_, hcond, _, hthen, _, helse, rfl⟩ := h
  exact .conditional (hparts.condition hc hcond) (hparts.value hx hthen) (hparts.value hy helse)

theorem subscriptRule_denotes (type : TypeKind) (hparts : parts.Sound env scope) (hx : Holds env lhs x)
    (hy : Holds env rhs y) (h : (subscriptRule parts lhs rhs).Gives env scope e) :
    Denotes e (Source.subscript type x y).value := by
  simp only [subscriptRule, gives_bind] at h
  obtain ⟨_, -, kind, -, h⟩ := h
  obtain ⟨_, hbase, _, hindex, rfl⟩ : ∃ b, (parts.value lhs).Gives env scope b ∧
      ∃ i, (parts.value rhs).Gives env scope i ∧ .subscript b i = e := by
    split at h <;> simpa using h
  exact .subscript (hparts.value hx hbase) (hparts.value hy hindex)

end Operators

section Conversions

variable {parts : Parts} {id operand : ExprId} {n : Native.Expr} {x : Source}

theorem implicitCastRule_denotes {kind : CastKind} (hparts : parts.Sound env scope)
    (htype : env.ast.canonicalKind? n.type = some type)
    (hkind : kind = .lvalueToRValue ∨ kind = .integralToBoolean ∨
      kind = .integralCast ∧ x.type.isBool = true ∧ type.isBool = false) (hx : Holds env operand x)
    (h : (implicitCastRule parts n kind operand).Gives env scope e) :
    Denotes e (Source.implicitCast type kind x).value := by
  simp only [implicitCastRule, gives_bind, gives_exprOf] at h
  obtain ⟨m, hm, h⟩ := h
  rcases hkind with rfl | rfl | ⟨rfl, hsource, htarget⟩
  · show Denotes e x.value
    exact hparts.value hx h
  · show Denotes e x.condition
    exact hparts.condition hx h
  · obtain ⟨_, hnode⟩ := hx.isNode
    simp only [integralCast, gives_bind, gives_exprOf, hm, gives_isBool, htype, hnode.type_eq hm,
      Option.some.injEq, exists_eq_left', hsource, htarget, Bool.not_false, Bool.and_true, if_true,
      gives_pure] at h
    obtain ⟨v, hv, rfl⟩ := h
    exact denotes_ofTruth (hparts.value hx hv)

theorem Holds.literalSign_eq {sign : Option Bool} (hx : Holds env operand x)
    (h : (literalSign operand).Gives env scope sign) : (sign == some true) = x.isNegatedLiteral := by
  simp only [literalSign, gives_bind, gives_ignoreParens, gives_exprOf] at h
  obtain ⟨inner, hinner, m, hm, h⟩ := h
  have hcore := hx.core hinner
  rw [Source.isNegatedLiteral]
  generalize x.core = c at hcore
  cases hcore with
  | integer hnode | truth hnode | declRef hnode | paren hnode | binary hnode | conditional hnode
  | subscript hnode | implicitCast hnode | explicitCast hnode =>
    rw [hnode.kind_eq hm] at h
    rw [← gives_pure.mp h]
    rfl
  | @unary _ operand' _ op y hnode _ hy =>
    rw [hnode.kind_eq hm] at h
    split at h
    · rename_i hkind
      cases hkind
    · rename_i hkind
      cases hkind
      simp only [gives_bind, gives_ignoreParens, gives_exprOf] at h
      obtain ⟨inner', hinner', m', hm', h⟩ := h
      have hcore' := hy.core hinner'
      show _ = y.isLiteral
      rw [Source.isLiteral]
      generalize y.core = c' at hcore'
      cases hcore' with
      | integer hnode | truth hnode | declRef hnode | paren hnode | unary hnode | binary hnode
      | conditional hnode | subscript hnode | implicitCast hnode | explicitCast hnode =>
        rw [hnode.kind_eq hm'] at h
        rw [← gives_pure.mp h]
        rfl
    · rename_i hminus
      rw [← gives_pure.mp h]
      split
      · rename_i heq
        cases heq
        exact absurd rfl (hminus _)
      · rfl

theorem dynamicCast_denotes (hparts : parts.Sound env scope) (hn : env.ast.expr? id = some n)
    (hmanaged : HasManagedType env id managed) (hprimitive : managed ∈ primitiveTypes)
    (hx : Holds env operand x) (h : (dynamicCast parts n.type source operand location).Gives env scope e) :
    Denotes e (.cast managed x.value) := by
  -- Whatever decides about the cast, it ends in a cast or in a refusal.
  have hcast : ∀ {isDowncast : Bool} {node reason : String},
      (if isDowncast = true then do castTo n.type (← parts.value operand) location
        else unsupported node location reason : Emit Managed.Expr).Gives env scope e →
      Denotes e (.cast managed x.value) := by
    intro isDowncast node reason h
    split at h
    · rw [gives_bind] at h
      obtain ⟨v, hv, h⟩ := h
      exact denotes_castTo hn hmanaged hprimitive (hparts.value hx hv) h
    · exact absurd h not_gives_unsupported
  simp only [dynamicCast, gives_bind] at h
  obtain ⟨_, -, _, -, _, -, _, -, _, -, h⟩ := h
  split at h
  · split at h
    · simp only [gives_bind] at h
      obtain ⟨_, -, _, -, h⟩ := h
      exact hcast h
    · rw [gives_bind] at h
      obtain ⟨_, -, h⟩ := h
      exact hcast h
  · rw [gives_bind] at h
    obtain ⟨_, -, h⟩ := h
    exact hcast h

theorem writtenCast_denotes (hparts : parts.Sound env scope) (hn : env.ast.expr? id = some n)
    (htype : env.ast.canonicalKind? n.type = some type)
    (hsource : env.ast.canonicalKind? source = some x.type) (hmanaged : HasManagedType env id managed)
    (hprimitive : managed ∈ primitiveTypes) (hx : Holds env operand x)
    (h : (writtenCast parts n.type source operand location).Gives env scope e) :
    Denotes e (if x.type.isBool && !type.isBool then
        if managed = "int" then Forms.asInteger x.value else .cast managed (Forms.asInteger x.value)
      else if type.isUnsigned && x.isNegatedLiteral then .unchecked (.cast managed x.value)
      else .cast managed x.value) := by
  simp only [writtenCast, gives_bind, gives_isBool, htype, hsource, Option.some.injEq,
    exists_eq_left'] at h
  split at h
  · rename_i hbool
    simp only [gives_bind, gives_mapType] at h
    obtain ⟨v, hv, mapped, hmapped, h⟩ := h
    have hname : mapped.name = managed := by
      rw [MappedType.name, hmanaged.type_eq hn hmapped]
      rfl
    have hinteger := denotes_ofTruth (hparts.value hx hv)
    rw [hname] at h
    rw [if_pos hbool]
    split at h
    · rename_i hint
      rw [if_pos hint, ← gives_pure.mp h]
      exact hinteger
    · rename_i hint
      rw [if_neg hint]
      exact denotes_castTo hn hmanaged hprimitive hinteger h
  · rename_i hbool
    simp only [gives_bind, gives_isUnsigned, htype, Option.some.injEq, exists_eq_left'] at h
    obtain ⟨sign, hsign, h⟩ := h
    rw [hx.literalSign_eq hsign] at h
    rw [if_neg hbool]
    split at h
    · rename_i hunchecked
      rw [gives_bind] at h
      obtain ⟨v, hv, h⟩ := h
      rw [if_pos hunchecked]
      exact denotes_uncheckedCast hn hmanaged hprimitive (hparts.value hx hv) h
    · rename_i hunchecked
      rw [gives_bind] at h
      obtain ⟨v, hv, h⟩ := h
      rw [if_neg hunchecked]
      exact denotes_castTo hn hmanaged hprimitive (hparts.value hx hv) h

theorem explicitCastRule_denotes {kind : CastKind} (hparts : parts.Sound env scope)
    (hn : env.ast.expr? id = some n) (htype : env.ast.canonicalKind? n.type = some type)
    (hmanaged : HasManagedType env id managed) (hprimitive : managed ∈ primitiveTypes)
    (hx : Holds env operand x) (h : (explicitCastRule parts n style kind operand).Gives env scope e) :
    Denotes e (Source.explicitCast type style kind managed x).value := by
  simp only [explicitCastRule, gives_bind, gives_exprOf] at h
  obtain ⟨m, hm, h⟩ := h
  rw [Source.value, Source.forms]
  split at h
  · exact hparts.value hx h
  · exact dynamicCast_denotes hparts hn hmanaged hprimitive hx h
  · exact absurd h not_gives_unsupported
  -- The three casts to a truth value differ only in what they convert.
  · rename_i hconst hdynamic
    rw [if_neg hconst, if_neg hdynamic]
    exact hparts.condition hx h
  · rename_i hconst hdynamic
    rw [if_neg hconst, if_neg hdynamic]
    exact hparts.condition hx h
  · rename_i hconst hdynamic
    rw [if_neg hconst, if_neg hdynamic]
    exact hparts.condition hx h
  · rename_i hconst hdynamic _ hintegral hfloating hpointer
    have htruth : isTruthCast kind = false := by
      cases kind <;> first | rfl | contradiction
    obtain ⟨_, hnode⟩ := hx.isNode
    rw [if_neg hconst, if_neg hdynamic, htruth, if_neg Bool.false_ne_true]
    exact writtenCast_denotes hparts hn htype (hnode.type_eq hm) hmanaged hprimitive hx h

end Conversions

/-! ## All expressions -/

section All

variable {parts : Parts} {id : ExprId} {s : Source} {e : Managed.Expr}

theorem comparedRule_denotes (hs : Holds env id s)
    (hvalue : ∀ {v}, (value id).Gives env scope v → Denotes v s.value) (htruth : s.forms.truth = none)
    (h : (comparedRule value id).Gives env scope e) : Denotes e s.condition := by
  obtain ⟨kind, hnode⟩ := hs.isNode
  simp only [comparedRule, gives_bind, gives_exprOf] at h
  obtain ⟨n, hn, v, hv, h⟩ := h
  simp only [gives_isBool, hnode.type_eq hn, Option.some.injEq, exists_eq_left'] at h
  rw [Source.condition, Forms.condition, htruth, Option.getD_none, Forms.nonzero]
  split at h
  · rename_i hbool
    rw [if_pos hbool, ← gives_pure.mp h]
    exact hvalue hv
  · rename_i hbool
    simp only [gives_bind, gives_isPointer, hnode.type_eq hn, Option.some.injEq,
      exists_eq_left'] at h
    rw [if_neg hbool]
    split at h
    · rename_i hpointer
      rw [if_pos hpointer, ← gives_pure.mp h]
      exact .binary (by decide) (.paren (hvalue hv)) .null
    · rename_i hpointer
      rw [if_neg hpointer, ← gives_pure.mp h]
      exact .binary (by decide) (.paren (hvalue hv)) denotes_zero

theorem conditionRule_denotes (hparts : parts.Sound env scope) (hs : Holds env id s)
    (hvalue : ∀ {v}, (value id).Gives env scope v → Denotes v s.value)
    (h : (conditionRule parts value id).Gives env scope e) : Denotes e s.condition := by
  simp only [conditionRule, gives_bind, gives_ignoreParens, gives_exprOf] at h
  obtain ⟨inner, hinner, m, hm, h⟩ := h
  have hcompared : s.forms.truth = none → (comparedRule value id).Gives env scope e →
      Denotes e s.condition := comparedRule_denotes hs hvalue
  -- Parentheses do not change the forms, so the core decides.
  have hcore := hs.core hinner
  have hparen := s.core_ne_paren
  rw [Source.condition, ← s.forms_core] at *
  generalize s.core = c at *
  cases hcore with
  | @binary _ lhs rhs _ op x y hnode hop hx hy =>
    rw [hnode.kind_eq hm] at h
    dsimp only at h
    cases hlogical : op.isLogical with
    | true =>
      simp only [hlogical, Bool.or_true, if_true] at h
      rw [Source.forms_logical hlogical]
      exact binaryRaw_denotes_logical hparts hlogical hx hy h
    | false =>
      cases hcomparison : op.isComparison with
      | true =>
        simp only [hcomparison, Bool.true_or, if_true] at h
        rw [Source.forms_comparison hcomparison]
        exact binaryRaw_denotes hparts hlogical hop hx hy h
      | false =>
        simp only [hlogical, hcomparison, Bool.or_self, Bool.false_eq_true, if_false] at h
        exact hcompared (by rw [Source.forms_binary hlogical hcomparison]) h
  | @unary _ operand _ op x hnode _ hx =>
    rw [hnode.kind_eq hm] at h
    by_cases hop : op = .logicalNot
    · subst hop
      exact logicalNot_denotes hparts hx h
    · refine hcompared (by rw [Source.forms_unary hop]) ?_
      cases op <;> first | exact h | contradiction
  | paren => exact absurd rfl (hparen _ _)
  | integer hnode | truth hnode | declRef hnode | conditional hnode | subscript hnode
  | implicitCast hnode | explicitCast hnode =>
    rw [hnode.kind_eq hm] at h
    exact hcompared rfl h

theorem valueRule_denotes (hnames : NamesLocals env) (hparts : parts.Sound env scope) (hs : Holds env id s)
    (h : (valueRule parts id).Gives env scope e) : Denotes e s.value := by
  simp only [valueRule, gives_bind, gives_exprOf] at h
  obtain ⟨n, hn, h⟩ := h
  cases hs with
  | integer hnode hvalue hmanaged =>
    rw [hnode.kind_eq hn] at h
    exact integerRule_denotes hn hvalue hmanaged h
  | truth hnode =>
    rw [hnode.kind_eq hn] at h
    exact gives_pure.mp h ▸ .truth _
  | declRef hnode hlocal =>
    rw [hnode.kind_eq hn] at h
    obtain rfl := h.unique hlocal.gives_declRefRule
    exact .name (hnames _ hlocal)
  | paren hnode hx =>
    rw [hnode.kind_eq hn] at h
    simp only [gives_bind, gives_pure] at h
    obtain ⟨v, hv, rfl⟩ := h
    have hinner := hparts.value hx hv
    exact .paren hinner
  | unary hnode hlvalue hx =>
    rw [hnode.kind_eq hn] at h
    exact unaryRule_denotes hparts (hnode.type_eq hn) hlvalue hx h
  | binary hnode hop hx hy =>
    rw [hnode.kind_eq hn] at h
    exact binaryRule_denotes hparts (hnode.type_eq hn) hop hx hy h
  | conditional hnode hc hx hy =>
    rw [hnode.kind_eq hn] at h
    exact conditionalRule_denotes _ hparts hc hx hy h
  | subscript hnode hx hy =>
    rw [hnode.kind_eq hn] at h
    exact subscriptRule_denotes _ hparts hx hy h
  | implicitCast hnode hkind hx =>
    rw [hnode.kind_eq hn] at h
    exact implicitCastRule_denotes hparts (hnode.type_eq hn) hkind hx h
  | explicitCast hnode hmanaged hprimitive hx =>
    rw [hnode.kind_eq hn] at h
    exact explicitCastRule_denotes hparts hn (hnode.type_eq hn) hmanaged hprimitive hx h

end All

theorem partsTo_sound (hnames : NamesLocals env) (depth : Nat) : (partsTo depth).Sound env scope := by
  induction depth with
  | zero => exact ⟨fun _ h => absurd (gives_ofResult.mp h) nofun,
      fun _ h => absurd (gives_ofResult.mp h) nofun⟩
  | succ depth ih =>
    refine ⟨fun hs h => valueRule_denotes hnames ih hs h, fun hs h => ?_⟩
    exact conditionRule_denotes ih hs (fun hv => valueRule_denotes hnames ih hs hv) h

theorem emitValue_denotes (hnames : NamesLocals env) (hs : Holds env id s)
    (h : (emitValue id).Gives env scope e) : Denotes e s.value := by
  exact (partsTo_sound hnames _).value hs (gives_emitValue.mp h)

theorem emitCondition_denotes (hnames : NamesLocals env) (hs : Holds env id s)
    (h : (emitCondition id).Gives env scope e) : Denotes e s.condition := by
  exact (partsTo_sound hnames _).condition hs (gives_emitCondition.mp h)

/-! ## Reading emitted expressions -/

/-- **An emitted expression is read back as the intended tree**, which binds at least as tightly as the
level that emission reports. -/
theorem emitted_expression_reads_back {settings : Settings} {ast : Native.Ast} {c c' : Context}
    {id : ExprId} {s : Source} {e : Managed.Expr} (hsettings : settings.fault? = none)
    (henv : prepare settings ast = .ok env) (hs : Holds env id s)
    (h : (emitValue id).run env c = (.ok e, c')) :
    ∃ t, Csharp.read e.text = some t ∧ t.bare = s.value ∧ e.level.rank ≤ t.rank := by
  have hdenotes := emitValue_denotes (namesLocals_of_prepare hsettings henv) hs (gives_of_run h)
  obtain ⟨t, hread, hbare, hrank⟩ := Csharp.read_text hdenotes
  exact ⟨t, hread, hbare, Nat.le_of_eq hrank.symm⟩

/-- The expression `!(class < 1) ? -(-1) : 0x1'0u + (unsigned)-1` about a parameter `class`. -/
def signedChoice : Env where
  ast :=
    { file := "choice.h"
      decls := #[{ kind := .param ⟨0⟩, name := "class" }]
      exprs :=
        #[{ kind := .declRef ⟨0⟩, type := ⟨0⟩ },
          { kind := .integer "1", type := ⟨0⟩ },
          { kind := .binary .lt ⟨0⟩ ⟨1⟩, type := ⟨0⟩ },
          { kind := .paren ⟨2⟩, type := ⟨0⟩ },
          { kind := .unary .logicalNot ⟨3⟩, type := ⟨0⟩ },
          { kind := .unary .minus ⟨1⟩, type := ⟨0⟩ },
          { kind := .unary .minus ⟨5⟩, type := ⟨0⟩ },
          { kind := .integer "0x1'0u", type := ⟨1⟩ },
          { kind := .explicitCast .cStyle .integralCast ⟨5⟩, type := ⟨1⟩ },
          { kind := .binary .add ⟨7⟩ ⟨8⟩, type := ⟨1⟩ },
          { kind := .conditional ⟨4⟩ ⟨6⟩ ⟨9⟩, type := ⟨1⟩ }]
      types := #[.ofBuiltin .int, .ofBuiltin .uInt] }
  settings := {}
  symbols := ⟨#["@class"], [], [], [], [], [], []⟩

def signedChoiceCode : Managed.Expr :=
  .conditional (.unary .logicalNot (.binary .lt (.ident "@class") (.literal "1")))
    (.unary .minus (.unary .minus (.literal "1")))
    (.binary .add (.literal "0x1_0U")
      (.unchecked (.castTo (.named "uint") (.unary .minus (.literal "1")))))

def signedChoiceSource : Source :=
  let int : TypeKind := .builtin .int
  let uInt : TypeKind := .builtin .uInt
  let one := Source.integer int 1 "int"
  .conditional uInt
    (.unary int .logicalNot (.paren int (.binary int .lt (.declRef int ⟨0⟩ "@class") one)))
    (.unary int .minus (.unary int .minus one))
    (.binary uInt .add (.integer uInt 16 "uint")
      (.explicitCast uInt .cStyle .integralCast "uint" (.unary int .minus one)))

theorem signedChoice_holds : Holds signedChoice ⟨10⟩ signedChoiceSource := by
  have hone : Holds signedChoice ⟨1⟩ (.integer (.builtin .int) 1 "int") :=
    .integer ⟨_, rfl, rfl, rfl⟩ (by decide) ⟨_, rfl, fun _ _ => ⟨_, rfl, rfl⟩⟩
  have hparameter : Holds signedChoice ⟨0⟩ (.declRef (.builtin .int) ⟨0⟩ "@class") :=
    .declRef ⟨_, rfl, rfl, rfl⟩ (.param rfl rfl rfl rfl (.inr (by decide)))
  have hminus : Holds signedChoice ⟨5⟩
      (.unary (.builtin .int) .minus (.integer (.builtin .int) 1 "int")) :=
    .unary ⟨_, rfl, rfl, rfl⟩ nofun hone
  have hcast : Holds signedChoice ⟨8⟩ (.explicitCast (.builtin .uInt) .cStyle .integralCast "uint"
      (.unary (.builtin .int) .minus (.integer (.builtin .int) 1 "int"))) :=
    .explicitCast ⟨_, rfl, rfl, rfl⟩ ⟨_, rfl, fun _ _ => ⟨_, rfl, rfl⟩⟩ (by decide) hminus
  have hsixteen : Holds signedChoice ⟨7⟩ (.integer (.builtin .uInt) 16 "uint") :=
    .integer ⟨_, rfl, rfl, rfl⟩ (by decide) ⟨_, rfl, fun _ _ => ⟨_, rfl, rfl⟩⟩
  refine .conditional ⟨_, rfl, rfl, rfl⟩ ?_ ?_ ?_
  · exact .unary ⟨_, rfl, rfl, rfl⟩ nofun (.paren ⟨_, rfl, rfl, rfl⟩
      (.binary ⟨_, rfl, rfl, rfl⟩ nofun hparameter hone))
  · exact .unary ⟨_, rfl, rfl, rfl⟩ nofun hminus
  · exact .binary ⟨_, rfl, rfl, rfl⟩ nofun hsixteen hcast

theorem signedChoice_reads_back :
    (emitValue ⟨10⟩).run signedChoice {} = (.ok signedChoiceCode, {}) ∧
      signedChoiceCode.text = "!(@class < 1) ? -(-1) : 0x1_0U + unchecked((uint)(-1))" ∧
      ∃ t, Csharp.read signedChoiceCode.text = some t ∧ t.bare = signedChoiceSource.value ∧
        signedChoiceCode.level.rank ≤ t.rank :=
  have hrun : (emitValue ⟨10⟩).run signedChoice {} = (.ok signedChoiceCode, {}) := rfl
  ⟨hrun, by decide,
    emitted_expression_reads_back (show Settings.fault? {} = none from rfl)
      (show prepare {} signedChoice.ast = .ok signedChoice from rfl) signedChoice_holds hrun⟩

end Interop.Binding
