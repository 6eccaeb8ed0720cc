import Interop.Proofs.Completion.Symbols
import Interop.Proofs.Emission

/-!
# Steps that complete

`Emit.Completes` says of an emission step that it does not run into a broken reference: it gives a
value, or fails for want of a C# form. `completes_bind` takes a sequence of steps apart: the second step
has to complete for the values that the first one gives.
-/

namespace Interop.Binding

open Native (Ast ExprId DeclId StmtId TypeId TypeKind Decl Ref DeclKind ExprKind)
open Relation

variable {id : ExprId}

/-! ## What the tree holds -/

abbrev Env.HasDecl (env : Env) (id : DeclId) : Prop := env.ast.inRange (.decl id)

abbrev Env.HasExpr (env : Env) (id : ExprId) : Prop := env.ast.inRange (.expr id)

abbrev Env.HasStmt (env : Env) (id : StmtId) : Prop := env.ast.inRange (.stmt id)

abbrev Env.HasType (env : Env) (id : TypeId) : Prop := env.ast.inRange (.type id)

namespace Env.Intact

variable {env : Env} (h : env.Intact) {r : Ref}

include h

theorem ofDecl {id} {d} (hd : env.ast.decl? id = some d) (hr : r ∈ d.kind.refs) :
    env.ast.inRange r :=
  h.tree.valid.ofDecl hd hr

theorem ofExpr {e} (he : env.ast.expr? id = some e) (hr : r ∈ e.kind.refs) :
    env.ast.inRange r :=
  h.tree.valid.ofExpr he hr

theorem ofStmt {id} {s} (hs : env.ast.stmt? id = some s) (hr : r ∈ s.kind.refs) :
    env.ast.inRange r :=
  h.tree.valid.ofStmt hs hr

theorem ofKind {type} {kind} (hkind : env.ast.canonicalKind? type = some kind)
    (hr : r ∈ kind.refs) : env.ast.inRange r :=
  h.tree.valid.ofCanonicalKind hkind hr

end Env.Intact

namespace Emit

variable {id : DeclId}

/-- The step runs into no broken reference in any context of the scope. -/
def Completes (m : Emit α) (env : Env) (scope : Scope) : Prop :=
  ∀ c : Context, c.scope = scope → Result.Completes (m.run env c).1

variable {env : Env} {scope : Scope}
variable {m : Emit α} {f : α → Emit β} {r : Result α} {o : Option α}

theorem completes_iff : m.Completes env scope ↔ Result.Completes (m.outcome env scope).1 := by
  constructor
  · intro h
    exact h _ scope.scope_context
  · intro h c hc
    rwa [run_eq, hc]

@[simp] theorem completes_ofResult : (ofResult r).Completes env scope ↔ Result.Completes r :=
  completes_iff

@[simp] protected theorem Completes.pure {a} : (pure a : Emit α).Completes env scope :=
  completes_ofResult.mpr Result.completes_ok

@[simp] theorem completes_bind :
    (m >>= f).Completes env scope ↔
      m.Completes env scope ∧ ∀ a, m.Gives env scope a → (f a).Completes env scope := by
  simp only [completes_iff, gives_iff, fst_outcome_bind, Result.completes_bind]

@[simp] theorem completes_lift_option : (liftM o : Emit α).Completes env scope ↔ o.isSome := by
  change (ofResult (found o)).Completes env scope ↔ _
  simp

namespace Completes

variable {m n : Emit α} {f : α → Emit β}

theorem bind (hm : m.Completes env scope) (hf : ∀ a, m.Gives env scope a → (f a).Completes env scope) :
    (m >>= f).Completes env scope :=
  completes_bind.mpr ⟨hm, hf⟩

theorem skip (hm : m.Completes env scope) (hf : ∀ a, (f a).Completes env scope) :
    (m >>= f).Completes env scope :=
  hm.bind fun a _ => hf a

theorem returned {g : α → β} (hm : m.Completes env scope) :
    (m >>= fun a => pure (g a)).Completes env scope :=
  hm.skip fun _ => .pure

theorem ite {p} [Decidable p] (hm : m.Completes env scope) (hn : n.Completes env scope) :
    (if p then m else n).Completes env scope := by
  split
  · exact hm
  · exact hn

theorem lifted {o} (ho : o.isSome) (hf : ∀ a, o = some a → (f a).Completes env scope) :
    ((liftM o : Emit α) >>= f).Completes env scope :=
  (completes_lift_option.mpr ho).bind fun a ha => hf a (gives_lift_option.mp ha)

end Completes

@[simp] theorem completes_lift_result {r} : (liftM r : Emit α).Completes env scope ↔ Result.Completes r := by
  change (ofResult r).Completes env scope ↔ _
  simp

@[simp] protected theorem Completes.unsupported :
    (unsupported node location reason : Emit α).Completes env scope :=
  completes_ofResult.mpr Result.completes_refuse

@[simp] protected theorem Completes.malformed :
    (malformed node location reason : Emit α).Completes env scope :=
  completes_ofResult.mpr Result.completes_reject

/-! ## Steps that read or only have effects -/

@[simp] theorem completes_tell {effects} : (tell effects).Completes env scope :=
  fun _ _ => Result.completes_ok

@[simp] theorem completes_importNamespace : (importNamespace name).Completes env scope :=
  completes_tell

@[simp] theorem completes_importStatic : (importStatic name).Completes env scope :=
  completes_tell

@[simp] theorem completes_report {d} : (report d).Completes env scope :=
  completes_tell

@[simp] theorem completes_markPointers : markPointers.Completes env scope :=
  completes_tell

@[simp] theorem completes_markPointersIf {flag} : (markPointersIf flag).Completes env scope := by
  unfold markPointersIf
  split <;> simp

@[simp] theorem completes_env : Emit.env.Completes env scope :=
  fun _ _ => Result.completes_ok

@[simp] theorem completes_scope : Emit.scope.Completes env scope :=
  fun _ _ => Result.completes_ok

@[simp] theorem completes_ast : Emit.ast.Completes env scope := by
  simp [Emit.ast]

@[simp] theorem completes_symbols : symbols.Completes env scope := by
  simp [symbols]

@[simp] theorem completes_decl : (decl id).Completes env scope ↔ env.HasDecl id := by
  simp [decl, Ast.isSome_decl?]

theorem Completes.decl {f : Decl → Emit β} (hid : env.HasDecl id)
    (hf : ∀ d, env.ast.decl? id = some d → (f d).Completes env scope) :
    (decl id >>= f).Completes env scope :=
  (completes_decl.mpr hid).bind fun d hd => hf d (gives_decl.mp hd)

theorem Completes.ast {f : Ast → Emit β} (hf : (f env.ast).Completes env scope) :
    (Emit.ast >>= f).Completes env scope :=
  completes_ast.bind fun _ h => gives_ast.mp h ▸ hf

theorem Completes.symbols {f : Symbols → Emit β} (hf : (f env.symbols).Completes env scope) :
    (symbols >>= f).Completes env scope :=
  completes_symbols.bind fun _ h => gives_symbols.mp h ▸ hf

@[simp] theorem completes_nameOf : (nameOf id).Completes env scope := by
  simp [nameOf]

@[simp] theorem completes_currentRecord : currentRecord.Completes env scope := by
  simp [currentRecord]

/-! ## Steps inside others -/

@[simp] theorem completes_within {record} {m : Emit α} :
    (within record m).Completes env scope ↔ m.Completes env { scope with record := some record } := by
  rw [completes_iff, completes_iff, outcome_within]

@[simp] theorem completes_returning {type} {m : Emit α} :
    (returning type m).Completes env scope ↔ m.Completes env { scope with returnType := some type } := by
  rw [completes_iff, completes_iff, outcome_returning]

theorem completes_contained {m : Emit α} (h : m.Completes env scope) :
    (contained m).Completes env scope := by
  rw [completes_iff] at h ⊢
  rw [outcome_contained]
  rcases hm : m.outcome env scope with ⟨_ | a, effects⟩
  · rw [hm] at h
    rintro ⟨⟩
    exact h rfl
  · exact Result.completes_ok

theorem completes_skippable {m : Emit α} (h : m.Completes env scope) :
    (skippable m).Completes env scope := by
  rw [completes_iff] at h ⊢
  rw [outcome_skippable]
  rcases hm : m.outcome env scope with ⟨(_ | _ | _) | a, effects⟩
  case error.broken =>
    rw [hm] at h
    exact absurd rfl h
  all_goals rintro ⟨⟩

theorem completes_skippableMember {m : Emit α} (h : m.Completes env scope) :
    (skippableMember m).Completes env scope := by
  refine .skip (completes_contained (completes_skippable h)) fun outcome => ?_
  exact .ite (.skip completes_markPointers fun _ => .pure) .pure

theorem completes_skippableFragment {m : Emit α} (h : m.Completes env scope) :
    (skippableFragment m).Completes env scope :=
  (completes_contained (completes_skippable h)).returned

theorem completes_forEach {f : α → Emit β} {as} (h : ∀ a ∈ as, (f a).Completes env scope) :
    (forEach f as).Completes env scope := by
  induction as with
  | nil => exact .pure
  | cons a as ih => exact .skip (h a (.head _)) fun _ => (ih fun b hb => h b (.tail _ hb)).returned

end Emit

open Emit

section Reading

variable {env : Env} {scope : Scope}

@[simp] theorem completes_importMethodsClass : importMethodsClass.Completes env scope :=
  .skip completes_env fun _ => .skip completes_currentRecord fun _ =>
    .ite completes_importStatic .pure

theorem completes_obsoleteAttribute {id : DeclId} (hid : env.HasDecl id) :
    (obsoleteAttribute id).Completes env scope := by
  refine .decl hid fun d _ => ?_
  split <;> simp

@[simp] theorem completes_exprOf : (exprOf id).Completes env scope ↔ env.HasExpr id := by
  simp [exprOf, Ast.isSome_expr?]

theorem Emit.Completes.expr {f : Native.Expr → Emit β} (hid : env.HasExpr id)
    (hf : ∀ e, env.ast.expr? id = some e → (f e).Completes env scope) :
    (exprOf id >>= f).Completes env scope :=
  (completes_exprOf.mpr hid).bind fun e he => hf e (gives_exprOf.mp he)

end Reading

/-! ## Where steps stand -/

/-- Steps read an intact environment, and stand in a record and a function of its tree. -/
structure Env.IntactIn (env : Env) (scope : Scope) : Prop extends env.Intact where
  record : ∀ r, scope.record = some r → env.HasDecl r
  returnType : ∀ type, scope.returnType = some type → env.HasType type

namespace Env.IntactIn

variable {type : TypeId} {id record : DeclId} {fuel : Nat} {inner : ExprId}

variable {env : Env} {scope : Scope} (h : env.IntactIn scope)

include h

theorem enterRecord (hrecord : env.HasDecl record) : env.IntactIn { scope with record := some record } where
  toIntact := h.toIntact
  record := by
    rintro r ⟨⟩
    exact hrecord
  returnType := h.returnType

theorem enterFunction (htype : env.HasType type) : env.IntactIn { scope with returnType := some type } where
  toIntact := h.toIntact
  record := h.record
  returnType := by
    rintro t ⟨⟩
    exact htype

theorem inRange_definition (hid : env.HasDecl id) : env.HasDecl (env.symbols.definition id) := by
  rw [h.definition]
  exact inRange_definitionIn hid

/-! ## Types -/

theorem mapType (htype : env.HasType type) (usage : Usage) (location : Location) :
    (mapType type usage location).Completes env scope := by
  simp only [Binding.mapType, completes_bind, completes_env, completes_currentRecord, gives_env,
    gives_currentRecord, completes_lift_result, completes_markPointersIf, Completes.pure, true_and,
    implies_true, and_true, forall_eq]
  have hcontext : TypeContext.Intact ⟨env.ast, env.symbols, scope.record, location⟩ :=
    ⟨h.tree, fun _ hid => h.inRange_definition hid, h.record⟩
  exact hcontext.completes_map htype usage

theorem canonicalKind (htype : env.HasType type) : (canonicalKind type).Completes env scope := by
  simp [Binding.canonicalKind, h.tree.isSome_canonicalKind htype]

theorem isReference (htype : env.HasType type) : (isReference type).Completes env scope :=
  (h.canonicalKind htype).skip fun kind => by cases kind <;> exact .pure

theorem qualifiedName (hid : env.HasDecl id) : (qualifiedName id).Completes env scope := by
  simp [Binding.qualifiedName, h.tree.isSome_qualifiedName (h.inRange_definition hid) h.record]

theorem fullTypeName (hid : env.HasDecl id) : (fullTypeName id).Completes env scope := by
  have hname : (qualifiedName? env.ast env.symbols id none).isSome :=
    h.tree.isSome_qualifiedName (h.inRange_definition hid) (by rintro _ ⟨⟩)
  simp [Binding.fullTypeName, hname]

/-! ## Deprecation -/

theorem typedefObsoleteAttribute (htype : env.HasType type) :
    (typedefObsoleteAttribute type).Completes env scope := by
  refine .ast (.lifted (h.tree.isSome_deprecatedTypedef (Nat.le_refl _) htype) fun found hfound => ?_)
  cases found with
  | none => exact .pure
  | some id => exact completes_obsoleteAttribute (inRange_deprecatedTypedef hfound)

theorem typeObsoleteAttribute (hid : env.HasDecl id) : (typeObsoleteAttribute id).Completes env scope := by
  refine .skip (completes_obsoleteAttribute hid) fun mark => ?_
  cases mark with
  | some mark => exact .pure
  | none =>
    refine .symbols ?_
    split
    · rename_i typedef htypedef
      exact completes_obsoleteAttribute (h.namingTypedef id typedef htypedef)
    · exact .pure

/-! ## Inheritance -/

theorem isSome_baseStepsFrom (base : DeclId) (hfuel : env.ast.decls.size ≤ fuel) {current}
    (hcurrent : env.HasDecl current) : (baseStepsFrom env.ast env.symbols base fuel current).isSome := by
  refine decl_induction h.tree.acyclic.bases (inRange_of_baseStep h.tree.valid) ?_ hfuel hcurrent
  intro fuel current hcurrent ih
  simp only [baseStepsFrom]
  split
  · rfl
  · simp only [isSome_bind]
    refine ⟨Ast.isSome_decl?.mpr hcurrent, fun d hd => ?_⟩
    split
    · rename_i r hkind
      split
      · rfl
      · rename_i first rest hbases
        have hfirst : env.HasType first.type :=
          h.ofDecl hd (by simp [*])
        simp only [isSome_bind]
        refine ⟨h.tree.isSome_recordOf hfirst, fun record hrecord => ?_⟩
        split
        · rfl
        · rename_i next
          have hstep : BaseStep env.ast current (env.symbols.definition next) :=
            ⟨d, r, first, next, hd, hkind, by simp [hbases], hrecord, h.definition next⟩
          exact isSome_bind.mpr ⟨ih _ hstep, fun _ _ => rfl⟩
    · rfl

theorem baseSteps (hrecord : env.HasDecl record) (base : DeclId) :
    (baseSteps record base).Completes env scope := by
  have hsteps := h.isSome_baseStepsFrom (env.symbols.definition base) (Nat.le_succ _)
    (h.inRange_definition hrecord)
  simp [Binding.baseSteps, hsteps]

/-! ## Anonymous records -/

@[elab_as_elim]
theorem anonymous_induction {P : Nat → DeclId → Prop}
    (hstep : ∀ fuel id, (∀ member, env.symbols.anonymous? id = some member → P fuel member.enclosing) →
      P (fuel + 1) id) (hfuel : env.symbols.names.size ≤ fuel) (hid : env.HasDecl id) : P fuel id := by
  have hacyclic : Native.IsAcyclic fun a b => env.ast.MemberStep b a := by
    intro a hcycle
    exact h.tree.acyclic.members a (transGen_swap.mp hcycle)
  have hbound : ∀ a b, env.ast.MemberStep b a → env.HasDecl b := by
    rintro a b ⟨d, r, hd, -, -⟩
    exact Ast.inRange_of_decl? hd
  rw [h.names_size] at hfuel
  refine decl_induction hacyclic hbound ?_ hfuel hid
  intro fuel id _ ih
  exact hstep fuel id fun member hmember => ih _ (h.anonymous id member hmember)

theorem isSome_namedOwnerFrom (hfuel : env.symbols.names.size ≤ fuel) (hid : env.HasDecl id) :
    (namedOwnerFrom env.symbols fuel id).isSome := by
  refine h.anonymous_induction ?_ hfuel hid
  intro fuel id ih
  simp only [namedOwnerFrom]
  split
  · rename_i member hmember
    exact ih member hmember
  · rfl

theorem isSome_forwardingFrom (hfuel : env.symbols.names.size ≤ fuel) (hid : env.HasDecl id) :
    (env.symbols.forwardingFrom fuel id).isSome := by
  refine h.anonymous_induction ?_ hfuel hid
  intro fuel id ih
  simp only [Symbols.forwardingFrom]
  split
  · rfl
  · rename_i member hmember
    rw [Option.isSome_map]
    exact ih member hmember

theorem isSome_forwardingPath (hid : env.HasDecl id) : (env.symbols.forwardingPath? id).isSome := by
  simp only [Symbols.forwardingPath?, Option.isSome_map]
  exact h.isSome_forwardingFrom (Nat.le_succ _) hid

/-! ## Expressions -/

theorem ignoreParens {id} (hid : env.HasExpr id) : (ignoreParens id).Completes env scope := by
  obtain ⟨inner, hinner, -⟩ := h.tree.exists_ignoreParens hid
  simp [Binding.ignoreParens, hinner]

theorem ignoreImplicit {id} (hid : env.HasExpr id) : (ignoreImplicit id).Completes env scope := by
  obtain ⟨inner, hinner, -⟩ := h.tree.exists_ignoreImplicit hid
  simp [Binding.ignoreImplicit, hinner]

theorem reaches_of_ignoreParens {id} (hid : env.HasExpr id)
    (hgives : (Binding.ignoreParens id).Gives env scope inner) : ReflTransGen env.ast.ExprStep id inner := by
  obtain ⟨inner', hinner, hreach⟩ := h.tree.exists_ignoreParens hid
  obtain rfl := Option.mem_unique (gives_ignoreParens.mp hgives) hinner
  exact hreach

theorem reaches_of_ignoreImplicit {id} (hid : env.HasExpr id)
    (hgives : (Binding.ignoreImplicit id).Gives env scope inner) :
    ReflTransGen env.ast.ExprStep id inner := by
  obtain ⟨inner', hinner, hreach⟩ := h.tree.exists_ignoreImplicit hid
  obtain rfl := Option.mem_unique (gives_ignoreImplicit.mp hgives) hinner
  exact hreach

theorem isBool (htype : env.HasType type) : (isBool type).Completes env scope :=
  (h.canonicalKind htype).returned

theorem isVoidType (htype : env.HasType type) : (isVoidType type).Completes env scope :=
  (h.canonicalKind htype).returned

theorem isPointer (htype : env.HasType type) : (isPointer type).Completes env scope :=
  (h.canonicalKind htype).skip fun kind => by cases kind <;> exact .pure

theorem isUnsigned (htype : env.HasType type) : (isUnsigned type).Completes env scope :=
  (h.canonicalKind htype).skip fun kind => by cases kind <;> exact .pure

theorem enumOf (htype : env.HasType type) : (enumOf type).Completes env scope :=
  (h.canonicalKind htype).skip fun kind => by cases kind <;> exact .pure

theorem innerOf {id} (hid : env.HasExpr id) {f : Native.Expr → Emit α}
    (hf : ∀ inner e, ReflTransGen env.ast.ExprStep id inner → env.ast.expr? inner = some e →
      (f e).Completes env scope) :
    (Binding.ignoreParens id >>= fun inner => exprOf inner >>= f).Completes env scope := by
  refine .bind (h.ignoreParens hid) fun inner hinner => ?_
  have hreach := h.reaches_of_ignoreParens hid hinner
  exact .expr (h.tree.inRange_of_reaches hid hreach) fun e he => hf inner e hreach he

theorem usedBy {id} (hid : env.HasExpr id) {f : Native.Expr → Emit α}
    (hf : ∀ inner e, ReflTransGen env.ast.ExprStep id inner → env.ast.expr? inner = some e →
      (f e).Completes env scope) :
    (Binding.ignoreImplicit id >>= fun inner => exprOf inner >>= f).Completes env scope := by
  refine .bind (h.ignoreImplicit hid) fun inner hinner => ?_
  have hreach := h.reaches_of_ignoreImplicit hid hinner
  exact .expr (h.tree.inRange_of_reaches hid hreach) fun e he => hf inner e hreach he

theorem literalSign {id : ExprId} (hid : env.HasExpr id) : (literalSign id).Completes env scope := by
  refine h.innerOf hid fun inner e _ he => ?_
  split
  · exact .pure
  · refine h.innerOf (h.ofExpr he (by simp [*])) fun _ _ _ _ => ?_
    split <;> exact .pure
  · exact .pure

theorem isReferenceDecl (hid : env.HasDecl id) : (isReferenceDecl id).Completes env scope := by
  refine .decl hid fun d hd => ?_
  split
  · exact h.isReference (h.ofDecl hd (by simp [*]))
  · exact h.isReference (h.ofDecl hd (by simp [*]))
  · exact .pure

theorem referenceName {id : ExprId} (hid : env.HasExpr id) : (referenceName id).Completes env scope := by
  refine h.usedBy hid fun inner e _ he => ?_
  split
  · refine .skip (h.isReferenceDecl (h.ofExpr he (by simp [*]))) fun _ => ?_
    exact .ite completes_nameOf.returned .pure
  · exact .pure

theorem truthAs (htype : env.HasType type) (condition : Managed.Expr) :
    (truthAs type condition).Completes env scope :=
  (h.isBool htype).skip fun _ => .ite .pure .pure

theorem castTo (htype : env.HasType type) (operand : Managed.Expr) (location : Location) :
    (castTo type operand location).Completes env scope :=
  (h.mapType htype _ _).returned

theorem uncheckedCast (htype : env.HasType type) (operand : Managed.Expr) (location : Location) :
    (uncheckedCast type operand location).Completes env scope :=
  (h.mapType htype _ _).returned

theorem thisPointer (htype : env.HasType type) (location : Location) :
    (thisPointer type location).Completes env scope :=
  (h.mapType htype _ _).skip fun _ => completes_importNamespace.returned

end Env.IntactIn

end Interop.Binding
