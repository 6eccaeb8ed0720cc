import Interop.Proofs.Completion.Expressions

/-!
# Statements that complete

The rules for statements need what is inside a statement to complete at all statements below. A switch
goes several statements down at once: it takes the labels off the statements of its body, so
`gatherSections` keeps what is known of them.
-/

namespace Interop.Binding

open Native (Ast ExprId DeclId TypeId StmtId StmtKind TypeKind DeclKind ExprKind Ref)
open Emit Relation
open Managed (Label)

variable {env : Env} {scope : Scope} {id : StmtId}

@[simp] theorem completes_stmtOf : (stmtOf id).Completes env scope ↔ env.HasStmt id := by
  simp [stmtOf, Ast.isSome_stmt?]

@[simp] theorem gives_stmtOf : (stmtOf id).Gives env scope s ↔ env.ast.stmt? id = some s := by
  simp [stmtOf]

theorem Emit.Completes.stmt {f : Native.Stmt → Emit β} (hid : env.HasStmt id)
    (hf : ∀ s, env.ast.stmt? id = some s → (f s).Completes env scope) :
    (stmtOf id >>= f).Completes env scope :=
  (completes_stmtOf.mpr hid).bind fun s hs => hf s (gives_stmtOf.mp hs)

@[simp] theorem completes_isEmptyStmt : (isEmptyStmt id).Completes env scope ↔ env.HasStmt id := by
  simp [isEmptyStmt]

structure Nested.CompletesAt (nested : Nested) (env : Env) (scope : Scope) (id : StmtId) : Prop where
  inRange : env.HasStmt id
  below : ∀ b, ReflTransGen env.ast.StmtStep id b → (nested b).Completes env scope

theorem Nested.CompletesAt.self {nested : Nested} (h : nested.CompletesAt env scope id) :
    (nested id).Completes env scope :=
  h.below id .refl

namespace Env.IntactIn

variable {id body : StmtId} {location : Location} {done all : List Section} {fuel : Nat}
  {labels : List Label} {s : Section} {cond : ExprId}

variable {env : Env} {scope : Scope} (h : env.IntactIn scope)

include h

theorem inRange_stmt_of_reaches {inner : StmtId} (hid : env.HasStmt id)
    (hreach : ReflTransGen env.ast.StmtStep id inner) : env.HasStmt inner := by
  rcases hreach.cases_tail with rfl | ⟨_, -, s, hs, hinner⟩
  · exact hid
  · exact h.ofStmt hs hinner

theorem nested_of_reaches {nested : Nested} {inner : StmtId} (hid : nested.CompletesAt env scope id)
    (hreach : ReflTransGen env.ast.StmtStep id inner) : nested.CompletesAt env scope inner where
  inRange := h.inRange_stmt_of_reaches hid.inRange hreach
  below b hb := hid.below b (hreach.trans hb)

/-! ## Effects and variables -/

theorem effectOf {id : ExprId} (hid : env.HasExpr id) : (effectOf id).Completes env scope := by
  refine .bind (h.ignoreParens hid) fun inner hinner => ?_
  have hrange := h.tree.inRange_of_reaches hid (h.reaches_of_ignoreParens hid hinner)
  refine .expr hrange fun e he => ?_
  have hself := h.emitValue hid
  have hvalue := h.emitValue hrange
  split
  · rename_i operand hkind
    simp [h.emitValue (h.ofExpr he (r := .expr operand) (by simp [hkind]))]
  · rename_i operand hkind
    simp [h.emitValue (h.ofExpr he (r := .expr operand) (by simp [hkind]))]
  · split <;> simp [hself, hvalue]
  · simp [hvalue]
  · split <;> simp [hself, hvalue]
  · simp [hself]

theorem isStringLiteral {id : ExprId} (hid : env.HasExpr id) : (isStringLiteral id).Completes env scope := by
  refine h.usedBy hid fun _ e _ _ => ?_
  split <;> exact .pure

theorem localValue {v : Native.Var} (htype : env.HasType v.type)
    (hinit : ∀ init, v.init = some init → env.HasExpr init) (mapped : MappedType) (d : Native.Decl)
    (location : Location) : (localValue v mapped d location).Completes env scope := by
  refine .bind (h.canonicalKind htype) fun kind hkind => ?_
  split
  · rename_i init _ _ hsome
    refine .skip (h.isStringLiteral (hinit init hsome)) fun _ => .ite .unsupported ?_
    exact (h.emitValue (hinit init hsome)).returned
  · rename_i init hsome _
    exact (h.emitValue (hinit init hsome)).returned
  · exact .pure
  · rename_i element size _
    have helement : env.HasType element :=
      h.ofKind (gives_canonicalKind.mp hkind) (by simp)
    exact (h.mapType helement _ _).returned
  · exact .pure

theorem localDecl (location : Location) {id : DeclId} (hid : env.HasDecl id) :
    (localDecl location id).Completes env scope := by
  refine .decl hid fun d hd => .skip (by simp) fun name => ?_
  split
  · rename_i v hkind
    have htype : env.HasType v.type :=
      h.ofDecl hd (by simp [hkind])
    have hinit : ∀ init, v.init = some init → env.HasExpr init := fun init hsome =>
      h.ofDecl hd (by simp [hkind, hsome])
    refine .ite .unsupported (.skip (h.mapType htype _ _) fun mapped => ?_)
    refine .skip (h.isReference htype) fun _ => .ite ?_ (h.localValue htype hinit _ _ _).returned
    split
    · rename_i init hsome
      exact (h.emitAddress (hinit init hsome)).returned
    · exact .malformed
  · exact .unsupported

theorem localsOf (hdecls : ∀ id ∈ decls, env.HasDecl id) (location : Location) :
    (localsOf decls location).Completes env scope :=
  (completes_forEach fun id hid => h.localDecl location (hdecls id hid)).returned

/-! ## Loops and branches -/

section Nested

variable {nested : Nested}

omit h in
theorem statementsOf (hids : ∀ id ∈ ids, nested.CompletesAt env scope id) :
    (statementsOf nested ids).Completes env scope := by
  induction ids with
  | nil => exact .pure
  | cons id ids ih =>
    have hid := hids id (by simp)
    have hrest := ih fun b hb => hids b (by simp [hb])
    refine .skip (completes_isEmptyStmt.mpr hid.inRange) fun _ => .ite hrest ?_
    exact .skip hid.self fun _ => hrest.returned

theorem bodyOf (hid : nested.CompletesAt env scope id) : (bodyOf nested id).Completes env scope := by
  refine .stmt hid.inRange fun s hs => ?_
  split
  · rename_i children hkind
    refine statementsOf fun child hchild => h.nested_of_reaches hid (.single ⟨s, hs, ?_⟩)
    simp [hkind, hchild]
  · exact statementsOf (by simpa using hid)

theorem forInitOf {init : Option StmtId} (hinit : ∀ id, init = some id → env.HasStmt id) :
    (forInitOf init).Completes env scope := by
  cases init with
  | none => exact .pure
  | some id =>
    refine .stmt (hinit id rfl) fun s hs => ?_
    split
    · rename_i ids hkind
      have hids : ∀ d ∈ ids, env.HasDecl d := fun d hd =>
        h.ofStmt hs (by simp [hkind, hd])
      refine .skip (h.localsOf hids _) fun _ => ?_
      split <;> simp
    · rename_i value hkind
      simp [h.effectOf (h.ofStmt hs (r := .expr value) (by simp [hkind]))]
    · exact .pure
    · exact .malformed

omit h in
theorem optional {f : α → Emit β} {o : Option α} (hf : ∀ a, o = some a → (f a).Completes env scope) :
    (optional f o).Completes env scope := by
  cases o with
  | none => exact .pure
  | some a => simp [Binding.optional, hf a rfl]

theorem ifRule {thenBranch : StmtId} {elseBranch : Option StmtId} (hcond : env.HasExpr cond)
    (hthen : nested.CompletesAt env scope thenBranch)
    (helse : ∀ id, elseBranch = some id → nested.CompletesAt env scope id) :
    (ifRule nested cond thenBranch elseBranch).Completes env scope := by
  refine .skip (h.emitCondition hcond) fun _ => .skip (h.bodyOf hthen) fun _ => ?_
  split
  · exact .pure
  · rename_i other
    have hother := helse other rfl
    refine .stmt hother.inRange fun _ _ => ?_
    split <;> simp [hother.self, h.bodyOf hother]

theorem returnRule (s : Native.Stmt) (hvalue : ∀ id, value = some id → env.HasExpr id) :
    (returnRule s value).Completes env scope := by
  simp only [Binding.returnRule, completes_bind, completes_scope, gives_scope, true_and, forall_eq]
  cases htype : scope.returnType with
  | none =>
    cases value with
    | none => simp
    | some id => simp [h.emitValue (hvalue id rfl)]
  | some type =>
    have hrange := h.returnType type htype
    refine .skip (h.isVoidType hrange) fun returnsVoid => ?_
    cases value with
    | none => cases returnsVoid <;> simp
    | some id =>
      have hid := hvalue id rfl
      cases returnsVoid with
      | true => simp [h.effectOf hid]
      | false =>
        refine .skip (h.isReference hrange) fun _ => ?_
        exact .ite (h.emitAddress hid).returned (h.emitValue hid).returned

/-! ## Switches -/

theorem peelLabels (hfuel : env.ast.stmts.size ≤ fuel) (hid : env.HasStmt id) :
    (peelLabels fuel id).Completes env scope := by
  refine h.tree.stmt_induction ?_ hfuel hid
  intro fuel id hid ih
  refine .stmt hid fun s hs => ?_
  split
  · rename_i value body hkind
    have hvalue : env.HasExpr value :=
      h.ofStmt hs (by simp [hkind])
    simp [h.emitValue hvalue, ih body (.single ⟨s, hs, by simp [hkind]⟩)]
  · rename_i body hkind
    simp [ih body (.single ⟨s, hs, by simp [hkind]⟩)]
  · exact .pure

omit h in
theorem reaches_of_peelLabels {inner : StmtId}
    (hpeel : (Binding.peelLabels fuel id).Gives env scope (labels, inner)) :
    ReflTransGen env.ast.StmtStep id inner := by
  induction fuel generalizing id labels with
  | zero => simp [Binding.peelLabels] at hpeel
  | succ fuel ih =>
    simp only [Binding.peelLabels, gives_bind, gives_stmtOf] at hpeel
    obtain ⟨s, hs, hpeel⟩ := hpeel
    split at hpeel
    · rename_i value body hkind
      simp only [gives_bind, gives_pure, Prod.mk.injEq] at hpeel
      obtain ⟨_, -, ⟨_, _⟩, hrest, -, rfl⟩ := hpeel
      exact .head ⟨s, hs, by simp [hkind]⟩ (ih hrest)
    · rename_i body hkind
      simp only [gives_bind, gives_pure, Prod.mk.injEq] at hpeel
      obtain ⟨⟨_, _⟩, hrest, -, rfl⟩ := hpeel
      exact .head ⟨s, hs, by simp [hkind]⟩ (ih hrest)
    · simp only [gives_pure, Prod.mk.injEq] at hpeel
      exact hpeel.2 ▸ .refl

omit h in
theorem isEmptySection (hs : ∀ id ∈ s.body, env.HasStmt id) : s.isEmpty.Completes env scope :=
  (completes_forEach fun id hid => completes_isEmptyStmt.mpr (hs id hid)).returned

omit h in
theorem addToSections (hdone : ∀ s ∈ done, ∀ b ∈ s.body, env.HasStmt b) :
    (addToSections location labels id done).Completes env scope := by
  cases done with
  | nil => exact .ite .unsupported .pure
  | cons last before =>
    refine .ite .pure (.skip (isEmptySection (hdone last (by simp))) fun _ => ?_)
    exact .ite .pure .pure

omit h in
theorem forall_addToSections {P : StmtId → Prop} (hid : P id) (hdone : ∀ s ∈ done, ∀ b ∈ s.body, P b)
    (hgives : (Binding.addToSections location labels id done).Gives env scope all) :
    ∀ s ∈ all, ∀ b ∈ s.body, P b := by
  cases done with
  | nil =>
    simp only [Binding.addToSections] at hgives
    split at hgives
    · exact absurd hgives not_gives_unsupported
    · obtain rfl := gives_pure.mp hgives
      simpa using hid
  | cons last before =>
    simp only [Binding.addToSections] at hgives
    split at hgives
    · obtain rfl := gives_pure.mp hgives
      grind
    · simp only [gives_bind] at hgives
      obtain ⟨_, -, hgives⟩ := hgives
      split at hgives <;> (obtain rfl := gives_pure.mp hgives; grind)

theorem gatherSections (hfuel : env.ast.stmts.size ≤ fuel)
    (hchildren : ∀ id ∈ children, nested.CompletesAt env scope id)
    (hdone : ∀ s ∈ done, ∀ b ∈ s.body, nested.CompletesAt env scope b) :
    (gatherSections location fuel children done).Completes env scope := by
  induction children generalizing done with
  | nil => exact .pure
  | cons child rest ih =>
    have hchild := hchildren child (by simp)
    refine .bind (h.peelLabels hfuel hchild.inRange) fun peeled hpeel => ?_
    obtain ⟨labels, inner⟩ := peeled
    -- The labels may hide several levels, which is why `CompletesAt` goes all the way down.
    have hinner := h.nested_of_reaches hchild (reaches_of_peelLabels hpeel)
    refine .bind (addToSections fun s hs b hb => (hdone s hs b hb).inRange) fun next hnext => ?_
    exact ih (fun id hid => hchildren id (by simp [hid])) (forall_addToSections hinner hdone hnext)

theorem forall_gatherSections (hchildren : ∀ id ∈ children, nested.CompletesAt env scope id)
    (hdone : ∀ s ∈ done, ∀ b ∈ s.body, nested.CompletesAt env scope b)
    (hgives : (Binding.gatherSections location fuel children done).Gives env scope all) :
    ∀ s ∈ all, ∀ b ∈ s.body, nested.CompletesAt env scope b := by
  induction children generalizing done with
  | nil =>
    obtain rfl := gives_pure.mp hgives
    exact hdone
  | cons child rest ih =>
    simp only [Binding.gatherSections, gives_bind] at hgives
    obtain ⟨⟨labels, inner⟩, hpeel, next, hnext, hrest⟩ := hgives
    have hinner := h.nested_of_reaches (hchildren child (by simp)) (reaches_of_peelLabels hpeel)
    exact ih (fun id hid => hchildren id (by simp [hid])) (forall_addToSections hinner hdone hnext)
      hrest

theorem sectionBody (hs : ∀ b ∈ s.body, nested.CompletesAt env scope b) :
    (sectionBody nested s).Completes env scope := by
  refine .bind (completes_forEach fun id hid => by simpa using (hs id hid).inRange) fun flagged hflagged => ?_
  have hkept : ∀ id ∈ (flagged.filter (!·.2)).map (·.1), nested.CompletesAt env scope id := by
    intro id hid
    obtain ⟨p, hp, rfl⟩ := List.mem_map.mp hid
    obtain ⟨b, hb, hgives⟩ := hflagged.exists_of_mem_forEach (List.mem_filter.mp hp).1
    simp only [gives_bind, gives_pure] at hgives
    obtain ⟨_, -, rfl⟩ := hgives
    exact hs b hb
  split
  · exact .pure
  · rename_i single hsingle
    exact h.bodyOf (hkept single (by simp [hsingle]))
  · exact statementsOf hkept

theorem completesAt_switchBody (hb : env.ast.stmt? body = some b)
    (hbody : nested.CompletesAt env scope body) :
    ∀ id ∈ (match b.kind with | .compound children => children | _ => [body]),
      nested.CompletesAt env scope id := by
  intro id hid
  split at hid
  · rename_i children hkind
    exact h.nested_of_reaches hbody (.single ⟨b, hb, by simp [hkind, hid]⟩)
  · rwa [List.mem_singleton.mp hid]

theorem switchRule (s : Native.Stmt) (hcond : env.HasExpr cond) (hbody : nested.CompletesAt env scope body) :
    (switchRule nested s cond body).Completes env scope := by
  refine .skip (h.emitValue hcond) fun _ => .stmt hbody.inRange fun b hb => .ast ?_
  have hchildren := h.completesAt_switchBody hb hbody
  refine .bind (h.gatherSections (Nat.le_succ _) hchildren (by simp)) fun sections hsections => ?_
  have hall := h.forall_gatherSections hchildren (by simp) hsections
  refine Completes.returned (completes_forEach fun part hpart => ?_)
  exact (h.sectionBody (hall part (List.mem_reverse.mp hpart))).returned

/-! ## All kinds -/

theorem stmtRule (hid : env.HasStmt id)
    (hbelow : ∀ b, TransGen env.ast.StmtStep id b → nested.CompletesAt env scope b) :
    (stmtRule nested id).Completes env scope := by
  refine .stmt hid fun s hs => ?_
  have hinner : ∀ b, .stmt b ∈ s.kind.refs → nested.CompletesAt env scope b := fun b hb =>
    hbelow b (.single ⟨s, hs, hb⟩)
  have hexpr : ∀ e, .expr e ∈ s.kind.refs → env.HasExpr e := fun e he =>
    h.ofStmt hs he
  cases hkind : s.kind with
  | compound children =>
    have hchildren : ∀ b ∈ children, nested.CompletesAt env scope b := fun b hb =>
      hinner b (by simp [hkind, hb])
    exact (statementsOf hchildren).returned
  | decls ids =>
    have hids : ∀ d ∈ ids, env.HasDecl d := fun d hd =>
      h.ofStmt hs (by simp [hkind, hd])
    exact (h.localsOf hids _).returned
  | expr value => simp [h.effectOf (hexpr value (by simp [hkind]))]
  | ret value =>
    exact h.returnRule s fun e he => hexpr e (by simp [hkind, he])
  | ifElse cond thenBranch elseBranch =>
    exact h.ifRule (hexpr cond (by simp [hkind]))
      (hinner thenBranch (by simp [hkind]))
      fun b hb => hinner b (by simp [hkind, hb])
  | whileLoop cond body =>
    simp [h.emitCondition (hexpr cond (by simp [hkind])),
      h.bodyOf (hinner body (by simp [hkind]))]
  | doLoop body cond =>
    simp [h.emitCondition (hexpr cond (by simp [hkind])),
      h.bodyOf (hinner body (by simp [hkind]))]
  | forLoop init cond inc body =>
    have hinit : ∀ b, init = some b → env.HasStmt b := fun b hb =>
      (hinner b (by simp [hkind, hb])).inRange
    have hcond : ∀ e, cond = some e → (Binding.emitCondition e).Completes env scope := fun e he =>
      h.emitCondition (hexpr e (by simp [hkind, he]))
    have hstep : ∀ e, inc = some e → (Binding.effectOf e).Completes env scope := fun e he =>
      h.effectOf (hexpr e (by simp [hkind, he]))
    simp [h.forInitOf hinit, optional hcond, optional hstep,
      h.bodyOf (hinner body (by simp [hkind]))]
  | switch cond body =>
    exact h.switchRule s (hexpr cond (by simp [hkind]))
      (hinner body (by simp [hkind]))
  | caseLabel | defaultLabel | other => exact .unsupported
  | breakOut | continueLoop | empty => exact .pure

end Nested

theorem completesAt_nestedTo (hdepth : env.ast.stmts.size ≤ depth) (hid : env.HasStmt id) :
    (nestedTo depth).CompletesAt env scope id := by
  have hmain : ∀ id, env.HasStmt id → (nestedTo depth id).Completes env scope := by
    intro id hid
    refine h.tree.stmt_induction ?_ hdepth hid
    intro depth id hid ih
    refine h.stmtRule hid fun b hb => ?_
    exact {
      inRange := h.inRange_stmt_of_reaches hid hb.to_reflTransGen
      below := fun c hc => ih c (hb.trans_left hc) }
  exact {
    inRange := hid
    below := fun b hb => hmain b (h.inRange_stmt_of_reaches hid hb) }

theorem emitBody (hid : env.HasStmt id) : (emitBody id).Completes env scope := by
  simp [Binding.emitBody, h.bodyOf (h.completesAt_nestedTo (Nat.le_succ _) hid)]

end Env.IntactIn

end Interop.Binding
