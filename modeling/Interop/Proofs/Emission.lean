import Interop.Binding.Expr.Lowering
import Interop.Proofs.Partial

/-!
# The meaning of emission steps

By `Emit.uniform` the outcome of an emission step depends only on the scope it stands in
(`Emit.outcome`). `Emit.Gives` is the value that comes of it, and takes a step apart without a context to
thread through: `gives_bind` turns a sequence of steps into an existential over the intermediate values.
-/

namespace Interop.Binding

open Native (Ast ExprId DeclId TypeId TypeKind Decl)

variable {id : ExprId}

/-- A context of the scope in which nothing is recorded yet. -/
def Scope.context (scope : Scope) : Context where
  records := scope.record.toList
  returnTypes := scope.returnType.toList
  pointerScopes := [false]

@[simp] theorem Scope.scope_context (scope : Scope) : scope.context.scope = scope := by
  obtain ⟨record, returnType⟩ := scope
  cases record <;> cases returnType <;> rfl

namespace Emit

variable {env : Env} {c : Context} {id : DeclId} {scope : Scope}
variable {m : Emit α} {a : α} {f : α → Emit β} {as : List α} {bs : List β} {r : Result α}

/-! ## Running one step after another -/

theorem run_bind_ok (h : m.run env c = (.ok a, c')) : (m >>= f).run env c = (f a).run env c' := by
  change (Emit.bind m f).run env c = _
  simp only [Emit.bind, h]

theorem run_bind_error {e : Failure} (h : m.run env c = (.error e, c')) :
    (m >>= f).run env c = (.error e, c') := by
  change (Emit.bind m f).run env c = _
  simp only [Emit.bind, h]

/-! ## Outcomes -/

/-- What the step comes to in the scope. -/
def outcome (m : Emit α) (env : Env) (scope : Scope) : Result α × Effects :=
  let (r, c) := m.run env scope.context
  (r, ⟨c.namespaces, c.statics, c.diagnostics, c.usesPointers⟩)

theorem outcome_eq (h : m.run env scope.context = (r, scope.context.after e)) :
    m.outcome env scope = (r, e) := by
  simp only [outcome, h]
  simp [Context.after, Scope.context, Context.usesPointers]

theorem run_eq (m : Emit α) (env : Env) (c : Context) :
    m.run env c = ((m.outcome env c.scope).1, c.after (m.outcome env c.scope).2) := by
  obtain ⟨r, e, h⟩ := m.uniform env c.scope
  rw [h c rfl, outcome_eq (h _ c.scope.scope_context)]

theorem outcome_eq_iff :
    m.outcome env scope = p ↔ ∀ c : Context, c.scope = scope → m.run env c = (p.1, c.after p.2) := by
  constructor
  · rintro rfl c rfl
    exact m.run_eq env c
  · intro h
    exact outcome_eq (h _ scope.scope_context)

theorem outcome_bind_ok (h : m.outcome env scope = (.ok a, e)) :
    (m >>= f).outcome env scope = (((f a).outcome env scope).1, e ++ ((f a).outcome env scope).2) := by
  rw [outcome_eq_iff] at h ⊢
  intro c hc
  rw [run_bind_ok (h c hc), run_eq, c.scope_after, hc, c.after_append]

theorem outcome_bind_error (h : m.outcome env scope = (.error x, e)) :
    (m >>= f).outcome env scope = (.error x, e) := by
  rw [outcome_eq_iff] at h ⊢
  exact fun c hc => run_bind_error (h c hc)

theorem fst_outcome_bind :
    ((m >>= f).outcome env scope).1 = (m.outcome env scope).1 >>= fun a => ((f a).outcome env scope).1 := by
  rcases h : m.outcome env scope with ⟨_ | a, e⟩
  · rw [outcome_bind_error h]
    rfl
  · rw [outcome_bind_ok h]
    rfl

theorem outcome_within :
    (within record m).outcome env scope = m.outcome env { scope with record := some record } := by
  refine outcome_eq_iff.mpr fun c hc => ?_
  simp only [within, m.run_eq, c.scope_enterRecord, hc]
  rfl

theorem outcome_returning :
    (returning type m).outcome env scope = m.outcome env { scope with returnType := some type } := by
  refine outcome_eq_iff.mpr fun c hc => ?_
  simp only [returning, m.run_eq, c.scope_enterFunction, hc]
  rfl

theorem outcome_contained :
    (contained m).outcome env scope = ((m.outcome env scope).1.map (·, (m.outcome env scope).2.pointers),
      { (m.outcome env scope).2 with pointers := false }) := by
  refine outcome_eq_iff.mpr fun c hc => ?_
  simp only [contained, m.run_eq, c.scope_enterPointerScope, hc, c.usesPointers_after_enterPointerScope,
    c.leavePointerScope_after_enterPointerScope]

theorem outcome_skippable :
    (skippable m).outcome env scope = match m.outcome env scope with
      | (.ok a, e) => (.ok (some a), e)
      | (.error (.unsupported u), e) =>
        (.ok none, { pointers := e.pointers, diagnostics := [.ofUnsupported u] })
      | (.error x, e) => (.error x, e) := by
  refine outcome_eq_iff.mpr fun c hc => ?_
  simp only [skippable, m.run_eq, hc]
  rcases m.outcome env scope with ⟨(u | _ | _) | a, e⟩
  case error.unsupported =>
    dsimp only
    rw [c.rollback_after_checkpoint, c.after_append]
    simp
  all_goals rfl

/-! ## Values -/

/-- The step gives a value in every context of the scope. -/
def Gives (m : Emit α) (env : Env) (scope : Scope) (a : α) : Prop :=
  ∀ c : Context, c.scope = scope → (m.run env c).1 = .ok a

theorem gives_iff : m.Gives env scope a ↔ (m.outcome env scope).1 = .ok a := by
  constructor
  · intro h
    exact h _ scope.scope_context
  · intro h c hc
    rw [run_eq, hc, h]

theorem gives_of_run (h : m.run env c = (.ok a, c')) : m.Gives env c.scope a := by
  rw [run_eq] at h
  exact gives_iff.mpr (congrArg Prod.fst h)

theorem Gives.run_eq (h : m.Gives env c.scope a) : ∃ c', m.run env c = (.ok a, c') :=
  ⟨(m.run env c).2, Prod.ext (h c rfl) rfl⟩

theorem Gives.unique (ha : m.Gives env scope a) (hb : m.Gives env scope b) : a = b :=
  Except.ok.inj ((gives_iff.mp ha).symm.trans (gives_iff.mp hb))

@[simp] theorem gives_ofResult : (ofResult r).Gives env scope a ↔ r = .ok a :=
  gives_iff

@[simp] theorem gives_pure : (pure a : Emit α).Gives env scope b ↔ a = b := by
  change (ofResult (.ok a)).Gives env scope b ↔ _
  simp

@[simp] theorem gives_bind {b : β} :
    (m >>= f).Gives env scope b ↔ ∃ a, m.Gives env scope a ∧ (f a).Gives env scope b := by
  simp only [gives_iff, fst_outcome_bind, bind_eq_ok]

protected theorem Gives.pure : (pure a : Emit α).Gives env scope a :=
  gives_pure.mpr rfl

protected theorem Gives.bind {b : β} (hm : m.Gives env scope a) (hf : (f a).Gives env scope b) :
    (m >>= f).Gives env scope b :=
  gives_bind.mpr ⟨a, hm, hf⟩

@[simp] theorem gives_lift_option : (liftM o : Emit α).Gives env scope a ↔ o = some a := by
  change (ofResult (found o)).Gives env scope a ↔ _
  cases o <;> simp [found]

@[simp] theorem gives_lift_result : (liftM r : Emit α).Gives env scope a ↔ r = .ok a := by
  change (ofResult r).Gives env scope a ↔ _
  simp

@[simp] theorem not_gives_unsupported : ¬ (unsupported node location reason : Emit α).Gives env scope a := by
  simp [unsupported, refuse]

@[simp] theorem not_gives_malformed : ¬ (malformed node location reason : Emit α).Gives env scope a := by
  simp [malformed, reject]

/-! ## Steps that read or only have effects -/

@[simp] theorem gives_tell : (tell effects).Gives env scope u :=
  fun _ _ => rfl

@[simp] theorem gives_markPointers : markPointers.Gives env scope u :=
  gives_tell

@[simp] theorem gives_markPointersIf : (markPointersIf flag).Gives env scope u := by
  unfold markPointersIf
  split
  · exact gives_markPointers
  · simp

@[simp] theorem gives_report : (report d).Gives env scope u :=
  gives_tell

@[simp] theorem gives_importNamespace : (importNamespace name).Gives env scope u :=
  gives_tell

@[simp] theorem gives_env {e : Env} : Emit.env.Gives env scope e ↔ e = env :=
  gives_iff.trans ⟨fun h => (Except.ok.inj h).symm, fun h => congrArg Except.ok h.symm⟩

@[simp] theorem gives_scope : Emit.scope.Gives env scope s ↔ s = scope := by
  refine gives_iff.trans ⟨fun h => ?_, fun h => ?_⟩
  · exact (Except.ok.inj h).symm.trans scope.scope_context
  · exact congrArg Except.ok (scope.scope_context.trans h.symm)

@[simp] theorem gives_ast {ast : Ast} : Emit.ast.Gives env scope ast ↔ ast = env.ast := by
  simp [Emit.ast, eq_comm]

@[simp] theorem gives_symbols : symbols.Gives env scope s ↔ s = env.symbols := by
  simp [symbols, eq_comm]

@[simp] theorem gives_decl : (decl id).Gives env scope d ↔ env.ast.decl? id = some d := by
  simp [decl]

@[simp] theorem gives_nameOf : (nameOf id).Gives env scope name ↔ name = env.symbols.name id := by
  simp [nameOf, eq_comm]

@[simp] theorem gives_currentRecord {record : Option DeclId} :
    currentRecord.Gives env scope record ↔ record = scope.record := by
  simp [currentRecord, eq_comm]

/-! ## Steps inside others -/

@[simp] theorem gives_within :
    (within record m).Gives env scope a ↔ m.Gives env { scope with record := some record } a := by
  rw [gives_iff, gives_iff, outcome_within]

theorem Gives.of_contained (h : (contained m).Gives env scope (a, usesPointers)) : m.Gives env scope a := by
  rw [gives_iff, outcome_contained] at h
  rw [gives_iff]
  rcases hm : m.outcome env scope with ⟨_ | b, e⟩ <;> rw [hm] at h <;> cases h
  rfl

theorem Gives.of_skippable (h : (skippable m).Gives env scope (some a)) : m.Gives env scope a := by
  rw [gives_iff, outcome_skippable] at h
  rw [gives_iff]
  rcases hm : m.outcome env scope with ⟨(u | _ | _) | b, e⟩ <;> rw [hm] at h <;> cases h
  rfl

@[simp] theorem gives_forEach :
    (forEach f as).Gives env scope bs ↔ List.Forall₂ (fun a b => (f a).Gives env scope b) as bs := by
  induction as generalizing bs with
  | nil => simp [forEach, eq_comm]
  | cons a as ih =>
    simp only [forEach, gives_bind, gives_pure, ih]
    constructor
    · rintro ⟨b, hb, bs, hbs, rfl⟩
      exact .cons hb hbs
    · rintro (_ | ⟨hb, hbs⟩)
      exact ⟨_, hb, _, hbs, rfl⟩

theorem Gives.exists_of_mem_forEach (h : (forEach f as).Gives env scope bs) {b : β} (hb : b ∈ bs) :
    ∃ a ∈ as, (f a).Gives env scope b :=
  exists_left_of_forall₂ (gives_forEach.mp h) hb

theorem Gives.exists_result_of_mem (h : (forEach f as).Gives env scope bs) (ha : a ∈ as) :
    ∃ b ∈ bs, (f a).Gives env scope b :=
  exists_right_of_forall₂ (gives_forEach.mp h) ha

end Emit

open Emit

variable {env : Env} {scope : Scope}

@[simp] theorem gives_canonicalKind :
    (canonicalKind type).Gives env scope kind ↔ env.ast.canonicalKind? type = some kind := by
  simp [canonicalKind]

@[simp] theorem gives_qualifiedName {id : DeclId} :
    (qualifiedName id).Gives env scope name ↔
      qualifiedName? env.ast env.symbols id scope.record = some name := by
  simp [qualifiedName]

@[simp] theorem gives_exprOf : (exprOf id).Gives env scope e ↔ env.ast.expr? id = some e := by
  simp [exprOf]

@[simp] theorem gives_ignoreParens {inner : ExprId} :
    (ignoreParens id).Gives env scope inner ↔
      ignoreParensFrom env.ast env.ast.exprs.size id = some inner := by
  simp [ignoreParens]

@[simp] theorem gives_ignoreImplicit {inner : ExprId} :
    (ignoreImplicit id).Gives env scope inner ↔ env.ast.ignoreImplicit? id = some inner := by
  simp [ignoreImplicit]

theorem gives_emitValue :
    (emitValue id).Gives env scope out ↔
      ((partsTo (env.ast.exprs.size + 1)).value id).Gives env scope out := by
  simp [emitValue, allParts]

theorem gives_emitCondition :
    (emitCondition id).Gives env scope out ↔
      ((partsTo (env.ast.exprs.size + 1)).condition id).Gives env scope out := by
  simp [emitCondition, allParts]

theorem exists_of_promotedOperand (h : (promotedOperand id).Gives env scope (some operand)) :
    ∃ e, env.ast.expr? id = some e ∧ e.kind = .implicitCast .integralCast operand := by
  simp only [promotedOperand, gives_bind, gives_exprOf] at h
  obtain ⟨e, he, h⟩ := h
  split at h
  · rename_i inner hkind
    obtain rfl : inner = operand := by simpa using h
    exact ⟨e, he, hkind⟩
  · simp at h

theorem promoted_of_enumOperands (h : (enumOperands op lhs rhs).Gives env scope (some (left, right))) :
    (promotedOperand lhs).Gives env scope (some left) ∧
      (promotedOperand rhs).Gives env scope (some right) := by
  unfold enumOperands at h
  split at h
  · simp at h
  · simp only [gives_bind] at h
    obtain ⟨promoted, hleft, promoted', hright, h⟩ := h
    split at h
    · rename_i l r
      simp only [gives_bind] at h
      obtain ⟨_, -, _, -, _, -, _, -, _, -, h⟩ := h
      obtain ⟨rfl, rfl⟩ : l = left ∧ r = right := by
        split at h
        · split at h
          · simpa using h
          · simp at h
        · simp at h
      exact ⟨hleft, hright⟩
    · simp at h

end Interop.Binding
