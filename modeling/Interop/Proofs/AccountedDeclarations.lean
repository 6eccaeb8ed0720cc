import Interop.Proofs.Completion.Bindings
import Interop.Proofs.FunctionSelection

/-!
# Declarations are accounted for

What has no C# form is refused deep inside an emission step. The refusal goes no further than the
declaration around it (`notRefused_bindingsOf`), and the declaration is not lost: each attempt to emit one
(`attempts`) is kept as a fragment or skipped with the report of its refusal (`Outcome`).
-/

namespace Interop.Binding

open Native (Ast DeclId)
open Emit
open Managed (Fragment Bindings)

/-! ## Results that are no refusals -/

namespace Result

/-- The result is a value or a failure of the whole tree. -/
def NotRefused (r : Result α) : Prop :=
  ∀ u, r ≠ .error (.unsupported u)

theorem notRefused_ok (a : α) : NotRefused (.ok a) := by
  rintro u ⟨⟩

theorem notRefused_found (o : Option α) : NotRefused (found o) := by
  cases o <;> rintro u ⟨⟩

theorem notRefused_reject (node : String) (location : Location) (reason : String) :
    NotRefused (reject node location reason : Result α) := by
  rintro u ⟨⟩

theorem NotRefused.bind {r : Result α} {f : α → Result β} (hr : NotRefused r)
    (hf : ∀ a, NotRefused (f a)) : NotRefused (r >>= f) := by
  cases r with
  | error e =>
    rintro u ⟨⟩
    exact hr u rfl
  | ok a => exact hf a

theorem notRefused_mapM {f : α → Result β} (h : ∀ a, NotRefused (f a)) (as : List α) :
    NotRefused (as.mapM f) := by
  induction as with
  | nil => exact notRefused_ok []
  | cons a as ih =>
    rw [List.mapM_cons]
    exact (h a).bind fun b => ih.bind fun bs => notRefused_ok (b :: bs)

theorem notRefused_filterMapM {f : α → Result (Option β)} (h : ∀ a, NotRefused (f a)) (as : List α) :
    NotRefused (as.filterMapM f) := by
  induction as with
  | nil => exact notRefused_ok []
  | cons a as ih =>
    rw [List.filterMapM_cons]
    refine (h a).bind fun o => ?_
    cases o with
    | none => exact ih
    | some b => exact ih.bind fun bs => notRefused_ok (b :: bs)

end Result

open Result

theorem notRefused_anonymousMembers (ast : Ast) : NotRefused (anonymousMembers ast) := by
  refine (notRefused_mapM (fun entry => ?_) _).bind fun _ => notRefused_ok _
  obtain ⟨id, d⟩ := entry
  dsimp only
  split
  · refine (notRefused_filterMapM (fun id => ?_) _).bind fun anonymous => notRefused_mapM (fun entry => ?_) _
    · exact (notRefused_found _).bind fun d => notRefused_ok _
    · obtain ⟨⟨member, d⟩, position⟩ := entry
      dsimp only
      split
      · exact notRefused_ok _
      · exact notRefused_reject _ _ _
  · exact notRefused_ok []

theorem notRefused_build (ast : Ast) (settings : Settings) : NotRefused (Symbols.build ast settings) := by
  refine (notRefused_found _).bind fun naming => ?_
  refine (notRefused_anonymousMembers ast).bind fun anonymous => ?_
  refine (notRefused_found _).bind fun names => ?_
  refine (notRefused_found _).bind fun visited => ?_
  exact (notRefused_found _).bind fun vtables => notRefused_ok _

theorem notRefused_prepare (settings : Settings) (ast : Ast) : NotRefused (prepare settings ast) := by
  unfold prepare
  split
  · exact notRefused_reject _ _ _
  · exact (notRefused_build ast settings).bind fun symbols => notRefused_ok _

/-! ## Steps that catch refusals -/

namespace Emit

/-- The step never fails for want of a C# form. -/
def NeverRefused (m : Emit α) : Prop :=
  ∀ env c, NotRefused (m.run env c).1

theorem neverRefused_ofResult (h : NotRefused r) : (ofResult r).NeverRefused :=
  fun _ _ => h

theorem neverRefused_pure (a : α) : (pure a : Emit α).NeverRefused :=
  neverRefused_ofResult (notRefused_ok a)

theorem neverRefused_lift (o : Option α) : (liftM o : Emit α).NeverRefused :=
  neverRefused_ofResult (notRefused_found o)

theorem neverRefused_env : Emit.env.NeverRefused :=
  fun env _ => notRefused_ok env

theorem neverRefused_tell (effects : Effects) : (tell effects).NeverRefused :=
  fun _ _ => notRefused_ok ()

theorem NeverRefused.bind {m : Emit α} {f : α → Emit β} (hm : m.NeverRefused)
    (hf : ∀ a, (f a).NeverRefused) : (m >>= f).NeverRefused := by
  intro env c
  rcases hrun : m.run env c with ⟨_ | a, c'⟩
  · rw [run_bind_error hrun]
    have hrefused := hm env c
    rw [hrun] at hrefused
    rintro u ⟨⟩
    exact hrefused u rfl
  · rw [run_bind_ok hrun]
    exact hf a env c'

theorem neverRefused_decl (id : DeclId) : (decl id).NeverRefused :=
  (neverRefused_env.bind fun _ => neverRefused_pure _).bind fun _ => neverRefused_lift _

theorem neverRefused_forEach {f : α → Emit β} (h : ∀ a, (f a).NeverRefused) (as : List α) :
    (forEach f as).NeverRefused := by
  induction as with
  | nil => exact neverRefused_pure []
  | cons a as ih => exact (h a).bind fun b => ih.bind fun bs => neverRefused_pure (b :: bs)

end Emit

theorem neverRefused_declare (id : DeclId) (placement : Managed.Placement) (m : Emit Managed.Member) :
    (declare id placement m).NeverRefused := by
  intro env c
  rcases declare_cases id placement m env c with ⟨declared, effects, h⟩ | ⟨u, -, h⟩ | ⟨e, c', he, h⟩
  · rw [h]
    exact notRefused_ok _
  · rw [h]
    exact notRefused_ok _
  · rw [h]
    intro u hu
    exact he u (Except.error.inj hu)

theorem neverRefused_declareTopLevel (id : DeclId) : (declareTopLevel id).NeverRefused := by
  have hdeclare : ∀ placement m,
      (do return (← declare id placement m).toList : Emit (List Declared)).NeverRefused :=
    fun placement m => (neverRefused_declare id placement m).bind fun _ => neverRefused_pure _
  refine (neverRefused_decl id).bind fun d => ?_
  split
  · exact neverRefused_pure []
  · exact hdeclare _ _
  · refine (neverRefused_env.bind fun _ => neverRefused_pure _).bind fun symbols => ?_
    split
    · exact (neverRefused_forEach (fun _ => neverRefused_declare _ _ _) _).bind fun _ => neverRefused_pure _
    · exact hdeclare _ _
  · exact hdeclare _ _
  · exact hdeclare _ _
  · exact (neverRefused_tell _).bind fun _ => neverRefused_pure []
  · exact neverRefused_ofResult (notRefused_reject _ _ _)

theorem notRefused_bindingsOf (settings : Settings) (ast : Ast) : NotRefused (bindingsOf settings ast) := by
  have hall : (declareAll settings.excludes).NeverRefused := by
    refine neverRefused_env.bind fun env => (neverRefused_lift _).bind fun ids => ?_
    exact (neverRefused_forEach neverRefused_declareTopLevel ids).bind fun _ => neverRefused_pure _
  exact (notRefused_prepare settings ast).bind fun env => (hall env {}).bind fun declared => notRefused_ok _

/-! ## Attempts and their outcomes -/

/-- The emission of one declaration of the file. -/
structure Attempt where
  id : DeclId
  placement : Managed.Placement
  emission : Emit Managed.Member

def Attempt.step (a : Attempt) : Emit (Option Declared) :=
  declare a.id a.placement a.emission

/-- **What a declaration stands for in the file**: nothing, its constants, or itself. -/
def attempts (env : Env) (id : DeclId) : List Attempt :=
  match env.ast.decl? id with
  | none => []
  | some d =>
    match d.kind with
    | .record _ => [⟨id, .scope, emitRecord id⟩]
    | .enum e =>
      if d.name = "" && (env.symbols.namingTypedef? id).isNone then
        e.constants.map fun constant => ⟨constant, .methods, emitConstant id constant⟩
      else [⟨id, .scope, emitEnum id⟩]
    | .function _ => [⟨id, .methods, emitFunction id⟩]
    | .var _ => [⟨id, .methods, emitGlobal id⟩]
    | .other kind => [⟨id, .scope, unsupported kind d.location "declaration kind has no C# form"⟩]
    | _ => []

/-- What became of an attempt, and what was reported on the way. -/
structure Outcome where
  attempt : Attempt
  declared : Option Declared
  diagnostics : List Diagnostic

namespace Outcome

def fragment (o : Outcome) : Option Fragment :=
  o.declared.map Declared.fragment

/-- **Kept or skipped**: one fragment with the reports inside of it, or one report of a refusal. -/
inductive IsReached (env : Env) : Outcome → Prop
  | kept {a : Attempt} {declared : Declared} {effects : Effects}
      (h : a.step.Does env {} (some declared) effects) :
      IsReached env ⟨a, some declared, effects.diagnostics⟩
  | skipped {a : Attempt} {u : Unsupported} (h : a.emission.Refuses env {} u) :
      IsReached env ⟨a, none, [.ofUnsupported u]⟩

end Outcome

variable {env : Env}
variable {m : Emit α} {p : Contribution} {b : β}

namespace Emit

theorem Does.unique (h : m.Does env {} a effects) (h' : m.Does env {} a' effects') :
    a = a' ∧ effects.diagnostics = effects'.diagnostics :=
  ⟨h.gives.unique h'.gives, congrArg (·.diagnostics) (h.effects_eq h')⟩

theorem does_pure (a : α) : (pure a : Emit α).Does env {} a {} := by
  intro c _
  rw [c.after_empty]
  rfl

theorem does_report (d : Diagnostic) :
    (report d >>= fun _ => pure ([] : List α)).Does env {} [] { diagnostics := [d] } :=
  fun _ _ => rfl

theorem Does.of_bind (hm : ∀ c, m.run env c = (.ok a, c)) (h : (m >>= f).Does env {} b effects) :
    (f a).Does env {} b effects := by
  intro c hc
  rw [← h c hc, run_bind_ok (hm c)]

theorem does_map {f : α → β} (h : (m >>= fun a => pure (f a)).Does env {} b effects) :
    ∃ a effects', m.Does env {} a effects' ∧ b = f a ∧ effects.diagnostics = effects'.diagnostics := by
  obtain ⟨a, effects', behind, hdoes, hpure, -, hdiagnostics⟩ := h.exists_of_bind
  obtain ⟨rfl, hbehind⟩ := hpure.unique (does_pure _)
  rw [hbehind, List.append_nil] at hdiagnostics
  exact ⟨a, effects', hdoes, rfl, hdiagnostics⟩

end Emit

theorem Attempt.isReached {a : Attempt} (h : a.step.Does env {} declared effects) :
    Outcome.IsReached env ⟨a, declared, effects.diagnostics⟩ := by
  rcases declare_cases a.id a.placement a.emission env {} with
    ⟨kept, effects', hrun⟩ | ⟨u, hrefuses, hrun⟩ | ⟨e, c', -, hrun⟩
  · cases Except.ok.inj (congrArg Prod.fst ((h {} rfl).symm.trans hrun))
    exact .kept h
  · have heq := (h {} rfl).symm.trans hrun
    cases Except.ok.inj (congrArg Prod.fst heq)
    have hdiagnostics : effects.diagnostics = [.ofUnsupported u] :=
      congrArg (Context.diagnostics ∘ Prod.snd) heq
    rw [hdiagnostics]
    exact .skipped hrefuses
  · cases congrArg Prod.fst ((h {} rfl).symm.trans hrun)

/-- The fragments and reports of a contribution are those of its attempts, in order. -/
def Contribution.IsAccounted (env : Env) (p : Contribution) : Prop :=
  ∃ outcomes : List Outcome, outcomes.map (·.attempt) = attempts env p.id ∧
    (∀ o ∈ outcomes, o.IsReached env) ∧ p.fragments = outcomes.filterMap (·.fragment) ∧
    p.effects.diagnostics = outcomes.flatMap (·.diagnostics)

theorem isAccounted_of_declare {id : DeclId} {m : Emit Managed.Member}
    (hattempts : attempts env p.id = [⟨id, placement, m⟩])
    (h : (do return (← declare id placement m).toList : Emit (List Declared)).Does env {} p.declared p.effects) :
    p.IsAccounted env := by
  obtain ⟨declared, effects, hdoes, hdeclared, hdiagnostics⟩ := does_map h
  have houtcome := Attempt.isReached (a := ⟨id, placement, m⟩) hdoes
  refine ⟨[⟨⟨id, placement, m⟩, declared, effects.diagnostics⟩], hattempts.symm, by simpa using houtcome,
    ?_, by simpa using hdiagnostics⟩
  rw [Contribution.fragments, hdeclared]
  cases declared <;> rfl

theorem isAccounted_of_forEach {items : List DeclId} {f : DeclId → Attempt}
    (hattempts : attempts env p.id = items.map f)
    (h : (do return (← forEach (fun item => (f item).step) items).filterMap id : Emit (List Declared)).Does
      env {} p.declared p.effects) :
    p.IsAccounted env := by
  obtain ⟨parts, effects, hdoes, hdeclared, hdiagnostics⟩ := does_map h
  obtain ⟨results, hresults, heach⟩ := hdoes.gives.exists_results
  have hall : (forEach (fun item => (f item).step) (results.map (·.1))).Does env {} _ _ :=
    does_forEach heach
  rw [hresults] at hall
  obtain ⟨rfl, htotal⟩ := hdoes.unique hall
  refine ⟨results.map fun r => ⟨f r.1, r.2.1, r.2.2.diagnostics⟩, ?_, ?_, ?_, ?_⟩
  · rw [List.map_map, hattempts, ← hresults, List.map_map]
    rfl
  · rw [List.forall_mem_map]
    intro r hr
    exact Attempt.isReached (heach r hr)
  · rw [Contribution.fragments, hdeclared, List.map_filterMap, List.filterMap_map, List.filterMap_map]
    rfl
  · rw [hdiagnostics, htotal, List.flatMap_map]
    simp only [totalEffects, List.flatMap_map]

theorem Contribution.IsMade.isAccounted (hp : p.IsMade env) : p.IsAccounted env := by
  obtain ⟨d, hd, -⟩ := gives_bind.mp hp.gives
  rw [gives_decl] at hd
  have hdecl : ∀ c, (decl p.id).run env c = (.ok d, c) := by
    intro c
    show (ofResult (found (env.ast.decl? p.id))).run env c = _
    rw [hd]
    rfl
  have hdoes := Does.of_bind hdecl hp
  split at hdoes
  · rename_i hkind
    obtain ⟨hdeclared, hdiagnostics⟩ := hdoes.unique (does_pure [])
    exact ⟨[], by simp [attempts, hd, hkind], by simp, by simp [Contribution.fragments, hdeclared],
      by simpa using hdiagnostics⟩
  · rename_i hkind
    exact isAccounted_of_declare (by simp only [attempts, hd, hkind]) hdoes
  · rename_i e hkind
    have hdoes := Does.of_bind (fun c => show symbols.run env c = (.ok env.symbols, c) from rfl) hdoes
    split at hdoes
    · rename_i hunnamed
      exact isAccounted_of_forEach (f := fun constant => ⟨constant, .methods, emitConstant p.id constant⟩)
        (by simp only [attempts, hd, hkind, hunnamed, if_true]) hdoes
    · rename_i hnamed
      exact isAccounted_of_declare (by simp only [attempts, hd, hkind, hnamed, Bool.false_eq_true, if_false]) hdoes
  · rename_i hkind
    exact isAccounted_of_declare (by simp only [attempts, hd, hkind]) hdoes
  · rename_i hkind
    exact isAccounted_of_declare (by simp only [attempts, hd, hkind]) hdoes
  · rename_i kind hkind
    obtain ⟨hdeclared, hdiagnostics⟩ := hdoes.unique (does_report _)
    let refused : Unsupported := ⟨kind, d.location, "declaration kind has no C# form"⟩
    refine ⟨[⟨⟨p.id, .scope, ofResult (.error (.unsupported refused))⟩, none, [.ofUnsupported refused]⟩],
      by simp only [attempts, hd, hkind]; rfl, ?_, ?_, hdiagnostics⟩
    · rw [List.forall_mem_singleton]
      exact .skipped fun _ _ => rfl
    · rw [Contribution.fragments, hdeclared]
      rfl
  · have hfailed : Except.error _ = Except.ok p.declared := hdoes.gives {} rfl
    cases hfailed

/-! ## Which declarations count -/

def isFunction (ast : Ast) (id : DeclId) : Bool :=
  (ast.decl? id).any fun d =>
    match d.kind with
    | .function _ => true
    | _ => false

def counts (env : Env) (id : DeclId) : Bool :=
  (env.ast.decl? id).any fun d =>
    match d.kind with
    | .function _ => false
    | .record _ => !env.symbols.isShadowed id
    | _ => true

theorem filter_selectFrom (env : Env) (defined met : List String) (ids : List DeclId) :
    (selectFrom env defined met ids).filter (fun id => !isFunction env.ast id) = ids.filter (counts env) := by
  fun_induction selectFrom env defined met ids with
  | case1 => rfl
  | case2 met id rest hd ih =>
    rw [List.filter_cons_of_neg (by simp [counts, hd]), ih]
  | case3 met id rest d hd f hkind hskip ih =>
    rw [List.filter_cons_of_neg (by simp [counts, hd, hkind]), ih]
  | case4 met id rest d hd f hkind hskip ih =>
    rw [List.filter_cons_of_neg (by simp [isFunction, hd, hkind]),
      List.filter_cons_of_neg (by simp [counts, hd, hkind]), ih]
  | case5 met id rest d hd r hkind hshadowed ih =>
    rw [List.filter_cons_of_neg (by simp [counts, hd, hkind, hshadowed]), ih]
  | case6 met id rest d hd r hkind hshadowed ih =>
    rw [List.filter_cons_of_pos (by simp [isFunction, hd, hkind]),
      List.filter_cons_of_pos (by simp [counts, hd, hkind, hshadowed]), ih]
  | case7 met id rest d hd hfunction hrecord ih =>
    rw [List.filter_cons_of_pos (by simp [isFunction, hd]), List.filter_cons_of_pos (by simp [counts, hd]), ih]

/-- **Nothing without a C# form fails a tree, and nothing is dropped.** The bindings have the fragments and
reports of the declarations that count, each kept as one fragment or skipped with one report. -/
theorem refused_declarations_are_reported (settings : Settings) (ast : Ast) :
    (∃ b env visited, ∃ parts : List Contribution, bindingsOf settings ast = .ok b ∧ prepare settings ast = .ok env ∧
      topLevel? ast = some visited ∧ (parts.map (·.id)).Sublist visited ∧
      (parts.map (·.id)).filter (fun id => !isFunction ast id) =
        visited.filter (fun id => isKept ast settings.excludes id && counts env id) ∧
      (∀ id name, IsFunctionNamed ast name id → (name = "" ∨ name ∉ settings.exclude) →
        ((∃ p ∈ parts, p.id = id) ↔ visited.find? (isCandidate ast name) = some id)) ∧
      (∀ p ∈ parts, p.IsAccounted env) ∧
      b.fragments = parts.flatMap (·.fragments) ∧
      b.diagnostics = parts.flatMap (·.effects.diagnostics)) ∨
    (∃ node location reason, bindingsOf settings ast = .error (.malformed node location reason)) ∨
    (bindingsOf settings ast = .error .broken ∧ ast.firstMissing? = none ∧ ¬ Acyclic ast) := by
  rcases h : bindingsOf settings ast with (u | ⟨node, location, reason⟩ | _) | b
  · exact absurd h (notRefused_bindingsOf settings ast u)
  · exact .inr (.inl ⟨node, location, reason, rfl⟩)
  · have hvalid : ast.firstMissing? = none := by
      cases hmissing : ast.firstMissing? with
      | none => rfl
      | some missing => simp [bindingsOf, prepare, hmissing, reject, bind, Except.bind] at h
    refine .inr (.inr ⟨rfl, hvalid, fun hacyclic => ?_⟩)
    exact Intact.completes_bindingsOf ⟨Native.Ast.firstMissing?_eq_none_iff.mp hvalid, hacyclic⟩ settings h
  · left
    obtain ⟨env, parts, hparts, rfl⟩ := bindingsOf_eq_ok_iff.mp h
    obtain ⟨visited, hvisited, hsublist⟩ := sublist_of_selected hparts.selected
    have henv : env.ast = ast := by
      obtain ⟨-, symbols, -, rfl⟩ := Symbols.prepare_eq_ok_iff.mp hparts.prepared
      rfl
    rw [henv] at hvisited
    refine ⟨_, env, visited, parts, rfl, hparts.prepared, hvisited, hsublist, ?_,
      fun id name => hparts.exists_part_iff hvisited, fun p hp => (hparts.made p hp).isAccounted, rfl, rfl⟩
    have hselected := hparts.selected
    simp only [selected?, henv, bind, hvisited, Option.bind_some, pure, Option.some.injEq] at hselected
    rw [← hselected, ← henv, filter_selectFrom, List.filter_filter]
    exact List.filter_congr fun id _ => Bool.and_comm ..

/-- No outcome is given for a tree with an endless chain, although no reference of it is missing. -/
theorem endless_neither_given_nor_malformed :
    endless.firstMissing? = none ∧ (∀ b, bindingsOf {} endless ≠ .ok b) ∧
      ∀ node location reason, bindingsOf {} endless ≠ .error (.malformed node location reason) := by
  have hbroken : bindingsOf {} endless = .error .broken := rfl
  refine ⟨by decide, fun b h => ?_, fun node location reason h => ?_⟩
  · rw [hbroken] at h
    cases h
  · rw [hbroken] at h
    cases h

end Interop.Binding
