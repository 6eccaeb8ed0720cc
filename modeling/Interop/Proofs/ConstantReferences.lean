import Interop.Proofs.AccountedDeclarations

/-!
# References to enumeration constants

A constant of a named enumeration is written behind the name of the enumeration or imported from it. The
constants of an unnamed enumeration outside of records become constants of the static class. Inside a
record such an enumeration is emitted as a type all the same, and what refers to its constants does not
find them.
-/

namespace Interop.Binding

open Native (Ast DeclId)
open Emit
open Managed (Fragment Bindings Member)

variable {env : Env} {scope inner : Scope}

/-! ## Steps that are run -/

namespace Emit

/-- The step runs the part, in the inner scope, and keeps what the part records. -/
inductive Runs (env : Env) {γ : Type} (part : Emit γ) (inner : Scope) : {α : Type} → Emit α → Scope → Prop
  | self : Runs env part inner part inner
  | first {α β : Type} {m : Emit α} {f : α → Emit β} {scope : Scope} (h : Runs env part inner m scope) :
      Runs env part inner (m >>= f) scope
  | next {α β : Type} {m : Emit α} {f : α → Emit β} {scope : Scope} {a : α} (hm : m.Gives env scope a)
      (h : Runs env part inner (f a) scope) : Runs env part inner (m >>= f) scope
  | within {α : Type} {m : Emit α} {scope : Scope} {record : DeclId}
      (h : Runs env part inner m { scope with record := some record }) :
      Runs env part inner (within record m) scope
  | returning {α : Type} {m : Emit α} {scope : Scope} {type : Native.TypeId}
      (h : Runs env part inner m { scope with returnType := some type }) :
      Runs env part inner (returning type m) scope
  | contained {α : Type} {m : Emit α} {scope : Scope} (h : Runs env part inner m scope) :
      Runs env part inner (contained m) scope
  | kept {α : Type} {m : Emit α} {scope : Scope} {a : α} (hm : m.Gives env scope a)
      (h : Runs env part inner m scope) : Runs env part inner (skippable m) scope

theorem Does.effects_of_bind {α β : Type} {m : Emit α} {f : α → Emit β} {b : β} {effects : Effects}
    (h : (m >>= f).Does env scope b effects) :
    ∃ a before behind, m.Does env scope a before ∧ (f a).Does env scope b behind ∧
      effects = before ++ behind := by
  obtain ⟨a, hm, hf⟩ := gives_bind.mp h.gives
  obtain ⟨before, hbefore⟩ := hm.does
  obtain ⟨behind, hbehind⟩ := hf.does
  exact ⟨a, before, behind, hbefore, hbehind, h.effects_eq (hbefore.bind hbehind)⟩

theorem Does.statics_of_bind {α β : Type} {m : Emit α} {f : α → Emit β} {b : β} {effects : Effects}
    (h : (m >>= f).Does env scope b effects) :
    ∃ a before behind, m.Does env scope a before ∧ (f a).Does env scope b behind ∧
      effects.statics = before.statics ++ behind.statics := by
  obtain ⟨a, before, behind, hbefore, hbehind, rfl⟩ := h.effects_of_bind
  exact ⟨a, before, behind, hbefore, hbehind, rfl⟩

/-- **What a part imports is imported.** -/
theorem Runs.exists_imports {γ α : Type} {part : Emit γ} {m : Emit α} (h : Runs env part inner m scope) :
    ∀ {a : α} {effects : Effects}, m.Does env scope a effects →
      ∃ b effects', part.Does env inner b effects' ∧ effects'.statics ⊆ effects.statics ∧
        effects'.namespaces ⊆ effects.namespaces := by
  induction h with
  | self => exact fun hdoes => ⟨_, _, hdoes, List.Subset.refl _, List.Subset.refl _⟩
  | first _ ih =>
    intro b effects hdoes
    obtain ⟨a, before, behind, hbefore, -, rfl⟩ := hdoes.effects_of_bind
    obtain ⟨c, effects', hpart, hstatics, hnamespaces⟩ := ih hbefore
    exact ⟨c, effects', hpart, List.Subset.trans hstatics (List.subset_append_left _ _),
      List.Subset.trans hnamespaces (List.subset_append_left _ _)⟩
  | next hm _ ih =>
    intro b effects hdoes
    obtain ⟨a, before, behind, hbefore, hbehind, rfl⟩ := hdoes.effects_of_bind
    obtain rfl := hbefore.gives.unique hm
    obtain ⟨c, effects', hpart, hstatics, hnamespaces⟩ := ih hbehind
    exact ⟨c, effects', hpart, List.Subset.trans hstatics (List.subset_append_right _ _),
      List.Subset.trans hnamespaces (List.subset_append_right _ _)⟩
  | within _ ih => exact fun hdoes => ih (does_within.mp hdoes)
  | returning _ ih => exact fun hdoes => ih (does_returning.mp hdoes)
  | contained _ ih =>
    rintro ⟨a, flag⟩ effects hdoes
    obtain ⟨effects', hm⟩ := hdoes.gives.of_contained.does
    rw [hdoes.effects_eq hm.contained]
    obtain ⟨b, inside, hpart, himports⟩ := ih hm
    exact ⟨b, inside, hpart, himports⟩
  | kept hm _ ih =>
    intro r effects hdoes
    obtain ⟨effects', hinner⟩ := hm.does
    rw [hdoes.effects_eq hinner.skippable]
    exact ih hinner

theorem Does.exists_behind {α β : Type} {m : Emit α} {f : α → Emit β} {a : α} {b : β} {effects : Effects}
    (h : (m >>= f).Does env scope b effects) (ha : m.Gives env scope a) :
    ∃ behind, (f a).Does env scope b behind ∧ behind.statics ⊆ effects.statics := by
  obtain ⟨a', before, behind, hbefore, hbehind, hstatics⟩ := h.statics_of_bind
  obtain rfl := hbefore.gives.unique ha
  exact ⟨behind, hbehind, hstatics ▸ List.subset_append_right _ _⟩

theorem Does.mem_of_importStatic {name : String} {u : Unit} {effects : Effects}
    (h : (importStatic name).Does env scope u effects) : name ∈ effects.statics := by
  have htold : (importStatic name).Does env scope () { statics := [name] } := fun _ _ => rfl
  rw [h.effects_eq htold]
  exact List.mem_singleton.mpr rfl

end Emit

/-! ## How a constant is written -/

def isNamedEnum (symbols : Symbols) (id : DeclId) (d : Native.Decl) : Bool :=
  d.name ≠ "" || (symbols.namingTypedef? id).isSome

def methodsClassName (settings : EmissionSettings) : String :=
  settings.scope ++ "." ++ settings.methodsClass

/-- The full name of an enumeration, as it is imported by. -/
def IsFullName (env : Env) (id : DeclId) (full : String) : Prop :=
  ∃ name, qualifiedName? env.ast env.symbols id none = some name ∧ full = env.settings.scope ++ "." ++ name

variable {id constant enumeration : DeclId} {d : Native.Decl} {info : Native.Enum}

theorem Emit.Does.mem_of_importMethodsClass {u : Unit} {effects : Effects}
    (h : importMethodsClass.Does env scope u effects) (hrecord : scope.record.isSome = true) :
    methodsClassName env.settings ∈ effects.statics := by
  obtain ⟨_, h, hsub⟩ := h.exists_behind (gives_env.mpr rfl)
  obtain ⟨_, h, hsub'⟩ := h.exists_behind (gives_currentRecord.mpr rfl)
  rw [if_pos hrecord] at h
  exact hsub (hsub' h.mem_of_importStatic)

/-- Bare, behind the name of the enumeration, or bare and imported from it. -/
theorem enumConstant_cases (hparent : d.parent = some enumeration)
    (henum : env.ast.decl? enumeration = some ed) (hkind : ed.kind = .enum info)
    (h : (enumConstant constant d).Does env scope out effects) :
    (isNamedEnum env.symbols enumeration ed = false ∧ out = .ident (env.symbols.name constant) ∧
      (scope.record.isSome = true → methodsClassName env.settings ∈ effects.statics)) ∨
    isNamedEnum env.symbols enumeration ed = true ∧
      ((∃ name, qualifiedName? env.ast env.symbols enumeration scope.record = some name ∧
        out = .member (.ident name) false (env.symbols.name constant)) ∨
      out = .ident (env.symbols.name constant) ∧
        ∃ full, IsFullName env enumeration full ∧ full ∈ effects.statics) := by
  obtain ⟨_, h, hsub⟩ := h.exists_behind (gives_nameOf.mpr rfl)
  simp only [hparent] at h
  obtain ⟨_, h, hsub'⟩ := h.exists_behind (gives_decl.mpr henum)
  obtain ⟨last, h, hsub''⟩ := h.exists_behind (gives_symbols.mpr rfl)
  have hstatics : ∀ n ∈ last.statics, n ∈ effects.statics := fun n hn => hsub (hsub' (hsub'' hn))
  simp only [hkind] at h
  split at h
  · rename_i hunnamed
    obtain ⟨_, _, _, hbefore, hpure, happend⟩ := h.statics_of_bind
    refine .inl ⟨by simpa [isNamedEnum] using hunnamed, (gives_pure.mp hpure.gives).symm, fun hrecord => ?_⟩
    exact hstatics _ (happend ▸ List.mem_append_left _ (hbefore.mem_of_importMethodsClass hrecord))
  · rename_i hnamed
    refine .inr ⟨by simpa [isNamedEnum, Option.isSome_iff_ne_none, ← imp_iff_not_or] using hnamed, ?_⟩
    split at h
    · obtain ⟨name, hname, hpure⟩ := gives_bind.mp h.gives
      exact .inl ⟨name, by simpa [qualifiedName] using hname, (gives_pure.mp hpure).symm⟩
    · obtain ⟨full, hfull, -⟩ := gives_bind.mp h.gives
      obtain ⟨_, h, hbehind⟩ := h.exists_behind hfull
      obtain ⟨_, _, _, hbefore, hpure, happend⟩ := h.statics_of_bind
      refine .inr ⟨(gives_pure.mp hpure.gives).symm, full, ?_, hstatics _ (hbehind ?_)⟩
      · simp only [fullTypeName, gives_bind, gives_env, exists_eq_left, gives_lift_option, gives_pure] at hfull
        obtain ⟨name, hname, rfl⟩ := hfull
        exact ⟨name, hname, rfl⟩
      · exact happend ▸ List.mem_append_left _ hbefore.mem_of_importStatic

/-! ## Constants of the static class -/

theorem Emit.Refuses.of_bind {α β : Type} {m : Emit α} {f : α → Emit β} {a : α}
    (h : (m >>= f).Refuses env scope u) (ha : m.Gives env scope a) : (f a).Refuses env scope u := by
  have hrefused : ((m >>= f).outcome env scope).1 = .error (.unsupported u) := h _ scope.scope_context
  rw [fst_outcome_bind, gives_iff.mp ha] at hrefused
  intro c hc
  rw [run_eq, hc]
  exact hrefused

theorem neverRefused_exprOf {id : Native.ExprId} : (exprOf id).NeverRefused :=
  (neverRefused_env.bind fun _ => neverRefused_pure _).bind fun _ => neverRefused_lift _

theorem neverRefused_constantOf : (constantOf id).NeverRefused := by
  refine (neverRefused_decl id).bind fun d => ?_
  split
  · exact neverRefused_pure _
  · refine ((neverRefused_env.bind fun _ => neverRefused_pure _).bind fun _ => neverRefused_lift _).bind fun inner => ?_
    refine neverRefused_exprOf.bind fun e => ?_
    split
    · exact neverRefused_pure _
    · exact neverRefused_pure _
  · exact neverRefused_ofResult (Result.notRefused_reject _ _ _)

theorem neverRefused_obsoleteAttribute : (obsoleteAttribute id).NeverRefused := by
  refine (neverRefused_decl id).bind fun d => ?_
  split
  · exact neverRefused_pure _
  · exact (neverRefused_tell _).bind fun _ => neverRefused_pure _

/-- Whether a constant is refused depends on the type of its enumeration only. -/
theorem not_refuses_of_gives {other : DeclId} (h : (emitConstant enumeration other).Gives env scope member) :
    ¬ (emitConstant enumeration constant).Refuses env scope u := by
  intro hrefuses
  obtain ⟨ed, hed, h⟩ := gives_bind.mp h
  have hrefuses := hrefuses.of_bind hed
  split at h
  · rename_i info hkind
    simp only [hkind] at hrefuses
    obtain ⟨underlying, hunderlying, -⟩ := gives_bind.mp h
    have hrest := hrefuses.of_bind hunderlying
    refine (?_ : NeverRefused _) env _ u (hrest _ scope.scope_context)
    refine neverRefused_constantOf.bind fun value => neverRefused_obsoleteAttribute.bind fun obsolete => ?_
    exact (neverRefused_env.bind fun _ => neverRefused_pure _).bind fun name => neverRefused_pure _
  · exact absurd h not_gives_malformed

/-- A constant of the static class. -/
def IsHoisted (env : Env) (fragments : List Fragment) (constant : DeclId) : Prop :=
  ∃ attrs type value usesPointers, .declaration (env.symbols.name constant)
    (Member.field attrs .const type (env.symbols.name constant) (some value)).text .methods usesPointers ∈ fragments

theorem hoisted_of_emitConstant (h : (declare constant .methods (emitConstant enumeration constant)).Gives env scope
      (some declared)) (hmem : declared.fragment ∈ fragments) : IsHoisted env fragments constant := by
  obtain ⟨member, flag, hmember, rfl⟩ := exists_member_of_declare h
  obtain ⟨ed, -, hmember⟩ := gives_bind.mp hmember
  split at hmember
  · simp only [gives_bind, gives_pure, gives_nameOf] at hmember
    obtain ⟨underlying, -, ⟨value, spelled⟩, -, obsolete, -, name, rfl, rfl⟩ := hmember
    exact ⟨_, _, _, flag, hmem⟩
  · exact absurd hmember not_gives_malformed

/-- **An unnamed enumeration is hoisted as a whole**: if one of its constants is emitted, all are. -/
theorem hoisted_of_isMade {p : Contribution} (hp : p.IsMade env) (hed : env.ast.decl? p.id = some ed)
    (hkind : ed.kind = .enum info) (hunnamed : isNamedEnum env.symbols p.id ed = false)
    (hemitted : p.declared ≠ []) (hconstant : constant ∈ info.constants) :
    IsHoisted env p.fragments constant := by
  have hbare : (ed.name = "" && (env.symbols.namingTypedef? p.id).isNone) = true := by
    simpa [isNamedEnum] using hunnamed
  have hgives := hp.gives
  simp only [declareTopLevel, gives_bind, gives_decl, exists_found hed, hkind, gives_symbols, exists_eq_left, hbare,
    if_true, declareConstants, gives_pure] at hgives
  obtain ⟨results, hresults, hdeclared⟩ := hgives
  obtain ⟨other, member, hother⟩ : ∃ other member, (emitConstant p.id other).Gives env {} member := by
    obtain ⟨kept, hkept⟩ := List.exists_mem_of_ne_nil _ hemitted
    rw [← hdeclared] at hkept
    obtain ⟨result, hresult, rfl⟩ := List.mem_filterMap.mp hkept
    obtain ⟨other, -, hother⟩ := hresults.exists_of_mem_forEach hresult
    obtain ⟨member, -, hmember, -⟩ := exists_member_of_declare hother
    exact ⟨other, member, hmember⟩
  obtain ⟨result, hresult, hconstant⟩ := hresults.exists_result_of_mem hconstant
  cases result with
  | some declared =>
    refine hoisted_of_emitConstant hconstant (List.mem_map_of_mem ?_)
    rw [← hdeclared]
    exact List.mem_filterMap.mpr ⟨_, hresult, rfl⟩
  | none =>
    rcases declare_cases constant .methods (emitConstant p.id constant) env {} with
      ⟨declared, _, hrun⟩ | ⟨u, hrefuses, -⟩ | ⟨e, _, -, hrun⟩
    · cases (hconstant {} rfl).symm.trans (congrArg Prod.fst hrun)
    · exact absurd hrefuses (not_refuses_of_gives hother)
    · cases (hconstant {} rfl).symm.trans (congrArg Prod.fst hrun)

/-! ## References -/

/-- The emission of a declaration runs into a reference: one of a function or variable of the file does so
outside of records. -/
structure IsReference (env : Env) (p : Contribution) (e : Native.Expr) (constant : DeclId) (inner : Scope) :
    Prop where
  runs : Runs env (declRefRule e constant) inner (declareTopLevel p.id) {}
  place : inner.record.isSome = true ∨ ∃ d, env.ast.decl? p.id = some d ∧
    ((∃ f, d.kind = .function f) ∨ ∃ v, d.kind = .var v)

/-- **How C# finds a constant**: behind the name of its enumeration, or as a bare name by a static import of the
enumeration, or in the static class, from inside of it or by a static import of that. -/
inductive IsReachable (env : Env) (b : Bindings) (p : Contribution) (inner : Scope) (enumeration constant : DeclId) :
    Managed.Expr → Prop
  | qualified {name : String} (h : qualifiedName? env.ast env.symbols enumeration inner.record = some name) :
      IsReachable env b p inner enumeration constant (.member (.ident name) false (env.symbols.name constant))
  | imported {full : String} (hfull : IsFullName env enumeration full) (h : full ∈ b.statics) :
      IsReachable env b p inner enumeration constant (.ident (env.symbols.name constant))
  | hoisted (hconstant : IsHoisted env b.fragments constant)
      (h : (∀ f ∈ p.fragments, f.placement = .methods) ∨ methodsClassName env.settings ∈ b.statics) :
      IsReachable env b p inner enumeration constant (.ident (env.symbols.name constant))

theorem placement_of_isMade {p : Contribution} (hp : p.IsMade env) (hd : env.ast.decl? p.id = some d)
    (hkind : (∃ f, d.kind = .function f) ∨ ∃ v, d.kind = .var v) : ∀ f ∈ p.fragments, f.placement = .methods := by
  have hone : ∃ m r, (declare p.id .methods m).Gives env {} r ∧ r.toList = p.declared := by
    have hgives := hp.gives
    obtain ⟨_, hkind⟩ | ⟨_, hkind⟩ := hkind
    all_goals
      simp only [declareTopLevel, gives_bind, gives_decl, exists_found hd, hkind, gives_pure] at hgives
      obtain ⟨r, hr, hdeclared⟩ := hgives
      exact ⟨_, r, hr, hdeclared⟩
  obtain ⟨m, r, hr, hdeclared⟩ := hone
  intro f hf
  obtain ⟨declared, hmem, rfl⟩ := List.mem_map.mp hf
  rw [← hdeclared, Option.mem_toList] at hmem
  subst hmem
  obtain ⟨member, flag, -, rfl⟩ := exists_member_of_declare hr
  rfl

/-- **References to constants resolve** if the enumeration is named or its constants stand in the static class,
and otherwise only if something else imports the enumeration. Outside of records an unnamed enumeration that
is emitted has its constants there. -/
theorem constant_reference_resolves_iff {settings : Settings} {ast : Ast} {b : Bindings} {parts : List Contribution}
    {p : Contribution} {e : Native.Expr} {d ed : Native.Decl} {info : Native.Enum}
    (hb : bindingsOf settings ast = .ok b) (hparts : IsPutTogether settings ast env parts) (hp : p ∈ parts)
    (href : IsReference env p e constant inner) (hd : ast.decl? constant = some d)
    (hkind : d.kind = .constant value init) (hparent : d.parent = some enumeration)
    (hed : ast.decl? enumeration = some ed) (hekind : ed.kind = .enum info) (hmem : constant ∈ info.constants) :
    ∃ out, (declRefRule e constant).Gives env inner out ∧
      (IsReachable env b p inner enumeration constant out ↔ isNamedEnum env.symbols enumeration ed = true ∨
        (∃ full, IsFullName env enumeration full ∧ full ∈ b.statics) ∨ IsHoisted env b.fragments constant) ∧
      (isNamedEnum env.symbols enumeration ed = false →
        (∃ q ∈ parts, q.id = enumeration ∧ q.declared ≠ []) → IsHoisted env b.fragments constant) := by
  obtain rfl : b = Contribution.bindings ast.file parts :=
    Except.ok.inj (hb.symm.trans (bindingsOf_eq_ok_iff.mpr ⟨env, parts, hparts, rfl⟩))
  obtain ⟨-, symbols, -, rfl⟩ := Symbols.prepare_eq_ok_iff.mp hparts.prepared
  obtain ⟨out, effects, hdoes, hsub, -⟩ := href.runs.exists_imports (hparts.made p hp)
  have hstatics : ∀ n ∈ effects.statics, n ∈ (Contribution.bindings ast.file parts).statics := fun n hn =>
    Managed.mem_nameSet.mpr (List.mem_flatMap.mpr ⟨p, hp, hsub hn⟩)
  refine ⟨out, hdoes.gives, ?_, ?_⟩
  · obtain ⟨_, hrule, hsub₁⟩ := hdoes.exists_behind (gives_decl.mpr hd)
    obtain ⟨_, hrule, hsub₂⟩ := hrule.exists_behind (gives_nameOf.mpr rfl)
    simp only [hkind] at hrule
    have hcases := enumConstant_cases hparent hed hekind hrule
    constructor
    · intro hreachable
      cases hreachable with
      | qualified hname =>
        rcases hcases with ⟨-, hout, -⟩ | ⟨hnamed, -⟩
        · cases hout
        · exact .inl hnamed
      | imported hfull himported => exact .inr (.inl ⟨_, hfull, himported⟩)
      | hoisted hhoisted => exact .inr (.inr hhoisted)
    · intro hany
      rcases hcases with ⟨hunnamed, rfl, hclass⟩ | ⟨-, ⟨name, hname, rfl⟩ | ⟨rfl, full, hfull, himported⟩⟩
      · rcases hany with hnamed | ⟨full, hfull, himported⟩ | hhoisted
        · cases hnamed.symm.trans hunnamed
        · exact .imported hfull himported
        · refine .hoisted hhoisted ?_
          rcases href.place with hrecord | ⟨d', hd', hcallable⟩
          · exact .inr (hstatics _ (hsub₁ (hsub₂ (hclass hrecord))))
          · exact .inl (placement_of_isMade (hparts.made p hp) hd' hcallable)
      · exact .qualified hname
      · exact .imported hfull (hstatics _ (hsub₁ (hsub₂ himported)))
  · rintro hunnamed ⟨q, hq, rfl, hemitted⟩
    obtain ⟨attrs, type, declared, uses, hfragment⟩ :=
      hoisted_of_isMade (hparts.made q hq) hed hekind hunnamed hemitted hmem
    exact ⟨attrs, type, declared, uses, List.mem_flatMap.mpr ⟨q, hq, hfragment⟩⟩

/-- Unnamed enumerations outside and inside of a record, and functions that use their constants. -/
def lamp : Ast where
  file := "lamp.h"
  topLevel := [⟨0⟩, ⟨2⟩, ⟨6⟩, ⟨7⟩]
  decls :=
    #[{ kind := .enum { integerType := ⟨0⟩, constants := [⟨1⟩] } },
      { kind := .constant 0 none, name := "Off", parent := some ⟨0⟩ },
      { kind := .record { tag := .struct, members := [⟨3⟩, ⟨5⟩] }, name := "Lamp" },
      { kind := .enum { integerType := ⟨0⟩, constants := [⟨4⟩] }, parent := some ⟨2⟩ },
      { kind := .constant 0 none, name := "Dimmed", parent := some ⟨3⟩ },
      { kind := .field { type := ⟨0⟩ }, name := "level", parent := some ⟨2⟩ },
      { kind := .function { type := ⟨1⟩, body := some ⟨0⟩ }, name := "lowest" },
      { kind := .function { type := ⟨1⟩, body := some ⟨2⟩ }, name := "highest" }]
  types :=
    #[.ofBuiltin .int, { kind := .function { result := ⟨0⟩, params := [] }, spelling := "int ()" }]
  exprs := #[{ kind := .declRef ⟨1⟩, type := ⟨0⟩ }, { kind := .declRef ⟨4⟩, type := ⟨0⟩ }]
  stmts :=
    #[{ kind := .compound [⟨1⟩] }, { kind := .ret (some ⟨0⟩) }, { kind := .compound [⟨3⟩] },
      { kind := .ret (some ⟨1⟩) }]

def constantUse (constant : DeclId) : Native.Expr := { kind := .declRef constant, type := ⟨0⟩ }

theorem lamp_runs {env : Env} (henv : prepare {} lamp = .ok env) :
    ∀ r ∈ [((⟨6⟩, ⟨1⟩) : DeclId × DeclId), (⟨7⟩, ⟨4⟩)],
      Runs env (declRefRule (constantUse r.2) r.2) { returnType := some ⟨0⟩ } (declareTopLevel r.1) {} := by
  cases henv
  simp only [List.forall_mem_cons, List.not_mem_nil, false_imp_iff, implies_true, and_true]
  constructor
  all_goals
    refine .next (gives_of_run (c := {}) rfl) (.first (.first (.first (.contained ?_))))
    refine .kept (gives_of_run (c := {}) rfl) ?_
    refine .next (gives_of_run (c := {}) rfl) (.next (gives_of_run (c := {}) rfl) ?_)
    refine .next (gives_of_run (c := {}) rfl) (.next (gives_of_run (c := {}) rfl) (.first ?_))
    refine .next (gives_of_run (c := {}) rfl) (.next (gives_of_run (c := {}) rfl) (.first (.returning ?_)))
    refine .next (gives_of_run (c := Context.enterFunction {} ⟨0⟩) rfl) ?_
    refine .next (gives_of_run (c := Context.enterFunction {} ⟨0⟩) rfl) ?_
    refine .next (gives_of_run (c := Context.enterFunction {} ⟨0⟩) rfl) (.first ?_)
    refine .next (gives_of_run (c := Context.enterFunction {} ⟨0⟩) rfl) ?_
    refine .next (gives_of_run (c := Context.enterFunction {} ⟨0⟩) rfl) ?_
    refine .next (gives_of_run (c := Context.enterFunction {} ⟨0⟩) rfl) ?_
    refine .next (gives_of_run (c := Context.enterFunction {} ⟨0⟩) rfl) (.first ?_)
    refine .next (gives_of_run (c := Context.enterFunction {} ⟨0⟩) rfl) ?_
    refine .next (gives_of_run (c := Context.enterFunction {} ⟨0⟩) rfl) ?_
    exact .self

theorem lamp_selected {env : Env} {parts : List Contribution} (h : IsPutTogether {} lamp env parts) :
    parts.map (·.id) = [⟨0⟩, ⟨2⟩, ⟨6⟩, ⟨7⟩] := by
  obtain rfl := Except.ok.inj (h.prepared.symm.trans rfl)
  exact Option.some.inj (h.selected.symm.trans rfl)

theorem lamp_reference {env : Env} {parts : List Contribution} (h : IsPutTogether {} lamp env parts) :
    ∀ r ∈ [((⟨6⟩, ⟨1⟩) : DeclId × DeclId), (⟨7⟩, ⟨4⟩)],
      ∃ p ∈ parts, IsReference env p (constantUse r.2) r.2 { returnType := some ⟨0⟩ } := by
  intro r hr
  obtain ⟨p, hp, hid⟩ : ∃ p ∈ parts, p.id = r.1 := by
    refine List.mem_map.mp ?_
    rw [lamp_selected h]
    revert r
    decide
  have hfunction : ∃ d, env.ast.decl? r.1 = some d ∧ ∃ f, d.kind = .function f := by
    obtain rfl := Except.ok.inj (h.prepared.symm.trans rfl)
    simp only [List.mem_cons, List.not_mem_nil, or_false] at hr
    rcases hr with rfl | rfl
    · exact ⟨_, rfl, _, rfl⟩
    · exact ⟨_, rfl, _, rfl⟩
  obtain ⟨d, hd, hkind⟩ := hfunction
  exact ⟨p, hp, hid ▸ lamp_runs h.prepared r hr, .inr ⟨d, hid ▸ hd, .inl hkind⟩⟩

theorem off_reachable : ∃ b env parts, ∃ p ∈ parts, ∃ out, bindingsOf {} lamp = .ok b ∧
    IsPutTogether {} lamp env parts ∧ IsReference env p (constantUse ⟨1⟩) ⟨1⟩ { returnType := some ⟨0⟩ } ∧
    (declRefRule (constantUse ⟨1⟩) ⟨1⟩).Gives env { returnType := some ⟨0⟩ } out ∧
    IsHoisted env b.fragments ⟨1⟩ ∧ IsReachable env b p { returnType := some ⟨0⟩ } ⟨0⟩ ⟨1⟩ out := by
  have hb : bindingsOf {} lamp = .ok _ := rfl
  obtain ⟨env, parts, hparts, -⟩ := bindingsOf_eq_ok_iff.mp hb
  obtain ⟨p, hp, href⟩ := lamp_reference hparts (⟨6⟩, ⟨1⟩) (.head _)
  obtain ⟨out, hout, hreachable, hemitted⟩ :=
    constant_reference_resolves_iff hb hparts hp href rfl rfl rfl rfl rfl (.head _)
  obtain rfl := Except.ok.inj (hparts.prepared.symm.trans rfl)
  obtain ⟨q, hq, hid⟩ := List.mem_map.mp (lamp_selected hparts ▸ List.Mem.head _)
  have hkept : q.declared ≠ [] := by
    intro hnone
    have hmade := (hparts.made q hq).gives
    rw [hid, hnone] at hmade
    cases hmade.unique (gives_of_run (c := {}) rfl)
  have hhoisted := hemitted rfl ⟨q, hq, hid, hkept⟩
  exact ⟨_, _, parts, p, hp, out, hb, hparts, href, hout, hhoisted, hreachable.mpr (.inr (.inr hhoisted))⟩

/-- The enumeration inside the record is emitted there, and its constant is not found by a bare name. -/
theorem dimmed_not_reachable : ∃ b env parts, ∃ p ∈ parts, ∃ out, bindingsOf {} lamp = .ok b ∧
    IsPutTogether {} lamp env parts ∧ IsReference env p (constantUse ⟨4⟩) ⟨4⟩ { returnType := some ⟨0⟩ } ∧
    (∃ f ∈ b.fragments, "    public enum __AnonymousEnum_unknown_L0_C0" ∈ Managed.Code.ofText f.text) ∧
    (declRefRule (constantUse ⟨4⟩) ⟨4⟩).Gives env { returnType := some ⟨0⟩ } out ∧
    ¬ IsReachable env b p { returnType := some ⟨0⟩ } ⟨3⟩ ⟨4⟩ out := by
  have hb : bindingsOf {} lamp = .ok _ := rfl
  obtain ⟨env, parts, hparts, -⟩ := bindingsOf_eq_ok_iff.mp hb
  obtain ⟨p, hp, href⟩ := lamp_reference hparts (⟨7⟩, ⟨4⟩) (.tail _ (.head _))
  obtain rfl := Except.ok.inj (hparts.prepared.symm.trans rfl)
  refine ⟨_, _, parts, p, hp, .ident "Dimmed", hb, hparts, href,
    ⟨_, .tail _ (.head _), by decide +kernel⟩, gives_of_run (c := Context.enterFunction {} ⟨0⟩) rfl, ?_⟩
  intro hreachable
  generalize hout : Managed.Expr.ident "Dimmed" = out at hreachable
  cases hreachable with
  | qualified => cases hout
  | imported _ h => cases h
  | hoisted hconstant =>
    obtain ⟨attrs, type, value, usesPointers, hmem⟩ := hconstant
    have hname : "Dimmed" ∈ _ := List.mem_map_of_mem (f := (·.name)) hmem
    exact absurd hname (by decide)

end Interop.Binding
