import Interop.Proofs.Contributions
import Interop.Proofs.SkippedDeclarations

/-!
# Functions that count

Of all functions with one name a single one counts: the first that has a body, or the first of all if no
body of that name is known. So a function is accounted for exactly if the one that counts for its name is
a declaration of the same function, which fails for overloads and across namespaces, and where the only
body of a name belongs to a function that is never visited.
-/

namespace Interop.Binding

open Native (Ast DeclId)
open Emit
open Managed (Bindings)

variable {env : Env}

/-! ## Selection by name -/

def IsFunctionNamed (ast : Ast) (name : String) (id : DeclId) : Prop :=
  ∃ d f, ast.decl? id = some d ∧ d.kind = .function f ∧ d.name = name

/-- Whether a declaration may stand for the functions of a name: it has a body, or there is none. -/
def isCandidate (ast : Ast) (name : String) (id : DeclId) : Bool :=
  (ast.decl? id).any fun d =>
    match d.kind with
    | .function f => d.name = name && (f.body.isSome || !(definedFunctions ast).contains name)
    | _ => false

theorem isFunctionNamed_of_isCandidate {ast : Ast} {id : DeclId} (h : isCandidate ast name id = true) :
    IsFunctionNamed ast name id := by
  obtain ⟨d, hd, h⟩ := (Option.any_eq_true ..).mp h
  split at h
  · rename_i f hkind
    simp only [Bool.and_eq_true, decide_eq_true_eq] at h
    exact ⟨d, f, hd, hkind, h.1⟩
  · cases h

theorem mem_selectFrom_iff {id : DeclId} (hid : IsFunctionNamed env.ast name id) :
    id ∈ selectFrom env (definedFunctions env.ast) met ids ↔
      name ∉ met ∧ ids.find? (isCandidate env.ast name) = some id := by
  induction ids generalizing met with
  | nil => simp [selectFrom]
  | cons other rest ih =>
    by_cases hother : IsFunctionNamed env.ast name other
    · obtain ⟨d, f, hd, hkind, rfl⟩ := hother
      have hcandidate : isCandidate env.ast d.name other =
          !(f.body.isNone && (definedFunctions env.ast).contains d.name) := by
        simp [isCandidate, hd, hkind, Bool.not_and, Option.not_isNone]
      simp only [selectFrom, hd, hkind]
      cases hskipped : f.body.isNone && (definedFunctions env.ast).contains d.name with
      | true =>
        rw [hskipped] at hcandidate
        rw [List.find?_cons_of_neg (by rw [hcandidate]; decide), Bool.true_or, if_pos rfl, ih]
      | false =>
        rw [hskipped] at hcandidate
        rw [List.find?_cons_of_pos hcandidate, Bool.false_or]
        by_cases hmet : d.name ∈ met
        · rw [if_pos (List.contains_iff_mem.mpr hmet), ih]
          simp [hmet]
        · -- The function itself is met now, so no later one counts.
          rw [if_neg (by simpa using hmet), List.mem_cons, ih]
          simp [hmet, eq_comm]
    · have hne : id ≠ other := fun heq => hother (heq ▸ hid)
      have hcandidate : ¬ isCandidate env.ast name other = true :=
        fun h => hother (isFunctionNamed_of_isCandidate h)
      rw [List.find?_cons_of_neg hcandidate]
      cases hd : env.ast.decl? other with
      | none =>
        simp only [selectFrom, hd]
        exact ih
      | some d =>
        simp only [selectFrom, hd]
        split
        · rename_i f hkind
          have hname : name ≠ d.name := fun heq => hother ⟨d, f, hd, hkind, heq.symm⟩
          split
          · exact ih
          · rw [List.mem_cons, ih]
            simp [hne, hname]
        · split
          · exact ih
          · rw [List.mem_cons, ih]
            simp [hne]
        · rw [List.mem_cons, ih]
          simp [hne]

/-! ## Contributions of functions -/

namespace Contribution

def IsMethodOrReport (p : Contribution) : Prop :=
  (∃ f ∈ p.fragments, f.placement = .methods) ∨ ∃ u, .ofUnsupported u ∈ p.effects.diagnostics

theorem isMethodOrReport_of_function {p : Contribution} (hp : p.IsMade env)
    (hfunction : IsFunctionNamed env.ast name p.id) : p.IsMethodOrReport := by
  obtain ⟨d, f, hd, hkind, -⟩ := hfunction
  have hdecl : (decl p.id).run env {} = (.ok d, {}) := by
    show (ofResult (found (env.ast.decl? p.id))).run env {} = _
    rw [hd]
    rfl
  have hrun := hp {} rfl
  rw [declareTopLevel, run_bind_ok hdecl] at hrun
  simp only [hkind] at hrun
  rcases declare_keptOrSkipped p.id .methods (emitFunction p.id) env {} with
    ⟨declared, effects, hkept⟩ | ⟨u, hskipped⟩ | ⟨e, c, hfailed⟩
  · rw [run_bind_ok hkept] at hrun
    have hdeclared : [declared] = p.declared := Except.ok.inj (congrArg Prod.fst hrun)
    obtain ⟨member, flag, -, rfl⟩ := exists_member_of_declare (gives_of_run hkept)
    refine .inl ⟨Declared.fragment ⟨env.symbols.name p.id, .methods, member, flag⟩, ?_, rfl⟩
    rw [fragments, ← hdeclared]
    exact .head _
  · rw [run_bind_ok hskipped] at hrun
    have hreported : [.ofUnsupported u] = p.effects.diagnostics :=
      congrArg (Context.diagnostics ∘ Prod.snd) hrun
    exact .inr ⟨u, hreported ▸ .head _⟩
  · rw [run_bind_error hfailed] at hrun
    cases hrun

end Contribution

theorem IsPutTogether.exists_part_iff {ast : Ast} {id : DeclId} (h : IsPutTogether settings ast env parts)
    (hvisited : topLevel? ast = some visited) (hid : IsFunctionNamed ast name id)
    (hname : name = "" ∨ name ∉ settings.exclude) :
    (∃ p ∈ parts, p.id = id) ↔ visited.find? (isCandidate ast name) = some id := by
  have hselected := h.selected
  obtain ⟨-, symbols, -, rfl⟩ := Symbols.prepare_eq_ok_iff.mp h.prepared
  simp only [selected?, bind, hvisited, Option.bind_some, pure, Option.some.injEq] at hselected
  rw [← List.mem_map, ← hselected, mem_selectFrom_iff hid, List.find?_filter]
  -- No candidate is excluded, since it has the name.
  have hcandidates : (fun other => isKept ast settings.excludes other && isCandidate ast name other) =
      isCandidate ast name := by
    funext other
    refine Bool.and_eq_right_iff_imp.mpr fun hother => isKept_eq_true_iff.mpr ?_
    rintro ⟨d, hd, hne, hmem⟩
    obtain ⟨d', f, hd', -, rfl⟩ := isFunctionNamed_of_isCandidate hother
    obtain rfl := Option.mem_unique hd hd'
    exact hname.elim hne (· hmem)
  simp [hcandidates]

/-- **Which functions are accounted for**: those for which the first candidate of their name is a
declaration of the same function. -/
theorem function_accounted_for_iff {settings : Settings} {ast : Ast} {b : Bindings}
    (h : bindingsOf settings ast = .ok b) :
    ∃ env visited parts, IsPutTogether settings ast env parts ∧ topLevel? ast = some visited ∧
      b = Contribution.bindings ast.file parts ∧
      ∀ same : DeclId → DeclId → Prop,
        (∀ id id' name, same id id' → IsFunctionNamed ast name id → IsFunctionNamed ast name id') →
        ∀ id name, IsFunctionNamed ast name id → (name = "" ∨ name ∉ settings.exclude) →
          ((∃ p ∈ parts, same id p.id ∧ p.IsMethodOrReport) ↔
            ∃ first, visited.find? (isCandidate ast name) = some first ∧ same id first) := by
  obtain ⟨env, parts, hparts, rfl⟩ := bindingsOf_eq_ok_iff.mp h
  obtain ⟨visited, hvisited, -⟩ := sublist_of_selected hparts.selected
  obtain ⟨-, symbols, -, rfl⟩ := Symbols.prepare_eq_ok_iff.mp hparts.prepared
  refine ⟨_, visited, parts, hparts, hvisited, rfl, ?_⟩
  intro same hsame id name hid hname
  constructor
  · rintro ⟨p, hp, hsameId, -⟩
    have hfunction := hsame id p.id name hsameId hid
    exact ⟨p.id, (hparts.exists_part_iff hvisited hfunction hname).mp ⟨p, hp, rfl⟩, hsameId⟩
  · rintro ⟨first, hfirst, hsameId⟩
    have hfunction := hsame id first name hsameId hid
    obtain ⟨p, hp, rfl⟩ := (hparts.exists_part_iff hvisited hfunction hname).mpr hfirst
    exact ⟨p, hp, hsameId, Contribution.isMethodOrReport_of_function (hparts.made p hp) hfunction⟩

def scaling : Ast where
  file := "scaling.h"
  topLevel := [⟨0⟩]
  decls :=
    #[{ kind := .scope [⟨1⟩, ⟨3⟩], name := "audio" },
      { kind := .function { type := ⟨1⟩, params := [⟨2⟩] }, name := "scale", parent := some ⟨0⟩ },
      { kind := .param ⟨0⟩, name := "x", parent := some ⟨1⟩ },
      { kind := .function { type := ⟨1⟩, params := [⟨4⟩], body := some ⟨0⟩ }, name := "scale",
        parent := some ⟨0⟩ },
      { kind := .param ⟨0⟩, name := "x", parent := some ⟨3⟩ }]
  stmts := #[{ kind := .compound [⟨1⟩] }, { kind := .ret (some ⟨0⟩) }]
  exprs := #[{ kind := .declRef ⟨4⟩, type := ⟨0⟩ }]
  types :=
    #[.ofBuiltin .int, { kind := .function { result := ⟨0⟩, params := [⟨0⟩] }, spelling := "int (int)" }]

theorem scale_accounted_for :
    ∃ env parts, IsPutTogether {} scaling env parts ∧ ∃ p ∈ parts, p.id = ⟨3⟩ ∧ p.IsMethodOrReport := by
  have h : bindingsOf {} scaling = .ok _ := rfl
  obtain ⟨env, visited, parts, hparts, hvisited, -, hiff⟩ := function_accounted_for_iff h
  obtain rfl := Option.some.inj hvisited
  have hscale : ∀ id : DeclId, id = ⟨1⟩ ∨ id = ⟨3⟩ → IsFunctionNamed scaling "scale" id := by
    rintro id (rfl | rfl)
    · exact ⟨_, _, rfl, rfl, rfl⟩
    · exact ⟨_, _, rfl, rfl, rfl⟩
  obtain ⟨p, hp, ⟨-, hid⟩, hcontribution⟩ := (hiff (fun id id' => id = ⟨1⟩ ∧ id' = ⟨3⟩) (by
    rintro _ _ name ⟨rfl, rfl⟩ ⟨d, f, hd, -, rfl⟩
    obtain rfl := Option.some.inj hd
    exact hscale _ (.inr rfl)) ⟨1⟩ "scale" (hscale _ (.inl rfl)) (.inr nofun)).mpr
      ⟨⟨3⟩, rfl, rfl, rfl⟩
  exact ⟨env, parts, hparts, p, hp, hid, hcontribution⟩

def overloads : Ast where
  file := "overloads.h"
  topLevel := [⟨0⟩, ⟨2⟩]
  decls :=
    #[{ kind := .function { type := ⟨2⟩, params := [⟨1⟩], mangledName := some "_Z4picki" }, name := "pick" },
      { kind := .param ⟨0⟩, name := "x", parent := some ⟨0⟩ },
      { kind := .function { type := ⟨3⟩, params := [⟨3⟩], mangledName := some "_Z4pickd" }, name := "pick" },
      { kind := .param ⟨1⟩, name := "x", parent := some ⟨2⟩ }]
  types :=
    #[.ofBuiltin .int, .ofBuiltin .double,
      { kind := .function { result := ⟨0⟩, params := [⟨0⟩], convention := some .c },
        spelling := "int (int)" },
      { kind := .function { result := ⟨0⟩, params := [⟨1⟩], convention := some .c },
        spelling := "int (double)" }]

def parameterKinds? (ast : Ast) (id : DeclId) : Option (List Native.TypeKind) := do
  match (← ast.decl? id).kind with
  | .function f =>
    match ← ast.canonicalKind? f.type with
    | .function proto => proto.params.mapM ast.canonicalKind?
    | _ => none
  | _ => none

/-- The second overload leaves nothing behind, neither a method nor a report. -/
theorem second_overload_lost :
    topLevel? overloads = some [⟨0⟩, ⟨2⟩] ∧
      IsFunctionNamed overloads "pick" ⟨0⟩ ∧ parameterKinds? overloads ⟨0⟩ = some [.builtin .int] ∧
      IsFunctionNamed overloads "pick" ⟨2⟩ ∧ parameterKinds? overloads ⟨2⟩ = some [.builtin .double] ∧
      ∃ b parts, bindingsOf {} overloads = .ok b ∧ b = Contribution.bindings overloads.file parts ∧
        parts.map (·.id) = [⟨0⟩] ∧ b.fragments.length = 1 ∧ b.diagnostics = [] := by
  have h : bindingsOf {} overloads = .ok _ := rfl
  obtain ⟨env, parts, hparts, hb⟩ := bindingsOf_eq_ok_iff.mp h
  obtain rfl := Except.ok.inj hparts.prepared
  exact ⟨rfl, ⟨_, _, rfl, rfl, rfl⟩, rfl, ⟨_, _, rfl, rfl, rfl⟩, rfl, _, parts, h, hb,
    (Option.some.inj hparts.selected).symm, rfl, rfl⟩

end Interop.Binding
