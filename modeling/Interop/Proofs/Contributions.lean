import Interop.Binding.Bindings
import Interop.Proofs.Emission
import Interop.Proofs.SymbolTable

/-!
# Contributions of declarations

The bindings of a tree are put together from what its declarations contribute. By `Emit.uniform` a
declaration contributes the same whatever was emitted before it (`bindingsOf_eq_ok_iff`). Excluding more
names takes declarations from the list and does nothing else, since a function that is met or defined
matters only to functions of the same name (`selectFrom_filter`).
-/

namespace Interop

def Settings.excluding (settings : Settings) (names : List String) : Settings :=
  { settings with exclude := settings.exclude ++ names }

namespace Managed

theorem mem_insertName : other ∈ insertName name names ↔ other = name ∨ other ∈ names := by
  induction names with
  | nil => simp [insertName]
  | cons first rest ih =>
    unfold insertName
    split
    · exact List.mem_cons
    · split
      · rename_i heq
        simp [heq]
      · rw [List.mem_cons, ih, List.mem_cons]
        exact or_left_comm

@[simp] theorem mem_nameSet : name ∈ nameSet names ↔ name ∈ names := by
  have hfold : ∀ set : List String, name ∈ names.foldl (fun set name => insertName name set) set ↔
      name ∈ set ∨ name ∈ names := by
    induction names with
    | nil => simp
    | cons first rest ih =>
      intro set
      rw [List.foldl_cons, ih, mem_insertName, List.mem_cons, or_comm (a := name = first), or_assoc]
  simp [nameSet, hfold]

end Managed

end Interop

namespace Interop.Binding

open Native (Ast DeclId Decl)
open Emit
open Managed (Fragment Bindings)

variable {env : Env} {scope : Scope}
variable {excludes : String → Bool} {id : DeclId} {ast : Ast} {ids : List DeclId} {d : Decl}

/-! ## Steps and their effects -/

namespace Emit

variable {m : Emit α} {f : α → Emit β}

/-- The step gives a value and has these effects in every context of the scope. -/
def Does (m : Emit α) (env : Env) (scope : Scope) (a : α) (effects : Effects) : Prop :=
  ∀ c : Context, c.scope = scope → m.run env c = (.ok a, c.after effects)

theorem does_iff : m.Does env scope a effects ↔ m.outcome env scope = (.ok a, effects) :=
  (outcome_eq_iff (p := (.ok a, effects))).symm

theorem Does.gives (h : m.Does env scope a effects) : m.Gives env scope a := by
  rw [gives_iff, does_iff.mp h]

theorem Gives.does (h : m.Gives env scope a) : ∃ effects, m.Does env scope a effects :=
  ⟨_, does_iff.mpr (Prod.ext (gives_iff.mp h) rfl)⟩

theorem Does.effects_eq (h : m.Does env scope a effects) (hother : m.Does env scope b other) :
    effects = other :=
  congrArg Prod.snd ((does_iff.mp h).symm.trans (does_iff.mp hother))

theorem Does.bind (hm : m.Does env scope a effects) (hf : (f a).Does env scope b behind) :
    (m >>= f).Does env scope b (effects ++ behind) := by
  rw [does_iff, outcome_bind_ok (does_iff.mp hm), does_iff.mp hf]

theorem Does.exists_of_bind (h : (m >>= f).Does env scope b effects) :
    ∃ a before behind, m.Does env scope a before ∧ (f a).Does env scope b behind ∧
      effects.namespaces = before.namespaces ++ behind.namespaces ∧
      effects.diagnostics = before.diagnostics ++ behind.diagnostics := by
  obtain ⟨a, hm, hf⟩ := gives_bind.mp h.gives
  obtain ⟨before, hbefore⟩ := hm.does
  obtain ⟨behind, hbehind⟩ := hf.does
  obtain rfl := h.effects_eq (hbefore.bind hbehind)
  exact ⟨a, before, behind, hbefore, hbehind, rfl, rfl⟩

theorem does_within :
    (within record m).Does env scope a effects ↔
      m.Does env { scope with record := some record } a effects := by
  rw [does_iff, does_iff, outcome_within]

theorem does_returning :
    (returning type m).Does env scope a effects ↔
      m.Does env { scope with returnType := some type } a effects := by
  rw [does_iff, does_iff, outcome_returning]

/-- Only the use of pointers does not show outside. -/
theorem Does.contained (h : m.Does env scope a effects) :
    (contained m).Does env scope (a, effects.pointers) { effects with pointers := false } := by
  rw [does_iff, outcome_contained, does_iff.mp h]
  rfl

theorem Does.skippable (h : m.Does env scope a effects) : (skippable m).Does env scope (some a) effects := by
  rw [does_iff, outcome_skippable, does_iff.mp h]

def totalEffects (effects : List Effects) : Effects where
  namespaces := effects.flatMap (·.namespaces)
  statics := effects.flatMap (·.statics)
  diagnostics := effects.flatMap (·.diagnostics)
  pointers := effects.any (·.pointers)

theorem does_forEach {items : List ι} {a : ι → α} {b : ι → β} {effects : ι → Effects}
    (h : ∀ i ∈ items, (f (a i)).Does env scope (b i) (effects i)) :
    (forEach f (items.map a)).Does env scope (items.map b) (totalEffects (items.map effects)) := by
  induction items with
  | nil =>
    intro c _
    show (_, c) = (_, c.after {})
    rw [c.after_empty]
    rfl
  | cons i rest ih =>
    intro c hc
    have hfirst := h i (.head _) c hc
    have hrest := ih (fun i hi => h i (.tail _ hi)) (c.after (effects i)) hc
    show (f (a i) >>= fun b => forEach f (rest.map a) >>= fun bs => pure (b :: bs)).run env c = _
    rw [run_bind_ok hfirst, run_bind_ok hrest, c.after_append]
    rfl

theorem Gives.exists_results {as : List α} {bs : List β} (h : (forEach f as).Gives env scope bs) :
    ∃ results : List (α × β × Effects), results.map (·.1) = as ∧
      ∀ r ∈ results, (f r.1).Does env scope r.2.1 r.2.2 := by
  rw [gives_forEach] at h
  induction h with
  | nil => exact ⟨[], rfl, nofun⟩
  | @cons a b as bs hfirst _ ih =>
    obtain ⟨effects, hdoes⟩ := hfirst.does
    obtain ⟨results, rfl, hresults⟩ := ih
    exact ⟨(a, b, effects) :: results, rfl, List.forall_mem_cons.mpr ⟨hdoes, hresults⟩⟩

end Emit

theorem exists_outcome_of_declare (h : (declare id placement m).Gives env scope (some declared)) :
    ∃ member flag, (contained (skippable m)).Gives env scope (some member, flag) ∧
      declared = ⟨env.symbols.name id, placement, member, flag⟩ := by
  simp only [declare, skippableFragment, gives_bind] at h
  obtain ⟨result, ⟨⟨inner, flag⟩, hinner, hresult⟩, h⟩ := h
  simp only [gives_pure] at hresult
  subst hresult
  cases inner with
  | none => simp at h
  | some member =>
    simp only [Option.map_some, gives_bind, gives_pure, gives_nameOf, Option.some.injEq] at h
    obtain ⟨name, rfl, rfl⟩ := h
    exact ⟨member, flag, hinner, rfl⟩

theorem exists_member_of_declare (h : (declare id placement m).Gives env scope (some declared)) :
    ∃ member flag, m.Gives env scope member ∧ declared = ⟨env.symbols.name id, placement, member, flag⟩ := by
  obtain ⟨member, flag, hmember, hdeclared⟩ := exists_outcome_of_declare h
  exact ⟨member, flag, hmember.of_contained.of_skippable, hdeclared⟩

/-! ## The bindings of a tree -/

/-- A declaration that counts, its fragments, and what it leaves behind. -/
structure Contribution where
  id : DeclId
  declared : List Declared
  effects : Effects

namespace Contribution

def fragments (p : Contribution) : List Fragment :=
  p.declared.map Declared.fragment

/-- The contribution is what the emission of its declaration gives. -/
def IsMade (env : Env) (p : Contribution) : Prop :=
  (declareTopLevel p.id).Does env {} p.declared p.effects

def bindings (file : String) (parts : List Contribution) : Bindings where
  file
  fragments := parts.flatMap fragments
  namespaces := Managed.nameSet (parts.flatMap (·.effects.namespaces))
  statics := Managed.nameSet (parts.flatMap (·.effects.statics))
  diagnostics := parts.flatMap (·.effects.diagnostics)

end Contribution

/-- **The declarations that count**, and what each of them contributes. -/
structure IsPutTogether (settings : Settings) (ast : Ast) (env : Env) (parts : List Contribution) :
    Prop where
  prepared : prepare settings ast = .ok env
  selected : selected? env settings.excludes = some (parts.map (·.id))
  made : ∀ p ∈ parts, p.IsMade env

theorem does_declareAll {parts : List Contribution}
    (hselected : selected? env excludes = some (parts.map (·.id))) (hmade : ∀ p ∈ parts, p.IsMade env) :
    (declareAll excludes).Does env {} (parts.flatMap (·.declared))
      (totalEffects (parts.map (·.effects))) := by
  intro c hc
  have heach := does_forEach hmade
  have hids : (liftM (selected? env excludes) : Emit (List DeclId)).run env c =
      (.ok (parts.map (·.id)), c) := by
    rw [hselected]
    rfl
  show (Emit.env >>= fun env => (liftM (selected? env excludes) : Emit _) >>= fun ids =>
    forEach declareTopLevel ids >>= fun parts => pure parts.flatten).run env c = _
  rw [run_bind_ok (show Emit.env.run env c = (.ok env, c) from rfl), run_bind_ok hids,
    run_bind_ok (heach c hc), List.flatMap_def]
  rfl

theorem exists_parts_of_declareAll {declared : List Declared}
    (h : (declareAll excludes).Gives env {} declared) :
    ∃ parts : List Contribution, selected? env excludes = some (parts.map (·.id)) ∧
      ∀ p ∈ parts, p.IsMade env := by
  simp only [declareAll, gives_bind, gives_env, exists_eq_left, gives_lift_option] at h
  obtain ⟨ids, hids, results, hresults, -⟩ := h
  obtain ⟨each, rfl, hdoes⟩ := hresults.exists_results
  refine ⟨each.map fun r => ⟨r.1, r.2.1, r.2.2⟩, ?_, ?_⟩
  · rw [hids, List.map_map]
    rfl
  · exact List.forall_mem_map.mpr hdoes

/-- **The bindings of a tree** are the contributions of the declarations that count, in order. -/
theorem bindingsOf_eq_ok_iff :
    bindingsOf settings ast = .ok b ↔
      ∃ env parts, IsPutTogether settings ast env parts ∧ b = Contribution.bindings ast.file parts := by
  have hrun : ∀ {env parts}, IsPutTogether settings ast env parts →
      bindingsOf settings ast = .ok (Contribution.bindings ast.file parts) := by
    intro env parts h
    have hdoes := does_declareAll h.selected h.made {} rfl
    simp only [bindingsOf, h.prepared, bind, Except.bind, hdoes, pure, Except.pure]
    simp only [Contribution.bindings, totalEffects, Context.after, List.flatMap_map, List.map_flatMap,
      List.nil_append]
    rfl
  constructor
  · intro h
    cases hprepared : prepare settings ast with
    | error e =>
      rw [bindingsOf, hprepared] at h
      cases h
    | ok env =>
      rcases hall : (declareAll settings.excludes).run env {} with ⟨outcome, c⟩
      cases outcome with
      | error e =>
        simp only [bindingsOf, hprepared, bind, Except.bind, hall] at h
        cases h
      | ok declared =>
        obtain ⟨parts, hselected, hmade⟩ := exists_parts_of_declareAll (gives_of_run hall)
        have hparts : IsPutTogether settings ast env parts := ⟨hprepared, hselected, hmade⟩
        exact ⟨env, parts, hparts, Except.ok.inj (h.symm.trans (hrun hparts))⟩
  · rintro ⟨env, parts, h, rfl⟩
    exact hrun h

/-! ## Exclusion -/

theorem isExcluded_congr {d' : Decl} (h : d.name = d'.name) :
    isExcluded excludes d = isExcluded excludes d' := by
  simp [isExcluded, h]

theorem isKept_or (ast : Ast) (excludes excludes' : String → Bool) (id : DeclId) :
    isKept ast (fun name => excludes name || excludes' name) id =
      (isKept ast excludes id && isKept ast excludes' id) := by
  cases hd : ast.decl? id <;> simp [isKept, hd, isExcluded, Bool.and_or_distrib_left]

theorem isKept_eq (hd : ast.decl? id = some d) : isKept ast excludes id = !isExcluded excludes d := by
  simp [isKept, hd]

theorem selectFrom_sublist (env : Env) (defined met : List String) (ids : List DeclId) :
    (selectFrom env defined met ids).Sublist ids := by
  fun_induction selectFrom env defined met ids with
  | case1 => exact .slnil
  | case2 _ _ _ _ ih => exact ih.cons _
  | case3 _ _ _ _ _ _ _ _ ih => exact ih.cons _
  | case4 _ _ _ _ _ _ _ _ ih => exact ih.cons_cons _
  | case5 _ _ _ _ _ _ _ _ ih => exact ih.cons _
  | case6 _ _ _ _ _ _ _ _ ih => exact ih.cons_cons _
  | case7 _ _ _ _ _ _ _ ih => exact ih.cons_cons _

/-- **Selection goes by names.** Excluding names before the selection is the same as doing so after it. -/
theorem selectFrom_filter {met met' : List String}
    (hmet : ∀ d : Decl, isExcluded excludes d = false → met.contains d.name = met'.contains d.name) :
    selectFrom env defined met (ids.filter (isKept env.ast excludes)) =
      (selectFrom env defined met' ids).filter (isKept env.ast excludes) := by
  induction ids generalizing met met' with
  | nil => rfl
  | cons id rest ih =>
    cases hd : env.ast.decl? id with
    | none =>
      rw [List.filter_cons_of_pos (by simp [isKept, hd])]
      simp only [selectFrom, hd]
      exact ih hmet
    | some d =>
      cases hexcluded : isExcluded excludes d with
      | true =>
        have hdropped : ¬ isKept env.ast excludes id = true := by simp [isKept_eq hd, hexcluded]
        -- Whatever becomes of the declaration, no other one that is left has its name.
        have hmet' : ∀ d' : Decl, isExcluded excludes d' = false →
            met.contains d'.name = (d.name :: met').contains d'.name := by
          intro d' hd'
          have hne : d'.name ≠ d.name := by
            intro heq
            rw [isExcluded_congr heq, hexcluded] at hd'
            cases hd'
          rw [hmet d' hd', List.contains_cons, beq_eq_false_iff_ne.mpr hne, Bool.false_or]
        rw [List.filter_cons_of_neg hdropped]
        simp only [selectFrom, hd]
        split
        · split
          · exact ih hmet
          · rw [List.filter_cons_of_neg hdropped]
            exact ih hmet'
        · split
          · exact ih hmet
          · rw [List.filter_cons_of_neg hdropped]
            exact ih hmet
        · rw [List.filter_cons_of_neg hdropped]
          exact ih hmet
      | false =>
        have hkept : isKept env.ast excludes id = true := by simp [isKept_eq hd, hexcluded]
        have hmet' : ∀ d' : Decl, isExcluded excludes d' = false →
            (d.name :: met).contains d'.name = (d.name :: met').contains d'.name := by
          intro d' hd'
          rw [List.contains_cons, List.contains_cons, hmet d' hd']
        rw [List.filter_cons_of_pos hkept]
        simp only [selectFrom, hd, hmet d hexcluded]
        split
        · split
          · exact ih hmet
          · rw [List.filter_cons_of_pos hkept, ih hmet']
        · split
          · exact ih hmet
          · rw [List.filter_cons_of_pos hkept, ih hmet]
        · rw [List.filter_cons_of_pos hkept, ih hmet]

theorem selected_or (h : selected? env excludes = some ids) (excludes' : String → Bool) :
    selected? env (fun name => excludes name || excludes' name) =
      some (ids.filter (isKept env.ast excludes')) := by
  simp only [selected?, bind, Option.bind_eq_some_iff, pure, Option.some.injEq] at h ⊢
  obtain ⟨visited, hvisited, rfl⟩ := h
  refine ⟨visited, hvisited, ?_⟩
  rw [← selectFrom_filter fun _ _ => rfl, List.filter_filter]
  congr 1
  exact List.filter_congr fun id _ => by rw [isKept_or, Bool.and_comm]

theorem sublist_of_selected (h : selected? env excludes = some ids) :
    ∃ visited, topLevel? env.ast = some visited ∧ ids.Sublist visited := by
  simp only [selected?, bind, Option.bind_eq_some_iff, pure, Option.some.injEq] at h
  obtain ⟨visited, hvisited, rfl⟩ := h
  exact ⟨visited, hvisited, (selectFrom_sublist ..).trans List.filter_sublist⟩

theorem prepare_excluding (settings : Settings) (names : List String) (ast : Ast) :
    prepare (settings.excluding names) ast = prepare settings ast :=
  rfl

theorem excludes_excluding (settings : Settings) (names : List String) :
    (settings.excluding names).excludes = fun name => settings.excludes name || names.contains name := by
  funext name
  simp [Settings.excludes, Settings.excluding]

theorem IsPutTogether.excluding (h : IsPutTogether settings ast env parts) (names : List String) :
    IsPutTogether (settings.excluding names) ast env
      (parts.filter fun p => isKept env.ast names.contains p.id) where
  prepared := (prepare_excluding settings names ast).trans h.prepared
  selected := by
    rw [excludes_excluding, selected_or h.selected, List.filter_map]
    rfl
  made p hp := h.made p (List.mem_of_mem_filter hp)

def IsNamedIn (ast : Ast) (names : List String) (id : DeclId) : Prop :=
  ∃ d, ast.decl? id = some d ∧ d.name ≠ "" ∧ d.name ∈ names

theorem isKept_eq_true_iff : isKept ast names.contains id = true ↔ ¬ IsNamedIn ast names id := by
  unfold IsNamedIn
  cases hd : ast.decl? id with
  | none => simp [isKept, hd]
  | some d => simp [isKept, hd, isExcluded, or_iff_not_imp_left]

instance (ast : Ast) (names : List String) (id : DeclId) : Decidable (IsNamedIn ast names id) :=
  decidable_of_iff (isKept ast names.contains id = false) (by
    rw [← Bool.not_eq_true, isKept_eq_true_iff, not_not])

/-- **Fragments do not depend on their neighbours.** If more names are excluded, exactly the fragments and
reports of those declarations are missing. -/
theorem excluding_keeps_other_contributions {settings : Settings} {ast : Ast} {b : Bindings}
    (h : bindingsOf settings ast = .ok b) (names : List String) :
    ∃ (env : Env) (visited : List DeclId) (parts : List Contribution) (b' : Bindings),
      prepare settings ast = .ok env ∧ topLevel? ast = some visited ∧
      (parts.map (·.id)).Sublist visited ∧ (∀ p ∈ parts, p.IsMade env) ∧
      b.fragments = parts.flatMap (·.fragments) ∧
      b.diagnostics = parts.flatMap (·.effects.diagnostics) ∧
      bindingsOf (settings.excluding names) ast = .ok b' ∧
      b'.fragments = (parts.filter (¬ IsNamedIn ast names ·.id)).flatMap (·.fragments) ∧
      b'.diagnostics = (parts.filter (¬ IsNamedIn ast names ·.id)).flatMap (·.effects.diagnostics) ∧
      b'.namespaces ⊆ b.namespaces ∧ b'.statics ⊆ b.statics := by
  obtain ⟨env, parts, hparts, rfl⟩ := bindingsOf_eq_ok_iff.mp h
  obtain ⟨-, symbols, -, rfl⟩ := Symbols.prepare_eq_ok_iff.mp hparts.prepared
  obtain ⟨visited, hvisited, hsublist⟩ := sublist_of_selected hparts.selected
  have hexcluding := bindingsOf_eq_ok_iff.mpr ⟨_, _, hparts.excluding names, rfl⟩
  have hfilter : (parts.filter fun p => isKept ast names.contains p.id) =
      parts.filter (¬ IsNamedIn ast names ·.id) := by
    refine List.filter_congr fun p _ => ?_
    rw [Bool.eq_iff_iff, isKept_eq_true_iff, decide_eq_true_iff]
  rw [hfilter] at hexcluding
  have hsubset : ∀ f : Contribution → List String,
      (parts.filter (¬ IsNamedIn ast names ·.id)).flatMap f ⊆ parts.flatMap f := by
    intro f name hname
    obtain ⟨p, hp, hname⟩ := List.mem_flatMap.mp hname
    exact List.mem_flatMap.mpr ⟨p, List.mem_of_mem_filter hp, hname⟩
  refine ⟨_, visited, parts, _, hparts.prepared, hvisited, hsublist, hparts.made, rfl, rfl, hexcluding, rfl, rfl,
    ?_, ?_⟩
  · intro name hname
    rw [Contribution.bindings, Managed.mem_nameSet] at hname ⊢
    exact hsubset _ hname
  · intro name hname
    rw [Contribution.bindings, Managed.mem_nameSet] at hname ⊢
    exact hsubset _ hname

def gauges : Ast where
  file := "gauges.h"
  topLevel := [⟨0⟩, ⟨3⟩]
  decls :=
    #[{ kind := .scope [⟨1⟩, ⟨2⟩], name := "audio" },
      { kind := .var { type := ⟨0⟩, init := some ⟨1⟩ }, name := "gain", parent := some ⟨0⟩ },
      { kind := .var { type := ⟨0⟩ }, name := "level", parent := some ⟨0⟩,
        attrs := { deprecated := some {} } },
      { kind := .var { type := ⟨0⟩ }, name := "rate" }]
  exprs := #[{ kind := .integer "1", type := ⟨0⟩ }, { kind := .binary .comma ⟨0⟩ ⟨0⟩, type := ⟨0⟩ }]
  types := #[.ofBuiltin .int]

theorem gauges_level_stays :
    ∃ b b', bindingsOf {} gauges = .ok b ∧ b.fragments.map (·.name) = ["level", "rate"] ∧
      b.diagnostics.length = 1 ∧
      bindingsOf (Settings.excluding {} ["gain", "rate"]) gauges = .ok b' ∧
      b'.fragments = b.fragments.take 1 ∧ b'.diagnostics = [] ∧ b'.namespaces ⊆ b.namespaces := by
  have h : bindingsOf {} gauges = .ok _ := rfl
  obtain ⟨env, visited, parts, b', -, -, -, -, -, -, hb', -, -, hnamespaces, -⟩ :=
    excluding_keeps_other_contributions h ["gain", "rate"]
  obtain rfl := Except.ok.inj hb'
  exact ⟨_, _, h, rfl, rfl, hb', rfl, rfl, hnamespaces⟩

end Interop.Binding
