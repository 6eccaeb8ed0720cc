import Interop.Binding.Bindings
import Interop.Proofs.Emission

/-!
# Skipped declarations

A declaration or member may turn out to have no C# form after it has recorded imports or reported
something. What is left of it then is its report, and nothing else. Both kinds of steps run inside a
pointer scope of their own, which makes the restoration exact: `Context.rollback_after_checkpoint` leaves
a mark on the innermost pointer scope, which is dropped with it.
-/

namespace Interop.Binding

open Emit
open Managed (Member Placement)
open Native (DeclId)

/-! ## How a context may change -/

/-- Nothing is left behind but one report. -/
def Context.OnlyReports (c c' : Context) : Prop :=
  ∃ d : Diagnostic, d.kind = .unsupported ∧
    c' = { c with diagnostics := c.diagnostics ++ [d] }

/-- The same scopes are open, and what was recorded is still there. -/
structure Context.Grows (c c' : Context) : Prop where
  records : c'.records = c.records
  returnTypes : c'.returnTypes = c.returnTypes
  pointerDepth : c'.pointerScopes.length = c.pointerScopes.length
  diagnostics : c.diagnostics <+: c'.diagnostics
  namespaces : c.namespaces ⊆ c'.namespaces
  statics : c.statics ⊆ c'.statics

theorem Context.grows_after (c : Context) (e : Effects) : c.Grows (c.after e) where
  records := rfl
  returnTypes := rfl
  pointerDepth := length_markInnermost e.pointers c.pointerScopes
  diagnostics := List.prefix_append _ _
  namespaces := List.subset_append_left _ _
  statics := List.subset_append_left _ _

theorem Context.onlyReports_after (c : Context) (u : Unsupported) :
    c.OnlyReports (c.after { diagnostics := [.ofUnsupported u] }) :=
  ⟨.ofUnsupported u, rfl, by simp [Context.after]⟩

/-! ## Steps that may be skipped -/

namespace Emit

/-- The step has no C# form in the scope, for this reason. -/
def Refuses (m : Emit α) (env : Env) (scope : Scope) (u : Unsupported) : Prop :=
  ∀ c : Context, c.scope = scope → (m.run env c).1 = .error (.unsupported u)

theorem contained_skippable_cases (m : Emit α) (env : Env) (c : Context) :
    (∃ a flag effects, (contained (skippable m)).run env c =
      (.ok (some a, flag), c.after effects)) ∨
    (∃ u flag, m.Refuses env c.scope u ∧ (contained (skippable m)).run env c =
      (.ok (none, flag), c.after { diagnostics := [.ofUnsupported u] })) ∨
    (∃ e c', (∀ u, e ≠ .unsupported u) ∧ (contained (skippable m)).run env c = (.error e, c')) := by
  have hrun := (contained (skippable m)).run_eq env c
  rw [outcome_contained, outcome_skippable] at hrun
  rcases hm : m.outcome env c.scope with ⟨(u | _ | _) | a, effects⟩ <;> rw [hm] at hrun
  · exact .inr (.inl ⟨u, effects.pointers, fun d hd => by rw [run_eq, hd, hm], hrun⟩)
  · exact .inr (.inr ⟨_, _, by simp, hrun⟩)
  · exact .inr (.inr ⟨_, _, by simp, hrun⟩)
  · exact .inl ⟨a, effects.pointers, _, hrun⟩

theorem declare_cases (id : DeclId) (placement : Placement) (m : Emit Member) (env : Env) (c : Context) :
    (∃ declared effects, (declare id placement m).run env c = (.ok (some declared), c.after effects)) ∨
    (∃ u, m.Refuses env c.scope u ∧
      (declare id placement m).run env c = (.ok none, c.after { diagnostics := [.ofUnsupported u] })) ∨
    ∃ e c', (∀ u, e ≠ .unsupported u) ∧ (declare id placement m).run env c = (.error e, c') := by
  rcases contained_skippable_cases m env c with
    ⟨a, flag, effects, h⟩ | ⟨u, flag, hrefuses, h⟩ | ⟨e, c', he, h⟩
  · have hfragment : (skippableFragment m).run env c = (.ok (some (a, flag)), c.after effects) :=
      run_bind_ok h
    exact .inl ⟨⟨env.symbols.name id, placement, a, flag⟩, effects, run_bind_ok hfragment⟩
  · have hfragment : (skippableFragment m).run env c =
        (.ok none, c.after { diagnostics := [.ofUnsupported u] }) := run_bind_ok h
    exact .inr (.inl ⟨u, hrefuses, run_bind_ok hfragment⟩)
  · have hfragment : (skippableFragment m).run env c = (.error e, c') := run_bind_error h
    exact .inr (.inr ⟨e, c', he, run_bind_error hfragment⟩)

/-- The step is kept with some effects, or skipped with its report as the only effect, or fails. -/
def KeptOrSkipped (m : Emit (Option α)) (env : Env) (c : Context) : Prop :=
  (∃ a effects, m.run env c = (.ok (some a), c.after effects)) ∨
  (∃ u, m.run env c = (.ok none, c.after { diagnostics := [.ofUnsupported u] })) ∨
  (∃ e c', m.run env c = (.error e, c'))

theorem skippableMember_keptOrSkipped (m : Emit α) (env : Env) (c : Context) :
    (skippableMember m).KeptOrSkipped env c := by
  rcases contained_skippable_cases m env c with
    ⟨a, flag, effects, h⟩ | ⟨u, flag, -, h⟩ | ⟨e, c', -, h⟩
  · -- A member that is kept passes its use of pointers on to the record.
    have hrun := run_bind_ok (f := fun result : Option α × Bool => (do
      if result.1.isSome && result.2 then markPointers
      return result.1 : Emit (Option α))) h
    cases flag with
    | false => exact .inl ⟨a, effects, hrun⟩
    | true =>
      refine .inl ⟨a, effects ++ { pointers := true }, ?_⟩
      rw [← Context.after_append]
      exact hrun
  · exact .inr (.inl ⟨u, run_bind_ok h⟩)
  · exact .inr (.inr ⟨e, c', run_bind_error h⟩)

theorem declare_keptOrSkipped (id : DeclId) (placement : Placement) (m : Emit Member) (env : Env)
    (c : Context) : (declare id placement m).KeptOrSkipped env c := by
  rcases declare_cases id placement m env c with h | ⟨u, -, h⟩ | ⟨e, c', -, h⟩
  · exact .inl h
  · exact .inr (.inl ⟨u, h⟩)
  · exact .inr (.inr ⟨e, c', h⟩)

theorem KeptOrSkipped.onlyReports {m : Emit (Option α)} {env : Env} (h : m.KeptOrSkipped env c)
    (hnone : m.run env c = (.ok none, c')) : c.OnlyReports c' := by
  rcases h with ⟨a, effects, h⟩ | ⟨u, h⟩ | ⟨e, d, h⟩ <;> rw [h] at hnone <;> cases hnone
  exact c.onlyReports_after u

theorem KeptOrSkipped.grows {m : Emit (Option α)} {env : Env} (h : m.KeptOrSkipped env c)
    (hsome : m.run env c = (.ok (some a), c')) : c.Grows c' := by
  rcases h with ⟨b, effects, h⟩ | ⟨u, h⟩ | ⟨e, d, h⟩ <;> rw [h] at hsome <;> cases hsome
  exact c.grows_after effects

end Emit

/-- **A skipped declaration leaves no trace but its report, and a kept one only adds.** -/
theorem skipped_declaration_leaves_only_its_report (env : Env) (c c' : Context) :
    (∀ (id : DeclId) (placement : Placement) (m : Emit Member),
      ((declare id placement m).run env c = (.ok none, c') → c.OnlyReports c') ∧
      (∀ d, (declare id placement m).run env c = (.ok (some d), c') → c.Grows c')) ∧
    (∀ (α : Type) (m : Emit α),
      ((skippableMember m).run env c = (.ok none, c') → c.OnlyReports c') ∧
      (∀ a, (skippableMember m).run env c = (.ok (some a), c') → c.Grows c')) :=
  ⟨fun id placement m =>
    ⟨(declare_keptOrSkipped id placement m env c).onlyReports,
     fun _ => (declare_keptOrSkipped id placement m env c).grows⟩,
   fun _ m =>
    ⟨(skippableMember_keptOrSkipped m env c).onlyReports,
     fun _ => (skippableMember_keptOrSkipped m env c).grows⟩⟩

def deprecatedVariables : Env where
  ast :=
    { file := "globals.h"
      decls :=
        #[{ kind := .var { type := ⟨0⟩, init := some ⟨1⟩ }, name := "first",
            attrs := { deprecated := some {} } },
          { kind := .var { type := ⟨0⟩ }, name := "second", attrs := { deprecated := some {} } }]
      exprs :=
        #[{ kind := .integer "1", type := ⟨0⟩ }, { kind := .binary .comma ⟨0⟩ ⟨0⟩, type := ⟨0⟩ }]
      types := #[.ofBuiltin .int] }
  settings := {}
  symbols := ⟨#["first", "second"], [], [], [], [], [⟨0⟩, ⟨1⟩], []⟩

theorem deprecatedVariables_skipped_and_kept :
    let c : Context := { pointerScopes := [true] }
    let skipped : Context :=
      { c with diagnostics :=
          [.ofUnsupported ⟨"comma operator", {}, "C# has no sequencing expression"⟩] }
    let kept : Context := { c with namespaces := ["System"] }
    ((declare ⟨0⟩ .methods (emitGlobal ⟨0⟩)).run deprecatedVariables c).2 = skipped ∧
    c.OnlyReports skipped ∧
    ((declare ⟨1⟩ .methods (emitGlobal ⟨1⟩)).run deprecatedVariables c).2 = kept ∧
    c.Grows kept :=
  ⟨rfl,
   ((skipped_declaration_leaves_only_its_report deprecatedVariables _ _).1
      ⟨0⟩ .methods (emitGlobal ⟨0⟩)).1 rfl,
   rfl,
   ((skipped_declaration_leaves_only_its_report deprecatedVariables _ _).1
      ⟨1⟩ .methods (emitGlobal ⟨1⟩)).2 _ rfl⟩

end Interop.Binding
