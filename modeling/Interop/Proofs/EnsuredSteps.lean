import Interop.Proofs.Contributions

/-!
# What steps ensure once their imports are granted

`Emit.Ensures` says of a step that whatever it gives has a property, provided that everything it imports
is in a given list, which stands for the imports of the whole file. The imports of a part are granted with
those of the whole (`Ensures.bind`), and a step that is skipped keeps neither its results nor its imports.
-/

namespace Interop.Binding

open Native (Ast DeclId ExprId TypeId Decl)

namespace Emit

/-- Whatever the step gives has the property, if all that it imports is in `imports`. -/
def Ensures (m : Emit α) (env : Env) (imports : List String) (P : α → Prop) : Prop :=
  ∀ scope a effects, m.Does env scope a effects → effects.namespaces ⊆ imports → P a

variable {env : Env} {imports : List String} {scope : Scope}
variable {m : Emit α} {f : α → Emit β} {R : β → Prop} {id : DeclId} {a : α}

namespace Ensures

variable {P : α → Prop}

theorem of_gives (h : ∀ scope a, m.Gives env scope a → P a) : m.Ensures env imports P :=
  fun scope a _ hdoes _ => h scope a hdoes.gives

theorem trivial : m.Ensures env imports fun _ => True :=
  fun _ _ _ _ _ => True.intro

theorem mono (h : m.Ensures env imports P) (hpq : ∀ a, P a → Q a) : m.Ensures env imports Q :=
  fun scope a effects hdoes himports => hpq a (h scope a effects hdoes himports)

theorem imp {H : Prop} (h : H → m.Ensures env imports P) : m.Ensures env imports fun a => H → P a :=
  fun scope a effects hdoes himports hlater => h hlater scope a effects hdoes himports

theorem bind (hm : m.Ensures env imports P) (hf : ∀ a, P a → (f a).Ensures env imports R) :
    (m >>= f).Ensures env imports R := by
  intro scope b effects hdoes himports
  obtain ⟨a, before, behind, hbefore, hbehind, heffects, -⟩ := hdoes.exists_of_bind
  -- What is granted to both steps is granted to each of them.
  rw [heffects, List.append_subset] at himports
  exact hf a (hm scope a before hbefore himports.1) scope b behind hbehind himports.2

theorem skip (hf : ∀ a, (f a).Ensures env imports R) : (m >>= f).Ensures env imports R :=
  trivial.bind fun a _ => hf a

theorem ite {p : Prop} [Decidable p] {n : Emit α} (hm : m.Ensures env imports P)
    (hn : n.Ensures env imports P) : (if p then m else n).Ensures env imports P := by
  split
  · exact hm
  · exact hn

theorem pure (h : P a) : (Pure.pure a : Emit α).Ensures env imports P :=
  of_gives fun _ _ hgives => gives_pure.mp hgives ▸ h

theorem ofResult {r : Result α} (h : ∀ a, r = .ok a → P a) : (ofResult r).Ensures env imports P :=
  of_gives fun _ _ hgives => h _ (gives_ofResult.mp hgives)

theorem unsupported : (unsupported node location reason : Emit α).Ensures env imports P :=
  of_gives fun _ _ hgives => absurd hgives not_gives_unsupported

theorem malformed : (malformed node location reason : Emit α).Ensures env imports P :=
  of_gives fun _ _ hgives => absurd hgives not_gives_malformed

/-! ## Reading and importing -/

theorem decl : (decl id).Ensures env imports fun d => env.ast.decl? id = some d :=
  of_gives fun _ _ hgives => gives_decl.mp hgives

theorem exprOf {id : ExprId} : (exprOf id).Ensures env imports fun e => env.ast.expr? id = some e :=
  of_gives fun _ _ hgives => gives_exprOf.mp hgives

theorem importNamespace : (importNamespace name).Ensures env imports fun _ => name ∈ imports := by
  intro scope u effects hdoes himports
  have htold : (Emit.importNamespace name).Does env scope () { namespaces := [name] } := fun _ _ => rfl
  rw [hdoes.effects_eq htold] at himports
  exact himports (.head _)

/-! ## Steps inside others -/

theorem within (h : m.Ensures env imports P) : (within record m).Ensures env imports P :=
  fun _ a effects hdoes himports => h _ a effects (does_within.mp hdoes) himports

theorem contained (h : m.Ensures env imports P) : (contained m).Ensures env imports fun r => P r.1 := by
  rintro scope ⟨a, flag⟩ effects hdoes himports
  obtain ⟨inner, hinner⟩ := hdoes.gives.of_contained.does
  rw [hdoes.effects_eq hinner.contained] at himports
  exact h scope a inner hinner himports

theorem skippable (h : m.Ensures env imports P) :
    (skippable m).Ensures env imports fun r => ∀ a ∈ r, P a := by
  rintro scope r effects hdoes himports a rfl
  obtain ⟨inner, hinner⟩ := hdoes.gives.of_skippable.does
  -- A step that is kept leaves behind what it recorded.
  rw [hdoes.effects_eq hinner.skippable] at himports
  exact h scope a inner hinner himports

theorem skippableMember (h : m.Ensures env imports P) :
    (skippableMember m).Ensures env imports fun r => ∀ a ∈ r, P a := by
  unfold Emit.skippableMember
  refine h.skippable.contained.bind fun r hr => ?_
  obtain ⟨result, usesPointers⟩ := r
  dsimp only
  split
  · exact .skip fun _ => .pure hr
  · exact .pure hr

theorem forEach {as : List α} (h : ∀ a ∈ as, (f a).Ensures env imports R) :
    (forEach f as).Ensures env imports fun bs => ∀ b ∈ bs, R b := by
  induction as with
  | nil => exact .pure fun b hb => by cases hb
  | cons a as ih =>
    refine (h a (.head _)).bind fun b hb => ?_
    refine (ih fun a ha => h a (.tail _ ha)).bind fun bs hbs => .pure ?_
    exact List.forall_mem_cons.mpr ⟨hb, hbs⟩

end Ensures

theorem Gives.of_ensures (h : m.Gives env scope a) (hensures : ∀ imports, m.Ensures env imports P) : P a := by
  obtain ⟨effects, hdoes⟩ := h.does
  exact hensures _ scope a effects hdoes (List.Subset.refl _)

end Emit

end Interop.Binding
