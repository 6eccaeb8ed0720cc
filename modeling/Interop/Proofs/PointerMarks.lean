import Interop.Proofs.Contributions
import Interop.Proofs.ExpressionForms

/-!
# Steps that use pointers

`Emit.Marks` is the outcome of a step together with whether it uses pointers. A sequence does if one of
its steps does (`marks_bind`). Most steps only read; a sequence that starts with such a silent step is
taken apart without a flag to carry (`marks_bind_of_silent`).
-/

namespace Interop.Binding

open Native (DeclId ExprId TypeId)

variable {type : TypeId} {id : ExprId}

namespace Emit

variable {env : Env} {scope : Scope}
variable {id : DeclId}
variable {m : Emit α} {f : α → Emit β} {a : α} {r : Result α}

/-- The step gives a value, and the flag says whether it uses pointers. -/
def Marks (m : Emit α) (env : Env) (scope : Scope) (a : α) (flag : Bool) : Prop :=
  ∃ effects, m.Does env scope a effects ∧ effects.pointers = flag

theorem Marks.gives (h : m.Marks env scope a flag) : m.Gives env scope a := by
  obtain ⟨effects, hdoes, -⟩ := h
  exact hdoes.gives

theorem Gives.marks (h : m.Gives env scope a) : ∃ flag, m.Marks env scope a flag := by
  obtain ⟨effects, hdoes⟩ := h.does
  exact ⟨effects.pointers, effects, hdoes, rfl⟩

theorem Marks.flag_eq (ha : m.Marks env scope a p) (hb : m.Marks env scope b q) : p = q := by
  obtain ⟨effects, hdoes, rfl⟩ := ha
  obtain ⟨other, hother, rfl⟩ := hb
  exact congrArg (·.pointers) (hdoes.effects_eq hother)

theorem marks_bind {b : β} :
    (m >>= f).Marks env scope b flag ↔
      ∃ a p, m.Marks env scope a p ∧ ∃ q, (f a).Marks env scope b q ∧ flag = (p || q) := by
  constructor
  · intro h
    obtain ⟨a, hm, hf⟩ := gives_bind.mp h.gives
    obtain ⟨before, hbefore⟩ := hm.does
    obtain ⟨behind, hbehind⟩ := hf.does
    exact ⟨a, _, ⟨before, hbefore, rfl⟩, _, ⟨behind, hbehind, rfl⟩,
      h.flag_eq ⟨_, hbefore.bind hbehind, rfl⟩⟩
  · rintro ⟨a, -, ⟨before, hbefore, rfl⟩, -, ⟨behind, hbehind, rfl⟩, rfl⟩
    exact ⟨_, hbefore.bind hbehind, rfl⟩

/-! ## Silent steps -/

/-- The step never marks the use of pointers. -/
def IsSilent (m : Emit α) : Prop :=
  ∀ env scope a flag, m.Marks env scope a flag → flag = false

theorem isSilent_of_does
    (h : ∀ env scope a, m.Gives env scope a → ∃ effects, m.Does env scope a effects ∧ effects.pointers = false) :
    m.IsSilent :=
  fun env scope a _ hmarks => hmarks.flag_eq (h env scope a hmarks.gives)

theorem marks_of_silent (hm : m.IsSilent) :
    m.Marks env scope a flag ↔ m.Gives env scope a ∧ flag = false := by
  constructor
  · intro h
    exact ⟨h.gives, hm _ _ _ _ h⟩
  · rintro ⟨h, rfl⟩
    obtain ⟨flag, hmarks⟩ := h.marks
    exact hm _ _ _ _ hmarks ▸ hmarks

@[simp] theorem marks_bind_of_silent {b : β} (hm : m.IsSilent) :
    (m >>= f).Marks env scope b flag ↔ ∃ a, m.Gives env scope a ∧ (f a).Marks env scope b flag := by
  rw [marks_bind]
  constructor
  · rintro ⟨a, p, hp, q, hq, rfl⟩
    obtain rfl := hm _ _ _ _ hp
    exact ⟨a, hp.gives, by simpa using hq⟩
  · rintro ⟨a, ha, hf⟩
    exact ⟨a, false, (marks_of_silent hm).mpr ⟨ha, rfl⟩, flag, hf, by simp⟩

theorem Marks.of_read {b : β} (h : (m >>= f).Marks env scope b flag) (hm : m.IsSilent) :
    ∃ a, m.Gives env scope a ∧ (f a).Marks env scope b flag :=
  (marks_bind_of_silent hm).mp h

@[simp] theorem isSilent_ofResult : (ofResult r).IsSilent :=
  isSilent_of_does fun _ _ a ha => ⟨{}, fun c _ => by
    rw [c.after_empty, ← gives_ofResult.mp ha]
    rfl, rfl⟩

@[simp] theorem isSilent_pure : (pure a : Emit α).IsSilent :=
  isSilent_ofResult

@[simp] theorem isSilent_lift_option {o : Option α} : (liftM o : Emit α).IsSilent :=
  isSilent_ofResult

@[simp] theorem isSilent_lift_result : (liftM r : Emit α).IsSilent :=
  isSilent_ofResult

@[simp] theorem isSilent_env : Emit.env.IsSilent :=
  isSilent_of_does fun env _ _ ha => ⟨{}, fun c _ => by
    rw [c.after_empty, gives_env.mp ha]
    rfl, rfl⟩

@[simp] theorem isSilent_scope : Emit.scope.IsSilent :=
  isSilent_of_does fun _ _ _ ha => ⟨{}, fun c hc => by
    rw [c.after_empty, gives_scope.mp ha, ← hc]
    rfl, rfl⟩

@[simp] theorem isSilent_bind (hm : m.IsSilent) (hf : ∀ a, (f a).IsSilent) : (m >>= f).IsSilent := by
  intro env scope b flag h
  obtain ⟨a, -, hfa⟩ := (marks_bind_of_silent hm).mp h
  exact hf a _ _ _ _ hfa

namespace IsSilent

theorem ite {p : Prop} [Decidable p] {n : Emit α} (hm : m.IsSilent) (hn : n.IsSilent) :
    (if p then m else n).IsSilent := by
  split
  · exact hm
  · exact hn

theorem forEach {as : List α} (hf : ∀ a, (f a).IsSilent) : (forEach f as).IsSilent := by
  induction as with
  | nil => exact isSilent_pure
  | cons a rest ih => exact isSilent_bind (hf a) fun _ => isSilent_bind ih fun _ => isSilent_pure

end IsSilent

@[simp] theorem isSilent_ast : Emit.ast.IsSilent := by
  simp [Emit.ast]

@[simp] theorem isSilent_symbols : symbols.IsSilent := by
  simp [symbols]

@[simp] theorem isSilent_decl : (decl id).IsSilent := by
  simp [decl]

@[simp] theorem isSilent_currentRecord : currentRecord.IsSilent := by
  simp [currentRecord]

@[simp] theorem marks_pure : (pure a : Emit α).Marks env scope b flag ↔ a = b ∧ flag = false := by
  rw [marks_of_silent isSilent_pure, gives_pure]

@[simp] theorem not_marks_unsupported :
    ¬ (unsupported node location reason : Emit α).Marks env scope a flag :=
  fun h => not_gives_unsupported h.gives

@[simp] theorem not_marks_malformed : ¬ (malformed node location reason : Emit α).Marks env scope a flag :=
  fun h => not_gives_malformed h.gives

/-! ## Steps that use pointers -/

@[simp] theorem marks_markPointers : markPointers.Marks env scope u flag ↔ flag = true := by
  have htold : markPointers.Marks env scope u true := ⟨{ pointers := true }, fun _ _ => rfl, rfl⟩
  constructor
  · intro h
    exact h.flag_eq htold
  · rintro rfl
    exact htold

@[simp] theorem marks_markPointersIf : (markPointersIf given).Marks env scope u flag ↔ flag = given := by
  cases given <;> simp [markPointersIf]

end Emit

open Emit

variable {env : Env} {scope : Scope}

@[simp] theorem marks_mapType {usage : Usage} {location : Location} {m : MappedType} {flag : Bool} :
    (mapType type usage location).Marks env scope m flag ↔
      (mapType type usage location).Gives env scope m ∧ flag = m.usesPointers := by
  rw [gives_mapType]
  simp [mapType, marks_bind (m := markPointersIf _), and_comm]

@[simp] theorem isSilent_canonicalKind : (canonicalKind type).IsSilent := by
  simp [canonicalKind]

end Interop.Binding
