import Interop.Proofs.RecordLayout
import Interop.Proofs.SkippedDeclarations

/-!
# Calls through the vtable

The struct of a record with a vtable holds one method for each slot whose signature has a C# form, in the
order of the slots. The method calls its own slot with its own parameters (`IsSlotMethod`), and a slot
without a method is one whose signature was refused and reported.
-/

namespace Interop.Binding

open Native (DeclId)
open Emit
open Managed (Member Method Parameter TypeName)
open Symbols (IsRecordDefinition)

variable {env : Env} {scope inner : Scope} {record id : DeclId} {layout : Layout}

namespace Emit

end Emit

/-! ## Slots -/

namespace Emit

/-- What gives a result runs the part, and reports what the part reports. -/
def HasPart (m : Emit α) (part : Emit β) (env : Env) (scope inner : Scope) : Prop :=
  ∀ a effects, m.Does env scope a effects → ∃ b effects', part.Does env inner b effects' ∧
    effects'.diagnostics.Sublist effects.diagnostics

namespace HasPart

variable {part : Emit γ} {m : Emit α}

theorem refl : m.HasPart m env scope scope :=
  fun a effects h => ⟨a, effects, h, .refl _⟩

theorem within (h : m.HasPart part env (scope.inside record) inner) :
    (within record m).HasPart part env scope inner := by
  intro a effects hdoes
  exact h a effects (does_within.mp hdoes)

theorem contained (h : m.HasPart part env scope inner) : (contained m).HasPart part env scope inner := by
  rintro ⟨a, flag⟩ effects hdoes
  obtain ⟨effects', hm⟩ := hdoes.gives.of_contained.does
  rw [hdoes.effects_eq hm.contained]
  exact h a effects' hm

end HasPart

end Emit

end Interop.Binding
