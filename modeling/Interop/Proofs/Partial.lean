import Mathlib.Data.List.Forall2
import Interop.Binding.Failure

/-!
# Computations that may fail

What a sequence of such computations gives is taken apart by rewriting: `bind_eq_ok` turns two of them
into an existential over the value between them, and `mapM_eq_ok` turns one for each entry of a list
into a relation between the entries and the values.
-/

namespace Interop

theorem exists_right_of_forall₂ {R : α → β → Prop} {as : List α} {bs : List β} (h : List.Forall₂ R as bs)
    {a : α} (ha : a ∈ as) : ∃ b ∈ bs, R a b := by
  induction h with
  | nil => cases ha
  | cons hfirst _ ih =>
    rcases List.mem_cons.mp ha with rfl | ha
    · exact ⟨_, .head _, hfirst⟩
    · obtain ⟨b, hb, hr⟩ := ih ha
      exact ⟨b, .tail _ hb, hr⟩

theorem exists_left_of_forall₂ {R : α → β → Prop} {as : List α} {bs : List β} (h : List.Forall₂ R as bs)
    {b : β} (hb : b ∈ bs) : ∃ a ∈ as, R a b :=
  exists_right_of_forall₂ h.flip hb

theorem mem_of_lookup [BEq α] [LawfulBEq α] {entries : List (α × β)} {key : α} {value : β}
    (h : entries.lookup key = some value) : (key, value) ∈ entries := by
  obtain ⟨before, after, hentries, -⟩ := List.lookup_eq_some_iff.mp h
  simp [hentries]

theorem exists_found {o : Option α} {a : α} {P : α → Prop} (h : o = some a) :
    (∃ b, o = some b ∧ P b) ↔ P a := by
  simp [h]

section

universe u v w

variable {α : Type w} {β : Type u} {ε : Type v} {as : List α} {bs : List β}

theorem bind_eq_ok {α : Type u} {x : Except ε α} {f : α → Except ε β} {b : β} :
    (x >>= f) = .ok b ↔ ∃ a, x = .ok a ∧ f a = .ok b := by
  cases x <;> simp [bind, Except.bind]

theorem pure_eq_ok {a b : α} : (pure a : Except ε α) = .ok b ↔ a = b := by
  simp [pure, Except.pure]

theorem mapM_eq_ok {f : α → Except ε β} :
    as.mapM f = .ok bs ↔ List.Forall₂ (fun a b => f a = .ok b) as bs := by
  induction as generalizing bs with
  | nil => cases bs <;> simp [pure_eq_ok]
  | cons a as ih =>
    rw [List.mapM_cons]
    cases bs <;> simp only [bind_eq_ok, pure_eq_ok, ih] <;> simp

theorem mapM_eq_some {f : α → Option β} :
    as.mapM f = some bs ↔ List.Forall₂ (fun a b => f a = some b) as bs := by
  induction as generalizing bs with
  | nil => cases bs <;> simp
  | cons a as ih => cases bs <;> simp [ih, Option.bind_eq_some_iff]

theorem mapM_eq_map {f : α → Option β} {g : α → β} (h : ∀ a ∈ as, f a = some (g a)) :
    as.mapM f = some (as.map g) := by
  rw [mapM_eq_some, List.forall₂_map_right_iff, List.forall₂_same]
  exact h

theorem mapM_eq_none {f : α → Option β} (ha : a ∈ as) (h : f a = none) : as.mapM f = none := by
  refine Option.eq_none_iff_forall_ne_some.mpr fun bs hbs => ?_
  obtain ⟨b, -, hb⟩ := exists_right_of_forall₂ (mapM_eq_some.mp hbs) ha
  rw [h] at hb
  cases hb

end

namespace Binding

@[simp] theorem found_eq_ok {α : Type} {o : Option α} {a : α} : found o = .ok a ↔ o = some a := by
  cases o <;> simp [found]

end Binding

end Interop
