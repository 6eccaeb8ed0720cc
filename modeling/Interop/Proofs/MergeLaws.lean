import Mathlib.Data.List.Sort
import Mathlib.Data.String.Basic
import Interop.Proofs.Merging

/-!
# Merging in steps

Units may be put into one file in several steps. What was merged before counts as one unit, and since
the first fragment of each key stays the first one, the file does not depend on the steps
(`merging_in_steps`).
-/

namespace Interop

theorem Text.joinWith_append (h : first ≠ []) :
    joinWith sep (joinWith sep first :: rest) = joinWith sep (first ++ rest) := by
  induction first using joinWith.induct with
  | case1 => exact absurd rfl h
  | case2 => rfl
  | case3 s t more ih =>
    cases rest with
    | nil => simp [joinWith]
    | cons next rest =>
      have hmore := ih (List.cons_ne_nil _ _)
      simp only [joinWith, List.cons_append, String.append_assoc] at hmore ⊢
      rw [hmore]

namespace Managed

variable {names : List String}

/-! ## Sets of names -/

theorem sorted_insertName (h : names.Pairwise (· < ·)) : (insertName name names).Pairwise (· < ·) := by
  induction names with
  | nil => simp [insertName]
  | cons first rest ih =>
    obtain ⟨hfirst, hrest⟩ := List.pairwise_cons.mp h
    unfold insertName
    split
    · rename_i hlt
      exact .cons (List.forall_mem_cons.mpr ⟨hlt, fun n hn => hlt.trans (hfirst n hn)⟩) h
    · rename_i hlt
      split
      · exact h
      · rename_i hne
        refine .cons (fun n hn => ?_) (ih hrest)
        rcases mem_insertName.mp hn with rfl | hn
        · exact lt_of_le_of_ne (not_lt.mp hlt) (Ne.symm hne)
        · exact hfirst n hn

theorem sorted_nameSet (names : List String) : (nameSet names).Pairwise (· < ·) :=
  List.foldlRecOn names _ .nil fun _ h _ _ => sorted_insertName h

theorem nameSet_congr (h : ∀ n, n ∈ names ↔ n ∈ other) : nameSet names = nameSet other :=
  (sorted_nameSet names).eq_of_mem_iff (sorted_nameSet other) (by simpa using h)

namespace Bindings

/-! ## The first of each key -/

theorem firstOfEach_append (h : before ⊆ seen) (fragments rest : List Fragment) :
    firstOfEach seen (firstOfEach before fragments ++ rest) = firstOfEach seen (fragments ++ rest) := by
  induction fragments generalizing seen before with
  | nil => rfl
  | cons f fragments ih =>
    rw [firstOfEach, List.cons_append]
    by_cases hbefore : key f ∈ before
    · rw [if_pos (by simpa using hbefore), ih h, firstOfEach, if_pos (by simpa using h hbefore)]
    · rw [if_neg (by simpa using hbefore), List.cons_append, firstOfEach, firstOfEach]
      split
      · rename_i hseen
        exact ih (List.cons_subset.mpr ⟨by simpa using hseen, h⟩)
      · rw [ih (List.cons_subset_cons _ h)]

theorem firstOfEach_sublist (seen : List (String × Placement)) (fragments : List Fragment) :
    (firstOfEach seen fragments).Sublist fragments := by
  induction fragments generalizing seen with
  | nil => exact .slnil
  | cons f fragments ih =>
    unfold firstOfEach
    split
    · exact (ih seen).cons f
    · exact (ih _).cons_cons f

theorem nodup_keys (units : List Bindings) : ((merge units).fragments.map key).Nodup := by
  rw [List.nodup_iff_count_le_one]
  intro k
  rw [List.count, List.countP_map, List.countP_eq_length_filter]
  simp only [Function.comp_def, beq_eq_decide, filter_merge]
  cases (units.flatMap (·.fragments)).find? (key · = k) <;> simp

/-- **Merging in steps gives the same file.** Of each key the first fragment is there and no other one. -/
theorem merging_in_steps {us : List Bindings} (hus : us ≠ []) (vs : List Bindings) :
    merge (merge us :: vs) = merge (us ++ vs) ∧
      ((merge us).fragments.map key).Nodup ∧
      (∀ k, (merge us).fragments.filter (key · = k) =
        ((us.flatMap (·.fragments)).find? (key · = k)).toList) ∧
      (merge us).fragments.Sublist (us.flatMap (·.fragments)) ∧
      (merge us).diagnostics = us.flatMap (·.diagnostics) ∧
      (∀ n, n ∈ (merge us).namespaces ↔ ∃ u ∈ us, n ∈ u.namespaces) ∧
      (∀ n, n ∈ (merge us).statics ↔ ∃ u ∈ us, n ∈ u.statics) ∧
      (merge us).namespaces.Pairwise (· < ·) ∧ (merge us).statics.Pairwise (· < ·) := by
  have hsame : merge (merge us :: vs) = merge (us ++ vs) := by
    simp only [merge, mk.injEq, List.map_cons, List.map_append, List.flatMap_cons, List.flatMap_append,
      and_true]
    refine ⟨Text.joinWith_append (by simpa using hus), firstOfEach_append (List.nil_subset _) _ _, ?_, ?_⟩
    · exact nameSet_congr (by simp)
    · exact nameSet_congr (by simp)
  refine ⟨hsame, nodup_keys us, filter_merge us, firstOfEach_sublist _ _, rfl, fun n => ?_, fun n => ?_,
    sorted_nameSet _, sorted_nameSet _⟩
  · rw [merge, mem_nameSet, List.mem_flatMap]
  · rw [merge, mem_nameSet, List.mem_flatMap]

theorem sharedName_merges_in_steps :
    let unit (file text : String) : Bindings :=
      ⟨file, [.declaration "Node" text .scope false, .declaration file text .methods false], [text], [], []⟩
    merge [merge [unit "b" "x", unit "a" "y"], unit "c" "x"] =
        merge [unit "b" "x", unit "a" "y", unit "c" "x"] ∧
      (merge [unit "b" "x", unit "a" "y"]).fragments.map key =
        [("Node", .scope), ("b", .methods), ("a", .methods)] := by
  intro unit
  exact ⟨(@merging_in_steps [unit "b" "x", unit "a" "y"] (by simp) [unit "c" "x"]).1, by decide⟩

end Bindings

end Managed

end Interop
