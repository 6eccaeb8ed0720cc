import Interop.Proofs.Contributions

/-!
# Units in one file

When units are put into one file, the first fragment of each name is kept. A record that a unit only
declares becomes a struct without members there, so a definition is kept exactly if no fragment of its name
comes before it.
-/

namespace Interop.Managed.Bindings

/-! ## The first of each name -/

theorem filter_firstOfEach (k : String × Placement) (seen : List (String × Placement))
    (fragments : List Fragment) :
    (firstOfEach seen fragments).filter (key · = k) =
      if k ∈ seen then [] else (fragments.find? (key · = k)).toList := by
  induction fragments generalizing seen with
  | nil => simp [firstOfEach]
  | cons f rest ih =>
    unfold firstOfEach
    by_cases hseen : key f ∈ seen
    · rw [if_pos (List.contains_iff_mem.mpr hseen), ih]
      by_cases hkey : key f = k
      · simp [← hkey, hseen]
      · rw [List.find?_cons_of_neg (by simpa using hkey)]
    · rw [if_neg (by simpa using hseen)]
      by_cases hkey : key f = k
      · rw [List.filter_cons_of_pos (by simpa using hkey), List.find?_cons_of_pos (by simpa using hkey), ih]
        simp [← hkey, hseen]
      · rw [List.filter_cons_of_neg (by simpa using hkey), List.find?_cons_of_neg (by simpa using hkey), ih]
        simp [Ne.symm hkey]

theorem filter_merge (units : List Bindings) (k : String × Placement) :
    (merge units).fragments.filter (key · = k) =
      ((units.flatMap (·.fragments)).find? (key · = k)).toList := by
  show (firstOfEach [] _).filter _ = _
  rw [filter_firstOfEach, if_neg (List.not_mem_nil)]

theorem mem_merge_iff :
    f ∈ (merge units).fragments ↔ (units.flatMap (·.fragments)).find? (key · = key f) = some f := by
  rw [← Option.mem_toList, ← filter_merge, List.mem_filter]
  simp

/-- A struct without members, which is what a record becomes that is only declared. -/
def IsOpaque (f : Fragment) : Prop :=
  f.text = (Member.record [] false f.name []).text

instance (f : Fragment) : Decidable (IsOpaque f) :=
  inferInstanceAs (Decidable (_ = _))

end Interop.Managed.Bindings

namespace Interop.Binding

open Native (Ast DeclId)
open Emit
open Managed (Fragment Bindings)
open Managed.Bindings (key merge IsOpaque)
open Symbols (IsRecordDefinition)

variable {env : Env}

/-! ## What fragments come from -/

def IsEmittedBy (settings : Settings) (ast : Ast) (id : DeclId) (f : Fragment) : Prop :=
  ∃ env parts p, IsPutTogether settings ast env parts ∧ p ∈ parts ∧ p.id = id ∧ f ∈ p.fragments

def IsEnumeration (ast : Ast) (id : DeclId) : Prop :=
  ∃ d e, ast.decl? id = some d ∧ d.kind = .enum e

theorem exists_member_of_mem {id : DeclId} {scope : Scope}
    (h : (do return (← declare id placement m).toList : Emit (List Declared)).Gives env scope all)
    (hdeclared : declared ∈ all) :
    ∃ member flag, m.Gives env scope member ∧ declared = ⟨env.symbols.name id, placement, member, flag⟩ := by
  simp only [gives_bind, gives_pure] at h
  obtain ⟨result, hresult, rfl⟩ := h
  rw [Option.mem_toList] at hdeclared
  subst hdeclared
  exact exists_member_of_declare hresult

theorem Contribution.IsMade.scope_cases {p : Contribution} (hp : p.IsMade env) (hf : f ∈ p.fragments)
    (hplacement : f.placement = .scope) :
    IsRecordDefinition env.ast p.id ∨ IsEnumeration env.ast p.id ∨ IsOpaque f := by
  obtain ⟨declared, hdeclared, rfl⟩ := List.mem_map.mp hf
  have hgives := hp.gives
  simp only [declareTopLevel, gives_bind, gives_decl] at hgives
  obtain ⟨d, hd, hgives⟩ := hgives
  split at hgives
  · rw [gives_pure] at hgives
    simp [← hgives] at hdeclared
  · rename_i r hkind
    cases hdefinition : r.isDefinition with
    | true => exact .inl ⟨d, r, hd, hkind, hdefinition⟩
    | false =>
      obtain ⟨member, flag, hmember, rfl⟩ := exists_member_of_mem hgives hdeclared
      simp only [emitRecord, recordTo, recordRule, gives_bind, gives_ast, exists_eq_left, gives_decl, hd,
        Option.some.injEq, exists_eq_left', hkind, hdefinition, Bool.not_false, if_true, gives_nameOf,
        gives_pure] at hmember
      obtain ⟨_, rfl, rfl⟩ := hmember
      exact .inr (.inr rfl)
  · rename_i e hkind
    exact .inr (.inl ⟨d, e, hd, hkind⟩)
  -- Functions and variables are in the static class.
  · obtain ⟨member, flag, -, rfl⟩ := exists_member_of_mem hgives hdeclared
    cases hplacement
  · obtain ⟨member, flag, -, rfl⟩ := exists_member_of_mem hgives hdeclared
    cases hplacement
  · simp only [gives_bind, gives_pure] at hgives
    obtain ⟨_, -, hnil⟩ := hgives
    simp [← hnil] at hdeclared
  · simp at hgives

theorem exists_source (hunits : List.Forall₂ (fun ast b => bindingsOf settings ast = .ok b) asts bs)
    (hf : f ∈ bs.flatMap (·.fragments)) :
    ∃ ast ∈ asts, ∃ env parts p, IsPutTogether settings ast env parts ∧ p ∈ parts ∧ f ∈ p.fragments := by
  induction hunits with
  | nil => cases hf
  | @cons ast b asts bs hb _ ih =>
    rw [List.flatMap_cons, List.mem_append] at hf
    rcases hf with hf | hf
    · obtain ⟨env, parts, hparts, rfl⟩ := bindingsOf_eq_ok_iff.mp hb
      obtain ⟨p, hp, hf⟩ := List.mem_flatMap.mp hf
      exact ⟨ast, .head _, env, parts, p, hparts, hp, hf⟩
    · obtain ⟨ast', hast, hsource⟩ := ih hf
      exact ⟨ast', .tail _ hast, hsource⟩

/-- **Which fragment is kept of a name**: the first one, in the order of the units. -/
theorem merged_definition_iff_first {settings : Settings} {asts : List Ast} {bs : List Bindings}
    (hunits : List.Forall₂ (fun ast b => bindingsOf settings ast = .ok b) asts bs) (name : String) :
    (merge bs).fragments.filter (key · = (name, .scope)) =
        ((bs.flatMap (·.fragments)).find? (key · = (name, .scope))).toList ∧
      ((∃ f ∈ (merge bs).fragments, key f = (name, .scope) ∧ ¬ IsOpaque f) ↔
        ∃ before f after, bs.flatMap (·.fragments) = before ++ f :: after ∧ key f = (name, .scope) ∧
          ¬ IsOpaque f ∧ ∀ g ∈ before, key g ≠ (name, .scope)) ∧
      ∀ f ∈ (merge bs).fragments, key f = (name, .scope) → ¬ IsOpaque f →
        ∃ ast ∈ asts, ∃ id, IsEmittedBy settings ast id f ∧
          (IsRecordDefinition ast id ∨ IsEnumeration ast id) := by
  refine ⟨Managed.Bindings.filter_merge bs _, ?_, ?_⟩
  · constructor
    · rintro ⟨f, hf, hkey, hopaque⟩
      rw [Managed.Bindings.mem_merge_iff, hkey, List.find?_eq_some_iff_append] at hf
      obtain ⟨-, before, after, hfragments, hbefore⟩ := hf
      exact ⟨before, f, after, hfragments, hkey, hopaque, fun g hg => by simpa using hbefore g hg⟩
    · rintro ⟨before, f, after, hfragments, hkey, hopaque, hbefore⟩
      refine ⟨f, ?_, hkey, hopaque⟩
      rw [Managed.Bindings.mem_merge_iff, hkey, List.find?_eq_some_iff_append]
      exact ⟨by simpa using hkey, before, after, hfragments, fun g hg => by simpa using hbefore g hg⟩
  · intro f hf hkey hopaque
    have hmem := List.mem_of_find?_eq_some (Managed.Bindings.mem_merge_iff.mp hf)
    obtain ⟨ast, hast, env, parts, p, hparts, hp, hf⟩ := exists_source hunits hmem
    obtain ⟨-, symbols, -, rfl⟩ := Symbols.prepare_eq_ok_iff.mp hparts.prepared
    refine ⟨ast, hast, p.id, ⟨_, parts, p, hparts, hp, rfl, hf⟩, ?_⟩
    rcases (hparts.made p hp).scope_cases hf (congrArg Prod.snd hkey) with hrecord | henum | hempty
    · exact .inl hrecord
    · exact .inr henum
    · exact absurd hempty hopaque

def nodeUnit (file : String) (isDefinition : Bool) : Ast where
  file
  topLevel := [⟨0⟩]
  decls :=
    #[{ kind := .record { tag := .struct, isDefinition, members := if isDefinition then [⟨1⟩] else [] },
        name := "Node" },
      { kind := .field { type := ⟨0⟩ }, name := "value", parent := some ⟨0⟩ }]
  types := #[.ofBuiltin .int]

theorem node_definition_kept :
    ∃ bs, List.Forall₂ (fun ast b => bindingsOf {} ast = .ok b)
        [nodeUnit "node.h" true, nodeUnit "list.h" false] bs ∧
      ∃ f ∈ (merge bs).fragments, key f = ("Node", .scope) ∧ ¬ IsOpaque f := by
  have hunits : List.Forall₂ (fun ast b => bindingsOf {} ast = .ok b)
      [nodeUnit "node.h" true, nodeUnit "list.h" false] [_, _] := .cons rfl (.cons rfl .nil)
  refine ⟨_, hunits, (merged_definition_iff_first hunits "Node").2.1.mpr ?_⟩
  exact ⟨[], _, _, rfl, rfl, by decide, nofun⟩

theorem node_definition_dropped :
    ∃ bs, List.Forall₂ (fun ast b => bindingsOf {} ast = .ok b)
        [nodeUnit "list.h" false, nodeUnit "node.h" true] bs ∧
      (∃ b ∈ bs, ∃ f ∈ b.fragments, key f = ("Node", .scope) ∧ ¬ IsOpaque f) ∧
      ∃ f, (merge bs).fragments = [f] ∧ key f = ("Node", .scope) ∧ IsOpaque f := by
  refine ⟨_, .cons rfl (.cons rfl .nil), ⟨_, .tail _ (.head _), _, .head _, rfl, ?_⟩, _, rfl, rfl, ?_⟩
  · decide
  · decide

end Interop.Binding
