import Interop.Proofs.Completion.Records
import Interop.Proofs.Contributions

/-!
# Trees that complete

If all references of a tree lead to nodes and no chain of references comes back to its start, the table
of symbols and the bindings are given, or refused with a reason. The main theorem also covers what would
not fail by itself out of range. A tree that lists its nodes in order has no cycles
(`acyclic_of_inOrder`), which can be computed.
-/

namespace Interop.Native

def Ref.goesBack : (holder target : Ref) → Bool
  | .type a, .type b => b.index < a.index
  | .expr a, .expr b => b.index < a.index
  | .stmt a, .stmt b => b.index < a.index
  | _, _ => true

end Interop.Native

namespace Interop.Binding

open Native (Ast DeclId TypeId ExprId StmtId DeclKind Ref IsAcyclic isAcyclic_of_rank)
open Emit

/-! ## Trees in order -/

/-- The declaration comes after its parent and its bases, and before what it lists. -/
def declInOrder (ast : Ast) (d : Native.Decl) (i : Nat) : Bool :=
  d.parent.all (·.index < i) &&
  match d.kind with
  | .record r =>
    r.members.all (i < ·.index) &&
    r.bases.all fun b =>
      match ast.recordOf? b.type with
      | some (some id) => (definitionIn ast id).index < i
      | _ => true
  | .scope ids => ids.all (i < ·.index)
  | .linkageSpec _ ids => ids.all (i < ·.index)
  | _ => true

def InOrder (ast : Ast) : Prop :=
  (∀ p ∈ ast.types.toList.zipIdx, p.1.kind.refs.all (Ref.goesBack (.type ⟨p.2⟩)) = true) ∧
  (∀ p ∈ ast.exprs.toList.zipIdx, p.1.kind.refs.all (Ref.goesBack (.expr ⟨p.2⟩)) = true) ∧
  (∀ p ∈ ast.stmts.toList.zipIdx, p.1.kind.refs.all (Ref.goesBack (.stmt ⟨p.2⟩)) = true) ∧
  ∀ p ∈ ast.decls.toList.zipIdx, declInOrder ast p.1 p.2 = true

instance (ast : Ast) : Decidable (InOrder ast) :=
  inferInstanceAs (Decidable (_ ∧ _ ∧ _ ∧ _))

theorem mem_zipIdx_of_getElem? {nodes : Array α} (h : nodes[i]? = some node) :
    (node, i) ∈ nodes.toList.zipIdx := by
  rwa [List.mk_mem_zipIdx_iff_getElem?, Array.getElem?_toList]

theorem acyclic_of_inOrder {ast : Ast} (h : InOrder ast) : Acyclic ast := by
  obtain ⟨htypes, hexprs, hstmts, hdecls⟩ := h
  have hdecl : ∀ {a d}, ast.decl? a = some d → declInOrder ast d a.index = true := fun {a d} hd =>
    hdecls (d, a.index) (mem_zipIdx_of_getElem? hd)
  -- What a declaration lists comes after it, so it has fewer declarations behind it.
  have hbehind : ∀ {a b : DeclId}, (∃ d, ast.decl? a = some d) → a.index < b.index →
      ast.decls.size - b.index < ast.decls.size - a.index := by
    rintro a b ⟨d, hd⟩ hlt
    have hrange := Ast.inRange_of_decl? hd
    simp only [Ast.inRange, decide_eq_true_eq] at hrange
    omega
  refine ⟨isAcyclic_of_rank TypeId.index ?_, isAcyclic_of_rank DeclId.index ?_,
    isAcyclic_of_rank DeclId.index ?_, isAcyclic_of_rank (fun a => ast.decls.size - a.index) ?_,
    isAcyclic_of_rank StmtId.index ?_, isAcyclic_of_rank ExprId.index ?_,
    isAcyclic_of_rank (fun a => ast.decls.size - a.index) ?_⟩
  · rintro a b ⟨t, ht, hb⟩
    simpa [Ref.goesBack] using
      List.all_eq_true.mp (htypes (t, a.index) (mem_zipIdx_of_getElem? ht)) _ hb
  · rintro a b ⟨d, hd, hparent⟩
    have horder := hdecl hd
    simp only [declInOrder, Bool.and_eq_true] at horder
    simpa [hparent] using horder.1
  · rintro a b ⟨d, r, base, id, hd, hkind, hbase, hrecord, rfl⟩
    have horder := hdecl hd
    simp only [declInOrder, hkind, Bool.and_eq_true, List.all_eq_true] at horder
    simpa [hrecord] using horder.2.2 base hbase
  · rintro a b ⟨d, r, hd, hkind, hb⟩
    have horder := hdecl hd
    simp only [declInOrder, hkind, Bool.and_eq_true, List.all_eq_true, decide_eq_true_eq] at horder
    exact hbehind ⟨d, hd⟩ (horder.2.1 b hb)
  · rintro a b ⟨s, hs, hb⟩
    simpa [Ref.goesBack] using
      List.all_eq_true.mp (hstmts (s, a.index) (mem_zipIdx_of_getElem? hs)) _ hb
  · rintro a b ⟨e, he, hb⟩
    simpa [Ref.goesBack] using
      List.all_eq_true.mp (hexprs (e, a.index) (mem_zipIdx_of_getElem? he)) _ hb
  · rintro a b ⟨d, hd, ⟨ids, hkind, hb⟩ | ⟨l, ids, hkind, hb⟩⟩
    all_goals
      have horder := hdecl hd
      simp only [declInOrder, hkind, Bool.and_eq_true, List.all_eq_true, decide_eq_true_eq] at horder
      exact hbehind ⟨d, hd⟩ (horder.2 b hb)

/-! ## Declarations of a file -/

theorem completes_declare {env : Env} {scope : Scope} {id : DeclId} {m : Emit Managed.Member}
    (h : m.Completes env scope) : (declare id placement m).Completes env scope := by
  simp only [declare, completes_bind]
  refine ⟨completes_skippableFragment h, fun _ _ => ?_⟩
  split <;> simp

namespace Env.IntactIn

variable {env : Env} {scope : Scope} (h : env.IntactIn scope)

include h

theorem declareConstants (henum : env.HasDecl enumeration) (hconstants : ∀ c ∈ constants, env.HasDecl c) :
    (declareConstants enumeration constants).Completes env scope := by
  simp only [Binding.declareConstants, completes_bind]
  refine ⟨completes_forEach fun c hc => ?_, fun _ _ => .pure⟩
  exact completes_declare (h.emitConstant henum (hconstants c hc))

theorem declareTopLevel {id : DeclId} (hid : env.HasDecl id) :
    (declareTopLevel id).Completes env scope := by
  simp only [Binding.declareTopLevel, completes_bind, completes_decl, gives_decl]
  refine ⟨hid, fun d hd => ?_⟩
  split
  · exact .pure
  · simp [completes_declare (h.emitRecord hid)]
  · rename_i e hkind
    have hconstants : ∀ c ∈ e.constants, env.HasDecl c := fun c hc =>
      h.ofDecl hd (by simp [hkind, hc])
    have henum : (declare id .scope (Binding.emitEnum id)).Completes env scope :=
      completes_declare (h.emitEnum hid)
    refine completes_bind.mpr ⟨completes_symbols, fun _ _ => ?_⟩
    split
    · exact h.declareConstants hid hconstants
    · simp [henum]
  · simp [completes_declare (h.emitFunction hid)]
  · simp [completes_declare (h.emitGlobal hid)]
  · simp
  · exact .malformed

theorem declareAll (excludes : String → Bool) : (declareAll excludes).Completes env scope := by
  simp only [Binding.declareAll, completes_bind, completes_env, gives_env, true_and, forall_eq,
    completes_lift_option, gives_lift_option]
  refine ⟨?_, fun ids hids => ⟨completes_forEach fun id hid => ?_, fun _ _ => .pure⟩⟩
  · simp only [selected?, isSome_bind]
    exact ⟨h.tree.isSome_topLevel, fun _ _ => rfl⟩
  · obtain ⟨visited, hvisited, hsublist⟩ := sublist_of_selected hids
    exact h.declareTopLevel (inRange_flattenScope hvisited id (hsublist.subset hid))

end Env.IntactIn

theorem Intact.completes_bindingsOf {ast : Ast} (hi : Intact ast) (settings : Settings) :
    Result.Completes (bindingsOf settings ast) := by
  have hmissing : ast.firstMissing? = none := Ast.firstMissing?_eq_none_iff.mpr hi.valid
  have hprepare : Result.Completes (prepare settings ast) := by
    simp only [prepare, hmissing, Result.completes_bind]
    exact ⟨hi.completes_build settings, fun _ _ => Result.completes_pure⟩
  simp only [bindingsOf, Result.completes_bind]
  refine ⟨hprepare, fun env henv => ?_⟩
  have hstart : env.IntactIn {} := ⟨hi.env henv, by rintro r ⟨⟩, by rintro type ⟨⟩⟩
  exact ⟨hstart.declareAll settings.excludes {} rfl, fun _ _ => Result.completes_pure⟩

/-! ## What is computed without a check -/

theorem dropCommon_eq_drop (chain scope : List DeclId) :
    ∃ common, common ≤ chain.length - 1 ∧ chain.take common = scope.take common ∧
      dropCommon chain scope = chain.drop common := by
  fun_induction dropCommon chain scope with
  | case1 a b rest scope ih =>
    obtain ⟨common, hle, htake, hdrop⟩ := ih
    exact ⟨common + 1, by simpa using hle, by simp [htake], by simpa using hdrop⟩
  | case2 => exact ⟨0, by simp, rfl, rfl⟩
  | case3 => exact ⟨0, by simp, rfl, rfl⟩

/-- The sums and differences for a storage field stay within a word. -/
structure BitUnit.WithinWord (u : BitUnit) : Prop where
  bits_le : u.bits ≤ 64
  used_le : u.used ≤ u.bits
  slots : ∀ slot ∈ u.slots, 0 < slot.width ∧ slot.offset + slot.width ≤ u.bits

theorem withinWord_of_placed {env : Env} {scope : Scope} {u : BitUnit} (h : u.Placed env scope) :
    u.WithinWord := by
  obtain ⟨-, t, ht, hbits⟩ := h.storage
  refine ⟨hbits ▸ (bits_bounds_of_ofName ht).2, h.packed.used_le, fun slot hslot => ?_⟩
  obtain ⟨hwidth, hend⟩ := h.packed.slots slot hslot
  exact ⟨hwidth, hend.trans h.packed.used_le⟩

theorem IsBitField.width_le_word {env : Env} {scope : Scope} (h : IsBitField env scope f) : f.width ≤ 64 := by
  obtain ⟨-, t, ht, hbits⟩ := h.storage_integer
  have hword := (bits_bounds_of_ofName ht).2
  exact h.width_bounds.2.trans (hbits ▸ hword)

/-- **A tree without missing references and without cycles never breaks.** Its table of symbols and its
bindings are given or refused. -/
theorem intact_tree_completes (settings : Settings) {ast : Ast} (hvalid : ast.firstMissing? = none)
    (hacyclic : Acyclic ast) :
    Result.Completes (Symbols.build ast settings) ∧ Result.Completes (bindingsOf settings ast) ∧
      (∃ visited, topLevel? ast = some visited ∧ ∀ id ∈ visited, ast.inRange (.decl id)) ∧
      (∀ chain scope, ∃ common, common ≤ chain.length - 1 ∧ chain.take common = scope.take common ∧
        dropCommon chain scope = chain.drop common) ∧
      ∀ env scope isUnion members units, (bitUnitsOf isUnion members).Gives env scope units →
        ∀ u ∈ units, u.WithinWord ∧
          ∀ id f, (bitItemOf isUnion id).Gives env scope (.bitField f) → u.used + f.width ≤ 128 := by
  have hi : Intact ast := ⟨Ast.firstMissing?_eq_none_iff.mp hvalid, hacyclic⟩
  obtain ⟨visited, hvisited⟩ := Option.isSome_iff_exists.mp hi.isSome_topLevel
  refine ⟨hi.completes_build settings, hi.completes_bindingsOf settings,
    ⟨visited, hvisited, inRange_flattenScope hvisited⟩, dropCommon_eq_drop, ?_⟩
  intro env scope isUnion members units hunits u hu
  have hword := withinWord_of_placed (bitUnits_placed hunits u hu)
  refine ⟨hword, fun id f hf => ?_⟩
  have hwidth := (isBitField_of_item hf).2.width_le_word
  have hused := hword.used_le.trans hword.bits_le
  omega

def ports : Ast where
  file := "ports.h"
  topLevel := [⟨0⟩]
  decls :=
    #[{ kind := .scope [⟨1⟩, ⟨5⟩, ⟨7⟩], name := "io" },
      { kind := .record { tag := .struct, members := [⟨2⟩, ⟨3⟩, ⟨4⟩] }, name := "Port", parent := some ⟨0⟩ },
      { kind := .field { type := ⟨0⟩, bitWidth := some 3 }, name := "mode", parent := some ⟨1⟩ },
      { kind := .field { type := ⟨0⟩, bitWidth := some 30 }, name := "level", parent := some ⟨1⟩ },
      { kind := .method { type := ⟨1⟩, isVirtual := true }, name := "reset", parent := some ⟨1⟩ },
      { kind := .record { tag := .struct, bases := [{ type := ⟨2⟩ }], members := [⟨6⟩] }, name := "Pin",
        parent := some ⟨0⟩ },
      { kind := .method { type := ⟨1⟩, isVirtual := true }, name := "reset", parent := some ⟨5⟩ },
      { kind := .function { type := ⟨5⟩, params := [⟨8⟩], body := some ⟨1⟩ }, name := "level_of",
        parent := some ⟨0⟩ },
      { kind := .param ⟨4⟩, name := "pin", parent := some ⟨7⟩ }]
  stmts := #[{ kind := .ret (some ⟨1⟩) }, { kind := .compound [⟨0⟩] }]
  exprs :=
    #[{ kind := .declRef ⟨8⟩, type := ⟨4⟩ }, { kind := .member ⟨0⟩ ⟨3⟩ true, type := ⟨0⟩ }]
  types :=
    #[.ofBuiltin .int,
      { kind := .function { result := ⟨0⟩, params := [], convention := some .thisCall },
        spelling := "int ()" },
      { kind := .record ⟨1⟩, spelling := "Port" }, { kind := .record ⟨5⟩, spelling := "Pin" },
      { kind := .pointer ⟨3⟩, spelling := "Pin *" },
      { kind := .function { result := ⟨0⟩, params := [⟨4⟩] }, spelling := "int (Pin *)" }]

theorem ports_complete :
    ports.firstMissing? = none ∧ Acyclic ports ∧ Result.Completes (Symbols.build ports {}) ∧
      Result.Completes (bindingsOf {} ports) := by
  have hmissing : ports.firstMissing? = none := by decide
  have hacyclic : Acyclic ports := acyclic_of_inOrder (by decide)
  obtain ⟨hbuild, hbindings, -⟩ := intact_tree_completes {} hmissing hacyclic
  exact ⟨hmissing, hacyclic, hbuild, hbindings⟩

/-- A record that lists itself among its members. -/
def ownMember : Ast where
  file := "nest.h"
  topLevel := [⟨0⟩]
  decls := #[{ kind := .record { tag := .struct, members := [⟨0⟩] }, name := "Nest" }]
  types := #[]

/-- The structs of a record among its own members are emitted inside each other without end, although
nothing else in the tree refers to itself. -/
theorem nested_in_itself_breaks :
    ownMember.firstMissing? = none ∧ IsAcyclic ownMember.TypeStep ∧ IsAcyclic ownMember.ParentStep ∧
      IsAcyclic (BaseStep ownMember) ∧ IsAcyclic ownMember.StmtStep ∧ IsAcyclic ownMember.ExprStep ∧
      IsAcyclic ownMember.ScopeStep ∧ ¬ Result.Completes (bindingsOf {} ownMember) := by
  have hdecl : ∀ {id d}, ownMember.decl? id = some d →
      d = { kind := .record { tag := .struct, members := [⟨0⟩] }, name := "Nest" } := by
    intro id d hd
    simpa [ownMember] using Array.mem_of_getElem? hd
  refine ⟨by decide, isAcyclic_of_rank (fun _ => 0) ?_, isAcyclic_of_rank (fun _ => 0) ?_,
    isAcyclic_of_rank (fun _ => 0) ?_, isAcyclic_of_rank (fun _ => 0) ?_, isAcyclic_of_rank (fun _ => 0) ?_,
    isAcyclic_of_rank (fun _ => 0) ?_, fun h => h rfl⟩
  · rintro a b ⟨t, ht, -⟩
    simp [ownMember, Ast.type?] at ht
  · rintro a b ⟨d, hd, hparent⟩
    rw [hdecl hd] at hparent
    cases hparent
  · rintro a b ⟨d, r, base, id, hd, hkind, hbase, -⟩
    rw [hdecl hd] at hkind
    cases hkind
    cases hbase
  · rintro a b ⟨s, hs, -⟩
    simp [ownMember, Ast.stmt?] at hs
  · rintro a b ⟨e, he, -⟩
    simp [ownMember, Ast.expr?] at he
  · rintro a b ⟨d, hd, ⟨ids, hkind, -⟩ | ⟨l, ids, hkind, -⟩⟩
    · rw [hdecl hd] at hkind
      cases hkind
    · rw [hdecl hd] at hkind
      cases hkind

end Interop.Binding
