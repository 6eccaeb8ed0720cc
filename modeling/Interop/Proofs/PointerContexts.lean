import Interop.Proofs.Merging
import Interop.Proofs.PointerMarks

/-!
# Contexts for pointers

C# allows pointers only in unsafe contexts. The static class is such a context if one of its members uses
pointers (`hasMethodsClass_of_mem`). An expression of a pointer type does not always count for that: the
rules for names, members and calls do not look at their types (`same_start_not_flagged`).
-/

namespace Interop.Managed

/-! ## The static class in the file -/

theorem Code.exists_spaced_concat (codes : List Code) (c : Code) :
    ∃ before, Code.spaced (codes ++ [c]) = before ++ c := by
  induction codes with
  | nil => exact ⟨[], rfl⟩
  | cons first rest ih =>
    obtain ⟨before, hbefore⟩ := ih
    have hcons : Code.spaced (first :: rest ++ [c]) = first ++ Code.blank ++ Code.spaced (rest ++ [c]) := by
      cases rest <;> rfl
    exact ⟨first ++ Code.blank ++ before, by rw [hcons, hbefore, ← List.append_assoc]⟩

namespace Bindings

variable {b : Bindings} {settings : Settings}

/-- The file ends with the static class, which has these modifiers. -/
def HasMethodsClass (b : Bindings) (settings : Settings) (modifiers : String) : Prop :=
  ∃ before body, b.code settings = before ++ Code.indent
    (Code.ofText (modifiers ++ " class " ++ settings.methodsClass) ++ Code.braced body) ++ ["\x7d"]

theorem hasMethodsClass_of_methodsCode (body : Code)
    (h : b.methodsCode settings.methodsClass =
      [Code.ofText (modifiers ++ " class " ++ settings.methodsClass) ++ Code.braced body]) :
    b.HasMethodsClass settings modifiers := by
  obtain ⟨front, hfront⟩ : ∃ front, b.code settings = front ++ Code.braced (Code.spaced
    ((b.placed .scope).map Fragment.code ++ b.methodsCode settings.methodsClass)) := ⟨_, rfl⟩
  obtain ⟨before, hbefore⟩ := Code.exists_spaced_concat ((b.placed .scope).map Fragment.code)
    (Code.ofText (modifiers ++ " class " ++ settings.methodsClass) ++ Code.braced body)
  refine ⟨front ++ "\x7b" :: Code.indent before, body, ?_⟩
  rw [hfront, h, hbefore, Code.braced, Code.indent, List.map_append]
  simp [Code.indent]

theorem hasMethodsClass_of_mem (hf : f ∈ b.placed .methods) (settings : Settings) :
    b.HasMethodsClass settings (if (b.placed .methods).any (·.usesPointers) then
      "public static unsafe partial" else "public static partial") := by
  obtain ⟨first, rest, hplaced⟩ := List.exists_cons_of_ne_nil (List.ne_nil_of_mem hf)
  refine hasMethodsClass_of_methodsCode (Code.spaced ((first :: rest).map Fragment.code)) ?_
  simp only [methodsCode, hplaced]

end Bindings

end Interop.Managed

namespace Interop.Binding

open Native (Ast ExprId TypeId DeclId StmtId Prototype)
open Emit Relation
open Managed (Fragment Bindings)

variable {env : Env} {scope : Scope}
variable {flag : Bool} {id : DeclId} {type : TypeId} {ast : Ast} {c : Callable} {proto : Prototype}
  {b : Bindings} {f : Fragment}

/-! ## Steps inside others -/

theorem Emit.Marks.of_contained {m : Emit α} {a : α} (h : (contained m).Gives env scope (a, flag)) :
    m.Marks env scope a flag := by
  obtain ⟨effects, hdoes⟩ := h.of_contained.does
  exact ⟨effects, hdoes, congrArg Prod.snd (hdoes.contained.gives.unique h)⟩

theorem Emit.Marks.of_skippable {m : Emit α} {a : α} (h : (skippable m).Marks env scope (some a) flag) :
    m.Marks env scope a flag := by
  obtain ⟨effects, hdoes⟩ := h.gives.of_skippable.does
  exact ⟨effects, hdoes, Marks.flag_eq ⟨effects, hdoes.skippable, rfl⟩ h⟩

/-! ## Flags of functions -/

theorem IsEmittedBy.mem_fragments (h : IsEmittedBy settings ast id f)
    (hb : bindingsOf settings ast = .ok b) : f ∈ b.fragments := by
  obtain ⟨env, parts, p, hparts, hp, -, hf⟩ := h
  have hparts := bindingsOf_eq_ok_iff.mpr ⟨env, parts, hparts, rfl⟩
  obtain rfl := Except.ok.inj (hb.symm.trans hparts)
  exact List.mem_flatMap.mpr ⟨p, hp, hf⟩

theorem isEmittedBy_of_mem (hb : bindingsOf settings ast = .ok b) (henv : prepare settings ast = .ok env)
    (hids : selected? env settings.excludes = some ids) (hid : id ∈ ids)
    (hgives : (declareTopLevel id).Gives env {} declared) (hone : one ∈ declared) :
    IsEmittedBy settings ast id one.fragment := by
  obtain ⟨env', parts, hparts, -⟩ := bindingsOf_eq_ok_iff.mp hb
  obtain rfl : env' = env := Except.ok.inj (hparts.prepared.symm.trans henv)
  rw [← Option.mem_unique hparts.selected hids] at hid
  obtain ⟨p, hp, rfl⟩ := List.mem_map.mp hid
  obtain rfl := hgives.unique (hparts.made p hp).gives
  exact ⟨env', parts, p, hparts, hp, rfl, List.mem_map.mpr ⟨one, hone, rfl⟩⟩

def spans : Env where
  ast :=
    { file := "spans.h"
      topLevel := [⟨0⟩, ⟨2⟩]
      decls :=
        #[{ kind := .record { tag := .struct, members := [⟨1⟩] }, name := "Span" },
          { kind := .field { type := ⟨2⟩ }, name := "start", parent := some ⟨0⟩ },
          { kind := .function { type := ⟨4⟩, params := [⟨3⟩, ⟨4⟩], body := some ⟨1⟩ },
            name := "same_start" },
          { kind := .param ⟨3⟩, name := "a", parent := some ⟨2⟩ },
          { kind := .param ⟨3⟩, name := "b", parent := some ⟨2⟩ }]
      types :=
        #[.ofBuiltin .int, .ofBuiltin .bool, { kind := .pointer ⟨0⟩, spelling := "int *" },
          { kind := .record ⟨0⟩, spelling := "Span" },
          { kind := .function { result := ⟨1⟩, params := [⟨3⟩, ⟨3⟩] }, spelling := "bool (Span, Span)" }]
      exprs :=
        #[{ kind := .declRef ⟨3⟩, type := ⟨3⟩ },
          { kind := .member ⟨0⟩ ⟨1⟩ false, type := ⟨2⟩ },
          { kind := .implicitCast .lvalueToRValue ⟨1⟩, type := ⟨2⟩ },
          { kind := .declRef ⟨4⟩, type := ⟨3⟩ },
          { kind := .member ⟨3⟩ ⟨1⟩ false, type := ⟨2⟩ },
          { kind := .implicitCast .lvalueToRValue ⟨4⟩, type := ⟨2⟩ },
          { kind := .binary .eq ⟨2⟩ ⟨5⟩, type := ⟨1⟩ }]
      stmts := #[{ kind := .ret (some ⟨6⟩) }, { kind := .compound [⟨0⟩] }] }
  settings := {}
  symbols :=
    { names := #["Span", "start", "same_start", "a", "b"]
      anonymous := []
      namingTypedefs := []
      definitions := []
      shadowed := []
      globals := [⟨2⟩]
      vtables := [] }

/-- The member `a.start` is a pointer and is emitted in `same_start`, which is in no unsafe context. -/
theorem same_start_not_flagged :
    prepare {} spans.ast = .ok spans ∧ ∃ b f mapped, bindingsOf {} spans.ast = .ok b ∧
      IsEmittedBy {} spans.ast ⟨2⟩ f ∧
      (emitBody ⟨1⟩).Gives spans { returnType := some ⟨1⟩ }
        [.ret (some (.binary .eq (.member (.ident "a") false "start") (.member (.ident "b") false "start")))] ∧
      (emitValue ⟨1⟩).Gives spans { returnType := some ⟨1⟩ } (.member (.ident "a") false "start") ∧
      spans.ast.expr? ⟨1⟩ = some { kind := .member ⟨0⟩ ⟨1⟩ false, type := ⟨2⟩ } ∧
      (mapType ⟨2⟩ .cast {}).Gives spans { returnType := some ⟨1⟩ } mapped ∧
      mapped.usesPointers = true ∧ f.usesPointers = false ∧
      b.HasMethodsClass {} "public static partial" := by
  have henv : prepare {} spans.ast = .ok spans := rfl
  obtain ⟨b, hb, hplain⟩ : ∃ b, bindingsOf {} spans.ast = .ok b ∧
    (b.placed .methods).any (·.usesPointers) = false := ⟨_, rfl, rfl⟩
  obtain ⟨declared, hdeclared, hplacement, hflag⟩ : ∃ declared : Declared,
      (declareTopLevel ⟨2⟩).Gives spans {} [declared] ∧ declared.placement = .methods ∧
        declared.usesPointers = false :=
    ⟨_, gives_of_run (c := {}) rfl, rfl, rfl⟩
  have hids : selected? spans (Settings.excludes {}) = some [⟨0⟩, ⟨2⟩] := rfl
  have hf := isEmittedBy_of_mem hb henv hids (by simp) hdeclared (.head _)
  have hplaced : declared.fragment ∈ b.placed .methods :=
    List.mem_filter.mpr ⟨hf.mem_fragments hb, decide_eq_true hplacement⟩
  have hclass := Bindings.hasMethodsClass_of_mem hplaced {}
  rw [hplain] at hclass
  exact ⟨henv, b, _, _, hb, hf, gives_of_run (c := { returnTypes := [⟨1⟩] }) rfl,
    gives_of_run (c := { returnTypes := [⟨1⟩] }) rfl, rfl, gives_of_run (c := { returnTypes := [⟨1⟩] }) rfl, rfl,
    hflag, hclass⟩

end Interop.Binding
