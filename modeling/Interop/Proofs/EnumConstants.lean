import Interop.Proofs.Contributions
import Interop.Proofs.IntegerLiterals

/-!
# The values of enumeration constants

A constant is written with the digits of the literal that initializes it, with its value if it is
initialized in another way, and without a value otherwise. C# reads octal digits as decimal ones and has no
suffix for sizes; without such literals (`ReadsAlike`) all constants keep their values (`enum_values_kept`),
those too that only follow another one.
-/

namespace Interop.Csharp

/-- An integer, perhaps with a minus sign in front. -/
def constant? : List Char → Option Int
  | '-' :: digits => (integer? digits).map fun r => -(r.1 : Int)
  | digits => (integer? digits).map fun r => (r.1 : Int)

/-- The values of the members of an enumeration. A member without a value has the one of the member in
front of it plus one; `next` is what the first member has then. -/
def enumValues? : (next : Int) → List Managed.EnumMember → Option (List Int)
  | _, [] => some []
  | next, m :: rest => do
    let value ← (m.value.map (·.text.toList)).elim (some next) constant?
    return value :: (← enumValues? (value + 1) rest)

theorem constant_of_integer (h : integer? cs = some (n, suffix)) : constant? cs = some (n : Int) := by
  obtain ⟨⟨first, tail, rfl, hfirst⟩, -⟩ := integer_word h
  unfold constant?
  split
  · rename_i heq
    cases heq
    cases hfirst
  · rw [h]
    rfl

end Interop.Csharp

namespace Interop.Native

/-! ## Native constants -/

/-- The integer literal that initializes a constant, behind parentheses and implicit conversions. -/
def Ast.literalOf? (ast : Ast) (id : DeclId) : Option String := do
  match (← ast.decl? id).kind with
  | .constant _ (some init) =>
    match (← ast.expr? (← ast.ignoreImplicit? init)).kind with
    | .integer spelling => some spelling
    | _ => none
  | _ => none

/-- A literal that initializes the constant stands for the value. -/
def Ast.AgreesWith (ast : Ast) (id : DeclId) (value : Int) : Prop :=
  ∀ spelling, ast.literalOf? id = some spelling →
    ∃ n : Nat, integer? spelling.toList = some n ∧ value = n

/-- The values that the language gives the constants of an enumeration. One that is not initialized follows
the constant in front of it. -/
inductive Ast.Numbers (ast : Ast) : (next : Int) → List DeclId → List Int → Prop
  | nil {next : Int} : Numbers ast next [] []
  | cons {next : Int} {id : DeclId} {d : Decl} {value : Int64} {init : Option ExprId}
      {ids : List DeclId} {values : List Int} (hd : ast.decl? id = some d)
      (hkind : d.kind = .constant value init) (hnext : init = none → value.toInt = next)
      (hliteral : ast.AgreesWith id value.toInt)
      (rest : Numbers ast (value.toInt + 1) ids values) :
      Numbers ast next (id :: ids) (value.toInt :: values)

def isOctal : List Char → Bool
  | '0' :: c :: _ => c ≠ 'x' && c ≠ 'X' && c ≠ 'b' && c ≠ 'B'
  | _ => false

/-- C# has no suffix for sizes and no octal digits, which it reads as decimal ones. -/
def ReadsAlike (spelling : List Char) : Prop :=
  (∀ c ∈ spelling, c ≠ 'z' ∧ c ≠ 'Z') ∧
    isOctal (spelling.takeWhile fun c => !isSuffixLetter c) = false

/-- C# reads the literal of a constant, if it has one, as the native language does. -/
def Ast.KeepsLiteral (ast : Ast) (id : DeclId) : Prop :=
  ∀ spelling, ast.literalOf? id = some spelling → ReadsAlike spelling.toList

end Interop.Native

namespace Interop.Binding

open Native (Ast DeclId ExprId)
open Csharp Emit

variable {env : Env} {scope : Scope} {id : DeclId} {spelling : String}

/-! ## Digits of a constant -/

theorem constantDigits_toList (hletters : (spelling.toList.dropWhile fun c => !Native.isSuffixLetter c).all
      Native.isSuffixLetter = true) (hsize : ∀ c ∈ spelling.toList, c ≠ 'z' ∧ c ≠ 'Z') :
    (constantDigits spelling).toList =
      separated (spelling.toList.takeWhile fun c => !Native.isSuffixLetter c) := by
  have hdrop : Text.dropEndWhile (fun c => ['u', 'U', 'l', 'L'].contains c) spelling = _ :=
    dropEndWhile_suffix List.takeWhile_append_dropWhile.symm
      (fun c hc => by
        have hplain : (!Native.isSuffixLetter c) = true :=
          List.all_eq_true.mp List.all_takeWhile c hc
        simp_all [Native.isSuffixLetter])
      (fun c hc => by
        have hletter := List.all_eq_true.mp hletters c hc
        have hmem : c ∈ spelling.toList := (List.dropWhile_sublist _).subset hc
        have hne := hsize c hmem
        simp_all [Native.isSuffixLetter])
  rw [constantDigits, hdrop, Text.replaceChar]
  simp [separated]

theorem magnitude_of_native (h : Native.magnitude? body = some n) (hoctal : Native.isOctal body = false) :
    Csharp.magnitude? (separated body) = some n := by
  unfold Native.magnitude? at h
  split at h
  case h_5 c ds hx hX hb hB =>
    simp only [Native.isOctal, ne_eq, decide_not, Bool.and_eq_false_imp] at hoctal
    simp_all
  case h_6 hplain => exact magnitude_separated hplain h
  all_goals exact digits_separated h

theorem constant_constantDigits (h : Native.integer? spelling.toList = some n)
    (halike : Native.ReadsAlike spelling.toList) :
    constant? (constantDigits spelling).toList = some (n : Int) := by
  obtain ⟨hletters, hmagnitude, hlt⟩ := nativeInteger_cases h
  have hdigits := magnitude_of_native hmagnitude halike.2
  have hinteger : integer? (separated _ ++ []) = some (n, .none) := integer_append hdigits hlt rfl
  rw [List.append_nil] at hinteger
  rw [constantDigits_toList hletters halike.1]
  exact constant_of_integer hinteger

theorem constant_repr (value : Int64) : constant? value.toInt.repr.toList = some value.toInt := by
  have hlow := value.le_toInt
  have hhigh := value.toInt_lt
  rw [Int.repr_eq_if]
  split
  · rw [constant_of_integer (integer_repr (by omega))]
    congr 1
    omega
  · have hdigits : ("-" ++ (-value.toInt).toNat.repr).toList = '-' :: (-value.toInt).toNat.repr.toList := by
      simp
    rw [hdigits, constant?, integer_repr (by omega), Option.map_some]
    congr 1
    omega

/-! ## Emitted constants -/

section

variable {d : Native.Decl} {value : Int64} {init : Option ExprId} (hd : env.ast.decl? id = some d)
  (hkind : d.kind = .constant value init) (hvalue : env.ast.AgreesWith id value.toInt)
  (hkeeps : env.ast.KeepsLiteral id)
include hd hkind hvalue hkeeps

/-- What C# reads for a constant. One that is written without a value follows the one in front of it. -/
theorem reads_constantOf (h : (constantOf id).Gives env scope (v, spelled)) :
    v = value ∧ (spelled = none ∧ init = none ∨
      ∃ e, spelled = some e ∧ constant? e.text.toList = some value.toInt) := by
  simp only [constantOf, gives_bind, gives_decl, exists_found hd, hkind] at h
  cases init with
  | none =>
    simp only [gives_pure, Prod.mk.injEq] at h
    obtain ⟨rfl, rfl⟩ := h
    exact ⟨rfl, .inl ⟨rfl, rfl⟩⟩
  | some init =>
    simp only [gives_bind, gives_ignoreImplicit, gives_exprOf] at h
    obtain ⟨inner, hinner, e, he, h⟩ := h
    split at h
    · rename_i spelling hspelling
      simp only [gives_pure, Prod.mk.injEq] at h
      obtain ⟨rfl, rfl⟩ := h
      have hliteral : env.ast.literalOf? id = some spelling := by
        simp [Ast.literalOf?, hd, hkind, hinner, he, hspelling]
      obtain ⟨n, hn, heq⟩ := hvalue spelling hliteral
      exact ⟨rfl, .inr ⟨_, rfl, heq ▸ constant_constantDigits hn (hkeeps spelling hliteral)⟩⟩
    · simp only [gives_pure, Prod.mk.injEq] at h
      obtain ⟨rfl, rfl⟩ := h
      exact ⟨rfl, .inr ⟨_, rfl, constant_repr _⟩⟩

theorem emitConstant_reads (h : (emitConstant enumeration id).Gives env scope member) :
    ∃ attrs type e, member = .field attrs .const type (env.symbols.name id) (some e) ∧
      constant? e.text.toList = some value.toInt := by
  simp only [emitConstant, gives_bind, gives_decl] at h
  obtain ⟨d', -, h⟩ := h
  split at h
  · simp only [gives_bind, gives_nameOf, gives_pure] at h
    obtain ⟨underlying, -, ⟨v, spelled⟩, hspelled, obsolete, -, name, rfl, rfl⟩ := h
    obtain ⟨rfl, ⟨rfl, -⟩ | ⟨e, rfl, he⟩⟩ := reads_constantOf hd hkind hvalue hkeeps hspelled
    · exact ⟨_, _, _, rfl, constant_repr v⟩
    · exact ⟨_, _, e, rfl, he⟩
  · simp at h

end

variable {values : List Int}

theorem enumValues_eq (hvalues : env.ast.Numbers next ids values)
    (hkeeps : ∀ id ∈ ids, env.ast.KeepsLiteral id)
    (h : List.Forall₂ (fun id m => (enumMemberOf id).Gives env scope m) ids members) :
    enumValues? next members = some values := by
  induction hvalues generalizing members with
  | nil =>
    cases h
    rfl
  | cons hd hkind hnext hliteral _ ih =>
    obtain _ | ⟨hm, hrest⟩ := h
    rw [List.forall_mem_cons] at hkeeps
    simp only [enumMemberOf, gives_bind, gives_pure, gives_nameOf] at hm
    obtain ⟨obsolete, -, ⟨v, spelled⟩, hspelled, name, -, rfl⟩ := hm
    obtain ⟨rfl, ⟨rfl, hinit⟩ | ⟨e, rfl, he⟩⟩ := reads_constantOf hd hkind hliteral hkeeps.1 hspelled
    · simp [enumValues?, ← hnext hinit, ih hkeeps.2 hrest]
    · simp [enumValues?, he, ih hkeeps.2 hrest]

/-- A constant of the file that stands for a constant of an enumeration with the value. -/
def IsConstantFor (env : Env) (c : DeclId × Int) (part : Declared) : Prop :=
  ∃ attrs type e, part.member = .field attrs .const type (env.symbols.name c.1) (some e) ∧
    constant? e.text.toList = some c.2

theorem exists_constants (hvalues : env.ast.Numbers next ids values)
    (hkeeps : ∀ id ∈ ids, env.ast.KeepsLiteral id)
    (h : List.Forall₂ (fun id part => (declare id .methods (emitConstant enumeration id)).Gives env scope part)
      ids parts) :
    ∃ kept, List.Sublist kept (ids.zip values) ∧
      List.Forall₂ (IsConstantFor env) kept (parts.filterMap fun part => part) := by
  induction hvalues generalizing parts with
  | nil =>
    cases h
    exact ⟨[], .slnil, .nil⟩
  | cons hd hkind _ hliteral _ ih =>
    obtain _ | @⟨_, part, _, _, hpart, hrest⟩ := h
    rw [List.forall_mem_cons] at hkeeps
    obtain ⟨kept, hkept, hparts⟩ := ih hkeeps.2 hrest
    cases part with
    | none => exact ⟨kept, hkept.cons _, hparts⟩
    | some declared =>
      obtain ⟨member, flag, hmember, rfl⟩ := exists_member_of_declare hpart
      exact ⟨_, hkept.cons_cons _,
        .cons (emitConstant_reads hd hkind hliteral hkeeps.1 hmember) hparts⟩

/-- **Enumeration constants keep their values** if none of them is initialized by a literal that C# reads
otherwise, and so do the constants of an enumeration without a name. -/
theorem enum_values_kept {d : Native.Decl} {e : Native.Enum} (hd : env.ast.decl? id = some d)
    (hkind : d.kind = .enum e) (hvalues : env.ast.Numbers 0 e.constants values)
    (hkeeps : ∀ c ∈ e.constants, env.ast.KeepsLiteral c) :
    (∀ member, (emitEnum id).Gives env scope member →
      ∃ attrs name underlying members, member = .enum attrs name underlying members ∧
        enumValues? 0 members = some values) ∧
    (d.name = "" → env.symbols.namingTypedef? id = none →
      ∀ parts, (declareTopLevel id).Gives env scope parts →
        ∃ kept, List.Sublist kept (e.constants.zip values) ∧
          List.Forall₂ (IsConstantFor env) kept parts) := by
  refine ⟨fun member h => ?_, fun hname htypedef parts h => ?_⟩
  · simp only [emitEnum, gives_bind, gives_decl, exists_found hd, hkind, gives_forEach, gives_pure] at h
    obtain ⟨underlying, -, obsolete, -, members, hmembers, name, -, rfl⟩ := h
    exact ⟨_, _, _, _, rfl, enumValues_eq hvalues hkeeps hmembers⟩
  · simp only [declareTopLevel, gives_bind, gives_decl, exists_found hd, hkind, gives_symbols,
      exists_eq_left, hname, htypedef, Option.isNone_none, decide_true, Bool.and_self, if_true,
      declareConstants, gives_forEach, gives_pure] at h
    obtain ⟨found, hfound, rfl⟩ := h
    exact exists_constants hvalues hkeeps hfound

def permissions : Env where
  ast :=
    { file := "permissions.h"
      decls :=
        #[{ kind := .enum { integerType := ⟨0⟩, constants := [⟨1⟩, ⟨2⟩, ⟨3⟩] } },
          { kind := .constant 16 (some ⟨0⟩), name := "wide", parent := some ⟨0⟩ },
          { kind := .constant 17 none, name := "wider", parent := some ⟨0⟩ },
          { kind := .constant (-1) (some ⟨2⟩), name := "unset", parent := some ⟨0⟩ },
          { kind := .enum { integerType := ⟨0⟩, constants := [⟨5⟩, ⟨6⟩] }, name := "Mode" },
          { kind := .constant 8 (some ⟨3⟩), name := "group", parent := some ⟨4⟩ },
          { kind := .constant 9 none, name := "owner", parent := some ⟨4⟩ }]
      types := #[.ofBuiltin .int]
      exprs :=
        #[{ kind := .integer "0x1'0u", type := ⟨0⟩ }, { kind := .integer "1", type := ⟨0⟩ },
          { kind := .unary .minus ⟨1⟩, type := ⟨0⟩ }, { kind := .integer "010", type := ⟨0⟩ }] }
  settings := {}
  symbols := ⟨#["", "wide", "wider", "unset", "Mode", "group", "owner"], [], [], [], [], [], []⟩

theorem permissions_values_kept :
    permissions.ast.Numbers 0 [⟨1⟩, ⟨2⟩, ⟨3⟩] [16, 17, -1] ∧
      ∃ members parts kept,
        (emitEnum ⟨0⟩).Gives permissions {} (.enum [] "" none members) ∧
        enumValues? 0 members = some [16, 17, -1] ∧
        (declareTopLevel ⟨0⟩).Gives permissions {} parts ∧
        List.Sublist kept [(⟨1⟩, 16), (⟨2⟩, 17), (⟨3⟩, -1)] ∧
        List.Forall₂ (IsConstantFor permissions) kept parts := by
  have hkeeps : ∀ c ∈ ([⟨1⟩, ⟨2⟩, ⟨3⟩] : List DeclId), permissions.ast.KeepsLiteral c := by
    refine List.forall_mem_cons.mpr ⟨?_, List.forall_mem_cons.mpr ⟨?_, List.forall_mem_singleton.mpr ?_⟩⟩
    · rintro spelling ⟨⟩
      exact ⟨by simp, rfl⟩
    · rintro spelling ⟨⟩
    · rintro spelling ⟨⟩
  have hvalues : permissions.ast.Numbers 0 [⟨1⟩, ⟨2⟩, ⟨3⟩] [16, 17, -1] := by
    refine @Ast.Numbers.cons _ 0 ⟨1⟩ _ 16 (some ⟨0⟩) _ _ rfl rfl (by simp) ?_
      (@Ast.Numbers.cons _ _ ⟨2⟩ _ 17 none _ _ rfl rfl (fun _ => rfl) ?_
        (@Ast.Numbers.cons _ _ ⟨3⟩ _ (-1) (some ⟨2⟩) _ _ rfl rfl (by simp) ?_ .nil))
    · rintro spelling ⟨⟩
      exact ⟨16, by decide, rfl⟩
    · rintro spelling ⟨⟩
    · rintro spelling ⟨⟩
  have hd : permissions.ast.decl? ⟨0⟩ = some _ := rfl
  have hrun : (emitEnum ⟨0⟩).run permissions {} = (.ok (.enum [] "" none _), {}) := rfl
  have hparts : (declareTopLevel ⟨0⟩).run permissions {} = (.ok _, {}) := rfl
  obtain ⟨_, _, _, members, hmember, hread⟩ :=
    (enum_values_kept hd rfl hvalues hkeeps).1 _ (gives_of_run hrun)
  obtain ⟨kept, hkept, hreads⟩ :=
    (enum_values_kept hd rfl hvalues hkeeps).2 rfl rfl _ (gives_of_run hparts)
  cases hmember
  exact ⟨hvalues, _, _, kept, gives_of_run hrun, hread, gives_of_run hparts, hkept, hreads⟩

/-- The octal digits are written as they are, and C# reads them as decimal ones. -/
theorem octal_constant_misread :
    permissions.ast.Numbers 0 [⟨5⟩, ⟨6⟩] [8, 9] ∧
      ∃ members, (emitEnum ⟨4⟩).Gives permissions {} (.enum [] "Mode" none members) ∧
        enumValues? 0 members = some [10, 11] := by
  have hrun : (emitEnum ⟨4⟩).run permissions {} = (.ok (.enum [] "Mode" none _), {}) := rfl
  refine ⟨@Ast.Numbers.cons _ 0 ⟨5⟩ _ 8 (some ⟨3⟩) _ _ rfl rfl (by simp) ?_
    (@Ast.Numbers.cons _ _ ⟨6⟩ _ 9 none _ _ rfl rfl (fun _ => rfl) ?_ .nil), _, gives_of_run hrun, ?_⟩
  · rintro spelling ⟨⟩
    exact ⟨8, by decide, rfl⟩
  · rintro spelling ⟨⟩
  · decide

end Interop.Binding
