import Interop.Proofs.Contributions
import Interop.Proofs.SpelledNames

/-!
# C# names against native names

Names are escaped one by one, and what has no name is called after what stands around it. The theorems
say when that fails: when two names meet, when a number meets a name, when a name is no identifier, and
when a function is looked up by a name that it does not have.
-/

namespace Interop.Managed

open Csharp (isWord isName isWordChar)

/-! ## Names that meet -/

/-- What stands behind the word `operator` in the name of an overloaded operator. -/
def overloadable : List String :=
  ["+", "-", "*", "/", "%", "^", "&", "|", "~", "!", "=", "<", ">", "+=", "-=", "*=", "/=", "%=",
   "^=", "&=", "|=", "<<", ">>", ">>=", "<<=", "==", "!=", "<=", ">=", "<=>", "&&", "||", "++", "--",
   ",", "->*", "->", "()", "[]", " new", " delete", " new[]", " delete[]", " co_await"]

def IsMethodName (name : String) : Prop :=
  (isWord name.toList = true ∧ ¬ "op_".toList <+: name.toList) ∨
    ∃ symbol ∈ overloadable, name = "operator" ++ symbol

theorem escapeIdentifier_operator (h : symbol ∈ overloadable) :
    escapeIdentifier ("operator" ++ symbol) = operatorMethod (Text.trim symbol) := by
  have hsymbols : ∀ symbol ∈ overloadable,
      operatorSymbol? ("operator" ++ symbol) = some (Text.trim symbol) := by
    decide
  rw [escapeIdentifier, hsymbols symbol h]

theorem escapeIdentifier_inj_of_isWord (ha : isWord a.toList = true) (hb : isWord b.toList = true)
    (h : escapeIdentifier a = escapeIdentifier b) : a = b := by
  have hat : ∀ {a b : String}, isWord b.toList = true → "@" ++ a ≠ b := by
    rintro a _ hb rfl
    exact Csharp.not_mem_of_isWord (c := '@') (by decide) hb (by simp)
  rw [escapeIdentifier_of_isWord ha, escapeIdentifier_of_isWord hb] at h
  split at h
  · split at h
    · exact String.append_right_inj _ |>.mp h
    · exact absurd h (hat hb)
  · split at h
    · exact absurd h.symm (hat ha)
    · exact h

theorem escapeIdentifier_ne_operatorMethod (hword : isWord name.toList = true)
    (hname : ¬ "op_".toList <+: name.toList) (symbol : String) :
    escapeIdentifier name ≠ operatorMethod symbol := by
  obtain ⟨rest, hrest, -⟩ := operatorMethod_eq symbol
  rw [escapeIdentifier_of_isWord hword, hrest]
  split
  · intro h
    have hhead := congrArg (·.toList.head?) h
    simp at hhead
  · rintro rfl
    exact hname (by simp)

/-- **Names meet where operators have none of their own.** Two names of methods become one C# name only
if both are operators that the table leaves out, and have the same letters. -/
theorem escapeIdentifier_eq_iff (ha : IsMethodName a) (hb : IsMethodName b) :
    escapeIdentifier a = escapeIdentifier b ↔ a = b ∨
      ∃ s ∈ overloadable, ∃ t ∈ overloadable, a = "operator" ++ s ∧ b = "operator" ++ t ∧
        operatorNames.lookup s = none ∧ operatorNames.lookup t = none ∧
          cleanedSymbol s = cleanedSymbol t := by
  have hmeet : ∀ s ∈ overloadable, ∀ t ∈ overloadable,
      operatorMethod (Text.trim s) = operatorMethod (Text.trim t) ↔ s = t ∨
        operatorNames.lookup s = none ∧ operatorNames.lookup t = none ∧
          cleanedSymbol s = cleanedSymbol t := by
    decide +kernel
  constructor
  · intro h
    rcases ha with ⟨ha, hlead⟩ | ⟨s, hs, rfl⟩ <;> rcases hb with ⟨hb, hlead'⟩ | ⟨t, ht, rfl⟩
    · exact .inl (escapeIdentifier_inj_of_isWord ha hb h)
    · rw [escapeIdentifier_operator ht] at h
      exact absurd h (escapeIdentifier_ne_operatorMethod ha hlead _)
    · rw [escapeIdentifier_operator hs] at h
      exact absurd h.symm (escapeIdentifier_ne_operatorMethod hb hlead' _)
    · rw [escapeIdentifier_operator hs, escapeIdentifier_operator ht] at h
      rcases (hmeet s hs t ht).mp h with rfl | hnames
      · exact .inl rfl
      · exact .inr ⟨s, hs, t, ht, rfl, rfl, hnames⟩
  · rintro (rfl | ⟨s, hs, t, ht, rfl, rfl, hnames⟩)
    · rfl
    · rw [escapeIdentifier_operator hs, escapeIdentifier_operator ht]
      exact (hmeet s hs t ht).mpr (.inr hnames)

theorem increment_meets_no_method : IsMethodName "operator++" ∧ IsMethodName "new" ∧
    escapeIdentifier "operator++" ≠ escapeIdentifier "new" := by
  have hoperator : IsMethodName "operator++" := .inr ⟨"++", by decide, rfl⟩
  have hword : IsMethodName "new" := .inl (by decide)
  refine ⟨hoperator, hword, fun h => ?_⟩
  rcases (escapeIdentifier_eq_iff hoperator hword).mp h with heq | ⟨s, -, t, -, -, ht, -⟩
  · exact absurd heq (by decide)
  · have hhead := congrArg (·.toList.head?) ht
    simp at hhead

theorem bitwise_operators_share_name : IsMethodName "operator&" ∧ IsMethodName "operator|" ∧
    escapeIdentifier "operator&" = escapeIdentifier "operator|" :=
  ⟨.inr ⟨"&", by decide, rfl⟩, .inr ⟨"|", by decide, rfl⟩, by decide⟩

end Interop.Managed

namespace Interop.Binding

open Native Managed
open Csharp (isWord isName isWordChar)

/-! ## Numbered parameters -/

theorem escapeIdentifier_numbered (n : Nat) :
    escapeIdentifier ("param" ++ n.repr) = "param" ++ n.repr := by
  rw [escapeIdentifier_of_isWord (isWord_numbered n), numbered_not_keyword n]
  rfl

/-- The parameter at a place of a list. -/
def parameterName (i : Nat) (d : Decl) : String :=
  if d.name = "" then "param" ++ i.repr else escapeIdentifier d.name

/-- A parameter of a function, called by an identifier or not at all. -/
structure IsParameterOf (ast : Ast) (callee id : DeclId) (d : Decl) : Prop where
  decl : ast.decl? id = some d
  kind : ∃ type, d.kind = .param type
  parent : d.parent = some callee
  name : d.name = "" ∨ isWord d.name.toList = true

theorem parameterName_eq_iff (hd : d.name = "" ∨ isWord d.name.toList = true)
    (he : e.name = "" ∨ isWord e.name.toList = true) {i j : Nat} (hij : i ≠ j) :
    parameterName i d = parameterName j e ↔
      d.name ≠ "" ∧ d.name = e.name ∨ d.name = "" ∧ e.name = "param" ++ i.repr ∨
        e.name = "" ∧ d.name = "param" ++ j.repr := by
  have hempty : ∀ n : Nat, "" ≠ "param" ++ n.repr := fun n => by simp
  have hword : ∀ {a : String}, isWord a.toList = true → a ≠ "" := by
    rintro _ ha rfl
    cases ha
  have hnumber : ∀ {a : String} {n : Nat}, isWord a.toList = true →
      (escapeIdentifier a = "param" ++ n.repr ↔ a = "param" ++ n.repr) := by
    intro a n ha
    constructor
    · intro h
      rw [← escapeIdentifier_numbered] at h
      exact escapeIdentifier_inj_of_isWord ha (isWord_numbered n) h
    · rintro rfl
      exact escapeIdentifier_numbered n
  unfold parameterName
  rcases hd with hd | hd <;> rcases he with he | he
  · have hne : "param" ++ i.repr ≠ "param" ++ j.repr :=
      fun h => hij (Nat.repr_inj.mp ((String.append_right_inj _).mp h))
    simp [hd, he, hne, hempty]
  · simpa [hd, hword he] using eq_comm.trans (hnumber he)
  · simp [he, hword hd, hnumber hd]
  · have hinj : escapeIdentifier d.name = escapeIdentifier e.name ↔ d.name = e.name :=
      ⟨escapeIdentifier_inj_of_isWord hd he, congrArg escapeIdentifier⟩
    simp [hword hd, hword he, hinj]

theorem name_eq_parameterName {ast : Ast} {s : Symbols} (hs : s.Describes ast settings)
    (hcallee : ast.decl? callee = some f)
    (hnodup : (parametersOf f.kind).Nodup) (hi : i < (parametersOf f.kind).length)
    (hd : IsParameterOf ast callee (parametersOf f.kind)[i] d) :
    s.name (parametersOf f.kind)[i] = parameterName i d := by
  obtain ⟨type, hkind⟩ := hd.kind
  have hname := hs.name _ d hd.decl
  have hposition : (parametersOf f.kind).idxOf? (parametersOf f.kind)[i] = some i := by
    rw [List.idxOf?_eq_some_iff]
    exact ⟨hi, rfl, fun j hj h => hj.ne (hnodup.getElem_inj_iff.mp h)⟩
  simp only [declName?, hkind, parameterPosition?, hd.parent, hcallee] at hname
  unfold parameterName
  split at hname
  · rename_i hempty
    simpa [hposition, hempty] using hname.symm
  · rename_i hempty
    simpa [hempty] using hname.symm

/-- **A numbered parameter meets a named one only in its number.** -/
theorem parameter_names_nodup_iff {ast : Ast} {s : Symbols} {decls : List Decl}
    (hbuild : Symbols.build ast settings = .ok s)
    (hcallee : ast.decl? callee = some f) (hnodup : (parametersOf f.kind).Nodup)
    (hparams : List.Forall₂ (IsParameterOf ast callee) (parametersOf f.kind) decls)
    (hnames : decls.Pairwise fun d e : Decl => d.name ≠ "" → d.name ≠ e.name) :
    ((parametersOf f.kind).map s.name).Nodup ↔
      ∀ (i : Nat) (d : Decl), decls[i]? = some d → d.name = "" → ∀ e ∈ decls, e.name ≠ "param" ++ i.repr := by
  have hname : ∀ {i : Nat} {d : Decl}, decls[i]? = some d →
      ((parametersOf f.kind).map s.name)[i]? = some (parameterName i d) ∧
        (d.name = "" ∨ isWord d.name.toList = true) := by
    intro i d hd
    obtain ⟨hi, rfl⟩ := List.getElem?_eq_some_iff.mp hd
    have hparam := hparams.get (hparams.length_eq ▸ hi) hi
    have hs := Symbols.build_describes hbuild
    simp only [List.get_eq_getElem] at hparam
    rw [List.getElem?_map, List.getElem?_eq_getElem (hparams.length_eq ▸ hi), Option.map_some,
      name_eq_parameterName hs hcallee hnodup _ hparam]
    exact ⟨rfl, hparam.name⟩
  constructor
  · intro hdistinct i d hd hempty e he heq
    obtain ⟨j, hj⟩ := List.getElem?_of_mem he
    have hij : i ≠ j := by
      rintro rfl
      obtain rfl := Option.mem_unique hd hj
      simp [hempty] at heq
    have hmeet := (parameterName_eq_iff (hname hd).2 (hname hj).2 hij).mpr (.inr (.inl ⟨hempty, heq⟩))
    have hlt : i < ((parametersOf f.kind).map s.name).length :=
      (List.getElem?_eq_some_iff.mp (hname hd).1).1
    refine hij ((List.getElem?_inj hlt hdistinct).mp ?_)
    rw [(hname hd).1, (hname hj).1, hmeet]
  · intro hfree
    rw [List.nodup_iff_getElem?_ne_getElem?]
    intro i j hij hj
    rw [List.length_map, hparams.length_eq] at hj
    have hd := List.getElem?_eq_getElem (hij.trans hj)
    have he := List.getElem?_eq_getElem hj
    rw [(hname hd).1, (hname he).1, ne_eq, Option.some.injEq,
      parameterName_eq_iff (hname hd).2 (hname he).2 hij.ne]
    rintro (⟨hne, heq⟩ | ⟨hempty, heq⟩ | ⟨hempty, heq⟩)
    · exact List.pairwise_iff_getElem.mp hnames i j _ hj hij hne heq
    · exact hfree i _ hd hempty _ (List.getElem_mem hj) heq
    · exact hfree j _ he hempty _ (List.getElem_mem _) heq

/-- A function whose first parameter has no name. -/
def mixing (second : String) : Ast where
  file := "mixes.h"
  topLevel := [⟨0⟩]
  decls :=
    #[{ kind := .function { type := ⟨1⟩, params := [⟨1⟩, ⟨2⟩] }, name := "mix" },
      { kind := .param ⟨0⟩, parent := some ⟨0⟩ },
      { kind := .param ⟨0⟩, name := second, parent := some ⟨0⟩ }]
  types :=
    #[.ofBuiltin .int,
      { kind := .function { result := ⟨0⟩, params := [⟨0⟩, ⟨0⟩] }, spelling := "int (int, int)" }]

theorem mix_parameters_distinct :
    ∃ s f, Symbols.build (mixing "factor") {} = .ok s ∧ (mixing "factor").decl? ⟨0⟩ = some f ∧
      ((parametersOf f.kind).map s.name).Nodup := by
  have hbuild : Symbols.build (mixing "factor") {} = .ok _ := rfl
  have hcallee : (mixing "factor").decl? ⟨0⟩ = some _ := rfl
  have hparams : List.Forall₂ (IsParameterOf (mixing "factor") ⟨0⟩) [⟨1⟩, ⟨2⟩] _ :=
    .cons ⟨rfl, ⟨_, rfl⟩, rfl, .inl rfl⟩ (.cons ⟨rfl, ⟨_, rfl⟩, rfl, .inr (by decide)⟩ .nil)
  refine ⟨_, _, hbuild, hcallee, (parameter_names_nodup_iff hbuild hcallee ?_ hparams ?_).mpr ?_⟩
  · decide
  · decide
  · intro i d hd hempty e he heq
    have hhead := congrArg (·.toList.head?) heq
    rcases List.mem_pair.mp he with rfl | rfl <;> simp [mixing] at hhead

theorem numbered_parameter_meets_named :
    ∃ s, Symbols.build (mixing "param0") {} = .ok s ∧ [⟨1⟩, ⟨2⟩].map s.name = ["param0", "param0"] :=
  ⟨_, rfl, rfl⟩

/-! ## Names that are put together -/

/-- Whether what a type is called after leaves an identifier. -/
def Eponym.IsFit (settings : Settings) (d : Decl) : Eponym → Prop
  | .native name => settings.remapped name ≠ ""
  | .field name => ∀ c ∈ name.toList, isWordChar c = true
  | .place => ∀ c ∈ d.location.fileStem.toList, isWordChar c = true

theorem isName_underscore_iff (text : String) :
    isName ("_" ++ text) = true ↔ ∀ c ∈ text.toList, isWordChar c = true := by
  have hkeyword := @not_keyword_of_lead "_" (by decide) text
  have hfirst : isWordChar '_' = true := by decide
  simpa [isName, isWord, hfirst] using fun _ => hkeyword

theorem isName_provenanceName_iff (d : Decl) : isName (provenanceName d) = true ↔
    ∀ c ∈ d.location.fileStem.toList, isWordChar c = true := by
  have hplace : ∀ lead : String, lead.toList.all isWordChar = true →
      (isName ("_" ++ lead ++ "_" ++ d.location.fileStem ++ "_L" ++ d.location.line.toNat.repr ++ "_C" ++
        d.location.column.toNat.repr) = true ↔ ∀ c ∈ d.location.fileStem.toList, isWordChar c = true) := by
    intro lead hlead
    have hmarks : "_".toList.all isWordChar = true ∧ "_L".toList.all isWordChar = true ∧
        "_C".toList.all isWordChar = true := by decide
    simp only [String.append_assoc, isName_underscore_iff, String.toList_append, List.forall_mem_append]
    simp only [List.all_eq_true] at hlead hmarks
    constructor
    · exact fun h => h.2.2.1
    · exact fun h => ⟨hlead, hmarks.1, h, hmarks.2.1, fun c => isWordChar_of_mem_repr, hmarks.2.2,
        fun c => isWordChar_of_mem_repr⟩
  unfold provenanceName
  split
  · exact hplace "_AnonymousEnum" (by decide)
  · exact hplace "_AnonymousRecord" (by decide)

theorem isName_text_iff {ast : Ast} {id : DeclId} (hsettings : settings.fault? = none)
    (hnames : ∀ d ∈ ast.decls, IsNativeName d.name) (hd : ast.decl? id = some d)
    (hsuffix : suffix ∈ ["Struct", "Union", "Enum"]) (he : IsCalledAfter ast unnamed id d e) :
    isName (e.text settings d suffix) = true ↔ e.IsFit settings d := by
  have hnative : ∀ {other : Decl}, other ∈ ast.decls →
      (isName (managedName settings other.name) = true ↔ settings.remapped other.name ≠ "") :=
    fun hother => isName_escapeIdentifier_iff (isNativeName_remapped hsettings (hnames _ hother))
  have hstored : ∀ field : String, isName ("_" ++ field ++ "_e__" ++ suffix) = true ↔
      ∀ c ∈ field.toList, isWordChar c = true := by
    have hend : ∀ suffix ∈ ["Struct", "Union", "Enum"], ("_e__" ++ suffix).toList.all isWordChar = true := by
      decide
    intro field
    rw [String.append_assoc, String.append_assoc, isName_underscore_iff, String.toList_append,
      List.forall_mem_append]
    exact and_iff_left (List.all_eq_true.mp (hend suffix hsuffix))
  cases he with
  | own => exact hnative (Ast.mem_decls hd)
  | typedef _ _ hother => exact hnative (Ast.mem_decls hother)
  | anonymous => exact hstored _
  | holder => exact hstored _
  | place => exact isName_provenanceName_iff d

/-- **Names of types and parameters are identifiers** but for what is taken over as it stands: the name
of a file, the name of a field, and an empty name of a typedef. -/
theorem type_and_parameter_names_valid_iff {ast : Ast} {s : Symbols} {id : DeclId}
    (hsettings : settings.fault? = none) (hnames : ∀ d ∈ ast.decls, IsNativeName d.name)
    (hbuild : Symbols.build ast settings = .ok s) (hd : ast.decl? id = some d) :
    (∀ type, d.kind = .param type → isName (s.name id) = true) ∧
    ((∃ r, d.kind = .record r) ∨ (∃ e, d.kind = .enum e) →
      ∃ e, IsCalledAfter ast ⟨s.namingTypedefs, s.anonymous⟩ id d e ∧
        (isName (s.name id) = true ↔ e.IsFit settings d)) := by
  have hname := (Symbols.build_describes hbuild).name id d hd
  constructor
  · intro type hkind
    simp only [declName?, hkind] at hname
    split at hname
    · simp only [bind, pure, Option.bind_eq_some_iff, Option.some.injEq] at hname
      obtain ⟨position, -, hname⟩ := hname
      rw [← hname]
      exact isName_numbered position
    · rename_i hne
      rw [← Option.some.inj hname]
      exact (isName_escapeIdentifier_iff (hnames d (Ast.mem_decls hd))).mpr hne
  · intro hkind
    obtain ⟨suffix, hsuffix, htype⟩ : ∃ suffix ∈ ["Struct", "Union", "Enum"],
        typeName? ast settings ⟨s.namingTypedefs, s.anonymous⟩ id d suffix = some (s.name id) := by
      rcases hkind with ⟨r, hkind⟩ | ⟨e, hkind⟩
      · simp only [declName?, hkind] at hname
        exact ⟨_, by split <;> decide, hname⟩
      · simp only [declName?, hkind] at hname
        exact ⟨_, by decide, hname⟩
    obtain ⟨e, he, htext⟩ := exists_eponym htype
    exact ⟨e, he, htext ▸ isName_text_iff hsettings hnames hd hsuffix he⟩

/-- A record without a name, which nothing around it names. -/
def lone (file : String) : Ast where
  file
  topLevel := [⟨0⟩]
  decls := #[{ kind := .record { tag := .struct }, location := { file := some file, line := 1, column := 1 } }]

theorem lone_record_named : ∃ s d e, Symbols.build (lone "shapes.h") {} = .ok s ∧
    (lone "shapes.h").decl? ⟨0⟩ = some d ∧
    IsCalledAfter (lone "shapes.h") ⟨s.namingTypedefs, s.anonymous⟩ ⟨0⟩ d e ∧
    (isName (s.name ⟨0⟩) = true ↔ e.IsFit {} d) := by
  have hbuild : Symbols.build (lone "shapes.h") {} = .ok _ := rfl
  have hd : (lone "shapes.h").decl? ⟨0⟩ = some _ := rfl
  have hnames : ∀ d ∈ (lone "shapes.h").decls, IsNativeName d.name := by
    intro d hd
    obtain rfl := List.mem_singleton.mp (Array.mem_toList_iff.mpr hd)
    exact .inl rfl
  obtain ⟨e, he, hvalid⟩ :=
    (type_and_parameter_names_valid_iff (by decide) hnames hbuild hd).2 (.inl ⟨_, rfl⟩)
  exact ⟨_, _, e, hbuild, hd, he, hvalid⟩

theorem hyphen_of_file_in_name :
    ∃ s, Symbols.build (lone "my-shapes.h") {} = .ok s ∧
      s.name ⟨0⟩ = "__AnonymousRecord_my-shapes_L1_C1" ∧ isName (s.name ⟨0⟩) = false :=
  ⟨_, rfl, by decide, by decide⟩

/-! ## Imported functions -/

def unescaped (name : String) : String :=
  match name.toList with
  | '@' :: word => String.ofList word
  | _ => name

/-- What is looked up in the library for a method: the entry point, or else its name. -/
def lookedUp? (m : Managed.Method) : Option String :=
  m.attrs.findSome? fun
    | .dllImport _ _ entryPoint => some (entryPoint.getD (unescaped m.name))
    | _ => none

/-- The symbol that is given for a function, other than by its name. -/
def givenSymbol? (settings : Settings) (d : Decl) (f : Function) : Option String :=
  (d.attrs.asmLabel.or (settings.entryPoint? d.name)).or (if f.linkage = .cxx then f.mangledName else none)

theorem unescaped_escapeIdentifier (h : isWord name.toList = true) :
    unescaped (escapeIdentifier name) = name := by
  rw [escapeIdentifier_of_isWord h]
  split
  · simp [unescaped]
  · unfold unescaped
    split
    · rename_i word hcs
      have hat : '@' ∉ name.toList := Csharp.not_mem_of_isWord (by decide) h
      exact absurd (hcs ▸ List.mem_cons_self ..) hat
    · rfl

theorem lookedUp_of_emitFunction {ast : Ast} {env : Env} {id : DeclId} (henv : prepare settings ast = .ok env)
    (hd : env.ast.decl? id = some d) (hkind : d.kind = .function f) (hbody : f.body = none)
    (h : (emitFunction id).Gives env scope member) :
    ∃ m, member = .method m ∧
      lookedUp? m = some ((givenSymbol? settings d f).getD (unescaped (managedName settings d.name))) := by
  have hname := (Symbols.describes_of_prepare henv).name id d hd
  simp only [declName?, hkind] at hname
  have hsettings : env.settings = settings.toEmissionSettings := by
    obtain ⟨-, symbols, -, rfl⟩ := Symbols.prepare_eq_ok_iff.mp henv
    rfl
  simp only [emitFunction, methodOf, importedMethod, importAttribute, Emit.gives_bind, Emit.gives_decl,
    exists_found hd, hkind, hbody, Emit.gives_pure] at h
  obtain ⟨proto, -, result, -, params, -, m, ⟨source, hsource, obsolete, -, _, -, name, hm, rfl⟩, rfl⟩ := h
  refine ⟨_, rfl, ?_⟩
  split at hsource
  · simp at hsource
  · simp only [Emit.gives_bind, Emit.gives_importNamespace, Emit.gives_env, Emit.gives_pure, true_and,
      exists_const, exists_eq_left, hsettings] at hsource
    rw [← hsource, Emit.gives_nameOf.mp hm, ← Option.some.inj hname]
    rfl

/-- **Imports bind the native symbol** unless a function is found by its name alone, and the name was
changed. -/
theorem import_binds_symbol_iff {ast : Ast} {env : Env} {id : DeclId} (henv : prepare settings ast = .ok env)
    (hd : env.ast.decl? id = some d) (hkind : d.kind = .function f) (hbody : f.body = none)
    (h : (emitFunction id).Gives env scope member) :
    ∃ m symbol, member = .method m ∧ lookedUp? m = some symbol ∧
      (symbol = (givenSymbol? settings d f).getD d.name ↔
        (givenSymbol? settings d f).isSome ∨ unescaped (managedName settings d.name) = d.name) ∧
      (settings.fault? = none → isWord d.name.toList = true →
        (unescaped (managedName settings d.name) = d.name ↔ settings.remapped d.name = d.name)) := by
  obtain ⟨m, rfl, hsymbol⟩ := lookedUp_of_emitFunction henv hd hkind hbody h
  refine ⟨m, _, rfl, hsymbol, ?_, fun hsettings hword => ?_⟩
  · cases givenSymbol? settings d f <;> simp
  · rw [managedName, unescaped_escapeIdentifier (isWord_remapped hsettings hword)]

def importing (name : String) : Ast where
  file := "files.h"
  topLevel := [⟨0⟩]
  decls := #[{ kind := .function { type := ⟨1⟩, linkage := .c }, name }]
  types :=
    #[.ofBuiltin .int,
      { kind := .function { result := ⟨0⟩, params := [], convention := some .c }, spelling := "int ()" }]

theorem lock_binds_symbol : ∃ env m, prepare {} (importing "lock") = .ok env ∧
    (emitFunction ⟨0⟩).Gives env {} (.method m) ∧ m.name = "@lock" ∧ lookedUp? m = some "lock" := by
  obtain ⟨env, henv, m, hgives, hname⟩ : ∃ env, prepare {} (importing "lock") = .ok env ∧
      ∃ m, (emitFunction ⟨0⟩).Gives env {} (.method m) ∧ m.name = "@lock" :=
    ⟨_, rfl, _, Emit.gives_of_run (c := {}) rfl, by decide⟩
  have hast : env.ast = importing "lock" := by
    obtain ⟨-, symbols, -, rfl⟩ := Symbols.prepare_eq_ok_iff.mp henv
    rfl
  obtain ⟨_, symbol, hm, hsymbol, hiff, -⟩ := import_binds_symbol_iff henv (by rw [hast]; rfl) rfl rfl hgives
  obtain rfl := Managed.Member.method.inj hm
  obtain rfl := hiff.mpr (.inr (by decide))
  exact ⟨env, m, henv, hgives, hname, hsymbol⟩

theorem renamed_import_loses_symbol : ∃ env m,
    prepare { remap := [("open", "Open")] } (importing "open") = .ok env ∧
    (emitFunction ⟨0⟩).Gives env {} (.method m) ∧ lookedUp? m = some "Open" :=
  ⟨_, _, rfl, Emit.gives_of_run (c := {}) rfl, by decide⟩

end Interop.Binding
