import Interop.Proofs.ExpressionForms

/-!
# Names of types

No declaration has a C# keyword as its name, and neither has a record or an enumeration that is qualified
by the records around it. So a C# type that is called like a primitive one is primitive. The C# type of a
record or an enumeration is its name as the scope calls it, unless a typedef on the way is one for integers
of the size of a pointer (`managedFrom_of_named`).
-/

namespace Interop.Managed

theorem not_keyword_of_mem {word : String} (hc : c ∈ word.toList) (hlower : c.isLower = false) :
    keywords.contains word = false := by
  have hall : ∀ word ∈ keywords, word.toList.all Char.isLower = true := by decide
  rw [Bool.eq_false_iff]
  intro h
  have hc' := List.all_eq_true.mp (hall word (List.contains_iff_mem.mp h)) c hc
  rw [hlower] at hc'
  cases hc'

theorem escapeIdentifier_not_keyword (name : String) :
    keywords.contains (escapeIdentifier name) = false := by
  unfold escapeIdentifier
  split
  · have hlead : ∀ rest : String, keywords.contains ("op_" ++ rest) = false := by
      intro rest
      exact not_keyword_of_mem (c := '_') (by simp) rfl
    unfold operatorMethod
    split
    · exact hlead _
    · dsimp only
      split
      · decide
      · exact hlead _
  · split
    · exact not_keyword_of_mem (c := '@') (by simp) rfl
    · rename_i hkeyword
      simpa using hkeyword

end Interop.Managed

namespace Interop.Binding

open Native
open Managed (keywords TypeName)

variable {usage : Usage} {type target element proto : TypeId} {ast : Ast} {m : TypeName × Bool}
  {id : DeclId} {fuel fuel' : Nat} {s : Symbols} {c : TypeContext} {name : String} {isComplete : Bool}
  {location : Location} {env : Env}

theorem isLower_of_isDigit {c : Char} (h : c.isDigit = true) : c.isLower = false := by
  have hnine : '9'.val.toNat = 57 := rfl
  have hlower : 'a'.val.toNat = 97 := rfl
  simp only [Char.isDigit, Bool.and_eq_true, decide_eq_true_eq, UInt32.le_iff_toNat_le, ge_iff_le] at h
  simp only [Char.isLower, Bool.and_eq_false_iff, decide_eq_false_iff_not, UInt32.le_iff_toNat_le,
    ge_iff_le]
  omega

/-! ## Declarations -/

theorem typeName_not_keyword (h : typeName? ast settings unnamed id d suffix = some name) :
    keywords.contains name = false := by
  have hunderscore : ∀ rest : String, keywords.contains ("_" ++ rest) = false := by
    intro rest
    exact Managed.not_keyword_of_mem (c := '_') (by simp) rfl
  have hmanaged : ∀ native : String, keywords.contains (managedName settings native) = false :=
    fun native => Managed.escapeIdentifier_not_keyword _
  unfold typeName? at h
  split at h
  · obtain rfl := Option.some.inj h
    exact hmanaged _
  split at h
  · simp only [bind, Option.bind_eq_some_iff] at h
    obtain ⟨typedef, -, h⟩ := h
    obtain rfl := Option.some.inj h
    exact hmanaged _
  split at h
  · obtain rfl := Option.some.inj h
    rw [String.append_assoc, String.append_assoc]
    exact hunderscore _
  dsimp only at h
  have hplace : keywords.contains (provenanceName d) = false := by
    refine Managed.not_keyword_of_mem (c := '_') ?_ rfl
    unfold provenanceName
    simp
  split at h
  · simp only [bind, Option.bind_eq_some_iff] at h
    obtain ⟨members, -, field, -, h⟩ := h
    split at h
    · obtain rfl := Option.some.inj h
      rw [String.append_assoc, String.append_assoc]
      exact hunderscore _
    · obtain rfl := Option.some.inj h
      exact hplace
  · obtain rfl := Option.some.inj h
    exact hplace

theorem Symbols.Describes.name_not_keyword (hs : s.Describes ast settings) (hd : ast.decl? id = some d) :
    keywords.contains (s.name id) = false := by
  have hname := hs.name id d hd
  unfold declName? at hname
  split at hname
  · exact typeName_not_keyword hname
  · exact typeName_not_keyword hname
  · split at hname
    · simp only [bind, Option.bind_eq_some_iff, pure, Option.some.injEq] at hname
      obtain ⟨position, -, hname⟩ := hname
      rw [← hname]
      obtain ⟨c, hc⟩ := List.exists_mem_of_ne_nil _ (Nat.toDigits_ne_nil (b := 10) (n := position))
      have hdigit := Nat.isDigit_of_mem_toDigits (by decide) (by decide) hc
      have hmem : c ∈ ("param" ++ position.repr).toList := by
        rw [String.toList_append, Nat.toList_repr]
        exact List.mem_append_right _ hc
      exact Managed.not_keyword_of_mem hmem (isLower_of_isDigit hdigit)
    · simp only [pure, Option.some.injEq] at hname
      rw [← hname]
      exact Managed.escapeIdentifier_not_keyword _
  all_goals
    simp only [pure, Option.some.injEq] at hname
    rw [← hname]
    exact Managed.escapeIdentifier_not_keyword _

/-! ## Qualified names -/

theorem mem_joinWith {sep : String} {parts : List String} (h : 1 < parts.length) :
    ∀ c ∈ sep.toList, c ∈ (Text.joinWith sep parts).toList := by
  intro c hc
  cases parts with
  | nil => simp at h
  | cons first rest =>
    cases rest with
    | nil => simp at h
    | cons second rest =>
      rw [Text.joinWith, String.toList_append, String.toList_append]
      exact List.mem_append_left _ (List.mem_append_right _ hc)

theorem exists_decl_of_mem_recordChain (h : recordChainFrom ast fuel start = some chain) :
    ∀ id ∈ chain, ∃ d, ast.decl? id = some d ∧ ((∃ r, d.kind = .record r) ∨ ∃ e, d.kind = .enum e) := by
  induction fuel generalizing start chain with
  | zero =>
    cases start with
    | none =>
      obtain rfl := Option.some.inj h
      simp
    | some id => cases h
  | succ fuel ih =>
    cases start with
    | none =>
      obtain rfl := Option.some.inj h
      simp
    | some id =>
      simp only [recordChainFrom, bind, Option.bind_eq_some_iff] at h
      obtain ⟨d, hd, around, haround, h⟩ := h
      split at h
      · rename_i r hkind
        obtain rfl := Option.some.inj h
        exact List.forall_mem_cons.mpr ⟨⟨d, hd, .inl ⟨r, hkind⟩⟩, ih haround⟩
      · rename_i e hkind
        obtain rfl := Option.some.inj h
        exact List.forall_mem_cons.mpr ⟨⟨d, hd, .inr ⟨e, hkind⟩⟩, ih haround⟩
      · obtain rfl := Option.some.inj h
        exact ih haround

theorem dropCommon_subset (chain scope : List DeclId) : dropCommon chain scope ⊆ chain := by
  induction chain generalizing scope with
  | nil => simp [dropCommon]
  | cons a rest ih =>
    cases rest with
    | nil => simp [dropCommon]
    | cons b rest =>
      cases scope with
      | nil => simp [dropCommon]
      | cons c scope =>
        rw [dropCommon]
        split
        · exact List.subset_cons_of_subset _ (ih scope)
        · exact List.Subset.refl _

theorem Symbols.Describes.qualifiedName_definition (hs : s.Describes ast settings) (id : DeclId)
    (scope : Option DeclId) :
    qualifiedName? ast s (s.definition id) scope = qualifiedName? ast s id scope := by
  unfold qualifiedName?
  rw [hs.definition_definition]

theorem qualifiedName_not_keyword (hs : s.Describes ast settings)
    (h : qualifiedName? ast s id scope = some name) : keywords.contains name = false := by
  simp only [qualifiedName?, recordChain?, bind, Option.bind_eq_some_iff, Option.map_eq_some_iff,
    pure, Option.some.injEq] at h
  obtain ⟨target, ⟨chain, hchain, rfl⟩, current, -, rfl⟩ := h
  have hdecl : ∀ x ∈ dropCommon chain.reverse current, ∃ d, ast.decl? x = some d := by
    intro x hx
    have hmem := dropCommon_subset _ _ hx
    exact (exists_decl_of_mem_recordChain hchain x (List.mem_reverse.mp hmem)).imp fun _ => And.left
  match hparts : dropCommon chain.reverse current with
  | [] => exact (by decide : keywords.contains "" = false)
  | [x] =>
    obtain ⟨d, hd⟩ := hdecl x (by simp [hparts])
    exact hs.name_not_keyword hd
  | x :: y :: rest =>
    exact Managed.not_keyword_of_mem (mem_joinWith (by simp) '.' (by decide)) rfl

/-! ## Mapped types -/

/-- The type is a typedef that stands for integers of the size of a pointer. -/
def IsIntegerTypedef (ast : Ast) (type : TypeId) (name : String) : Prop :=
  ∃ t typedef underlying d, ast.type? type = some t ∧ t.kind = .typedef typedef underlying ∧
    ast.decl? typedef = some d ∧ wellKnownTypedef? d.name = some name

theorem managedFrom_of_canonical (hcanonical : c.ast.canonicalFrom fuel' type = some target)
    (h : c.managedFrom fuel type usage = .ok m) :
    (∃ between n name, c.ast.canonicalFrom n between = some target ∧
        IsIntegerTypedef c.ast between name ∧ m = (.named name, false)) ∨
      ∃ fuel' < fuel, c.managedFrom (fuel' + 1) target usage = .ok m := by
  induction fuel generalizing fuel' type usage with
  | zero => cases h
  | succ fuel ih =>
    cases fuel' with
    | zero => cases hcanonical
    | succ fuel' =>
      have hself := hcanonical
      have hmanaged := h
      simp only [Ast.canonicalFrom, bind, Option.bind_eq_some_iff] at hcanonical
      obtain ⟨u, hu, hcanonical⟩ := hcanonical
      simp only [TypeContext.managedFrom, bind_eq_ok, found_eq_ok, exists_found hu] at h
      split at hcanonical
      · rename_i typedef underlying hkind
        simp only [hkind, bind_eq_ok, found_eq_ok] at h
        obtain ⟨d, hd, h⟩ := h
        split at h
        · rename_i name hname
          exact .inl ⟨type, _, name, hself, ⟨u, typedef, underlying, d, hu, hkind, hd, hname⟩,
            (pure_eq_ok.mp h).symm⟩
        · exact (ih hcanonical h).imp_right (Exists.imp fun _ => And.imp_left Nat.lt_succ_of_lt)
      · rename_i template canonical hkind
        rw [hkind] at h
        exact (ih hcanonical h).imp_right (Exists.imp fun _ => And.imp_left Nat.lt_succ_of_lt)
      · obtain rfl := Option.some.inj hcanonical
        exact .inr ⟨fuel, Nat.lt_succ_self fuel, hmanaged⟩

section

theorem functionPointer_eq_ok (h : c.functionPointer managed proto = .ok m) :
    ∃ native convention params result, unmanagedConvention? native = some convention ∧
      (∀ p ∈ params, ∃ type q, managed type .parameter = .ok (p, q)) ∧
      (∃ type q, managed type .result = .ok (result, q)) ∧
      m = (.functionPointer convention params result, true) := by
  simp only [TypeContext.functionPointer, bind_eq_ok] at h
  obtain ⟨t, -, h⟩ := h
  split at h
  · split at h
    · cases h
    split at h
    · cases h
    rename_i convention hconvention
    obtain ⟨native, -, hnative⟩ := Option.bind_eq_some_iff.mp hconvention
    simp only [bind_eq_ok, pure_eq_ok, mapM_eq_ok] at h
    obtain ⟨params, hparams, result, hresult, rfl⟩ := h
    refine ⟨native, convention, params, result.1, hnative, fun p hp => ?_, ⟨_, _, hresult⟩, rfl⟩
    obtain ⟨type, -, mapped, hmapped, rfl⟩ := exists_left_of_forall₂ hparams hp
    exact ⟨type, mapped.2, hmapped⟩
  · cases h

theorem pointerTo_eq_ok (h : c.pointerTo managed target = .ok m) :
    (c.isFunction target = .ok true ∧ ∃ proto, c.functionPointer managed proto = .ok m) ∨
      (c.isFunction target = .ok false ∧
        ∃ inner q, managed target .pointee = .ok (inner, q) ∧ m = (.pointer inner, true)) := by
  simp only [TypeContext.pointerTo, bind_eq_ok] at h
  obtain ⟨isFunction, hfunction, h⟩ := h
  cases isFunction with
  | true =>
    simp only [if_true, bind_eq_ok] at h
    obtain ⟨proto, -, h⟩ := h
    exact .inl ⟨hfunction, proto, h⟩
  | false =>
    simp only [Bool.false_eq_true, if_false, bind_eq_ok, pure_eq_ok] at h
    obtain ⟨inner, hinner, rfl⟩ := h
    exact .inr ⟨hfunction, inner.1, inner.2, hinner, rfl⟩

theorem arrayOf_eq_ok (h : c.arrayOf managed element isComplete usage = .ok m) :
    ∃ inner q, managed element .pointee = .ok (inner, q) ∧ (m.1 = .array inner ∨ m.1 = .pointer inner) := by
  simp only [TypeContext.arrayOf, bind_eq_ok] at h
  obtain ⟨inner, hinner, h⟩ := h
  refine ⟨inner.1, inner.2, hinner, ?_⟩
  split at h
  · obtain ⟨isArray, -, h⟩ := bind_eq_ok.mp h
    split at h
    · cases h
    · exact .inl (pure_eq_ok.mp h ▸ rfl)
  · exact .inr (pure_eq_ok.mp h ▸ rfl)

end

theorem ok_bind_mono {x y : Result α} {f g : α → Result β} {b : β} (hxy : ∀ a, x = .ok a → y = .ok a)
    (hfg : ∀ a, f a = .ok b → g a = .ok b) (h : (x >>= f) = .ok b) : (y >>= g) = .ok b := by
  cases x with
  | error e => cases h
  | ok a =>
    rw [hxy a rfl]
    exact hfg a h

theorem mapM_mono {f g : α → Result β} (hfg : ∀ a b, f a = .ok b → g a = .ok b) {as : List α} {bs : List β}
    (h : as.mapM f = .ok bs) : as.mapM g = .ok bs :=
  mapM_eq_ok.mpr ((mapM_eq_ok.mp h).imp fun a b => hfg a b)

section Fuel

variable {c : TypeContext} {managed managed' : TypeId → Usage → Result (TypeName × Bool)}
  (hle : ∀ type usage m, managed type usage = .ok m → managed' type usage = .ok m)
include hle

theorem functionPointer_mono (h : c.functionPointer managed proto = .ok m) :
    c.functionPointer managed' proto = .ok m := by
  unfold TypeContext.functionPointer at h ⊢
  refine ok_bind_mono (fun _ h => h) (fun t h => ?_) h
  split at h
  · split at h
    · cases h
    · rename_i hvariadic
      rw [if_neg hvariadic]
      split at h
      · cases h
      · refine ok_bind_mono (fun _ => mapM_mono fun type m => ?_) (fun params => ?_) h
        · exact ok_bind_mono (hle type .parameter) fun _ h => h
        · exact ok_bind_mono (hle _ .result) fun _ h => h
  · cases h

theorem pointerTo_mono (h : c.pointerTo managed target = .ok m) : c.pointerTo managed' target = .ok m := by
  refine ok_bind_mono (fun _ h => h) (fun isFunction h => ?_) h
  split at h
  · rename_i hfunction
    rw [if_pos hfunction]
    exact ok_bind_mono (fun _ h => h) (fun proto => functionPointer_mono hle) h
  · rename_i hfunction
    rw [if_neg hfunction]
    exact ok_bind_mono (hle target .pointee) (fun _ h => h) h

theorem arrayOf_mono (h : c.arrayOf managed element isComplete usage = .ok m) :
    c.arrayOf managed' element isComplete usage = .ok m :=
  ok_bind_mono (hle element .pointee) (fun _ h => h) h

end Fuel

theorem managedFrom_mono (hfuel : fuel ≤ fuel') (h : c.managedFrom fuel type usage = .ok m) :
    c.managedFrom fuel' type usage = .ok m := by
  induction fuel generalizing fuel' type usage m with
  | zero => cases h
  | succ fuel ih =>
    obtain ⟨fuel', rfl⟩ : ∃ n, fuel' = n + 1 := ⟨fuel' - 1, by omega⟩
    have hle : ∀ type usage m, c.managedFrom fuel type usage = .ok m →
        c.managedFrom fuel' type usage = .ok m := fun _ _ _ h => ih (by omega) h
    unfold TypeContext.managedFrom at h ⊢
    refine ok_bind_mono (fun _ h => h) (fun t h => ?_) h
    split at h
    · exact h
    · exact pointerTo_mono hle h
    · exact pointerTo_mono hle h
    · exact pointerTo_mono hle h
    · exact arrayOf_mono hle h
    · exact arrayOf_mono hle h
    · split at h
      · rename_i husage
        rw [if_pos husage]
        exact functionPointer_mono hle h
      · cases h
    · exact h
    · exact h
    · refine ok_bind_mono (fun _ h => h) (fun d h => ?_) h
      split at h
      · exact h
      · exact hle _ _ _ h
    · split at h
      · exact hle _ _ _ h
      · cases h
    · exact h

theorem managedFrom_of_named (hcanonical : c.ast.canonicalFrom fuel' type = some target)
    (ht : c.ast.type? target = some t) (hnamed : directlyNamed t.kind = some id)
    (h : c.managedFrom fuel type usage = .ok m) :
    (∃ between n name, c.ast.canonicalFrom n between = some target ∧
        IsIntegerTypedef c.ast between name ∧ m = (.named name, false)) ∨
      ∃ name, qualifiedName? c.ast c.symbols id c.scope = some name ∧ m = (.named name, false) := by
  rcases managedFrom_of_canonical hcanonical h with hinteger | ⟨fuel', -, h⟩
  · exact .inl hinteger
  · simp only [TypeContext.managedFrom, bind_eq_ok, found_eq_ok, exists_found ht] at h
    cases hkind : t.kind with
    | record decl | enum decl =>
      simp only [hkind, bind_eq_ok, found_eq_ok, pure_eq_ok] at h
      rw [hkind] at hnamed
      obtain rfl : decl = id := Option.some.inj hnamed
      obtain ⟨name, hname, rfl⟩ := h
      exact .inr ⟨name, hname, rfl⟩
    | _ => simp [hkind, directlyNamed] at hnamed

/-- Typedefs that stand for integers of the size of a pointer are integers. -/
def PlainTypedefs (ast : Ast) : Prop :=
  ∀ type name n target t, IsIntegerTypedef ast type name → ast.canonicalFrom n type = some target →
    ast.type? target = some t → ∃ kind, t.kind = .builtin kind

theorem canonicalFrom_of_canonicalKind (h : ast.canonicalKind? type = some kind) :
    ∃ target t, ast.canonicalFrom ast.types.size type = some target ∧ ast.type? target = some t ∧
      t.kind = kind := by
  simp only [Ast.canonicalKind?, bind, Option.bind_eq_some_iff, pure, Option.some.injEq] at h
  obtain ⟨target, htarget, t, ht, hkind⟩ := h
  exact ⟨target, t, htarget, ht, hkind⟩

theorem canonicalKind_of_recordOf (h : ast.recordOf? type = some (some id)) :
    ast.canonicalKind? type = some (.record id) := by
  simp only [Ast.recordOf?, bind, Option.bind_eq_some_iff] at h
  obtain ⟨kind, hkind, h⟩ := h
  split at h
  · rw [hkind, Option.some.inj (Option.some.inj h)]
  · cases h

namespace PlainTypedefs

variable (htypedefs : PlainTypedefs c.ast)
include htypedefs

theorem managedFrom_record (hid : c.ast.recordOf? type = some (some id))
    (h : c.managedFrom fuel type usage = .ok m) :
    ∃ name, qualifiedName? c.ast c.symbols id c.scope = some name ∧ m.1 = .named name := by
  obtain ⟨target, t, htarget, ht, hkind⟩ :=
    canonicalFrom_of_canonicalKind (canonicalKind_of_recordOf hid)
  have hnamed : directlyNamed t.kind = some id := by
    rw [hkind]
    rfl
  rcases managedFrom_of_named htarget ht hnamed h with ⟨between, n, name, hbetween, hinteger, -⟩ |
    ⟨name, hname, rfl⟩
  · obtain ⟨kind, hbuiltin⟩ := htypedefs between name n target t hinteger hbetween ht
    rw [hkind] at hbuiltin
    cases hbuiltin
  · exact ⟨name, hname, rfl⟩

theorem pointerTo_of_managedFrom (hkind : c.ast.canonicalKind? type = some kind)
    (hpointee : kind = .pointer pointee ∨ kind = .lvalueReference pointee ∨ kind = .rvalueReference pointee)
    (h : c.managedFrom fuel type usage = .ok m) :
    ∃ fuel' < fuel, c.pointerTo (c.managedFrom fuel') pointee = .ok m := by
  obtain ⟨target, t, htarget, ht, rfl⟩ := canonicalFrom_of_canonicalKind hkind
  rcases managedFrom_of_canonical htarget h with
    ⟨between, n, name, hbetween, hinteger, -⟩ | ⟨fuel', hfuel, h⟩
  · obtain ⟨kind, hbuiltin⟩ := htypedefs between name n target t hinteger hbetween ht
    rw [hbuiltin] at hpointee
    simp at hpointee
  · refine ⟨fuel', hfuel, ?_⟩
    simp only [TypeContext.managedFrom, bind_eq_ok, found_eq_ok, exists_found ht] at h
    rcases hpointee with hpointee | hpointee | hpointee
    · rwa [hpointee] at h
    · rwa [hpointee] at h
    · rwa [hpointee] at h

theorem managedFrom_pointer (hkind : c.ast.canonicalKind? type = some kind)
    (hpointee : kind = .pointer pointee ∨ kind = .lvalueReference pointee ∨ kind = .rvalueReference pointee)
    (hid : c.ast.recordOf? pointee = some (some id)) (h : c.managedFrom fuel type usage = .ok m) :
    ∃ name, qualifiedName? c.ast c.symbols id c.scope = some name ∧ m.1 = .pointer (.named name) := by
  obtain ⟨fuel', -, hpointer⟩ := htypedefs.pointerTo_of_managedFrom hkind hpointee h
  have hfunction : c.isFunction pointee = .ok false := by
    simp [TypeContext.isFunction, canonicalKind_of_recordOf hid, found, bind_eq_ok, pure_eq_ok]
  rcases pointerTo_eq_ok hpointer with ⟨htrue, -⟩ | ⟨-, inner, q, hinner, rfl⟩
  · rw [hfunction] at htrue
    cases htrue
  · obtain ⟨name, hname, htype⟩ := htypedefs.managedFrom_record hid hinner
    exact ⟨name, hname, congrArg TypeName.pointer htype⟩

end PlainTypedefs

/-! ## Types in two scopes -/

theorem getLast_dropCommon (chain scope : List DeclId) :
    (dropCommon chain scope).getLast? = chain.getLast? := by
  induction chain generalizing scope with
  | nil => simp [dropCommon]
  | cons a rest ih =>
    cases rest with
    | nil => simp [dropCommon]
    | cons b rest =>
      cases scope with
      | nil => simp [dropCommon]
      | cons c scope =>
        rw [dropCommon]
        split
        · rw [ih scope, List.getLast?_cons_cons]
        · rfl

theorem qualifiedName_eq_of_simple (h : qualifiedName? ast s id scope = some name)
    (h' : qualifiedName? ast s id scope' = some name') (hdot : '.' ∉ name.toList)
    (hdot' : '.' ∉ name'.toList) : name = name' := by
  simp only [qualifiedName?, bind, Option.bind_eq_some_iff, pure, Option.some.injEq] at h h'
  obtain ⟨chain, hchain, current, -, rfl⟩ := h
  obtain ⟨chain', hchain', current', -, rfl⟩ := h'
  obtain rfl := Option.mem_unique hchain' hchain
  -- Only the last part of the name is left in both scopes.
  have hlast : ∀ current, '.' ∉ (Text.joinWith "." ((dropCommon chain' current).map s.name)).toList →
      dropCommon chain' current = chain'.getLast?.toList := by
    intro current hdot
    rw [← getLast_dropCommon chain' current]
    match hparts : dropCommon chain' current with
    | [] => rfl
    | [x] => rfl
    | x :: y :: rest =>
      have hmem : '.' ∈ (Text.joinWith "." ((x :: y :: rest).map s.name)).toList :=
        mem_joinWith (by simp) '.' (by decide)
      rw [hparts] at hdot
      exact absurd hmem hdot
  rw [hlast current hdot, hlast current' hdot']

def IsCompound (type : TypeName) : Prop :=
  ∀ name, type ≠ .named name

theorem exists_symbol_of_isCompound {type : TypeName} (h : IsCompound type) :
    ∃ c ∈ type.text.toList, c.isAlpha = false := by
  cases type with
  | named name => exact absurd rfl (h name)
  | pointer target =>
    have htext : (TypeName.pointer target).text = target.text ++ "*" := rfl
    rw [htext, String.toList_append]
    exact ⟨'*', List.mem_append_right _ (by decide), rfl⟩
  | array element =>
    have htext : (TypeName.array element).text = element.text ++ "[]" := rfl
    rw [htext, String.toList_append]
    exact ⟨'[', List.mem_append_right _ (by decide), rfl⟩
  | span element =>
    have htext : (TypeName.span element).text = "Span<" ++ element.text ++ ">" := rfl
    rw [htext, String.toList_append]
    exact ⟨'>', List.mem_append_right _ (by decide), rfl⟩
  | functionPointer convention params result =>
    have htext : (TypeName.functionPointer convention params result).text =
        "delegate* unmanaged[" ++ convention ++ "]<" ++
          Text.joinWith ", " (TypeName.texts params ++ [result.text]) ++ ">" := rfl
    rw [htext, String.toList_append]
    exact ⟨'>', List.mem_append_right _ (by decide), rfl⟩

section

variable {c : TypeContext}

theorem functionPointer_isCompound (h : c.functionPointer managed proto = .ok m) : IsCompound m.1 := by
  obtain ⟨_, _, _, _, -, -, -, rfl⟩ := functionPointer_eq_ok h
  nofun

theorem pointerTo_isCompound (h : c.pointerTo managed target = .ok m) : IsCompound m.1 := by
  rcases pointerTo_eq_ok h with ⟨-, _, h⟩ | ⟨-, _, _, -, rfl⟩
  · exact functionPointer_isCompound h
  · nofun

theorem arrayOf_isCompound (h : c.arrayOf managed element isComplete usage = .ok m) : IsCompound m.1 := by
  obtain ⟨_, _, -, h | h⟩ := arrayOf_eq_ok h <;> rw [h] <;> nofun

end

inductive SameInScopes (ast : Ast) (s : Symbols) (scope scope' : Option DeclId) :
    TypeName → TypeName → Prop
  | refl (type : TypeName) : SameInScopes ast s scope scope' type type
  | named {id : DeclId} {name name' : String} (h : qualifiedName? ast s id scope = some name)
      (h' : qualifiedName? ast s id scope' = some name') :
      SameInScopes ast s scope scope' (.named name) (.named name')
  | compound {type type' : TypeName} (h : IsCompound type) (h' : IsCompound type') :
      SameInScopes ast s scope scope' type type'

theorem managedFrom_sameInScopes {c' : TypeContext} (hast : c'.ast = c.ast)
    (hsymbols : c'.symbols = c.symbols) {m' : TypeName × Bool} (h : c.managedFrom fuel type usage = .ok m)
    (h' : c'.managedFrom fuel type usage = .ok m') :
    SameInScopes c.ast c.symbols c.scope c'.scope m.1 m'.1 := by
  induction fuel generalizing type usage with
  | zero => cases h
  | succ fuel ih =>
    simp only [TypeContext.managedFrom, bind_eq_ok, found_eq_ok, hast, hsymbols] at h h'
    obtain ⟨t, ht, h⟩ := h
    simp only [ht, Option.some.injEq, exists_eq_left'] at h'
    cases hkind : t.kind with
    | builtin kind =>
      simp only [hkind] at h h'
      split at h
      · rename_i name hname
        simp only [hname] at h'
        rw [← pure_eq_ok.mp h, ← pure_eq_ok.mp h']
        exact .refl _
      · cases h
    | pointer target | lvalueReference target | rvalueReference target =>
      simp only [hkind] at h h'
      exact .compound (pointerTo_isCompound h) (pointerTo_isCompound h')
    | constantArray element size | incompleteArray element =>
      simp only [hkind] at h h'
      exact .compound (arrayOf_isCompound h) (arrayOf_isCompound h')
    | function proto =>
      simp only [hkind] at h h'
      split at h
      · rename_i husage
        rw [if_pos husage] at h'
        exact .compound (functionPointer_isCompound h) (functionPointer_isCompound h')
      · cases h
    | record decl | enum decl =>
      simp only [hkind, bind_eq_ok, found_eq_ok, pure_eq_ok] at h h'
      obtain ⟨name, hname, rfl⟩ := h
      obtain ⟨name', hname', rfl⟩ := h'
      exact .named hname hname'
    | typedef decl underlying =>
      simp only [hkind, bind_eq_ok, found_eq_ok] at h h'
      obtain ⟨d, hd, h⟩ := h
      simp only [hd, Option.some.injEq, exists_eq_left'] at h'
      split at h
      · rename_i name hname
        simp only [hname] at h'
        rw [← pure_eq_ok.mp h, ← pure_eq_ok.mp h']
        exact .refl _
      · rename_i hname
        simp only [hname] at h'
        exact ih h h'
    | specialization template canonical =>
      simp only [hkind] at h h'
      cases canonical with
      | none => cases h
      | some canonical => exact ih h h'
    | unexposed =>
      simp only [hkind] at h
      cases h

namespace SameInScopes

variable {ast : Ast} {s : Symbols} {scope scope' : Option DeclId} {type type' : TypeName}

theorem text_eq_of_letters (h : SameInScopes ast s scope scope' type type')
    (hletters : ∀ c ∈ type.text.toList, c.isAlpha = true)
    (hother : ∀ c ∈ type'.text.toList, c.isAlpha = true) : type.text = type'.text := by
  cases h with
  | refl => rfl
  | named hname hname' =>
    refine qualifiedName_eq_of_simple hname hname' (fun hdot => ?_) (fun hdot => ?_)
    · exact absurd (hletters '.' hdot) (by decide)
    · exact absurd (hother '.' hdot) (by decide)
  | compound hcompound _ =>
    obtain ⟨c, hc, hsymbol⟩ := exists_symbol_of_isCompound hcompound
    rw [hletters c hc] at hsymbol
    cases hsymbol

theorem text_eq_of_keyword {settings : Settings} (hs : s.Describes ast settings)
    (h : SameInScopes ast s scope scope' type type') :
    type.text = type'.text ∨
      (keywords.contains type.text = false ∧ keywords.contains type'.text = false) := by
  cases h with
  | refl => exact .inl rfl
  | named hname hname' =>
    exact .inr ⟨qualifiedName_not_keyword hs hname, qualifiedName_not_keyword hs hname'⟩
  | compound hcompound hcompound' =>
    have hkeyword : ∀ {type : TypeName}, IsCompound type → keywords.contains type.text = false := by
      intro type hcompound
      obtain ⟨c, hc, hsymbol⟩ := exists_symbol_of_isCompound hcompound
      apply Managed.not_keyword_of_mem hc
      rw [Char.isAlpha, Bool.or_eq_false_iff] at hsymbol
      exact hsymbol.2
    exact .inr ⟨hkeyword hcompound, hkeyword hcompound'⟩

end SameInScopes

theorem managedFrom_of_mapType {scope : Scope} {m : MappedType}
    (h : (mapType type usage location).Gives env scope m) :
    ∃ usesPointers, (TypeContext.mk env.ast env.symbols scope.record location).managedFrom
      (env.ast.types.size + 1) type usage = .ok (m.type, usesPointers) := by
  rw [gives_mapType] at h
  simp only [TypeContext.map, bind_eq_ok, pure_eq_ok] at h
  obtain ⟨managed, hmanaged, native, -, rfl⟩ := h
  exact ⟨managed.2, hmanaged⟩

theorem mapType_sameInScopes {scope scope' : Scope} {location' : Location} {m m' : MappedType}
    (h : (mapType type usage location).Gives env scope m)
    (h' : (mapType type usage location').Gives env scope' m') :
    SameInScopes env.ast env.symbols scope.record scope'.record m.type m'.type := by
  obtain ⟨p, hm⟩ := managedFrom_of_mapType h
  obtain ⟨p', hm'⟩ := managedFrom_of_mapType h'
  exact @managedFrom_sameInScopes _ _ _ _ ⟨env.ast, env.symbols, scope.record, location⟩
    ⟨env.ast, env.symbols, scope'.record, location'⟩ rfl rfl _ hm hm'

end Interop.Binding
