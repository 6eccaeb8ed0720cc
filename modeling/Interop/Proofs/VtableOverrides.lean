import Interop.Proofs.VtableSlots
import Mathlib.Data.List.Dedup

/-!
# The slots of one record

The virtual methods of a record are placed each in the slot of its signature or in a new one. So a slot
holds the last method of its signature (`IsLast`), and a record adds as many slots as it has signatures
that its base does not have. Two consequences are not what C++ has: a typedef below a pointer hides an
override, and a const and a non-const method share a slot.
-/

namespace Interop.Binding.Vtable

open Native

variable {ast : Ast}
variable {m a b : DeclId} {i : Nat}

/-! ## Signatures -/

def signature (ast : Ast) (id : DeclId) : Option String × Option (List String) :=
  ((ast.decl? id).map Decl.name, parameterSpellings? ast id)

theorem sameSignature_iff : SameSignature ast a b ↔ signature ast a = signature ast b := by
  simp [SameSignature, signature]

/-- The parameter types that the type of a method lists; a typedef of a prototype lists none. -/
def listedParams? (ast : Ast) (id : DeclId) : Option (List TypeId) := do
  match ← ast.declType? id with
  | none => return []
  | some type =>
    match (← ast.type? type).kind with
    | .function proto => return proto.params
    | _ => return []

def spellingBehind? (ast : Ast) (type : TypeId) : Option String := do
  return (← ast.type? (← ast.canonical? type)).spelling

/-- Two types have the same spelling behind the typedefs around them. -/
def SpelledAlike (ast : Ast) (p q : TypeId) : Prop :=
  ∃ spelling, spellingBehind? ast p = some spelling ∧ spellingBehind? ast q = some spelling

def ParamsRelated (ast : Ast) (rel : TypeId → TypeId → Prop) (a b : DeclId) : Prop :=
  ∃ ps qs, listedParams? ast a = some ps ∧ listedParams? ast b = some qs ∧ List.Forall₂ rel ps qs

theorem parameterSpellings?_eq (id : DeclId) :
    parameterSpellings? ast id = (listedParams? ast id).bind (List.mapM (spellingBehind? ast)) := by
  unfold parameterSpellings? listedParams?
  rcases ast.declType? id with _ | _ | type
  · rfl
  · rfl
  · cases ht : ast.type? type with
    | none => simp [ht]
    | some t =>
      simp only [bind, Option.bind_some, ht]
      cases t.kind <;> rfl

theorem forall₂_spelledAlike_iff :
    List.Forall₂ (SpelledAlike ast) ps qs ↔
      ∃ spellings, ps.mapM (spellingBehind? ast) = some spellings ∧
        qs.mapM (spellingBehind? ast) = some spellings := by
  constructor
  · intro h
    induction h with
    | nil => exact ⟨[], rfl, rfl⟩
    | cons halike _ ih =>
      obtain ⟨spelling, hp, hq⟩ := halike
      obtain ⟨spellings, hps, hqs⟩ := ih
      exact ⟨spelling :: spellings, by simp [hp, hps], by simp [hq, hqs]⟩
  · rintro ⟨spellings, hps, hqs⟩
    induction spellings generalizing ps qs with
    | nil =>
      cases ps with
      | nil =>
        cases qs with
        | nil => exact .nil
        | cons => simp [List.mapM_cons, Option.bind_eq_some_iff] at hqs
      | cons => simp [List.mapM_cons, Option.bind_eq_some_iff] at hps
    | cons spelling spellings ih =>
      cases ps with
      | nil => cases hps
      | cons p ps =>
        cases qs with
        | nil => cases hqs
        | cons q qs =>
          simp only [List.mapM_cons, bind, pure, Option.bind_eq_some_iff, Option.some.injEq,
            List.cons.injEq] at hps hqs
          obtain ⟨_, hp, _, hps, rfl, rfl⟩ := hps
          obtain ⟨_, hq, _, hqs, rfl, rfl⟩ := hqs
          exact .cons ⟨_, hp, hq⟩ (ih hps hqs)

theorem paramsRelated_spelledAlike_iff :
    ParamsRelated ast (SpelledAlike ast) a b ↔
      ∃ spellings, parameterSpellings? ast a = some spellings ∧
        parameterSpellings? ast b = some spellings := by
  simp only [parameterSpellings?_eq, Option.bind_eq_some_iff]
  constructor
  · rintro ⟨ps, qs, hps, hqs, halike⟩
    obtain ⟨spellings, hp, hq⟩ := forall₂_spelledAlike_iff.mp halike
    exact ⟨spellings, ⟨ps, hps, hp⟩, qs, hqs, hq⟩
  · rintro ⟨spellings, ⟨ps, hps, hp⟩, qs, hqs, hq⟩
    exact ⟨ps, qs, hps, hqs, forall₂_spelledAlike_iff.mpr ⟨spellings, hp, hq⟩⟩

theorem spelledAlike_of_canonical (hp : ast.canonical? p = some target)
    (hq : ast.canonical? q = some target) (ht : ast.type? target = some t) : SpelledAlike ast p q :=
  ⟨t.spelling, by simp [spellingBehind?, hp, ht], by simp [spellingBehind?, hq, ht]⟩

/-! ## The last method of a signature -/

def IsVirtual (ast : Ast) (id : DeclId) : Prop :=
  ∃ d m, ast.decl? id = some d ∧ d.kind = .method m ∧ m.isVirtual = true

/-- No virtual method of the same signature comes after the method. -/
def IsLast (ast : Ast) (members : List DeclId) (id : DeclId) : Prop :=
  ∃ before after, members = before ++ id :: after ∧
    ∀ later, IsVirtualIn ast after later → ¬ SameSignature ast later id

theorem exists_isLast (hm : IsVirtualIn ast members m) :
    ∃ last, IsVirtualIn ast members last ∧ SameSignature ast last m ∧ IsLast ast members last := by
  induction members generalizing m with
  | nil => cases hm.1
  | cons member rest ih =>
    by_cases hlater : ∃ later, IsVirtualIn ast rest later ∧ SameSignature ast later m
    · obtain ⟨later, hlater, hsame⟩ := hlater
      obtain ⟨last, hlast, hsame', before, after, rfl, hafter⟩ := ih hlater
      exact ⟨last, ⟨.tail _ hlast.1, hlast.2⟩, hsame'.trans hsame, member :: before, after, rfl, hafter⟩
    · -- Without a later method of the signature, the method itself stands here.
      have hnone : ∀ later, IsVirtualIn ast rest later → ¬ SameSignature ast later m :=
        fun later hin hsame => hlater ⟨later, hin, hsame⟩
      rcases List.mem_cons.mp hm.1 with rfl | hrest
      · exact ⟨m, hm, .refl m, [], rest, rfl, hnone⟩
      · exact absurd (.refl m) (hnone m ⟨hrest, hm.2⟩)

/-! ## Placing the members -/

theorem placeMembers_cons (h : placeMembers? ast layout (member :: rest) = some (.ok layout')) :
    (∃ placed, IsVirtual ast member ∧ place? ast member layout = some placed ∧
      placeMembers? ast placed rest = some (.ok layout')) ∨
    (¬ IsVirtual ast member ∧ placeMembers? ast layout rest = some (.ok layout')) := by
  simp only [placeMembers?, bind, Option.bind_eq_some_iff] at h
  obtain ⟨d, hd, h⟩ := h
  have hkind : IsVirtual ast member ↔ ∃ m, d.kind = .method m ∧ m.isVirtual = true := by
    simp [IsVirtual, hd]
  split at h
  · rename_i m hm
    split at h
    · rename_i hvirtual
      obtain ⟨placed, hplaced, h⟩ := Option.bind_eq_some_iff.mp h
      exact .inl ⟨placed, hkind.mpr ⟨m, hm, hvirtual⟩, hplaced, h⟩
    · rename_i hvirtual
      exact .inr ⟨by simpa [hkind, hm] using hvirtual, h⟩
  · -- A record with a virtual destructor has no layout.
    cases h
  · rename_i hother _
    refine .inr ⟨fun hv => ?_, h⟩
    obtain ⟨m, hm, -⟩ := hkind.mp hv
    exact hother m hm

theorem mem_of_place (h : place? ast m layout = some layout') : m ∈ layout' := by
  rcases place_cases h with ⟨before, slot, rest, -, rfl, -⟩ | ⟨rfl, -⟩ <;> simp

theorem mem_of_place_of_mem (h : place? ast m layout = some layout') (hslot : slot ∈ layout)
    (hne : ¬ SameSignature ast m slot) : slot ∈ layout' := by
  rcases place_cases h with ⟨before, replaced, rest, rfl, rfl, hsame⟩ | ⟨rfl, -⟩
  · rcases List.mem_append.mp hslot with hbefore | hrest
    · exact List.mem_append_left _ hbefore
    · rcases List.mem_cons.mp hrest with rfl | hrest
      · exact absurd hsame hne
      · exact List.mem_append_right _ (.tail _ hrest)
  · exact List.mem_append_left _ hslot

theorem mem_of_placeMembers_of_mem (h : placeMembers? ast layout members = some (.ok layout'))
    (hslot : slot ∈ layout) (hne : ∀ m, IsVirtualIn ast members m → ¬ SameSignature ast m slot) :
    slot ∈ layout' := by
  induction members generalizing layout with
  | nil =>
    obtain rfl : layout = layout' := by simpa [placeMembers?] using h
    exact hslot
  | cons member rest ih =>
    have hrest : ∀ m, IsVirtualIn ast rest m → ¬ SameSignature ast m slot :=
      fun m hm => hne m ⟨.tail _ hm.1, hm.2⟩
    rcases placeMembers_cons h with ⟨placed, hvirtual, hplaced, h⟩ | ⟨-, h⟩
    · exact ih h (mem_of_place_of_mem hplaced hslot (hne member ⟨.head _, hvirtual⟩)) hrest
    · exact ih h hslot hrest

theorem mem_of_isLast (h : placeMembers? ast layout members = some (.ok layout')) (hm : IsVirtual ast m)
    (hlast : IsLast ast members m) : m ∈ layout' := by
  obtain ⟨before, after, rfl, hafter⟩ := hlast
  -- What is placed before the method does not matter; what comes after it leaves it in its slot.
  induction before generalizing layout with
  | nil =>
    rcases placeMembers_cons h with ⟨placed, -, hplaced, h⟩ | ⟨hnot, -⟩
    · exact mem_of_placeMembers_of_mem h (mem_of_place hplaced) hafter
    · exact absurd hm hnot
  | cons member before ih =>
    rcases placeMembers_cons h with ⟨placed, -, -, h⟩ | ⟨-, h⟩
    · exact ih h
    · exact ih h

theorem Distinct.index_eq (hd : Distinct ast layout) (hi : layout[i]? = some a) (hj : layout[j]? = some b)
    (hsame : SameSignature ast a b) : i = j := by
  obtain ⟨hi', rfl⟩ := List.getElem?_eq_some_iff.mp hi
  obtain ⟨hj', rfl⟩ := List.getElem?_eq_some_iff.mp hj
  have hpairwise := List.pairwise_iff_getElem.mp hd
  rcases Nat.lt_trichotomy i j with hlt | heq | hlt
  · exact absurd hsame (hpairwise i j hi' hj' hlt)
  · exact heq
  · exact absurd hsame.symm (hpairwise j i hj' hi' hlt)

section Placed

variable {members : List DeclId} {inherited layout : Layout}
  (hplaced : placeMembers? ast inherited members = some (.ok layout)) (hdistinct : Distinct ast inherited)

include hplaced hdistinct

theorem isLast_of_slot (hm : IsVirtualIn ast members m) (ha : layout[i]? = some a)
    (hsame : SameSignature ast a m) : IsVirtualIn ast members a ∧ IsLast ast members a := by
  obtain ⟨last, hlast, hsame', hisLast⟩ := exists_isLast hm
  obtain ⟨j, hj⟩ := List.getElem?_of_mem (mem_of_isLast hplaced hlast.2 hisLast)
  have hlayout := (placeMembers_refines hplaced).distinct hdistinct
  obtain rfl : i = j := hlayout.index_eq ha hj (hsame.trans hsame'.symm)
  obtain rfl := Option.mem_unique ha hj
  exact ⟨hlast, hisLast⟩

theorem takes_slot_iff (hm : IsVirtualIn ast members m) (hb : inherited[i]? = some b) :
    layout[i]? = some m ↔ SameSignature ast m b ∧ IsLast ast members m := by
  have hrefines := placeMembers_refines hplaced
  obtain ⟨c, hc, hbc, -⟩ := hrefines.kept i b hb
  constructor
  · intro hi
    obtain rfl := Option.mem_unique hc hi
    exact ⟨hbc.symm, (isLast_of_slot hplaced hdistinct hm hi (.refl c)).2⟩
  · rintro ⟨hsame, hlast⟩
    obtain ⟨j, hj⟩ := List.getElem?_of_mem (mem_of_isLast hplaced hm.2 hlast)
    obtain rfl : i = j := (hrefines.distinct hdistinct).index_eq hc hj (hbc.symm.trans hsame.symm)
    exact hj

end Placed

/-! ## Methods that are compared -/

theorem exists_spellings_of_place (h : place? ast m layout = some layout') (hslot : slot ∈ layout)
    (hname : (ast.decl? m).map Decl.name = (ast.decl? slot).map Decl.name) :
    ∃ spellings, parameterSpellings? ast m = some spellings := by
  induction layout generalizing layout' with
  | nil => cases hslot
  | cons first rest ih =>
    simp only [place?, bind, Option.bind_eq_some_iff] at h
    obtain ⟨answer, hanswer, h⟩ := h
    simp only [overrides?, bind, Option.bind_eq_some_iff] at hanswer
    obtain ⟨d, hd, e, he, hanswer⟩ := hanswer
    split at hanswer
    · -- Different names are told apart before the parameters are looked at.
      rename_i hne
      obtain rfl : answer = false := by simpa using hanswer.symm
      simp only [Bool.false_eq_true, ite_false, Option.bind_eq_some_iff] at h
      obtain ⟨placed, hplaced, -⟩ := h
      rcases List.mem_cons.mp hslot with rfl | hslot
      · rw [hd, he] at hname
        exact absurd (Option.some.inj hname) hne
      · exact ih hplaced hslot
    · obtain ⟨spellings, hspellings, -⟩ := Option.bind_eq_some_iff.mp hanswer
      exact ⟨spellings, hspellings⟩

theorem exists_spellings_of_placeMembers (h : placeMembers? ast layout members = some (.ok layout'))
    (hm : IsVirtualIn ast members m) (hslot : slot ∈ layout)
    (hname : (ast.decl? m).map Decl.name = (ast.decl? slot).map Decl.name) :
    ∃ spellings, parameterSpellings? ast m = some spellings := by
  induction members generalizing layout slot with
  | nil => cases hm.1
  | cons member rest ih =>
    rcases placeMembers_cons h with ⟨placed, -, hplaced, h⟩ | ⟨hnot, h⟩
    · rcases List.mem_cons.mp hm.1 with rfl | hrest
      · exact exists_spellings_of_place hplaced hslot hname
      · -- The slot may have been taken over, by a method of the same name.
        obtain ⟨i, hi⟩ := List.getElem?_of_mem hslot
        obtain ⟨slot', hslot', hsame, -⟩ := (place_refines hplaced).kept i slot hi
        exact ih h ⟨hrest, hm.2⟩ (List.mem_of_getElem? hslot') (hname.trans hsame.1)
    · rcases List.mem_cons.mp hm.1 with rfl | hrest
      · exact absurd hm.2 hnot
      · exact ih h ⟨hrest, hm.2⟩ hslot hname

/-! ## What a record inherits -/

/-- The slots that a record takes over from its base, none if it has no base. -/
inductive Inherits (ast : Ast) (s : Symbols) (record : DeclId) : Layout → Prop
  | root (hnone : ∀ base, ¬ FirstBase ast s.definition record base) : Inherits ast s record []
  | derived {base : DeclId} {inherited : Layout} (hbase : FirstBase ast s.definition record base)
      (hinherited : layoutOf s base = .ok inherited) : Inherits ast s record inherited

variable {settings : Settings} {s : Symbols} {record : DeclId} {layout inherited : Layout}

theorem Inherits.unique (h : Inherits ast s record inherited) (h' : Inherits ast s record inherited') :
    inherited = inherited' := by
  cases h with
  | root hnone =>
    cases h' with
    | root => rfl
    | derived hbase => exact absurd hbase (hnone _)
  | derived hbase hinherited =>
    cases h' with
    | root hnone => exact absurd hbase (hnone _)
    | derived hbase' hinherited' =>
      rw [firstBase_unique hbase hbase'] at hinherited
      exact Except.ok.inj (hinherited.symm.trans hinherited')

theorem exists_placed (hbuild : Symbols.build ast settings = .ok s)
    (hdef : Symbols.IsRecordDefinition ast record) (hlayout : layoutOf s record = .ok layout) :
    ∃ d r inherited, ast.decl? record = some d ∧ d.kind = .record r ∧ Inherits ast s record inherited ∧
      Distinct ast inherited ∧ placeMembers? ast inherited r.members = some (.ok layout) := by
  have hdesc := Symbols.build_describes hbuild
  obtain ⟨known, hs, htable, hall⟩ := sound_of_vtables hdesc.vtables
  have hknown : known.lookup record = some (.ok layout) := by
    obtain ⟨result, hresult⟩ := hall record hdef
    rw [← hlayout, layoutOf_eq_of_lookup hs htable hresult, ← hresult,
      hdesc.definition_of_isRecordDefinition hdef]
  cases hs.laidOut record layout hknown with
  | root hd hr hbases hplaced =>
    refine ⟨_, _, [], hd, hr, .root ?_, .nil, hplaced⟩
    rintro base ⟨d', r', b, rest, id, hd', hr', hb, -⟩
    obtain ⟨rfl, rfl⟩ := record_unique hd hr hd' hr'
    rw [hbases] at hb
    cases hb
  | derived hd hr hbases hid hinherited hplaced =>
    refine ⟨_, _, _, hd, hr, .derived ⟨_, _, _, _, _, hd, hr, hbases, hid, rfl⟩ ?_,
      hs.distinct _ _ hinherited, hplaced⟩
    apply layoutOf_eq_of_lookup hs htable
    rw [hdesc.definition_definition]
    exact hinherited
  | noRecord hd hnot =>
    obtain ⟨d, r, hd', hr, -⟩ := hdef
    obtain rfl := Option.mem_unique hd hd'
    exact absurd hr (hnot r)

/-! ## Overrides -/

def IsLastIn (ast : Ast) (record id : DeclId) : Prop :=
  ∃ d r, ast.decl? record = some d ∧ d.kind = .record r ∧ IsLast ast r.members id

/-- The method has this slot and no other. -/
def HasOnlySlot (layout : Layout) (id : DeclId) (i : Nat) : Prop :=
  layout[i]? = some id ∧ ∀ j, layout[j]? = some id → j = i

/-- Both types come to the same one behind their typedefs. -/
def SameCanonical (ast : Ast) (p q : TypeId) : Prop :=
  ∃ target t, ast.canonical? p = some target ∧ ast.canonical? q = some target ∧
    ast.type? target = some t

/-- **Which overrides are found.** A virtual method takes over the slot of a method of its name exactly if
their parameter types are spelled alike behind the typedefs around them. -/
theorem method_takes_slot_iff_spelled_alike (hbuild : Symbols.build ast settings = .ok s)
    (hdef : Symbols.IsRecordDefinition ast record) (hlayout : layoutOf s record = .ok layout)
    {base : DeclId} (hbase : FirstBase ast s.definition record base)
    (hinherited : layoutOf s base = .ok inherited) {m b : DeclId} {i : Nat}
    (hm : DeclaresVirtual ast record m) (hb : inherited[i]? = some b)
    (hname : (ast.decl? m).map Decl.name = (ast.decl? b).map Decl.name) :
    (HasOnlySlot layout m i ↔
      ParamsRelated ast (SpelledAlike ast) m b ∧ IsLastIn ast record m) ∧
    (ParamsRelated ast (SameCanonical ast) m b → IsLastIn ast record m → HasOnlySlot layout m i) := by
  obtain ⟨d, r, inherited', hd, hr, hinherits, hdistinct, hplaced⟩ := exists_placed hbuild hdef hlayout
  obtain rfl : inherited' = inherited := hinherits.unique (.derived hbase hinherited)
  obtain ⟨d', r', hd', hr', hm⟩ := hm
  obtain rfl : d = d' := Option.some.inj (hd.symm.trans hd')
  obtain rfl : r = r' := DeclKind.record.inj (hr.symm.trans hr')
  -- Slots have different signatures, so a method cannot be in two of them.
  have honly : HasOnlySlot layout m i ↔ SameSignature ast m b ∧ IsLast ast r.members m := by
    rw [← takes_slot_iff hplaced hdistinct hm hb]
    refine ⟨And.left, fun hi => ⟨hi, fun j hj => ?_⟩⟩
    exact ((placeMembers_refines hplaced).distinct hdistinct).index_eq hj hi (.refl m)
  have hlast : IsLastIn ast record m ↔ IsLast ast r.members m := by
    simp [IsLastIn, hd, hr]
  have halike : ParamsRelated ast (SpelledAlike ast) m b ↔ SameSignature ast m b := by
    rw [paramsRelated_spelledAlike_iff]
    constructor
    · rintro ⟨spellings, hm, hb⟩
      exact ⟨hname, hm.trans hb.symm⟩
    · intro hsame
      obtain ⟨spellings, hspellings⟩ :=
        exists_spellings_of_placeMembers hplaced hm (List.mem_of_getElem? hb) hname
      exact ⟨spellings, hspellings, hsame.2.symm.trans hspellings⟩
  refine ⟨by rw [honly, halike, hlast], ?_⟩
  rintro ⟨ps, qs, hps, hqs, hsame⟩ hisLast
  refine honly.mpr ⟨halike.mp ⟨ps, qs, hps, hqs, hsame.imp ?_⟩, hlast.mp hisLast⟩
  rintro p q ⟨target, t, hp, hq, ht⟩
  exact spelledAlike_of_canonical hp hq ht

/-- A type without its typedefs. -/
inductive ResolvedType where
  | builtin (kind : Builtin)
  | record (decl : DeclId)
  | enum (decl : DeclId)
  | pointer (target : ResolvedType)
  | lvalueReference (target : ResolvedType)
  | rvalueReference (target : ResolvedType)
  | array (element : ResolvedType) (size : Option UInt64)
  | function (result : ResolvedType) (params : List ResolvedType) (isVariadic : Bool)
  | const (type : ResolvedType)

def ResolvedType.asConst : ResolvedType → ResolvedType
  | .const type => .const type
  | type => .const type

def resolve? (ast : Ast) : (fuel : Nat) → TypeId → Option ResolvedType
  | 0, _ => none
  | fuel + 1, id => do
    let t ← ast.type? id
    let type ←
      match t.kind with
      | .builtin kind => some (.builtin kind)
      | .record decl => some (.record decl)
      | .enum decl => some (.enum decl)
      | .pointer target => (resolve? ast fuel target).map .pointer
      | .lvalueReference target => (resolve? ast fuel target).map .lvalueReference
      | .rvalueReference target => (resolve? ast fuel target).map .rvalueReference
      | .constantArray element size => (resolve? ast fuel element).map (.array · (some size))
      | .incompleteArray element => (resolve? ast fuel element).map (.array · none)
      | .function proto => do
        return .function (← resolve? ast fuel proto.result) (← proto.params.mapM (resolve? ast fuel))
          proto.isVariadic
      | .typedef _ underlying => resolve? ast fuel underlying
      | .specialization _ (some canonical) => resolve? ast fuel canonical
      | .specialization _ none | .unexposed => none
    return if t.isConst then type.asConst else type

def SameType (ast : Ast) (p q : TypeId) : Prop :=
  ∃ fuel type, resolve? ast fuel p = some type ∧ resolve? ast fuel q = some type

/-- `Job` overrides `run` of `Task`, with a typedef of its parameter type or of what that points to. -/
def jobs (isPointer : Bool) : Ast where
  file := "jobs.h"
  topLevel := [⟨0⟩, ⟨1⟩, ⟨3⟩]
  decls :=
    #[{ kind := .typedef ⟨0⟩, name := "Handle" },
      { kind := .record { tag := .struct, members := [⟨2⟩] }, name := "Task" },
      { kind := .method { type := ⟨6⟩, isVirtual := true }, name := "run", parent := some ⟨1⟩ },
      { kind := .record { tag := .struct, bases := [{ type := ⟨5⟩ }], members := [⟨4⟩] }, name := "Job" },
      { kind := .method { type := ⟨7⟩, isVirtual := true }, name := "run", parent := some ⟨3⟩ }]
  types :=
    #[.ofBuiltin .int, .ofBuiltin .void,
      { kind := .typedef ⟨0⟩ ⟨0⟩, spelling := "Handle" },
      { kind := .pointer ⟨0⟩, spelling := "int *" },
      { kind := .pointer ⟨2⟩, spelling := "Handle *" },
      { kind := .record ⟨1⟩, spelling := "Task" },
      { kind := .function { result := ⟨1⟩, params := [if isPointer then ⟨3⟩ else ⟨0⟩] },
        spelling := if isPointer then "void (int *)" else "void (int)" },
      { kind := .function { result := ⟨1⟩, params := [if isPointer then ⟨4⟩ else ⟨2⟩] },
        spelling := if isPointer then "void (Handle *)" else "void (Handle)" }]

def jobSymbols (layout : Layout) : Symbols where
  names := #["Handle", "Task", "run", "Job", "run"]
  anonymous := []
  namingTypedefs := []
  definitions := []
  shadowed := []
  globals := []
  vtables := [(⟨3⟩, .ok layout), (⟨1⟩, .ok [⟨2⟩])]

theorem run_takes_slot :
    layoutOf (jobSymbols [⟨4⟩]) ⟨3⟩ = .ok [⟨4⟩] ∧
      ParamsRelated (jobs false) (SameCanonical (jobs false)) ⟨4⟩ ⟨2⟩ ∧ HasOnlySlot [⟨4⟩] ⟨4⟩ 0 := by
  have hbuild : Symbols.build (jobs false) {} = .ok (jobSymbols [⟨4⟩]) := rfl
  have hbase : FirstBase (jobs false) (jobSymbols [⟨4⟩]).definition ⟨3⟩ ⟨1⟩ :=
    ⟨_, _, _, _, ⟨1⟩, rfl, rfl, rfl, rfl, rfl⟩
  have hm : DeclaresVirtual (jobs false) ⟨3⟩ ⟨4⟩ := ⟨_, _, rfl, rfl, .head _, _, _, rfl, rfl, rfl⟩
  have hparams : ParamsRelated (jobs false) (SameCanonical (jobs false)) ⟨4⟩ ⟨2⟩ :=
    ⟨[⟨2⟩], [⟨0⟩], rfl, rfl, .cons ⟨⟨0⟩, _, rfl, rfl, rfl⟩ .nil⟩
  have hlast : IsLastIn (jobs false) ⟨3⟩ ⟨4⟩ :=
    ⟨_, _, rfl, rfl, [], [], rfl, fun later hlater => nomatch hlater.1⟩
  have hslot : ([⟨2⟩] : Layout)[0]? = some ⟨2⟩ := rfl
  refine ⟨rfl, hparams, ?_⟩
  exact (method_takes_slot_iff_spelled_alike hbuild ⟨_, _, rfl, rfl, rfl⟩ rfl hbase rfl hm hslot rfl).2
    hparams hlast

theorem run_misses_slot :
    ∃ s, Symbols.build (jobs true) {} = .ok s ∧ Symbols.IsRecordDefinition (jobs true) ⟨3⟩ ∧
      FirstBase (jobs true) s.definition ⟨3⟩ ⟨1⟩ ∧ layoutOf s ⟨1⟩ = .ok [⟨2⟩] ∧
      DeclaresVirtual (jobs true) ⟨3⟩ ⟨4⟩ ∧
      ((jobs true).decl? ⟨4⟩).map Decl.name = ((jobs true).decl? ⟨2⟩).map Decl.name ∧
      ParamsRelated (jobs true) (SameType (jobs true)) ⟨4⟩ ⟨2⟩ ∧ IsLastIn (jobs true) ⟨3⟩ ⟨4⟩ ∧
      layoutOf s ⟨3⟩ = .ok [⟨2⟩, ⟨4⟩] := by
  refine ⟨jobSymbols [⟨2⟩, ⟨4⟩], rfl, ⟨_, _, rfl, rfl, rfl⟩, ⟨_, _, _, _, ⟨1⟩, rfl, rfl, rfl, rfl, rfl⟩, rfl,
    ⟨_, _, rfl, rfl, .head _, _, _, rfl, rfl, rfl⟩, rfl, ?_, ?_, rfl⟩
  · exact ⟨[⟨4⟩], [⟨3⟩], rfl, rfl, .cons ⟨3, _, rfl, rfl⟩ .nil⟩
  · exact ⟨_, _, rfl, rfl, [], [], rfl, fun later hlater => nomatch hlater.1⟩

/-! ## New slots -/

def isVirtualMethod (ast : Ast) (id : DeclId) : Bool :=
  match ast.decl? id with
  | some { kind := .method m, .. } => m.isVirtual
  | _ => false

theorem isVirtualMethod_iff {id : DeclId} : isVirtualMethod ast id = true ↔ IsVirtual ast id := by
  unfold isVirtualMethod IsVirtual
  split
  · rename_i m hd
    simp [hd]
  · rename_i hnone
    simp only [Bool.false_eq_true, false_iff]
    rintro ⟨d, m, hd, hkind, -⟩
    obtain ⟨kind, name, parent, location, attrs⟩ := d
    subst hkind
    exact hnone _ _ _ _ _ hd

/-- The virtual methods of a record that override no slot of its base. -/
def newMethods (ast : Ast) (inherited : Layout) (members : List DeclId) : List DeclId :=
  members.dedup.filter fun m =>
    isVirtualMethod ast m && !(inherited.map (signature ast)).contains (signature ast m)

theorem mem_newMethods :
    m ∈ newMethods ast inherited members ↔
      IsVirtualIn ast members m ∧ ∀ slot ∈ inherited, ¬ SameSignature ast m slot := by
  have hnew : (!(inherited.map (signature ast)).contains (signature ast m)) = true ↔
      ∀ slot ∈ inherited, ¬ SameSignature ast m slot := by
    simp [sameSignature_iff, @eq_comm _ (signature ast m)]
  rw [newMethods, List.mem_filter, List.mem_dedup, Bool.and_eq_true, isVirtualMethod_iff, hnew, ← and_assoc]
  rfl

section Placed

variable {members : List DeclId} (hplaced : placeMembers? ast inherited members = some (.ok layout))
  (hdistinct : Distinct ast inherited)

include hplaced

theorem mem_signatures_drop_iff :
    sig ∈ (layout.drop inherited.length).map (signature ast) ↔
      sig ∈ (newMethods ast inherited members).map (signature ast) := by
  have hrefines := placeMembers_refines hplaced
  simp only [List.mem_map]
  constructor
  · rintro ⟨slot, hslot, rfl⟩
    obtain ⟨i, hi⟩ := List.getElem?_of_mem hslot
    rw [List.getElem?_drop] at hi
    obtain ⟨hown, hnone⟩ := hrefines.added _ slot (Nat.le_add_right ..) hi
    exact ⟨slot, mem_newMethods.mpr ⟨hown, hnone⟩, rfl⟩
  · rintro ⟨m, hm, rfl⟩
    obtain ⟨hvirtual, hnone⟩ := mem_newMethods.mp hm
    obtain ⟨last, hlast, hsame, hisLast⟩ := exists_isLast hvirtual
    obtain ⟨i, hi⟩ := List.getElem?_of_mem (mem_of_isLast hplaced hlast.2 hisLast)
    -- The slot is not an inherited one, since those keep their signatures.
    have hle : inherited.length ≤ i := by
      refine Nat.le_of_not_lt fun hlt => ?_
      obtain ⟨slot, hslot, hsame', -⟩ := hrefines.kept i _ (List.getElem?_eq_getElem hlt)
      obtain rfl := Option.mem_unique hslot hi
      exact hnone _ (List.getElem_mem hlt) (hsame.symm.trans hsame'.symm)
    refine ⟨last, List.mem_of_getElem? (i := i - inherited.length) ?_, sameSignature_iff.mp hsame⟩
    rw [List.getElem?_drop, Nat.add_sub_cancel' hle, hi]

include hdistinct

theorem length_eq_add_signatures :
    layout.length =
      inherited.length + ((newMethods ast inherited members).map (signature ast)).dedup.length := by
  have hrefines := placeMembers_refines hplaced
  have hnodup : ((layout.drop inherited.length).map (signature ast)).Nodup := by
    refine List.pairwise_map.mpr (((hrefines.distinct hdistinct).drop).imp fun hne heq => ?_)
    exact hne (sameSignature_iff.mpr heq)
  have hperm := (List.perm_ext_iff_of_nodup hnodup (List.nodup_dedup _)).mpr fun sig => by
    rw [mem_signatures_drop_iff hplaced, List.mem_dedup]
  have hlength := hperm.length_eq
  rw [List.length_map, List.length_drop] at hlength
  have hle := hrefines.length_le
  omega

theorem length_eq_add_newMethods_iff :
    layout.length = inherited.length + (newMethods ast inherited members).length ↔
      ∀ a ∈ newMethods ast inherited members, ∀ b ∈ newMethods ast inherited members,
        SameSignature ast a b → a = b := by
  have hnodup : (newMethods ast inherited members).Nodup := (List.nodup_dedup members).filter _
  rw [length_eq_add_signatures hplaced hdistinct, Nat.add_left_cancel_iff]
  -- Leaving out repeated signatures keeps the number only if there are none.
  have hdedup := List.dedup_sublist ((newMethods ast inherited members).map (signature ast))
  constructor
  · intro hlength a ha b hb hsame
    rw [← List.length_map (signature ast)] at hlength
    have hinj := List.inj_on_of_nodup_map (List.dedup_eq_self.mp (hdedup.eq_of_length hlength))
    exact hinj ha hb (sameSignature_iff.mp hsame)
  · intro hinj
    have hmap : ((newMethods ast inherited members).map (signature ast)).Nodup :=
      hnodup.map_on fun a ha b hb heq => hinj a ha b hb (sameSignature_iff.mpr heq)
    rw [hmap.dedup, List.length_map]

end Placed

/-- The slot through which a method is called: the one of its signature. -/
def IsSlotOf (ast : Ast) (layout : Layout) (m : DeclId) (i : Nat) : Prop :=
  ∃ slot, layout[i]? = some slot ∧ SameSignature ast slot m

/-- **How many slots a record has**: one for each signature that its base does not have, on top of the
inherited ones. -/
theorem slots_eq_inherited_add_signatures (hbuild : Symbols.build ast settings = .ok s)
    (hdef : Symbols.IsRecordDefinition ast record) (hlayout : layoutOf s record = .ok layout) :
    ∃ d r inherited, ast.decl? record = some d ∧ d.kind = .record r ∧ Inherits ast s record inherited ∧
      (∀ m, IsVirtualIn ast r.members m → ∃ (i : Nat) (last : DeclId), layout[i]? = some last ∧
        IsSlotOf ast layout m i ∧ (∀ j, IsSlotOf ast layout m j → j = i) ∧
        IsVirtualIn ast r.members last ∧ IsLast ast r.members last) ∧
      (∀ m m', IsVirtualIn ast r.members m → IsVirtualIn ast r.members m' →
        ((∃ i, IsSlotOf ast layout m i ∧ IsSlotOf ast layout m' i) ↔ SameSignature ast m m')) ∧
      layout.length =
        inherited.length + ((newMethods ast inherited r.members).map (signature ast)).dedup.length ∧
      (layout.length = inherited.length + (newMethods ast inherited r.members).length ↔
        ∀ a ∈ newMethods ast inherited r.members, ∀ b ∈ newMethods ast inherited r.members,
          SameSignature ast a b → a = b) := by
  obtain ⟨d, r, inherited, hd, hr, hinherits, hdistinct, hplaced⟩ := exists_placed hbuild hdef hlayout
  have hslots := (placeMembers_refines hplaced).distinct hdistinct
  have hslot : ∀ m, IsVirtualIn ast r.members m → ∃ (i : Nat) (last : DeclId), layout[i]? = some last ∧
      SameSignature ast last m ∧ IsVirtualIn ast r.members last ∧ IsLast ast r.members last := by
    intro m hm
    obtain ⟨last, hlast, hsame, hisLast⟩ := exists_isLast hm
    obtain ⟨i, hi⟩ := List.getElem?_of_mem (mem_of_isLast hplaced hlast.2 hisLast)
    exact ⟨i, last, hi, hsame, hlast, hisLast⟩
  refine ⟨d, r, inherited, hd, hr, hinherits, fun m hm => ?_, fun m m' hm hm' => ⟨?_, fun hsame => ?_⟩,
    length_eq_add_signatures hplaced hdistinct, length_eq_add_newMethods_iff hplaced hdistinct⟩
  · obtain ⟨i, last, hi, hsame, hlast⟩ := hslot m hm
    refine ⟨i, last, hi, ⟨last, hi, hsame⟩, ?_, hlast⟩
    rintro j ⟨slot, hj, hsame'⟩
    exact hslots.index_eq hj hi (hsame'.trans hsame.symm)
  · rintro ⟨i, ⟨slot, hi, hsame⟩, slot', hi', hsame'⟩
    obtain rfl : slot = slot' := Option.some.inj (hi.symm.trans hi')
    exact hsame.symm.trans hsame'
  · obtain ⟨i, last, hi, hlast, -⟩ := hslot m hm
    exact ⟨i, ⟨last, hi, hlast⟩, last, hi, hlast.trans hsame⟩

theorem square_adds_one_slot :
    Inherits tiles tileSymbols ⟨4⟩ [⟨2⟩, ⟨3⟩] ∧ layoutOf tileSymbols ⟨4⟩ = .ok [⟨2⟩, ⟨5⟩, ⟨6⟩] ∧
      ∃ inherited, Inherits tiles tileSymbols ⟨4⟩ inherited ∧
        newMethods tiles inherited [⟨5⟩, ⟨6⟩] = [⟨6⟩] ∧ 3 = inherited.length + 1 := by
  have hbuild : Symbols.build tiles {} = .ok tileSymbols := rfl
  have hsquare : Inherits tiles tileSymbols ⟨4⟩ [⟨2⟩, ⟨3⟩] :=
    .derived ⟨_, _, _, _, ⟨0⟩, rfl, rfl, rfl, rfl, rfl⟩ rfl
  have hlayout : layoutOf tileSymbols ⟨4⟩ = .ok [⟨2⟩, ⟨5⟩, ⟨6⟩] := rfl
  obtain ⟨d, r, inherited, hd, hr, hinherits, -, -, hlength, -⟩ :=
    slots_eq_inherited_add_signatures hbuild ⟨_, _, rfl, rfl, rfl⟩ hlayout
  obtain rfl := hsquare.unique hinherits
  cases hd
  cases hr
  exact ⟨hsquare, hlayout, _, hinherits, rfl, hlength⟩

def cells : Ast where
  file := "cells.h"
  topLevel := [⟨0⟩]
  decls :=
    #[{ kind := .record { tag := .struct, members := [⟨1⟩, ⟨2⟩] }, name := "Cell" },
      { kind := .method { type := ⟨1⟩, isVirtual := true }, name := "get", parent := some ⟨0⟩ },
      { kind := .method { type := ⟨2⟩, isVirtual := true }, name := "get", parent := some ⟨0⟩ }]
  types :=
    #[.ofBuiltin .int,
      { kind := .function { result := ⟨0⟩, params := [] }, spelling := "int ()" },
      { kind := .function { result := ⟨0⟩, params := [] }, spelling := "int () const" }]

theorem const_overload_shares_slot :
    ∃ s, Symbols.build cells {} = .ok s ∧ Symbols.IsRecordDefinition cells ⟨0⟩ ∧
      Inherits cells s ⟨0⟩ [] ∧ newMethods cells [] [⟨1⟩, ⟨2⟩] = [⟨1⟩, ⟨2⟩] ∧
      layoutOf s ⟨0⟩ = .ok [⟨2⟩] := by
  refine ⟨_, rfl, ⟨_, _, rfl, rfl, rfl⟩, .root ?_, rfl, rfl⟩
  rintro base ⟨d, r, b, rest, id, hd, hr, hb, -⟩
  cases hd
  cases hr
  cases hb

end Interop.Binding.Vtable
