import Interop.Proofs.Completion.Symbols
import Interop.Proofs.MemberAccess

/-!
# Paths through anonymous records

C++ has the fields of an anonymous record as fields of the record around it, C# has them behind a field of
their own. Accessors for them are made from the outside in, and an expression looks its path up from the
inside out. `IsPathTo` is the path that both arrive at, however far inside the field is.
-/

namespace Interop.Managed.Expr

theorem path_concat (object : Expr) (names : List String) (name : String) :
    path object false (names ++ [name]) = .member (path object false names) false name := by
  induction names generalizing object with
  | nil => rfl
  | cons first rest ih => exact ih (.member object false first)

theorem text_path (object : Expr) (isArrow : Bool) (name : String) (rest : List String) :
    (path object isArrow (name :: rest)).text =
      object.piece.atLeast .primary ++ (if isArrow then "->" else ".") ++
        Text.joinWith "." (name :: rest) := by
  induction rest generalizing object isArrow name with
  | nil => rfl
  | cons next rest ih =>
    have hobject : (Expr.member object isArrow name).piece.atLeast .primary =
        object.piece.atLeast .primary ++ (if isArrow then "->" else ".") ++ name := rfl
    rw [path, ih, hobject, Text.joinWith]
    simp only [Bool.false_eq_true, if_false, String.append_assoc]

theorem text_namePath (name : String) (rest : List String) :
    (namePath name rest).text = Text.joinWith "." (name :: rest) := by
  cases rest with
  | nil => rfl
  | cons next rest => exact text_path (.ident name) false next rest

end Interop.Managed.Expr

namespace Interop.Binding

open Native (Ast DeclId TypeId ExprId Decl)
open Emit
open Managed (Member)
open Relation (TransGen ReflTransGen)

variable {env : Env} {scope : Scope}
variable {record id named field x : DeclId} {names : List String} {d : Decl} {type : TypeId} {ast : Ast}
  {members : List Member} {isPointer reference : Bool} {object path : Managed.Expr} {first : String}
  {α ε β : Type} {m : Member} {Leads : DeclId → Prop}

/-! ## Fields of anonymous records -/

def MembersInside (ast : Ast) : Prop :=
  ∀ record id, ast.MemberStep record id → ast.ParentStep id record

def HasAnonymous (ast : Ast) (record id : DeclId) : Prop :=
  ast.MemberStep record id ∧ ∃ d, ast.decl? id = some d ∧ isAnonymousRecord d = true

def ListsField (ast : Ast) (record id : DeclId) : Prop :=
  ast.MemberStep record id ∧ ∃ d f, ast.decl? id = some d ∧ d.kind = .field f

/-- **A field that is reached through anonymous records**, one of them or several inside of each other. -/
def IsForwarded (ast : Ast) (record field : DeclId) : Prop :=
  ∃ owner, TransGen (HasAnonymous ast) record owner ∧ ListsField ast owner field

/-- **The path to a field**: the fields of the anonymous records around it, and its name. -/
def IsPathTo (env : Env) (field : DeclId) (path : String) : Prop :=
  ∃ owner names, env.ast.ParentStep field owner ∧ env.symbols.forwardingPath? owner = some names ∧
    path = Text.joinWith "." (names ++ [env.symbols.name field])

theorem Symbols.Describes.exists_anonymous {s : Symbols} (hs : s.Describes ast settings)
    (h : HasAnonymous ast record id) : ∃ member, s.anonymous? id = some member := by
  obtain ⟨⟨rd, r, hrd, hrkind, hid⟩, d, hd, hanonymous⟩ := h
  have hmem : id ∈ Symbols.anonymousAmong ast r.members := by
    simp [Symbols.anonymousAmong, hid, hd, hanonymous]
  obtain ⟨position, hposition⟩ := List.getElem?_of_mem hmem
  have hentry : (id, (⟨record, _⟩ : AnonymousMember)) ∈ s.anonymous :=
    hs.mem_anonymous_iff.mpr ⟨rd, r, hrd, hrkind, position, hposition, rfl⟩
  cases hlookup : s.anonymous? id with
  | some found => exact ⟨found, rfl⟩
  | none => exact absurd rfl (bne_iff_ne.mp (List.lookup_eq_none_iff.mp hlookup _ hentry))

section

variable {settings : Settings} (hs : env.symbols.Describes env.ast settings)
  (hinside : MembersInside env.ast)
include hs

theorem anonymous?_eq_none (hd : env.ast.decl? record = some d) (hnamed : isAnonymousRecord d = false) :
    env.symbols.anonymous? record = none := by
  cases h : env.symbols.anonymous? record with
  | none => rfl
  | some member =>
    obtain ⟨-, d', r, hd', hkind, hanonymous⟩ := hs.anonymous_mem h
    obtain rfl := Option.mem_unique hd' hd
    simp [isAnonymousRecord, hkind, hanonymous] at hnamed

include hinside

theorem HasAnonymous.exists_member (h : HasAnonymous env.ast record id) :
    ∃ member, env.symbols.anonymous? id = some member ∧ member.enclosing = record := by
  obtain ⟨member, hmember⟩ := hs.exists_anonymous h
  obtain ⟨hlisted, -⟩ := hs.anonymous_mem hmember
  obtain ⟨d, hd, hparent⟩ := hinside _ _ hlisted
  obtain ⟨d', hd', hparent'⟩ := hinside _ _ h.1
  obtain rfl := Option.mem_unique hd' hd
  exact ⟨member, hmember, Option.mem_unique hparent hparent'⟩

theorem IsInside.of_hasAnonymous (h : IsInside env named record names)
    (hid : HasAnonymous env.ast record id) :
    ∃ member, env.symbols.anonymous? id = some member ∧ IsInside env named id (names ++ [member.field]) := by
  obtain ⟨member, hmember, rfl⟩ := hid.exists_member hs hinside
  exact ⟨member, hmember, .anonymous hmember h⟩

theorem IsInside.of_transGen (h : IsInside env named record names)
    (hid : TransGen (HasAnonymous env.ast) record id) :
    ∃ first names, IsInside env named id (first :: names) := by
  induction hid with
  | single hid =>
    obtain ⟨member, -, h⟩ := h.of_hasAnonymous hs hinside hid
    obtain ⟨first, names, hnames⟩ := List.exists_cons_of_ne_nil (List.concat_ne_nil member.field names)
    rw [hnames] at h
    exact ⟨first, names, h⟩
  | tail _ hid ih =>
    obtain ⟨first, names, ih⟩ := ih
    obtain ⟨member, -, ih⟩ := ih.of_hasAnonymous hs hinside hid
    exact ⟨first, names ++ [member.field], ih⟩

end

/-! ## The way out -/

theorem IsInside.ends (h : IsInside env named id names) :
    Acc (fun b a => ∃ member, env.symbols.anonymous? a = some member ∧ member.enclosing = b) id := by
  induction h with
  | self hnamed =>
    refine ⟨_, ?_⟩
    rintro b ⟨member, hmember, -⟩
    exact absurd (hnamed.symm.trans hmember) (by simp)
  | anonymous hid _ ih =>
    refine ⟨_, ?_⟩
    rintro b ⟨member, hmember, rfl⟩
    obtain rfl := Option.mem_unique hid hmember
    exact ih

section

variable {settings : Settings} {ast : Ast} (hprepare : prepare settings ast = .ok env) {named id : DeclId}
  {names : List String} (h : IsInside env named id names) (hid : env.ast.inRange (.decl id))
include hprepare h hid

theorem IsInside.induction {P : Nat → DeclId → Prop}
    (hstep : ∀ fuel id, (∀ member, env.symbols.anonymous? id = some member → P fuel member.enclosing) →
      P (fuel + 1) id) : P (env.symbols.names.size + 1) id := by
  have hs := Symbols.describes_of_prepare hprepare
  have hsize : env.symbols.names.size = env.ast.decls.size := by
    obtain ⟨-, symbols, hbuild, rfl⟩ := Symbols.prepare_eq_ok_iff.mp hprepare
    exact (namingTypedefs_of_build hbuild).2
  have hinj : Function.Injective DeclId.index := by
    rintro ⟨a⟩ ⟨b⟩ hab
    exact congrArg DeclId.mk hab
  have hbound : ∀ a b, (∃ member, env.symbols.anonymous? a = some member ∧ member.enclosing = b) →
      b.index < env.ast.decls.size := by
    rintro a b ⟨member, hmember, rfl⟩
    obtain ⟨⟨d, -, hd, -⟩, -⟩ := hs.anonymous_mem hmember
    simpa [Ast.inRange] using Ast.inRange_of_decl? hd
  refine Native.induction_of_acc hinj hbound ?_ (by omega) (by simpa [Ast.inRange] using hid) h.ends
  intro fuel a ih
  exact hstep fuel a fun member hmember => ih _ ⟨member, hmember, rfl⟩

theorem IsInside.forwardingPath?_eq : env.symbols.forwardingPath? id = some names := by
  have hsome : (env.symbols.forwardingFrom (env.symbols.names.size + 1) id).isSome := by
    refine IsInside.induction hprepare h hid (P := fun fuel id => (env.symbols.forwardingFrom fuel id).isSome)
      fun fuel id ih => ?_
    simp only [Symbols.forwardingFrom]
    split
    · rfl
    · rename_i member hmember
      rw [Option.isSome_map]
      exact ih member hmember
  obtain ⟨inner, hinner⟩ := Option.isSome_iff_exists.mp hsome
  simp [Symbols.forwardingPath?, hinner, h.forwardingFrom_eq hinner]

theorem IsInside.namedOwner_eq :
    namedOwnerFrom env.symbols (env.symbols.names.size + 1) id = some named := by
  have hsome : (namedOwnerFrom env.symbols (env.symbols.names.size + 1) id).isSome := by
    refine IsInside.induction hprepare h hid (P := fun fuel id => (namedOwnerFrom env.symbols fuel id).isSome)
      fun fuel id ih => ?_
    simp only [namedOwnerFrom]
    split
    · rename_i member hmember
      exact ih member hmember
    · rfl
  obtain ⟨owner, howner⟩ := Option.isSome_iff_exists.mp hsome
  rw [howner, h.namedOwnerFrom_eq howner]

end

/-! ## Accessors -/

/-- **What an accessor refers to**: the place that it reads, assigns to or returns. -/
def RefersTo : Member → String → Prop
  | .property _ _ _ getter setter, target =>
    getter.text = target ∧ setter.text = target ++ " = value"
  | .accessor _ true _ _ value, target => value.text = "ref " ++ target
  | .accessor _ false _ _ value, target =>
    ∃ size, value.text = "MemoryMarshal.CreateSpan(ref " ++ target ++ "[0], " ++ size ++ ")"
  | _, _ => False

/-- **The accessor for a field** has its name and refers to the path to it. -/
def IsAccessorFor (env : Env) (field : DeclId) (m : Member) : Prop :=
  valueName? m = some (env.symbols.name field) ∧ ∃ path, IsPathTo env field path ∧ RefersTo m path

theorem forwardBits_refersTo (h : (forwardBits id d type path).Gives env scope m) :
    valueName? m = some (env.symbols.name id) ∧
      RefersTo m (Managed.Expr.member path false (env.symbols.name id)).text := by
  simp only [forwardBits, gives_bind, gives_nameOf, gives_pure] at h
  obtain ⟨mapped, -, name, rfl, rfl⟩ := h
  refine ⟨rfl, rfl, ?_⟩
  show (Managed.Expr.member path false _).text ++ " " ++ "=" ++ " " ++ "value" = _
  simp only [String.append_assoc]
  rfl

theorem forwardField_refersTo (h : (forwardField anonymous id d type path).Gives env scope m) :
    valueName? m = some (env.symbols.name id) ∧
      RefersTo m (Managed.Expr.member path false (env.symbols.name id)).text := by
  simp only [forwardField, gives_bind, gives_nameOf] at h
  obtain ⟨name, rfl, _, -, shape, -, h⟩ := h
  cases shape with
  | none =>
    simp only [gives_bind, gives_pure] at h
    obtain ⟨mapped, -, rfl⟩ := h
    exact ⟨rfl, rfl⟩
  | some shape =>
    obtain ⟨element, size⟩ := shape
    simp only [gives_bind] at h
    obtain ⟨mapped, -, h⟩ := h
    split at h
    · simp only [gives_bind, gives_pure] at h
      obtain ⟨_, -, _, -, _, -, rfl⟩ := h
      refine ⟨rfl, size.repr, ?_⟩
      show "MemoryMarshal.CreateSpan" ++ ("(" ++ ("ref " ++ ((Managed.Expr.member path false _).text ++
        "[" ++ "0" ++ "]") ++ ", " ++ size.repr) ++ ")") = _
      have hlead : "MemoryMarshal.CreateSpan(ref " = "MemoryMarshal.CreateSpan" ++ ("(" ++ "ref ") := rfl
      have hindex : "[0], " = "[" ++ ("0" ++ ("]" ++ ", ")) := rfl
      rw [hlead, hindex]
      simp only [String.append_assoc]
    · simp only [gives_bind, gives_pure] at h
      obtain ⟨owner, -, rfl⟩ := h
      exact ⟨rfl, rfl⟩

/-- The fields of an anonymous record and of the anonymous records inside of it. -/
def HoldsField (ast : Ast) (record field : DeclId) : Prop :=
  ∃ owner, ReflTransGen (HasAnonymous ast) record owner ∧ ListsField ast owner field

def LeadsTo (ast : Ast) (member field : DeclId) : Prop :=
  ∃ d, ast.decl? member = some d ∧
    ((∃ f, d.kind = .field f) ∧ field = member ∨ isAnonymousRecord d = true ∧ HoldsField ast member field)

theorem mem_recordMembers {m : DeclId} (h : ast.recordMembers? record = some ids) :
    m ∈ ids ↔ ast.MemberStep record m := by
  simp only [Ast.recordMembers?, bind, Option.bind_eq_some_iff] at h
  obtain ⟨d, hd, h⟩ := h
  split at h
  · rename_i r hkind
    obtain rfl := Option.some.inj h
    simp [Ast.MemberStep, hd, hkind]
  · rename_i hother
    obtain rfl := Option.some.inj h
    simp only [List.not_mem_nil, false_iff]
    rintro ⟨d', r, hd', hkind, -⟩
    obtain rfl := Option.mem_unique hd' hd
    exact hother r hkind

theorem membersInside_of_all
    (h : ∀ p ∈ ast.declsWithIds, ∀ m ∈ (ast.recordMembers? p.1).getD [], (ast.decl? m).map (·.parent) =
      some (some p.1)) : MembersInside ast := by
  rintro record m ⟨d, r, hd, hkind, hm⟩
  have hmembers : ast.recordMembers? record = some r.members := by simp [Ast.recordMembers?, hd, hkind]
  obtain ⟨e, he, hparent⟩ := Option.map_eq_some_iff.mp
    (h (record, d) (Ast.mem_declsWithIds.mpr hd) m (by simpa [hmembers] using hm))
  exact ⟨e, he, hparent⟩

theorem holdsField_iff :
    HoldsField ast record field ↔ ∃ member, ast.MemberStep record member ∧ LeadsTo ast member field := by
  constructor
  · rintro ⟨owner, howner, hfield⟩
    rcases howner.cases_head with rfl | ⟨next, hnext, howner⟩
    · obtain ⟨hlisted, d, f, hd, hkind⟩ := hfield
      exact ⟨field, hlisted, d, hd, .inl ⟨⟨f, hkind⟩, rfl⟩⟩
    · obtain ⟨hlisted, d, hd, hanonymous⟩ := hnext
      exact ⟨next, hlisted, d, hd, .inr ⟨hanonymous, owner, howner, hfield⟩⟩
  · rintro ⟨member, hlisted, d, hd, ⟨⟨f, hkind⟩, rfl⟩ | ⟨hanonymous, owner, howner, hfield⟩⟩
    · exact ⟨record, .refl, hlisted, d, f, hd, hkind⟩
    · exact ⟨owner, .head ⟨hlisted, d, hd, hanonymous⟩ howner, hfield⟩

theorem isForwarded_iff :
    IsForwarded ast record field ↔ ∃ id, HasAnonymous ast record id ∧ HoldsField ast id field := by
  constructor
  · rintro ⟨owner, howner, hfield⟩
    obtain ⟨id, hid, howner⟩ := TransGen.head'_iff.mp howner
    exact ⟨id, hid, owner, howner, hfield⟩
  · rintro ⟨id, hid, owner, howner, hfield⟩
    exact ⟨owner, TransGen.head'_iff.mpr ⟨id, hid, howner⟩, hfield⟩

def IsAccessors (env : Env) (Leads : DeclId → Prop) (members : List Member) : Prop :=
  ∃ fields, (∀ f, f ∈ fields ↔ Leads f) ∧ List.Forall₂ (IsAccessorFor env) fields members

theorem IsAccessors.nil (h : ∀ f, ¬ Leads f) : IsAccessors env Leads [] :=
  ⟨[], by simpa using h, .nil⟩

theorem IsAccessors.exists_accessor (h : IsAccessors env Leads members) (hfield : Leads field) :
    ∃ m ∈ members, IsAccessorFor env field m := by
  obtain ⟨fields, hfields, h⟩ := h
  exact exists_right_of_forall₂ h ((hfields field).mpr hfield)

theorem IsAccessors.flatten {Gives : α → List Member → Prop} {Leads : α → DeclId → Prop} {as : List α}
    {parts : List (List Member)} (h : List.Forall₂ Gives as parts)
    (hmember : ∀ a ∈ as, ∀ part, Gives a part → IsAccessors env (Leads a) part) :
    IsAccessors env (fun f => ∃ a ∈ as, Leads a f) parts.flatten := by
  induction h with
  | nil => exact .nil (by simp)
  | @cons a part as parts hpart _ ih =>
    obtain ⟨fields, hfields, hpart⟩ := hmember a (.head _) part hpart
    obtain ⟨others, hothers, hrest⟩ := ih fun a ha => hmember a (.tail _ ha)
    refine ⟨fields ++ others, fun f => ?_, List.rel_append hpart hrest⟩
    simp [hfields, hothers]

section

variable {settings : Settings} {ast : Ast} (hprepare : prepare settings ast = .ok env)
  (hinside : MembersInside env.ast)
include hprepare hinside

theorem isPathTo_of_isInside (h : IsInside env named record (first :: names))
    (hfield : ListsField env.ast record field) :
    IsPathTo env field
      (Managed.Expr.member (.namePath first names) false (env.symbols.name field)).text := by
  obtain ⟨rd, -, hrd, -⟩ := hfield.1
  refine ⟨record, first :: names, hinside _ _ hfield.1,
    h.forwardingPath?_eq hprepare (Ast.inRange_of_decl? hrd), ?_⟩
  rw [List.cons_append, ← Managed.Expr.text_namePath]
  exact congrArg Managed.Expr.text (Managed.Expr.path_concat _ _ _).symm

theorem forwardMember_accessors {inner : DeclId → Managed.Expr → Emit (List Member)}
    (hrecord : IsInside env named record (first :: names)) (hid : env.ast.MemberStep record id)
    (hinner : ∀ next names members, IsInside env named next (first :: names) →
      (inner next (.namePath first names)).Gives env scope members →
      IsAccessors env (HoldsField env.ast next) members)
    (h : (forwardMember inner record (.namePath first names) id).Gives env scope members) :
    IsAccessors env (LeadsTo env.ast id) members := by
  have hs := Symbols.describes_of_prepare hprepare
  simp only [forwardMember, gives_bind, gives_decl] at h
  obtain ⟨d, hd, h⟩ := h
  have hfield : ∀ {f m}, d.kind = .field f → valueName? m = some (env.symbols.name id) ∧
      RefersTo m (Managed.Expr.member (.namePath first names) false (env.symbols.name id)).text →
      IsAccessors env (LeadsTo env.ast id) [m] := by
    rintro f m hkind ⟨hname, hrefers⟩
    refine ⟨[id], fun f' => ?_, .cons ⟨hname, _, ?_, hrefers⟩ .nil⟩
    · simp [LeadsTo, hd, hkind, isAnonymousRecord]
    · exact isPathTo_of_isInside hprepare hinside hrecord ⟨hid, d, f, hd, hkind⟩
  split at h
  · rename_i hkind
    simp only [gives_bind, gives_pure] at h
    obtain ⟨m, hm, rfl⟩ := h
    exact hfield hkind (forwardBits_refersTo hm)
  · rename_i hkind
    simp only [gives_bind, gives_pure] at h
    obtain ⟨m, hm, rfl⟩ := h
    exact hfield hkind (forwardField_refersTo hm)
  · rename_i r hkind
    simp only [gives_bind, gives_symbols, exists_eq_left] at h
    cases hanonymous : r.isAnonymous with
    | false =>
      simp only [hanonymous, gives_pure] at h
      subst h
      exact .nil fun f => by simp [LeadsTo, hd, hkind, isAnonymousRecord, hanonymous]
    | true =>
      have hnext : HasAnonymous env.ast record id :=
        ⟨hid, d, hd, by simp [isAnonymousRecord, hkind, hanonymous]⟩
      obtain ⟨member, hmember, hinsideNext⟩ := hrecord.of_hasAnonymous hs hinside hnext
      simp only [hanonymous, hmember] at h
      have hpath : Managed.Expr.member (.namePath first names) false member.field =
          .namePath first (names ++ [member.field]) := (Managed.Expr.path_concat _ _ _).symm
      obtain ⟨fields, hfields, hmembers⟩ := hinner id _ members hinsideNext (hpath ▸ h)
      refine ⟨fields, fun f => ?_, hmembers⟩
      simp [hfields, LeadsTo, hd, hkind, isAnonymousRecord, hanonymous]
  · rename_i hother hrecordKind
    simp only [gives_pure] at h
    subst h
    refine .nil fun f => ?_
    rintro ⟨d', hd', ⟨⟨f', hkind⟩, -⟩ | ⟨hanonymous, -⟩⟩
    · obtain rfl := Option.mem_unique hd' hd
      exact absurd hkind (hother _)
    · obtain rfl := Option.mem_unique hd' hd
      unfold isAnonymousRecord at hanonymous
      split at hanonymous
      · exact absurd ‹_› (hrecordKind _)
      · cases hanonymous

theorem forwardFrom_accessors (hrecord : IsInside env named record (first :: names))
    (h : (forwardFrom fuel record (.namePath first names)).Gives env scope members) :
    IsAccessors env (HoldsField env.ast record) members := by
  induction fuel generalizing record names members with
  | zero => simp [forwardFrom] at h
  | succ fuel ih =>
    simp only [forwardFrom, gives_bind, gives_ast, exists_eq_left, gives_lift_option, gives_forEach,
      gives_pure] at h
    obtain ⟨ids, hids, parts, hparts, rfl⟩ := h
    have hlisted := fun id => mem_recordMembers (m := id) hids
    obtain ⟨fields, hfields, hmembers⟩ := IsAccessors.flatten hparts fun id hid part hpart =>
      forwardMember_accessors hprepare hinside hrecord ((hlisted id).mp hid) (fun _ _ _ => ih) hpart
    refine ⟨fields, fun f => ?_, hmembers⟩
    simp only [hfields, holdsField_iff, hlisted]

theorem emitMember_accessors (hrecord : IsInside env record record []) (hid : env.ast.MemberStep record id)
    (h : (emitMember nested record isUnion false units id).Gives env scope items) :
    ∃ accessors, accessors.Sublist items.accessors ∧
      IsAccessors env (fun f => HasAnonymous env.ast record id ∧ HoldsField env.ast id f) accessors := by
  have hs := Symbols.describes_of_prepare hprepare
  by_cases hanonymous : HasAnonymous env.ast record id
  · obtain ⟨-, d, hd, hflag⟩ := hanonymous
    obtain ⟨⟨tag, isDefinition, isAnonymous, bases, members⟩, hkind⟩ : ∃ r, d.kind = .record r := by
      unfold isAnonymousRecord at hflag
      split at hflag
      · exact ⟨_, ‹_›⟩
      · cases hflag
    obtain rfl : isAnonymous = true := by simpa [isAnonymousRecord, hkind] using hflag
    simp only [emitMember, gives_bind, gives_decl, hd, Option.some.injEq, exists_eq_left', hkind] at h
    obtain ⟨member, type, types, accessors, hmember, -, -, haccessors, rfl⟩ := emitAnonymous_cases h
    obtain ⟨member', hmember', hinsideId⟩ :=
      hrecord.of_hasAnonymous hs hinside ⟨hid, d, hd, hflag⟩
    obtain rfl := Option.mem_unique hmember' hmember
    simp only [forwardingAccessors, gives_bind, gives_ast, exists_eq_left] at haccessors
    have haccessors := forwardFrom_accessors hprepare hinside hinsideId haccessors
    simp only [HasAnonymous, hid, hd, Option.some.injEq, exists_eq_left', hflag, true_and]
    exact ⟨accessors, .refl _, haccessors⟩
  · exact ⟨[], List.nil_sublist _, .nil fun f hf => hanonymous hf.1⟩

theorem collect_accessors (hrecord : IsInside env record record [])
    (hids : ∀ id ∈ ids, env.ast.MemberStep record id)
    (h : (collect (emitMember nested record isUnion false units) ids).Gives env scope items) :
    ∃ accessors, accessors.Sublist items.accessors ∧
      IsAccessors env (fun f => ∃ id ∈ ids, HasAnonymous env.ast record id ∧ HoldsField env.ast id f)
        accessors := by
  induction ids generalizing items with
  | nil =>
    exact ⟨[], List.nil_sublist _, .nil (by simp)⟩
  | cons id ids ih =>
    simp only [collect, gives_bind, gives_pure] at h
    obtain ⟨part, hpart, others, hothers, rfl⟩ := h
    obtain ⟨own, hown, fields, hfields, hmatch⟩ :=
      emitMember_accessors hprepare hinside hrecord (hids id (.head _)) hpart
    obtain ⟨rest, hrest, fields', hfields', hmatch'⟩ := ih (fun id hid => hids id (.tail _ hid)) hothers
    refine ⟨own ++ rest, hown.append hrest, fields ++ fields', fun f => ?_, List.rel_append hmatch hmatch'⟩
    simp [hfields, hfields']

omit hprepare hinside in
theorem RecordItems.accessors_sublist (items : RecordItems) : items.accessors.Sublist items.members := by
  unfold RecordItems.members
  rw [List.append_assoc, List.append_assoc]
  exact (List.sublist_append_left _ _).trans (List.sublist_append_right _ _)

theorem struct_accessors (hrecord : IsInside env record record []) (h : IsStructOf env record members) :
    ∃ accessors, accessors.Sublist members ∧ IsAccessors env (IsForwarded env.ast record) accessors := by
  obtain ⟨d, r, depth, scope, inherited, own, hd, hkind, -, -, hown, rfl, -⟩ := h.cases
  obtain ⟨units, -, hown⟩ := emitMembers_cases hown hd hkind
  obtain ⟨accessors, hsublist, fields, hfields, hmatch⟩ :=
    collect_accessors hprepare hinside hrecord (fun id hid => ⟨d, r, hd, hkind, hid⟩) hown
  refine ⟨accessors, ?_, fields, fun f => ?_, hmatch⟩
  · exact hsublist.trans ((List.sublist_append_right _ _).trans (inherited ++ own).accessors_sublist)
  · rw [hfields, isForwarded_iff]
    constructor
    · rintro ⟨id, -, hid⟩
      exact ⟨id, hid⟩
    · rintro ⟨id, hid, hfield⟩
      obtain ⟨d', r', hd', hkind', hmem⟩ := hid.1
      obtain ⟨rfl, rfl⟩ := record_unique hd' hkind' hd hkind
      exact ⟨id, hmem, hid, hfield⟩

end

/-! ## Accesses -/

/-- The expression is a variable, behind conversions that keep the value. -/
inductive IsUse (env : Env) (x : DeclId) : ExprId → Prop
  | use {id : ExprId} {e : Native.Expr} (he : env.ast.expr? id = some e) (hkind : e.kind = .declRef x) :
      IsUse env x id
  | convert {id operand : ExprId} {e : Native.Expr} {kind : Native.CastKind}
      (he : env.ast.expr? id = some e) (hkind : e.kind = .implicitCast kind operand)
      (hsame : kind = .lvalueToRValue ∨ kind = .noOp) (hoperand : IsUse env x operand) : IsUse env x id

/-- **How a variable is written**: by its name, perhaps behind the record that it is a static member of. -/
inductive IsWrittenAs (env : Env) (scope : Scope) (x : DeclId) : TypeId → Managed.Expr → Prop
  | param {d : Decl} {type : TypeId} (hd : env.ast.decl? x = some d) (hkind : d.kind = .param type) :
      IsWrittenAs env scope x type (.ident (env.symbols.name x))
  | global {d : Decl} {v : Native.Var} (hd : env.ast.decl? x = some d) (hkind : d.kind = .var v)
      (hglobal : env.symbols.isGlobal x = true) :
      IsWrittenAs env scope x v.type (.ident (env.symbols.name x))
  | localVar {d : Decl} {v : Native.Var} (hd : env.ast.decl? x = some d) (hkind : d.kind = .var v)
      (hglobal : env.symbols.isGlobal x = false)
      (hparent : ∀ parent ∈ d.parent, ∃ p, env.ast.decl? parent = some p ∧ ∀ r, p.kind ≠ .record r) :
      IsWrittenAs env scope x v.type (.ident (env.symbols.name x))
  | ownMember {d p : Decl} {v : Native.Var} {r : Native.Record} {owner : DeclId}
      (hd : env.ast.decl? x = some d) (hkind : d.kind = .var v) (hglobal : env.symbols.isGlobal x = false)
      (hparent : d.parent = some owner) (hp : env.ast.decl? owner = some p) (hrecord : p.kind = .record r)
      (hown : scope.record = some owner) :
      IsWrittenAs env scope x v.type (.ident (env.symbols.name x))
  | otherMember {d p : Decl} {v : Native.Var} {r : Native.Record} {owner : DeclId} {name : String}
      (hd : env.ast.decl? x = some d) (hkind : d.kind = .var v) (hglobal : env.symbols.isGlobal x = false)
      (hparent : d.parent = some owner) (hp : env.ast.decl? owner = some p) (hrecord : p.kind = .record r)
      (hother : scope.record ≠ some owner)
      (hname : qualifiedName? env.ast env.symbols owner scope.record = some name) :
      IsWrittenAs env scope x v.type (.member (.ident name) false (env.symbols.name x))

theorem gives_importMethodsClass : importMethodsClass.Gives env scope u := by
  simp only [importMethodsClass, gives_bind, gives_env, gives_currentRecord, exists_eq_left]
  split
  · exact gives_tell
  · simp

namespace IsWrittenAs

theorem isReferenceDecl (h : IsWrittenAs env scope x type object)
    (hb : (isReference type).Gives env scope b) : (isReferenceDecl x).Gives env scope b := by
  unfold Binding.isReferenceDecl
  cases h with
  | param hd hkind | global hd hkind | localVar hd hkind | ownMember hd hkind | otherMember hd hkind =>
    simp only [gives_bind, gives_decl, exists_found hd, hkind]
    exact hb

theorem declRefRule (h : IsWrittenAs env scope x type object)
    (hvalue : (isReference type).Gives env scope false) (e : Native.Expr) :
    (declRefRule e x).Gives env scope object := by
  have huse : (localUse (env.symbols.name x) type).Gives env scope (.ident (env.symbols.name x)) := by
    simp only [localUse, gives_bind]
    exact ⟨false, hvalue, by simp⟩
  unfold Binding.declRefRule
  cases h with
  | param hd hkind =>
    simp only [gives_bind, gives_decl, exists_found hd, gives_nameOf, exists_eq_left, hkind]
    exact huse
  | global hd hkind hglobal =>
    simp only [gives_bind, gives_decl, exists_found hd, gives_nameOf, exists_eq_left,
      hkind, gives_symbols, hglobal, if_true]
    exact ⟨(), gives_importMethodsClass, .pure⟩
  | localVar hd hkind hglobal hparent =>
    exact (gives_declRefRule_var hd hkind hglobal).mpr ⟨false, gives_isInRecord_of_other hparent, huse⟩
  | ownMember hd hkind hglobal hparent hp hrecord hown =>
    refine (gives_declRefRule_var hd hkind hglobal).mpr ⟨true, gives_isInRecord_of_record hparent hp hrecord, ?_⟩
    simp [memberReference, hd, hparent, hown]
  | otherMember hd hkind hglobal hparent hp hrecord hother hname =>
    refine (gives_declRefRule_var hd hkind hglobal).mpr ⟨true, gives_isInRecord_of_record hparent hp hrecord, ?_⟩
    simp [memberReference, hd, hparent, hother.symm, hname]

end IsWrittenAs

namespace IsUse

variable {x : DeclId} {id : ExprId}
variable {object : Managed.Expr} {fuel : Nat}

theorem exists_expr (h : IsUse env x id) : ∃ e, env.ast.expr? id = some e := by
  cases h with
  | use he | convert he => exact ⟨_, he⟩

theorem inRange (h : IsUse env x id) : id.index < env.ast.exprs.size := by
  obtain ⟨e, he⟩ := h.exists_expr
  exact (Array.getElem?_eq_some_iff.mp he).1

def Step (env : Env) (x : DeclId) (a b : ExprId) : Prop :=
  IsUse env x b ∧ ∃ e kind, env.ast.expr? a = some e ∧ e.kind = .implicitCast kind b

theorem ends (h : IsUse env x id) : Acc (fun b a => Step env x a b) id := by
  induction h with
  | use he hkind =>
    refine ⟨_, ?_⟩
    rintro b ⟨-, e', kind, he', hkind'⟩
    obtain rfl := Option.mem_unique he' he
    exact absurd (hkind.symm.trans hkind') (by simp)
  | convert he hkind _ _ ih =>
    refine ⟨_, ?_⟩
    rintro b ⟨-, e', kind, he', hkind'⟩
    obtain rfl := Option.mem_unique he' he
    obtain ⟨-, rfl⟩ := Native.ExprKind.implicitCast.inj (hkind.symm.trans hkind')
    exact ih

theorem induction {P : Nat → ExprId → Prop} (h : IsUse env x id) (hfuel : env.ast.exprs.size ≤ fuel)
    (huse : ∀ fuel id e, env.ast.expr? id = some e → e.kind = .declRef x → P (fuel + 1) id)
    (hconvert : ∀ fuel id operand e kind, env.ast.expr? id = some e → e.kind =
      .implicitCast kind operand → kind = .lvalueToRValue ∨ kind = .noOp → IsUse env x operand →
      P fuel operand → P (fuel + 1) id) : P fuel id := by
  have hinj : Function.Injective ExprId.index := by
    rintro ⟨a⟩ ⟨b⟩ hab
    exact congrArg ExprId.mk hab
  have hbound : ∀ a b, Step env x a b → b.index < env.ast.exprs.size := fun a b hstep => hstep.1.inRange
  refine Native.induction_of_acc hinj hbound (P := fun fuel id => IsUse env x id → P fuel id) ?_ hfuel
    h.inRange h.ends h
  intro fuel id ih h
  cases h with
  | use he hkind => exact huse fuel id _ he hkind
  | convert he hkind hsame hoperand =>
    exact hconvert fuel id _ _ _ he hkind hsame hoperand (ih _ ⟨hoperand, _, _, he, hkind⟩ hoperand)

theorem value (h : IsUse env x id) (hfuel : env.ast.exprs.size ≤ fuel)
    (hobject : ∀ e, (declRefRule e x).Gives env scope object) :
    ((partsTo fuel).value id).Gives env scope object := by
  refine h.induction hfuel (P := fun fuel id => ((partsTo fuel).value id).Gives env scope object) ?_ ?_
  · intro fuel id e he hkind
    simpa [partsTo, valueRule, he, hkind] using hobject e
  · intro fuel id operand e kind he hkind hsame hoperand ih
    obtain ⟨e', he'⟩ := hoperand.exists_expr
    rcases hsame with rfl | rfl
    · simpa [partsTo, valueRule, he, hkind, implicitCastRule, he'] using ih
    · simpa [partsTo, valueRule, he, hkind, implicitCastRule, he'] using ih

theorem ignoreImplicit (h : IsUse env x id) :
    ∃ inner e, env.ast.ignoreImplicit? id = some inner ∧ env.ast.expr? inner = some e ∧
      e.kind = .declRef x := by
  refine h.induction (Nat.le_refl _) (P := fun fuel id => ∃ inner e,
    env.ast.ignoreImplicitFrom fuel id = some inner ∧ env.ast.expr? inner = some e ∧ e.kind = .declRef x) ?_ ?_
  · intro fuel id e he hkind
    exact ⟨id, e, by simp [Ast.ignoreImplicitFrom, he, hkind], he, hkind⟩
  · intro fuel id operand e kind he hkind _ _ ih
    simpa [Ast.ignoreImplicitFrom, he, hkind] using ih

theorem referenceName {type : TypeId} (h : IsUse env x id) (hx : IsWrittenAs env scope x type object)
    (hflag : (isReference type).Gives env scope flag) :
    (referenceName id).Gives env scope (if flag then some (env.symbols.name x) else none) := by
  obtain ⟨inner, e, hinner, he, hkind⟩ := h.ignoreImplicit
  simp only [Binding.referenceName, gives_bind, gives_ignoreImplicit, hinner, Option.some.injEq,
    exists_eq_left', gives_exprOf, he, hkind]
  refine ⟨flag, hx.isReferenceDecl hflag, ?_⟩
  cases flag <;> simp

end IsUse

/-- **An access to a field of a variable**: an object of the record, a pointer or a reference to one. -/
structure IsAccess (env : Env) (scope : Scope) (record field : DeclId) (id : ExprId) (x : DeclId)
    (object : Managed.Expr) (isReference isPointer : Bool) : Prop where
  declared : ∃ type, IsWrittenAs env scope x type object ∧
    IsDeclaredAs env type isReference isPointer (env.symbols.definition record)
  accessed : ∃ e base b, env.ast.expr? id = some e ∧ e.kind = .member base field isPointer ∧
    IsUse env x base ∧ env.ast.expr? base = some b ∧
    IsObjectType env b.type isPointer (env.symbols.definition record)

/-- An access to a field of the object that a member function works on. -/
def IsImplicitAccess (env : Env) (field : DeclId) (id : ExprId) : Prop :=
  ∃ e base b isArrow, env.ast.expr? id = some e ∧ e.kind = .member base field isArrow ∧
    env.ast.expr? base = some b ∧ b.kind = .thisPointer true

theorem IsDeclaredAs.gives_isReference (h : IsDeclaredAs env type reference isPointer record) :
    (isReference type).Gives env scope reference := by
  rw [Binding.gives_isReference]
  cases h with
  | value h =>
    cases h with
    | record hid => exact ⟨_, canonicalKind_of_recordOf hid, rfl⟩
    | pointer hkind => exact ⟨_, hkind, rfl⟩
  | reference hkind hreferent =>
    refine ⟨_, hkind, ?_⟩
    rcases hreferent with rfl | rfl
    · rfl
    · rfl

theorem IsUse.accessedObject {parts : Parts} (h : IsUse env x base) (hb : env.ast.expr? base = some b)
    (hx : IsWrittenAs env scope x type object) (hreference : (isReference type).Gives env scope reference)
    (hvalue : reference = false → (parts.value base).Gives env scope object)
    (hseen : (if isPointer then env.ast.pointeeRecord? b.type else env.ast.recordOf? b.type) = some (some seen)) :
    (accessedObject parts base isPointer).Gives env scope
      (some (if reference then .ident (env.symbols.name x) else object, reference || isPointer),
        some seen) := by
  have hname := h.referenceName hx hreference
  have hkind : ∀ implicit, b.kind ≠ .thisPointer implicit := by
    cases h with
    | use he hkind | convert he hkind =>
      obtain rfl := Option.mem_unique he hb
      simp [hkind]
  simp only [Binding.accessedObject, gives_bind, gives_exprOf, exists_found hb]
  split
  · exact absurd ‹_› (hkind _)
  · exact absurd ‹_› (hkind _)
  · simp only [gives_bind, gives_ast, exists_eq_left, gives_ite_lift, exists_found hseen]
    refine ⟨_, hname, ?_⟩
    cases reference with
    | true => simp
    | false => simpa using hvalue rfl

section

variable {settings : Settings} {ast : Ast} (hprepare : prepare settings ast = .ok env)
  {record owner field : DeclId} {first : String} {names : List String}
  (howner : IsInside env record owner (first :: names)) (hfield : ListsField env.ast owner field)
  (hparent : env.ast.ParentStep field owner)
include hprepare howner hfield hparent

theorem gives_memberSteps {object : DeclId}
    (hobject : env.symbols.definition object = env.symbols.definition record) :
    (memberSteps (some object) field).Gives env scope (first :: names) := by
  obtain ⟨d, hd, hparent⟩ := hparent
  obtain ⟨od, -, hod, -⟩ := hfield.1
  have hin := Ast.inRange_of_decl? hod
  simp [memberSteps, hd, hparent, howner.namedOwner_eq hprepare hin, hobject,
    howner.forwardingPath?_eq hprepare hin]

theorem IsAccess.emitted {id : ExprId} {isReference : Bool}
    (h : IsAccess env scope record field id x object isReference isPointer) :
    (emitValue id).Gives env scope
      (.path (if isReference then .ident (env.symbols.name x) else object) (isReference || isPointer)
        ((first :: names) ++ [env.symbols.name field])) := by
  obtain ⟨type, hx, hdeclared⟩ := h.declared
  obtain ⟨e, base, b, he, hkind, huse, hb, hobject⟩ := h.accessed
  obtain ⟨seen, hseen, hrecord⟩ := hobject.recordOf
  obtain ⟨d, f, hd, hfieldKind⟩ := hfield.2
  have hreference : (Binding.isReference type).Gives env scope isReference := hdeclared.gives_isReference
  rw [gives_emitValue, partsTo]
  simp only [valueRule, gives_bind, gives_exprOf, he, Option.some.injEq, exists_eq_left', hkind, memberRule,
    gives_decl, hd, hfieldKind, memberOf, gives_nameOf, exists_eq_left, gives_pure]
  refine ⟨_, huse.accessedObject hb hx hreference ?_ hrecord, _,
    gives_memberSteps hprepare howner hfield hparent hseen, rfl⟩
  rintro rfl
  exact huse.value (Nat.le_refl _) (hx.declRefRule hreference)

theorem IsImplicitAccess.emitted {id : ExprId} (h : IsImplicitAccess env field id)
    (hrecord : scope.record = some record) :
    (emitValue id).Gives env scope (.namePath first (names ++ [env.symbols.name field])) := by
  obtain ⟨e, base, b, isArrow, he, hkind, hb, hthis⟩ := h
  obtain ⟨d, f, hd, hfieldKind⟩ := hfield.2
  rw [gives_emitValue, partsTo]
  simp only [valueRule, gives_bind, gives_exprOf, he, Option.some.injEq, exists_eq_left', hkind, memberRule,
    gives_decl, hd, hfieldKind, memberOf, accessedObject, hb, hthis, gives_currentRecord, exists_eq_left,
    gives_pure, gives_nameOf, hrecord]
  exact ⟨_, gives_memberSteps hprepare howner hfield hparent rfl, rfl⟩

end

theorem IsWrittenAs.atLeast_primary (h : IsWrittenAs env scope x type object) :
    object.piece.atLeast .primary = object.text := by
  cases h with
  | param | global | localVar | ownMember | otherMember => rfl

/-- **Accessors and accesses agree on the path** to a field that is reached through anonymous records,
however many there are. -/
theorem anonymous_accessors_and_accesses_agree {settings : Settings} {ast : Ast}
    (hprepare : prepare settings ast = .ok env) (hinside : MembersInside env.ast) {record : DeclId}
    {d : Native.Decl} (hd : env.ast.decl? record = some d) (hnamed : isAnonymousRecord d = false) :
    (∀ members, IsStructOf env record members → ∃ accessors,
      accessors.Sublist members ∧ IsAccessors env (IsForwarded env.ast record) accessors) ∧
    ∀ field, IsForwarded env.ast record field → ∃ path, IsPathTo env field path ∧
      (∀ scope id x object isReference isPointer,
        IsAccess env scope record field id x object isReference isPointer →
        ∃ out, (emitValue id).Gives env scope out ∧
          out.text = (if isReference then env.symbols.name x else object.text) ++
            (if isReference || isPointer then "->" else ".") ++ path) ∧
      ∀ scope id, scope.record = some record → IsImplicitAccess env field id →
        ∃ out, (emitValue id).Gives env scope out ∧ out.text = path := by
  have hs := Symbols.describes_of_prepare hprepare
  have hself : IsInside env record record [] := .self (anonymous?_eq_none hs hd hnamed)
  refine ⟨fun members => struct_accessors hprepare hinside hself, ?_⟩
  rintro field ⟨owner, howner, hfield⟩
  obtain ⟨first, names, howner⟩ := hself.of_transGen hs hinside howner
  have hparent := hinside _ _ hfield.1
  obtain ⟨od, -, hod, -⟩ := hfield.1
  refine ⟨_, ⟨owner, _, hparent, howner.forwardingPath?_eq hprepare (Ast.inRange_of_decl? hod), rfl⟩, ?_, ?_⟩
  · intro scope id x object isReference isPointer haccess
    refine ⟨_, haccess.emitted hprepare howner hfield hparent, ?_⟩
    rw [List.cons_append, Managed.Expr.text_path]
    obtain ⟨type, hx, -⟩ := haccess.declared
    cases isReference with
    | true => rfl
    | false =>
      rw [← hx.atLeast_primary]
      rfl
  · intro scope id hrecord haccess
    refine ⟨_, haccess.emitted hprepare howner hfield hparent hrecord, ?_⟩
    rw [Managed.Expr.text_namePath, List.cons_append]

/-- A meter with a reading whose upper half has two views, both of them unnamed. -/
def meters : Env where
  ast :=
    { file := "meters.h"
      topLevel := [⟨0⟩, ⟨7⟩]
      decls :=
        #[{ kind := .record { tag := .struct, members := [⟨1⟩, ⟨2⟩] }, name := "Meter" },
          { kind := .field { type := ⟨0⟩ }, name := "unit", parent := some ⟨0⟩ },
          { kind := .record { tag := .struct, isAnonymous := true, members := [⟨3⟩, ⟨4⟩] },
            parent := some ⟨0⟩ },
          { kind := .field { type := ⟨0⟩, bitWidth := some 4 }, name := "low", parent := some ⟨2⟩ },
          { kind := .record { tag := .union, isAnonymous := true, members := [⟨5⟩, ⟨6⟩] },
            parent := some ⟨2⟩ },
          { kind := .field { type := ⟨0⟩ }, name := "high", parent := some ⟨4⟩ },
          { kind := .field { type := ⟨1⟩ }, name := "raw", parent := some ⟨4⟩ },
          { kind := .function { type := ⟨4⟩, params := [⟨8⟩], body := some ⟨1⟩ }, name := "high_of" },
          { kind := .param ⟨3⟩, name := "meter", parent := some ⟨7⟩ }]
      types :=
        #[.ofBuiltin .int, .ofBuiltin .float,
          { kind := .record ⟨0⟩, spelling := "Meter" },
          { kind := .pointer ⟨2⟩, spelling := "Meter *" },
          { kind := .function { result := ⟨0⟩, params := [⟨3⟩] }, spelling := "int (Meter *)" }]
      exprs :=
        #[{ kind := .declRef ⟨8⟩, type := ⟨3⟩ },
          { kind := .implicitCast .lvalueToRValue ⟨0⟩, type := ⟨3⟩ },
          { kind := .member ⟨1⟩ ⟨5⟩ true, type := ⟨0⟩ }]
      stmts := #[{ kind := .ret (some ⟨2⟩) }, { kind := .compound [⟨0⟩] }] }
  settings := {}
  symbols :=
    { names := #["Meter", "unit", "_Anonymous_e__Struct", "low", "_Anonymous_e__Union", "high", "raw",
        "high_of", "meter"]
      anonymous := [(⟨4⟩, ⟨⟨2⟩, "Anonymous"⟩), (⟨2⟩, ⟨⟨0⟩, "Anonymous"⟩)]
      namingTypedefs := []
      definitions := []
      shadowed := []
      globals := [⟨7⟩]
      vtables := [] }

/-- The upper half is reached through both anonymous records, by its accessor and through a pointer. -/
theorem meter_high_paths_agree :
    prepare {} meters.ast = .ok meters ∧ IsForwarded meters.ast ⟨0⟩ ⟨5⟩ ∧
      (∃ members, IsStructOf meters ⟨0⟩ members ∧ ∃ m ∈ members, IsAccessorFor meters ⟨5⟩ m) ∧
      IsPathTo meters ⟨5⟩ "Anonymous.Anonymous.high" ∧
      ∃ out, (emitValue ⟨2⟩).Gives meters {} out ∧ out.text = "meter->Anonymous.Anonymous.high" := by
  have hprepare : prepare {} meters.ast = .ok meters := rfl
  have hinside : MembersInside meters.ast := membersInside_of_all (by decide)
  have hrecord : meters.ast.decl? ⟨0⟩ = some _ := rfl
  obtain ⟨haccessors, haccesses⟩ := anonymous_accessors_and_accesses_agree hprepare hinside hrecord rfl
  have hstruct : IsStructOf meters ⟨0⟩ _ :=
    isStructOf_of_emitRecord ⟨_, _, rfl, rfl, rfl⟩ (gives_of_run (c := {}) rfl)
  have houter : HasAnonymous meters.ast ⟨0⟩ ⟨2⟩ := ⟨⟨_, _, rfl, rfl, by decide⟩, _, rfl, rfl⟩
  have hinner : HasAnonymous meters.ast ⟨2⟩ ⟨4⟩ := ⟨⟨_, _, rfl, rfl, by decide⟩, _, rfl, rfl⟩
  have hforwarded : IsForwarded meters.ast ⟨0⟩ ⟨5⟩ :=
    ⟨⟨4⟩, .tail (.single houter) hinner, ⟨_, _, rfl, rfl, by decide⟩, _, _, rfl, rfl⟩
  obtain ⟨accessors, hsublist, hall⟩ := haccessors _ hstruct
  obtain ⟨m, hm, haccessor⟩ := hall.exists_accessor hforwarded
  obtain ⟨path, ⟨owner, names, ⟨e, he, hparent⟩, hnames, rfl⟩, hvariable, -⟩ := haccesses ⟨5⟩ hforwarded
  -- The field is declared in the inner record, and its path is the one from there.
  obtain rfl := Option.some.inj he
  obtain rfl := Option.some.inj hparent
  obtain rfl := Option.some.inj hnames
  have haccess : IsAccess meters {} ⟨0⟩ ⟨5⟩ ⟨2⟩ ⟨8⟩ (.ident "meter") false true :=
    { declared := ⟨⟨3⟩, .param rfl rfl, .value (.pointer rfl rfl)⟩
      accessed := ⟨_, ⟨1⟩, _, rfl, rfl, .convert rfl rfl (.inl rfl) (.use rfl rfl), rfl, .pointer rfl rfl⟩ }
  exact ⟨hprepare, hforwarded, ⟨_, hstruct, m, hsublist.subset hm, haccessor⟩,
    ⟨⟨4⟩, _, ⟨_, rfl, rfl⟩, hnames, rfl⟩, hvariable {} ⟨2⟩ ⟨8⟩ _ false true haccess⟩

end Interop.Binding
