import Mathlib.Data.Finset.Card
import Mathlib.Logic.Relation
import Interop.Proofs.SymbolTable

/-!
# References that end

Functions that follow references of one kind take fuel, one unit per node. If every reference leads to a
node (`Ast.Valid`) and no chain comes back to its start (`Binding.Acyclic`), the size of the arena is
enough: every step of a chain leaves fewer descendants (`IsAcyclic.induction`).
-/

namespace Interop.Native

open Relation

attribute [simp] DeclKind.refs StmtKind.refs ExprKind.refs TypeKind.refs

variable {fuel : Nat}

/-! ## Chains without cycles -/

def IsAcyclic (step : α → α → Prop) : Prop :=
  ∀ a, ¬ TransGen step a a

theorem isAcyclic_of_rank (rank : α → Nat) (h : ∀ a b, step a b → rank b < rank a) : IsAcyclic step := by
  have hchain : ∀ a b, TransGen step a b → rank b < rank a := by
    intro a b hab
    induction hab with
    | single hstep => exact h _ _ hstep
    | tail _ hstep ih => exact (h _ _ hstep).trans ih
  intro a hcycle
  exact Nat.lt_irrefl _ (hchain a a hcycle)

section Descendants

variable {α : Type} {step : α → α → Prop} {index : α → Nat} {size : Nat} {a b : α}

open Classical in
noncomputable def descendants (step : α → α → Prop) (index : α → Nat) (size : Nat) (a : α) :
    Finset Nat :=
  (Finset.range size).filter fun i => ∃ b, index b = i ∧ TransGen step a b

theorem mem_descendants (hinj : index.Injective) :
    index b ∈ descendants step index size a ↔ index b < size ∧ TransGen step a b := by
  simp only [descendants, Finset.mem_filter, Finset.mem_range]
  constructor
  · rintro ⟨hlt, b', heq, hchain⟩
    exact ⟨hlt, hinj heq ▸ hchain⟩
  · rintro ⟨hlt, hchain⟩
    exact ⟨hlt, b, rfl, hchain⟩

theorem IsAcyclic.card_descendants_lt (hacyclic : IsAcyclic step) (hinj : index.Injective)
    (ha : index a < size) : (descendants step index size a).card < size := by
  have hself : index a ∉ descendants step index size a :=
    fun h => hacyclic a ((mem_descendants hinj).mp h).2
  have hrange : descendants step index size a ⊆ Finset.range size := by
    intro i hi
    simp only [descendants, Finset.mem_filter] at hi
    exact hi.1
  have hcard := Finset.card_le_card (Finset.subset_erase.mpr ⟨hrange, hself⟩)
  rw [Finset.card_erase_of_mem (Finset.mem_range.mpr ha), Finset.card_range] at hcard
  omega

theorem IsAcyclic.card_descendants_lt_of_chain (hacyclic : IsAcyclic step) (hinj : index.Injective)
    (hb : index b < size) (hchain : TransGen step a b) :
    (descendants step index size b).card < (descendants step index size a).card := by
  apply Finset.card_lt_card
  rw [Finset.ssubset_iff_of_subset]
  · exact ⟨index b, (mem_descendants hinj).mpr ⟨hb, hchain⟩,
      fun h => hacyclic b ((mem_descendants hinj).mp h).2⟩
  · intro i hi
    simp only [descendants, Finset.mem_filter] at hi ⊢
    obtain ⟨hlt, c, heq, hbc⟩ := hi
    exact ⟨hlt, c, heq, hchain.trans hbc⟩

/-- **The size of the arena is enough fuel** for what holds of a node if it holds of its descendants. -/
theorem IsAcyclic.induction (hacyclic : IsAcyclic step) (hinj : index.Injective)
    (hbound : ∀ a b, step a b → index b < size) {P : Nat → α → Prop}
    (h : ∀ fuel a, index a < size → (∀ b, TransGen step a b → P fuel b) → P (fuel + 1) a)
    (hfuel : size ≤ fuel) (ha : index a < size) : P fuel a := by
  -- The fuel only has to exceed the number of descendants, which every step lowers.
  have hmain : ∀ fuel a, index a < size → (descendants step index size a).card < fuel → P fuel a := by
    intro fuel
    induction fuel with
    | zero => exact fun _ _ hcard => absurd hcard (Nat.not_lt_zero _)
    | succ fuel ih =>
      intro a ha hcard
      refine h fuel a ha fun b hchain => ?_
      obtain ⟨_, -, hlast⟩ := TransGen.tail'_iff.mp hchain
      have hb : index b < size := hbound _ _ hlast
      have hfewer := hacyclic.card_descendants_lt_of_chain hinj hb hchain
      exact ih b hb (by omega)
  exact hmain fuel a ha (Nat.lt_of_lt_of_le (hacyclic.card_descendants_lt hinj ha) hfuel)

/-- **A chain that ends needs no more fuel than the arena has nodes**, whatever the other chains do. -/
theorem induction_of_acc (hinj : index.Injective) (hbound : ∀ a b, step a b → index b < size)
    {P : Nat → α → Prop} (h : ∀ fuel a, (∀ b, step a b → P fuel b) → P (fuel + 1) a) (hfuel : size ≤ fuel)
    (ha : index a < size) (hends : Acc (fun b a => step a b) a) : P fuel a := by
  have hcycle : ∀ a, Acc (fun b a => step a b) a →
      ¬ TransGen (fun a b => step a b ∧ Acc (fun b a => step a b) a) a a := by
    intro a hends
    induction hends with
    | intro a _ ih =>
      intro hcycle
      obtain ⟨b, hstep, hback⟩ := TransGen.head'_iff.mp hcycle
      exact ih b hstep.1 (.tail' hback hstep)
  have hacyclic : IsAcyclic fun a b => step a b ∧ Acc (fun b a => step a b) a := by
    intro a hchain
    obtain ⟨b, hstep, -⟩ := TransGen.head'_iff.mp hchain
    exact hcycle a hstep.2 hchain
  refine hacyclic.induction hinj (fun a b hstep => hbound a b hstep.1)
    (P := fun fuel a => Acc (fun b a => step a b) a → P fuel a) ?_ hfuel ha hends
  intro fuel a _ ih hends
  exact h fuel a fun b hstep => ih b (.single ⟨hstep, hends⟩) (hends.inv hstep)

end Descendants

/-! ## References inside the tree -/

def Decl.refs (d : Decl) : List Ref :=
  d.parent.toList.map .decl ++ d.kind.refs

namespace Ast

variable {ast : Ast}
variable {id : TypeId} {kind : TypeKind} {r : Ref}

theorem firstMissing?_eq_none_iff : ast.firstMissing? = none ↔ ast.Valid := by
  simp [firstMissing?, Valid]

theorem isSome_decl? {id : DeclId} : (ast.decl? id).isSome ↔ ast.inRange (.decl id) := by
  simp [decl?, inRange]

theorem isSome_stmt? {id : StmtId} : (ast.stmt? id).isSome ↔ ast.inRange (.stmt id) := by
  simp [stmt?, inRange]

theorem isSome_expr? {id : ExprId} : (ast.expr? id).isSome ↔ ast.inRange (.expr id) := by
  simp [expr?, inRange]

theorem isSome_type? : (ast.type? id).isSome ↔ ast.inRange (.type id) := by
  simp [type?, inRange]

theorem inRange_of_decl? {id : DeclId} (h : ast.decl? id = some d) : ast.inRange (.decl id) := by
  rw [← isSome_decl?, h]
  rfl

def Holds (ast : Ast) (r : Ref) : Prop :=
  (∃ id ∈ ast.topLevel, r = .decl id) ∨ (∃ d ∈ ast.decls, r ∈ d.refs) ∨
    (∃ s ∈ ast.stmts, r ∈ s.kind.refs) ∨ (∃ e ∈ ast.exprs, r ∈ .type e.type :: e.kind.refs) ∨
    ∃ t ∈ ast.types, r ∈ t.kind.refs

theorem mem_arenaReferences {category : String} {detail : α → String} {refs : α → List Ref}
    {nodes : Array α} :
    (∃ x ∈ arenaReferences category detail refs nodes, x.target = r) ↔ ∃ n ∈ nodes, r ∈ refs n := by
  constructor
  · rintro ⟨x, hx, rfl⟩
    obtain ⟨⟨n, i⟩, hn, hx⟩ := List.mem_flatMap.mp hx
    obtain ⟨r, hr, rfl⟩ := List.mem_map.mp hx
    exact ⟨n, by simpa using List.fst_mem_of_mem_zipIdx hn, hr⟩
  · rintro ⟨n, hn, hr⟩
    obtain ⟨i, hi⟩ := Array.mem_iff_getElem?.mp hn
    refine ⟨_, List.mem_flatMap.mpr ⟨(n, i), ?_, List.mem_map.mpr ⟨r, hr, rfl⟩⟩, rfl⟩
    simpa [List.mem_zipIdx_iff_getElem?] using hi

theorem valid_iff : ast.Valid ↔ ∀ r, ast.Holds r → ast.inRange r := by
  have hheld : ∀ r, ast.Holds r ↔ ∃ x ∈ ast.references, x.target = r := by
    intro r
    simp only [references, List.mem_append, or_and_right, exists_or, mem_arenaReferences, or_assoc,
      List.mem_map]
    simp [Holds, Decl.refs, eq_comm]
  simp only [hheld]
  constructor
  · rintro h r ⟨x, hx, rfl⟩
    exact h x hx
  · exact fun h x hx => h _ ⟨x, hx, rfl⟩

namespace Valid

-- What a node refers to is read off its kind, which is known where such a reference is needed.
variable {r : Ref} {id : DeclId} {e : Expr} {d : Decl}

theorem ofHolds (hv : ast.Valid) (hr : ast.Holds r) : ast.inRange r :=
  valid_iff.mp hv r hr

theorem topLevel (hv : ast.Valid) (hid : id ∈ ast.topLevel) : ast.inRange (.decl id) :=
  hv.ofHolds (.inl ⟨id, hid, rfl⟩)

theorem ofDeclRefs (hv : ast.Valid) (hd : ast.decl? id = some d) (hr : r ∈ d.refs) : ast.inRange r :=
  hv.ofHolds (.inr (.inl ⟨d, Array.mem_of_getElem? hd, hr⟩))

theorem ofDecl (hv : ast.Valid) (hd : ast.decl? id = some d) (hr : r ∈ d.kind.refs) :
    ast.inRange r :=
  hv.ofDeclRefs hd (List.mem_append_right _ hr)

theorem parent (hv : ast.Valid) {parent : DeclId} (hd : ast.decl? id = some d)
    (hp : d.parent = some parent) : ast.inRange (.decl parent) :=
  hv.ofDeclRefs hd (by simp [Decl.refs, hp])

theorem ofStmt (hv : ast.Valid) {id : StmtId} {s : Stmt} (hs : ast.stmt? id = some s)
    (hr : r ∈ s.kind.refs) : ast.inRange r :=
  hv.ofHolds (.inr (.inr (.inl ⟨s, Array.mem_of_getElem? hs, hr⟩)))

theorem ofExprRefs (hv : ast.Valid) {id : ExprId} (he : ast.expr? id = some e)
    (hr : r ∈ .type e.type :: e.kind.refs) : ast.inRange r :=
  hv.ofHolds (.inr (.inr (.inr (.inl ⟨e, Array.mem_of_getElem? he, hr⟩))))

theorem ofExpr (hv : ast.Valid) {id : ExprId} (he : ast.expr? id = some e)
    (hr : r ∈ e.kind.refs) : ast.inRange r :=
  hv.ofExprRefs he (List.mem_cons_of_mem _ hr)

theorem typeOfExpr (hv : ast.Valid) {id : ExprId} (he : ast.expr? id = some e) :
    ast.inRange (.type e.type) :=
  hv.ofExprRefs he (List.mem_cons_self ..)

theorem ofType (hv : ast.Valid) {id : TypeId} {t : Ty} (ht : ast.type? id = some t)
    (hr : r ∈ t.kind.refs) : ast.inRange r :=
  hv.ofHolds (.inr (.inr (.inr (.inr ⟨t, Array.mem_of_getElem? ht, hr⟩))))

end Valid

/-! ## Steps from node to node -/

def TypeStep (ast : Ast) (a b : TypeId) : Prop :=
  ∃ t, ast.type? a = some t ∧ .type b ∈ t.kind.refs

/-- A typedef leads to the type that it stands for, and an instance of a template to its own type. -/
def AliasStep (ast : Ast) (a b : TypeId) : Prop :=
  ∃ t, ast.type? a = some t ∧
    ((∃ d, t.kind = .typedef d b) ∨ ∃ name, t.kind = .specialization name (some b))

theorem AliasStep.typeStep {a b : TypeId} (h : ast.AliasStep a b) : ast.TypeStep a b := by
  obtain ⟨t, ht, ⟨d, hkind⟩ | ⟨name, hkind⟩⟩ := h
  · exact ⟨t, ht, by simp [hkind]⟩
  · exact ⟨t, ht, by simp [hkind]⟩

def ExprStep (ast : Ast) (a b : ExprId) : Prop :=
  ∃ e, ast.expr? a = some e ∧ .expr b ∈ e.kind.refs

def StmtStep (ast : Ast) (a b : StmtId) : Prop :=
  ∃ s, ast.stmt? a = some s ∧ .stmt b ∈ s.kind.refs

def ParentStep (ast : Ast) (a b : DeclId) : Prop :=
  ∃ d, ast.decl? a = some d ∧ d.parent = some b

def MemberStep (ast : Ast) (a b : DeclId) : Prop :=
  ∃ d r, ast.decl? a = some d ∧ d.kind = .record r ∧ b ∈ r.members

def ScopeStep (ast : Ast) (a b : DeclId) : Prop :=
  ∃ d, ast.decl? a = some d ∧
    ((∃ ids, d.kind = .scope ids ∧ b ∈ ids) ∨ ∃ l ids, d.kind = .linkageSpec l ids ∧ b ∈ ids)

/-! ## Types behind typedefs -/

theorem reaches_of_canonicalFrom {fuel : Nat} (h : ast.canonicalFrom fuel id = some target) :
    ReflTransGen ast.TypeStep id target := by
  induction fuel generalizing id with
  | zero => cases h
  | succ fuel ih =>
    simp only [canonicalFrom, bind, Option.bind_eq_some_iff] at h
    obtain ⟨t, ht, h⟩ := h
    split at h
    · rename_i hkind
      exact .head ⟨t, ht, by simp [hkind]⟩ (ih h)
    · rename_i hkind
      exact .head ⟨t, ht, by simp [hkind]⟩ (ih h)
    · cases h
      exact .refl

theorem exists_of_canonicalKind? (h : ast.canonicalKind? id = some kind) :
    ∃ target t, ast.canonical? id = some target ∧ ast.type? target = some t ∧ t.kind = kind := by
  simp only [canonicalKind?, bind, pure, Option.bind_eq_some_iff, Option.some.injEq] at h
  obtain ⟨target, htarget, t, ht, hkind⟩ := h
  exact ⟨target, t, htarget, ht, hkind⟩

theorem chain_of_canonicalKind? (h : ast.canonicalKind? id = some kind) (hb : .type b ∈ kind.refs) :
    TransGen ast.TypeStep id b := by
  obtain ⟨target, t, htarget, ht, rfl⟩ := exists_of_canonicalKind? h
  exact .tail' (reaches_of_canonicalFrom htarget) ⟨t, ht, hb⟩

theorem Valid.ofCanonicalKind (hv : ast.Valid) (h : ast.canonicalKind? id = some kind)
    (hr : r ∈ kind.refs) : ast.inRange r := by
  obtain ⟨target, t, -, ht, rfl⟩ := exists_of_canonicalKind? h
  exact hv.ofType ht hr

theorem Valid.ofRecordOf (hv : ast.Valid) (h : ast.recordOf? id = some (some record)) :
    ast.inRange (.decl record) := by
  simp only [recordOf?, bind, pure, Option.bind_eq_some_iff] at h
  obtain ⟨kind, hkind, h⟩ := h
  split at h
  · cases h
    exact hv.ofCanonicalKind hkind (by simp [*])
  · cases h

end Ast

end Interop.Native

namespace Interop.Binding

open Native Relation

variable {ast : Ast} {id : DeclId}

/-- The definition of a record, which is the record itself if the tree has no other one. -/
def definitionIn (ast : Ast) (id : DeclId) : DeclId :=
  ((definitionsOf ast).lookup id).getD id

theorem definitionIn_of_isRecordDefinition (h : Symbols.IsRecordDefinition ast id) :
    definitionIn ast id = id := by
  rw [definitionIn, Symbols.lookup_definitionsOf_eq_none h]
  rfl

theorem Symbols.Describes.definition_eq {s : Symbols} (hs : s.Describes ast settings) :
    s.definition = definitionIn ast := by
  funext id
  rw [Symbols.definition, definitionIn, hs.definitions]

def BaseStep (ast : Ast) (a b : DeclId) : Prop :=
  ∃ d r base id, ast.decl? a = some d ∧ d.kind = .record r ∧ base ∈ r.bases ∧
    ast.recordOf? base.type = some (some id) ∧ b = definitionIn ast id

theorem inRange_definitionIn (hid : ast.inRange (.decl id)) : ast.inRange (.decl (definitionIn ast id)) := by
  unfold definitionIn
  cases h : (definitionsOf ast).lookup id with
  | none => exact hid
  | some target =>
    obtain ⟨d, r, hd, -, -⟩ := Symbols.isRecordDefinition_of_mem (mem_of_lookup h)
    exact Ast.inRange_of_decl? hd

/-- No chain of references of one kind comes back to its start. A record may list itself among its
members without being its own parent, so the members are a kind of their own. -/
structure Acyclic (ast : Ast) : Prop where
  types : IsAcyclic ast.TypeStep
  parents : IsAcyclic ast.ParentStep
  bases : IsAcyclic (BaseStep ast)
  members : IsAcyclic ast.MemberStep
  stmts : IsAcyclic ast.StmtStep
  exprs : IsAcyclic ast.ExprStep
  scopes : IsAcyclic ast.ScopeStep

/-- A record whose base is a typedef that stands for itself. -/
def endless : Ast where
  file := "loop.h"
  topLevel := [⟨0⟩, ⟨1⟩]
  decls :=
    #[{ kind := .typedef ⟨0⟩, name := "Loop" },
      { kind := .record { tag := .struct, bases := [{ type := ⟨0⟩ }] }, name := "Ring" }]
  types := #[{ kind := .typedef ⟨0⟩ ⟨0⟩, spelling := "Loop" }]

/-- Every reference leads to a node, and every chain of references ends. -/
structure Intact (ast : Ast) : Prop where
  valid : ast.Valid
  acyclic : Acyclic ast

/-! ## Walks through the arenas -/

section Walks

variable {ast : Ast} {fuel : Nat}

@[elab_as_elim]
theorem Intact.type_induction (hi : Intact ast) {P : Nat → TypeId → Prop}
    (h : ∀ fuel a, ast.inRange (.type a) → (∀ b, TransGen ast.TypeStep a b → P fuel b) → P (fuel + 1) a)
    (hfuel : ast.types.size ≤ fuel) {a : TypeId} (hr : ast.inRange (.type a)) : P fuel a := by
  have hinj : TypeId.index.Injective := fun ⟨_⟩ ⟨_⟩ h => congrArg TypeId.mk h
  simp only [Ast.inRange, decide_eq_true_eq] at h hr
  refine hi.acyclic.types.induction hinj ?_ h hfuel hr
  rintro a b ⟨t, ht, hb⟩
  simpa [Ast.inRange] using hi.valid.ofType ht hb

@[elab_as_elim]
theorem Intact.expr_induction (hi : Intact ast) {P : Nat → ExprId → Prop}
    (h : ∀ fuel a, ast.inRange (.expr a) → (∀ b, TransGen ast.ExprStep a b → P fuel b) → P (fuel + 1) a)
    (hfuel : ast.exprs.size ≤ fuel) {a : ExprId} (hr : ast.inRange (.expr a)) : P fuel a := by
  have hinj : ExprId.index.Injective := fun ⟨_⟩ ⟨_⟩ h => congrArg ExprId.mk h
  simp only [Ast.inRange, decide_eq_true_eq] at h hr
  refine hi.acyclic.exprs.induction hinj ?_ h hfuel hr
  rintro a b ⟨e, he, hb⟩
  simpa [Ast.inRange] using hi.valid.ofExpr he hb

@[elab_as_elim]
theorem Intact.stmt_induction (hi : Intact ast) {P : Nat → StmtId → Prop}
    (h : ∀ fuel a, ast.inRange (.stmt a) → (∀ b, TransGen ast.StmtStep a b → P fuel b) → P (fuel + 1) a)
    (hfuel : ast.stmts.size ≤ fuel) {a : StmtId} (hr : ast.inRange (.stmt a)) : P fuel a := by
  have hinj : StmtId.index.Injective := fun ⟨_⟩ ⟨_⟩ h => congrArg StmtId.mk h
  simp only [Ast.inRange, decide_eq_true_eq] at h hr
  refine hi.acyclic.stmts.induction hinj ?_ h hfuel hr
  rintro a b ⟨s, hs, hb⟩
  simpa [Ast.inRange] using hi.valid.ofStmt hs hb

@[elab_as_elim]
theorem decl_induction {step : DeclId → DeclId → Prop} (hacyclic : IsAcyclic step)
    (hbound : ∀ a b, step a b → ast.inRange (.decl b)) {P : Nat → DeclId → Prop}
    (h : ∀ fuel a, ast.inRange (.decl a) → (∀ b, step a b → P fuel b) → P (fuel + 1) a)
    (hfuel : ast.decls.size ≤ fuel) {a : DeclId} (hr : ast.inRange (.decl a)) : P fuel a := by
  have hinj : DeclId.index.Injective := fun ⟨_⟩ ⟨_⟩ h => congrArg DeclId.mk h
  simp only [Ast.inRange, decide_eq_true_eq] at h hbound hr
  exact hacyclic.induction hinj hbound
    (fun fuel a ha hbelow => h fuel a ha fun b hb => hbelow b (.single hb)) hfuel hr

theorem inRange_of_parentStep (hv : ast.Valid) (a b : DeclId) (h : ast.ParentStep a b) :
    ast.inRange (.decl b) := by
  obtain ⟨d, hd, hparent⟩ := h
  exact hv.parent hd hparent

theorem inRange_of_memberStep (hv : ast.Valid) (a b : DeclId) (h : ast.MemberStep a b) :
    ast.inRange (.decl b) := by
  obtain ⟨d, r, hd, hkind, hb⟩ := h
  exact hv.ofDecl hd (by simp [*])

theorem inRange_of_scopeStep (hv : ast.Valid) (a b : DeclId) (h : ast.ScopeStep a b) :
    ast.inRange (.decl b) := by
  obtain ⟨d, hd, ⟨ids, hkind, hb⟩ | ⟨l, ids, hkind, hb⟩⟩ := h
  · exact hv.ofDecl hd (by simp [*])
  · exact hv.ofDecl hd (by simp [*])

theorem inRange_of_baseStep (hv : ast.Valid) (a b : DeclId) (h : BaseStep ast a b) :
    ast.inRange (.decl b) := by
  obtain ⟨d, r, base, id, -, -, -, hrecord, rfl⟩ := h
  exact inRange_definitionIn (hv.ofRecordOf hrecord)

end Walks

end Interop.Binding
