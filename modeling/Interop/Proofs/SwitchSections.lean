import Interop.Proofs.Completion.Statements

/-!
# Switches keep the order of their labels and statements

`Ast.SwitchItems` reads the body of a switch as one sequence: the labels, each chain of them taken
apart, and the statements that are not empty. The sections that are emitted are the same sequence, cut
where a label comes after a statement (`switch_sections_keep_order`). `Gathers` is what holds between
the sections and the sequence so far, and `Gathers.addToSections` is the step of the induction over the
body.
-/

namespace Interop.Native

/-! ## The body of a switch -/

/-- A label without a value is the default one. -/
inductive SwitchItem where
  | label (value : Option ExprId)
  | statement (id : StmtId)

/-- Labels, and the statements up to the next ones. -/
structure SwitchPart where
  labels : List (Option ExprId)
  statements : List StmtId

def SwitchPart.items (p : SwitchPart) : List SwitchItem :=
  p.labels.map .label ++ p.statements.map .statement

def StmtKind.isLabel : StmtKind → Bool
  | .caseLabel _ _ | .defaultLabel _ => true
  | _ => false

namespace Ast

def isEmptyAt (ast : Ast) (id : StmtId) : Bool :=
  (ast.stmt? id).any (·.kind == .empty)

def nonempty (ast : Ast) (ids : List StmtId) : List StmtId :=
  ids.filter (!ast.isEmptyAt ·)

/-- The labels in front of a statement, and the statement unless it is empty. -/
inductive Unfolds (ast : Ast) : StmtId → SwitchPart → Prop
  | caseLabel {id body : StmtId} {s : Stmt} {value : ExprId} {part : SwitchPart}
      (hs : ast.stmt? id = some s) (hkind : s.kind = .caseLabel value body)
      (rest : Unfolds ast body part) : Unfolds ast id ⟨some value :: part.labels, part.statements⟩
  | defaultLabel {id body : StmtId} {s : Stmt} {part : SwitchPart}
      (hs : ast.stmt? id = some s) (hkind : s.kind = .defaultLabel body)
      (rest : Unfolds ast body part) : Unfolds ast id ⟨none :: part.labels, part.statements⟩
  | statement {id : StmtId} {s : Stmt} (hs : ast.stmt? id = some s) (hlabel : s.kind.isLabel = false) :
      Unfolds ast id ⟨[], ast.nonempty [id]⟩

/-- The statements right in the body of a switch: those of a block, or the one that is the body. -/
def switchChildren (ast : Ast) (body : StmtId) : List StmtId :=
  match (ast.stmt? body).map Stmt.kind with
  | some (.compound children) => children
  | _ => [body]

/-- **The sequence of labels and statements** that the body of a switch is. -/
def SwitchItems (ast : Ast) (body : StmtId) (items : List SwitchItem) : Prop :=
  ∃ parts, List.Forall₂ ast.Unfolds (ast.switchChildren body) parts ∧
    items = parts.flatMap SwitchPart.items

/-- The statements that stand in braces for a body: those of a block, or the one that is the body. -/
def blockAt (ast : Ast) (id : StmtId) : List StmtId :=
  match (ast.stmt? id).map Stmt.kind with
  | some (.compound children) => ast.nonempty children
  | _ => [id]

end Ast

end Interop.Native

namespace Interop.Binding

open Native (Ast ExprId StmtId StmtKind SwitchItem SwitchPart)
open Emit
open Managed (Label)

variable {env : Env} {scope : Scope} {id body : StmtId} {out : List Managed.Stmt} {items : List SwitchItem}
  {part : SwitchPart}

/-! ## Emitted labels and statements -/

def IsLabel (env : Env) (scope : Scope) : Option ExprId → Label → Prop
  | some value, .value e => (emitValue value).Gives env scope e
  | none, .otherwise => True
  | _, _ => False

def IsStatement (env : Env) (scope : Scope) (id : StmtId) (out : Managed.Stmt) : Prop :=
  ∃ depth, (nestedTo depth id).Gives env scope out

/-- What stands in the braces of a section with these statements. A block supplies its own, and a
section without statements leaves the switch. -/
def IsSectionBody (env : Env) (scope : Scope) : List StmtId → List Managed.Stmt → Prop
  | [], out => out = [.breakOut]
  | [single], out => List.Forall₂ (IsStatement env scope) (env.ast.blockAt single) out
  | many, out => List.Forall₂ (IsStatement env scope) many out

structure IsSection (env : Env) (scope : Scope) (part : SwitchPart)
    (out : List Label × List Managed.Stmt) : Prop where
  labels : List.Forall₂ (IsLabel env scope) part.labels out.1
  body : IsSectionBody env scope part.statements out.2

/-! ## Gathering sections -/

theorem isEmptyAt_of_isEmptyStmt (h : (isEmptyStmt id).Gives env scope isEmpty) :
    isEmpty = env.ast.isEmptyAt id := by
  simp only [isEmptyStmt, gives_bind, gives_stmtOf, gives_pure] at h
  obtain ⟨s, hs, rfl⟩ := h
  simp [Ast.isEmptyAt, hs]

theorem isEmptySection_iff {s : Section} (h : s.isEmpty.Gives env scope isEmpty) :
    isEmpty = true ↔ env.ast.nonempty s.body = [] := by
  simp only [Section.isEmpty, gives_bind, gives_pure, gives_forEach] at h
  obtain ⟨flags, hflags, rfl⟩ := h
  generalize s.body = body at hflags ⊢
  have hmap : flags = body.map env.ast.isEmptyAt := by
    induction hflags with
    | nil => rfl
    | cons hfirst _ ih => rw [List.map_cons, ← isEmptyAt_of_isEmptyStmt hfirst, ← ih]
  simp [hmap, Ast.nonempty]

theorem unfolds_of_peelLabels {inner : StmtId} (h : (peelLabels fuel id).Gives env scope (labels, inner)) :
    ∃ values, List.Forall₂ (IsLabel env scope) values labels ∧
      env.ast.Unfolds id ⟨values, env.ast.nonempty [inner]⟩ := by
  induction fuel generalizing id labels with
  | zero => simp [peelLabels] at h
  | succ fuel ih =>
    simp only [peelLabels, gives_bind, gives_stmtOf] at h
    obtain ⟨s, hs, h⟩ := h
    split at h
    · rename_i value body hkind
      simp only [gives_bind, gives_pure, Prod.mk.injEq] at h
      obtain ⟨e, he, ⟨labels', inner'⟩, hrest, rfl, rfl⟩ := h
      obtain ⟨values, hvalues, hunfolds⟩ := ih hrest
      exact ⟨some value :: values, .cons he hvalues, .caseLabel hs hkind hunfolds⟩
    · rename_i body hkind
      simp only [gives_bind, gives_pure, Prod.mk.injEq] at h
      obtain ⟨⟨labels', inner'⟩, hrest, rfl, rfl⟩ := h
      obtain ⟨values, hvalues, hunfolds⟩ := ih hrest
      exact ⟨none :: values, .cons trivial hvalues, .defaultLabel hs hkind hunfolds⟩
    · simp only [gives_pure, Prod.mk.injEq] at h
      obtain ⟨rfl, rfl⟩ := h
      have hlabel : s.kind.isLabel = false := by
        cases hkind : s.kind <;> first | rfl | simp_all
      exact ⟨[], .nil, .statement hs hlabel⟩

/-- A gathered section has the labels of the part and, apart from empty ones, its statements. -/
structure IsGathered (env : Env) (scope : Scope) (part : SwitchPart) (s : Section) : Prop where
  labels : List.Forall₂ (IsLabel env scope) part.labels s.labels
  body : env.ast.nonempty s.body = part.statements

/-- The sections, the last of which stands first, divide the labels and statements so far. Every section
has labels, and each one but the last has statements. -/
structure Gathers (env : Env) (scope : Scope) (done : List Section) (parts : List SwitchPart)
    (items : List SwitchItem) : Prop where
  gathered : List.Forall₂ (IsGathered env scope) parts done
  labelled : ∀ p ∈ parts, p.labels ≠ []
  filled : ∀ p ∈ parts.tail, p.statements ≠ []
  items_eq : parts.reverse.flatMap SwitchPart.items = items

/-- What is added to the sections stands behind all that was there. -/
theorem Gathers.addToSections (hdone : Gathers env scope done parts items)
    (hlabels : List.Forall₂ (IsLabel env scope) values labels)
    (h : (addToSections location labels id done).Gives env scope all) :
    ∃ next, Gathers env scope all next (items ++ SwitchPart.items ⟨values, env.ast.nonempty [id]⟩) := by
  obtain ⟨hgathered, hlabelled, hfilled, rfl⟩ := hdone
  have hempty : labels.isEmpty = true ↔ values = [] := by
    cases hlabels <;> simp
  generalize hid : env.ast.nonempty [id] = added
  cases hgathered with
  | nil =>
    simp only [Binding.addToSections] at h
    split at h
    · exact absurd h not_gives_unsupported
    · rename_i hne
      obtain rfl := gives_pure.mp h
      exact ⟨[⟨values, added⟩], .cons ⟨hlabels, hid⟩ .nil, by simpa using mt hempty.mpr hne, by simp,
        by simp⟩
  | @cons part last before done hlast hbefore =>
    obtain ⟨hpart, hbeforeLabels⟩ := List.forall_mem_cons.mp hlabelled
    simp only [Binding.addToSections] at h
    have hbody : env.ast.nonempty (last.body ++ [id]) = part.statements ++ added := by
      rw [← hlast.body, ← hid]
      exact List.filter_append ..
    split at h
    · rename_i hnone
      obtain rfl := gives_pure.mp h
      exact ⟨⟨part.labels, part.statements ++ added⟩ :: before, .cons ⟨hlast.labels, hbody⟩ hbefore,
        List.forall_mem_cons.mpr ⟨hpart, hbeforeLabels⟩, hfilled,
        by simp [SwitchPart.items, hempty.mp hnone]⟩
    · rename_i hne
      have hvalues : values ≠ [] := mt hempty.mpr hne
      obtain ⟨isEmpty, hisEmpty, h⟩ := gives_bind.mp h
      have hstatements : isEmpty = true ↔ part.statements = [] := by
        rw [isEmptySection_iff hisEmpty, hlast.body]
      split at h
      · rename_i hyes
        obtain rfl := gives_pure.mp h
        have hnone := hstatements.mp hyes
        exact ⟨⟨part.labels ++ values, part.statements ++ added⟩ :: before,
          .cons ⟨List.rel_append hlast.labels hlabels, hbody⟩ hbefore,
          List.forall_mem_cons.mpr ⟨by simp [hpart], hbeforeLabels⟩, hfilled,
          by simp [SwitchPart.items, hnone]⟩
      · rename_i hno
        obtain rfl := gives_pure.mp h
        exact ⟨⟨values, added⟩ :: part :: before, .cons ⟨hlabels, hid⟩ (.cons hlast hbefore),
          List.forall_mem_cons.mpr ⟨hvalues, hlabelled⟩,
          List.forall_mem_cons.mpr ⟨mt hstatements.mpr hno, hfilled⟩, by simp⟩

/-- The sections that are gathered from a body divide the sequence of its labels and statements. -/
theorem Gathers.gatherSections (hdone : Gathers env scope done parts items)
    (h : (gatherSections location fuel children done).Gives env scope all) :
    ∃ next added, List.Forall₂ env.ast.Unfolds children added ∧
      Gathers env scope all next (items ++ added.flatMap SwitchPart.items) := by
  induction children generalizing parts done items with
  | nil =>
    obtain rfl := gives_pure.mp h
    exact ⟨parts, [], .nil, by simpa using hdone⟩
  | cons child rest ih =>
    simp only [Binding.gatherSections, gives_bind] at h
    obtain ⟨⟨labels, inner⟩, hpeel, between, hbetween, hrest⟩ := h
    obtain ⟨values, hvalues, hunfolds⟩ := unfolds_of_peelLabels hpeel
    obtain ⟨middle, hmiddle⟩ := hdone.addToSections hvalues hbetween
    obtain ⟨next, added, hadded, hnext⟩ := ih hmiddle hrest
    exact ⟨next, _, .cons hunfolds hadded, by simpa using hnext⟩

/-! ## The statements of a section -/

theorem statementsOf_nestedTo (h : (statementsOf (nestedTo depth) ids).Gives env scope out) :
    List.Forall₂ (IsStatement env scope) (env.ast.nonempty ids) out := by
  induction ids generalizing out with
  | nil =>
    obtain rfl := gives_pure.mp h
    exact .nil
  | cons id rest ih =>
    simp only [statementsOf, gives_bind] at h
    obtain ⟨isEmpty, hempty, h⟩ := h
    have hat := isEmptyAt_of_isEmptyStmt hempty
    split at h
    · rename_i hyes
      simpa [Ast.nonempty, ← hat, hyes] using ih h
    · rename_i hno
      simp only [gives_bind, gives_pure] at h
      obtain ⟨first, hfirst, others, hothers, rfl⟩ := h
      simpa [Ast.nonempty, ← hat, hno] using ⟨⟨depth, hfirst⟩, ih hothers⟩

theorem bodyOf_nestedTo (hid : env.ast.isEmptyAt id = false)
    (h : (bodyOf (nestedTo depth) id).Gives env scope out) :
    List.Forall₂ (IsStatement env scope) (env.ast.blockAt id) out := by
  simp only [bodyOf, gives_bind, gives_stmtOf] at h
  obtain ⟨s, hs, h⟩ := h
  cases hkind : s.kind with
  | compound children =>
    rw [hkind] at h
    simpa [Ast.blockAt, hs, hkind] using statementsOf_nestedTo h
  | _ =>
    rw [hkind] at h
    simpa [Ast.blockAt, Ast.nonempty, hs, hkind, hid] using statementsOf_nestedTo h

theorem kept_eq_filter (h : (forEach (fun id => return (id, ← isEmptyStmt id)) ids).Gives env scope flagged) :
    (flagged.filter (!·.2)).map (·.1) = env.ast.nonempty ids := by
  rw [gives_forEach] at h
  induction h with
  | nil => rfl
  | cons hfirst _ ih =>
    simp only [gives_bind, gives_pure] at hfirst
    obtain ⟨isEmpty, hempty, rfl⟩ := hfirst
    have hat := isEmptyAt_of_isEmptyStmt hempty
    cases isEmpty <;> simpa [Ast.nonempty, ← hat] using ih

theorem isSectionBody_of_sectionBody (hpart : IsGathered env scope part s)
    (h : (sectionBody (nestedTo depth) s).Gives env scope out) :
    IsSectionBody env scope part.statements out := by
  obtain ⟨flagged, hflagged, h⟩ := gives_bind.mp h
  rw [kept_eq_filter hflagged] at h
  have hfull : ∀ id ∈ env.ast.nonempty s.body, env.ast.isEmptyAt id = false := by
    simp [Ast.nonempty]
  rw [← hpart.body]
  generalize env.ast.nonempty s.body = ids at h hfull ⊢
  cases ids with
  | nil => exact (gives_pure.mp h).symm
  | cons first rest =>
    cases rest with
    | nil => exact bodyOf_nestedTo (hfull first (by simp)) h
    | cons second rest =>
      have hall := statementsOf_nestedTo h
      rwa [Ast.nonempty, List.filter_eq_self.mpr (by simpa using hfull)] at hall

theorem isSection_of_gathered (hparts : List.Forall₂ (IsGathered env scope) parts gathered)
    (h : List.Forall₂ (fun part out => out.1 = part.labels ∧
      (sectionBody (nestedTo depth) part).Gives env scope out.2) gathered sections) :
    List.Forall₂ (IsSection env scope) parts sections := by
  induction hparts generalizing sections with
  | nil =>
    cases h
    exact .nil
  | cons hfirst _ ih =>
    obtain _ | ⟨⟨hlabels, hbody⟩, hrest⟩ := h
    exact .cons ⟨hlabels ▸ hfirst.labels, isSectionBody_of_sectionBody hfirst hbody⟩ (ih hrest)

/-! ## Switches -/

theorem gives_switchRule {cond : ExprId} {out : Managed.Stmt}
    (h : (switchRule nested s cond body).Gives env scope out) :
    ∃ value sections gathered, out = .switch value sections ∧ (emitValue cond).Gives env scope value ∧
      (gatherSections s.location (env.ast.stmts.size + 1) (env.ast.switchChildren body) []).Gives
        env scope gathered ∧
      List.Forall₂ (fun part out => out.1 = part.labels ∧ (sectionBody nested part).Gives env scope out.2)
        gathered.reverse sections := by
  simp only [switchRule, gives_bind, gives_stmtOf, gives_ast, exists_eq_left, gives_pure] at h
  obtain ⟨value, hvalue, b, hb, gathered, hgathered, sections, hsections, rfl⟩ := h
  refine ⟨value, sections, gathered, rfl, hvalue, ?_, ?_⟩
  · cases hkind : b.kind <;> simpa [hkind, Ast.switchChildren, hb] using hgathered
  · refine (gives_forEach.mp hsections).imp fun part out hpart => ?_
    simp only [gives_bind, gives_pure] at hpart
    obtain ⟨stmts, hstmts, rfl⟩ := hpart
    exact ⟨rfl, hstmts⟩

theorem not_gives_of_statement_first (hfirst : env.ast.stmt? id = some first)
    (hlabel : first.kind.isLabel = false) :
    ¬ (gatherSections location fuel (id :: rest) []).Gives env scope all := by
  intro h
  simp only [gatherSections, gives_bind] at h
  obtain ⟨⟨labels, inner⟩, hpeel, between, hbetween, -⟩ := h
  cases fuel with
  | zero => simp [peelLabels] at hpeel
  | succ fuel =>
    simp only [peelLabels, gives_bind, gives_stmtOf, hfirst, Option.some.injEq, exists_eq_left'] at hpeel
    cases hkind : first.kind with
    | caseLabel | defaultLabel => simp [hkind, StmtKind.isLabel] at hlabel
    | _ =>
      simp only [hkind, gives_pure, Prod.mk.injEq] at hpeel
      obtain ⟨rfl, -⟩ := hpeel
      simp [addToSections] at hbetween

/-- **A switch keeps the order of its labels and statements.** The emitted sections, one after another,
are the labels and statements of the body; only the last section may have no statements, and is left then
by a statement of its own. A switch that starts with a statement is not emitted. -/
theorem switch_sections_keep_order {s : Native.Stmt} {cond : ExprId} (hs : env.ast.stmt? id = some s)
    (hkind : s.kind = .switch cond body) :
    (∀ out, IsStatement env scope id out → ∃ value sections items parts,
      out = .switch value sections ∧ (emitValue cond).Gives env scope value ∧
      env.ast.SwitchItems body items ∧ items = parts.flatMap SwitchPart.items ∧
      List.Forall₂ (IsSection env scope) parts sections ∧
      (∀ part ∈ parts, part.labels ≠ []) ∧ ∀ part ∈ parts.dropLast, part.statements ≠ []) ∧
    (∀ child first, (env.ast.switchChildren body).head? = some child →
      env.ast.stmt? child = some first → first.kind.isLabel = false →
      ∀ out, ¬ IsStatement env scope id out) := by
  have hrule : ∀ out, IsStatement env scope id out →
      ∃ depth, (switchRule (nestedTo depth) s cond body).Gives env scope out := by
    rintro out ⟨_ | depth, h⟩
    · simp [nestedTo] at h
    · simp only [nestedTo, stmtRule, gives_bind, gives_stmtOf, hs, Option.some.injEq, exists_eq_left',
        hkind] at h
      exact ⟨depth, h⟩
  constructor
  · intro out hout
    obtain ⟨depth, h⟩ := hrule out hout
    obtain ⟨value, sections, gathered, rfl, hvalue, hgathered, hsections⟩ := gives_switchRule h
    have hnone : Gathers env scope [] [] [] := ⟨.nil, by simp, by simp, rfl⟩
    obtain ⟨parts, added, hadded, hparts⟩ := hnone.gatherSections hgathered
    refine ⟨value, sections, _, parts.reverse, rfl, hvalue, ⟨added, hadded, rfl⟩, ?_, ?_, ?_, ?_⟩
    · exact hparts.items_eq.symm
    · exact isSection_of_gathered (List.rel_reverse hparts.gathered) hsections
    · simpa using hparts.labelled
    · simpa [List.dropLast_reverse] using hparts.filled
  · intro child first hchild hfirst hlabel out hout
    obtain ⟨depth, h⟩ := hrule out hout
    obtain ⟨_, _, gathered, -, -, hgathered, -⟩ := gives_switchRule h
    obtain ⟨rest, hchildren⟩ := List.head?_eq_some_iff.mp hchild
    rw [hchildren] at hgathered
    exact not_gives_of_statement_first hfirst hlabel hgathered

/-- A switch with an empty case, stacked labels, a statement behind a labelled one, a block, and a label
without statements at the end; and a switch that holds no label. -/
def gearbox : Env where
  ast :=
    { file := "gearbox.h"
      decls := #[{ kind := .param ⟨0⟩, name := "gear" }]
      types := #[.ofBuiltin .int]
      exprs :=
        #[{ kind := .declRef ⟨0⟩, type := ⟨0⟩ }, { kind := .integer "1", type := ⟨0⟩ },
          { kind := .integer "2", type := ⟨0⟩ }, { kind := .integer "3", type := ⟨0⟩ },
          { kind := .integer "4", type := ⟨0⟩ }]
      stmts :=
        #[{ kind := .empty }, { kind := .caseLabel ⟨1⟩ ⟨0⟩ }, { kind := .continueLoop },
          { kind := .defaultLabel ⟨2⟩ }, { kind := .caseLabel ⟨2⟩ ⟨3⟩ }, { kind := .ret none },
          { kind := .compound [⟨5⟩, ⟨0⟩] }, { kind := .caseLabel ⟨3⟩ ⟨6⟩ },
          { kind := .caseLabel ⟨4⟩ ⟨0⟩ }, { kind := .compound [⟨1⟩, ⟨4⟩, ⟨5⟩, ⟨7⟩, ⟨8⟩] },
          { kind := .switch ⟨0⟩ ⟨9⟩ }, { kind := .switch ⟨0⟩ ⟨5⟩ }] }
  settings := {}
  symbols := ⟨#["gear"], [], [], [], [], [], []⟩

def gearboxSwitch : Managed.Stmt :=
  .switch (.ident "gear")
    [([.value (.literal "1"), .value (.literal "2"), .otherwise], [.continueLoop, .ret none]),
      ([.value (.literal "3")], [.ret none]), ([.value (.literal "4")], [.breakOut])]

theorem gearbox_keeps_order :
    IsStatement gearbox {} ⟨10⟩ gearboxSwitch ∧
    (∃ value sections items parts, gearboxSwitch = .switch value sections ∧
      (emitValue ⟨0⟩).Gives gearbox {} value ∧ gearbox.ast.SwitchItems ⟨9⟩ items ∧
      items = parts.flatMap SwitchPart.items ∧ List.Forall₂ (IsSection gearbox {}) parts sections ∧
      (∀ part ∈ parts, part.labels ≠ []) ∧ ∀ part ∈ parts.dropLast, part.statements ≠ []) ∧
    ∀ out, ¬ IsStatement gearbox {} ⟨11⟩ out := by
  have hrun : (nestedTo 3 ⟨10⟩).run gearbox {} = (.ok gearboxSwitch, {}) := rfl
  have hout : IsStatement gearbox {} ⟨10⟩ gearboxSwitch := ⟨3, gives_of_run hrun⟩
  have hswitch : gearbox.ast.stmt? ⟨10⟩ = some ⟨.switch ⟨0⟩ ⟨9⟩, {}⟩ := rfl
  have hbare : gearbox.ast.stmt? ⟨11⟩ = some ⟨.switch ⟨0⟩ ⟨5⟩, {}⟩ := rfl
  exact ⟨hout, (switch_sections_keep_order hswitch rfl).1 _ hout,
    (switch_sections_keep_order hbare rfl).2 _ _ rfl rfl rfl⟩

end Interop.Binding
