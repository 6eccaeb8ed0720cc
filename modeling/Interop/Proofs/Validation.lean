import Interop.Proofs.Completion.References

/-!
# Validation is exact

`StoredAt` lists, field by field, where a syntax tree holds a reference. A place is the path to it: the arena,
the node, the field and the position in the field. `Enumerates` says that a list goes through what stands at
places in their order. The references of a tree do (`enumerates_references`), so the first one that leads
nowhere is found exactly if there is one.
-/

namespace Interop.Native

/-! ## Where references are stored -/

inductive DeclKind.Stores : DeclKind → (field item : Nat) → Ref → Prop
  | inScope (h : decls[i]? = some x) : Stores (.scope decls) 0 i (.decl x)
  | inLinkageSpec (h : decls[i]? = some x) : Stores (.linkageSpec linkage decls) 0 i (.decl x)
  | base (h : info.bases[i]? = some b) : Stores (.record info) 0 i (.type b.type)
  | member (h : info.members[i]? = some x) : Stores (.record info) 1 i (.decl x)
  | fieldType : Stores (.field info) 0 0 (.type info.type)
  | integerType : Stores (.enum info) 0 0 (.type info.integerType)
  | enumConstant (h : info.constants[i]? = some x) : Stores (.enum info) 1 i (.decl x)
  | constantInit : Stores (.constant value (some x)) 0 0 (.expr x)
  | functionType : Stores (.function info) 0 0 (.type info.type)
  | functionParam (h : info.params[i]? = some x) : Stores (.function info) 1 i (.decl x)
  | functionBody (h : info.body = some x) : Stores (.function info) 2 0 (.stmt x)
  | methodType : Stores (.method info) 0 0 (.type info.type)
  | methodParam (h : info.params[i]? = some x) : Stores (.method info) 1 i (.decl x)
  | methodBody (h : info.body = some x) : Stores (.method info) 2 0 (.stmt x)
  | constructorParam (h : params[i]? = some x) : Stores (.constructor params body) 0 i (.decl x)
  | constructorBody : Stores (.constructor params (some x)) 1 0 (.stmt x)
  | destructorBody : Stores (.destructor isVirtual (some x)) 0 0 (.stmt x)
  | paramType : Stores (.param type) 0 0 (.type type)
  | varType : Stores (.var info) 0 0 (.type info.type)
  | varInit (h : info.init = some x) : Stores (.var info) 1 0 (.expr x)
  | underlying : Stores (.typedef type) 0 0 (.type type)

/-- The condition of a loop or branch comes before its body, also where it is written behind it. -/
inductive StmtKind.Stores : StmtKind → (field item : Nat) → Ref → Prop
  | child (h : children[i]? = some x) : Stores (.compound children) 0 i (.stmt x)
  | declared (h : ds[i]? = some x) : Stores (.decls ds) 0 i (.decl x)
  | value : Stores (.expr x) 0 0 (.expr x)
  | returned : Stores (.ret (some x)) 0 0 (.expr x)
  | ifCond : Stores (.ifElse c thenBranch elseBranch) 0 0 (.expr c)
  | thenBranch : Stores (.ifElse c thenBranch elseBranch) 1 0 (.stmt thenBranch)
  | elseBranch : Stores (.ifElse c thenBranch (some x)) 2 0 (.stmt x)
  | whileCond : Stores (.whileLoop c body) 0 0 (.expr c)
  | whileBody : Stores (.whileLoop c body) 1 0 (.stmt body)
  | doCond : Stores (.doLoop body c) 0 0 (.expr c)
  | doBody : Stores (.doLoop body c) 1 0 (.stmt body)
  | forInit : Stores (.forLoop (some x) c inc body) 0 0 (.stmt x)
  | forCond : Stores (.forLoop init (some x) inc body) 1 0 (.expr x)
  | forInc : Stores (.forLoop init c (some x) body) 2 0 (.expr x)
  | forBody : Stores (.forLoop init c inc body) 3 0 (.stmt body)
  | switchCond : Stores (.switch c body) 0 0 (.expr c)
  | switchBody : Stores (.switch c body) 1 0 (.stmt body)
  | caseValue : Stores (.caseLabel value body) 0 0 (.expr value)
  | caseBody : Stores (.caseLabel value body) 1 0 (.stmt body)
  | defaultBody : Stores (.defaultLabel body) 0 0 (.stmt body)

inductive ExprKind.Stores : ExprKind → (field item : Nat) → Ref → Prop
  | used : Stores (.declRef x) 0 0 (.decl x)
  | inner : Stores (.paren x) 0 0 (.expr x)
  | operand : Stores (.unary op x) 0 0 (.expr x)
  | lhs : Stores (.binary op lhs rhs) 0 0 (.expr lhs)
  | rhs : Stores (.binary op lhs rhs) 1 0 (.expr rhs)
  | cond : Stores (.conditional c thenExpr elseExpr) 0 0 (.expr c)
  | thenExpr : Stores (.conditional c thenExpr elseExpr) 1 0 (.expr thenExpr)
  | elseExpr : Stores (.conditional c thenExpr elseExpr) 2 0 (.expr elseExpr)
  | callee : Stores (.call callee args) 0 0 (.expr callee)
  | arg (h : args[i]? = some x) : Stores (.call callee args) 1 i (.expr x)
  | memberBase : Stores (.member base target isArrow) 0 0 (.expr base)
  | member : Stores (.member base target isArrow) 1 0 (.decl target)
  | subscriptBase : Stores (.subscript base index) 0 0 (.expr base)
  | subscriptIndex : Stores (.subscript base index) 1 0 (.expr index)
  | converted : Stores (.implicitCast kind x) 0 0 (.expr x)
  | cast : Stores (.explicitCast style kind x) 0 0 (.expr x)
  | element (h : elements[i]? = some x) : Stores (.initList elements) 0 i (.expr x)
  | measured : Stores (.sizeOf x) 0 0 (.type x)

inductive TypeKind.Stores : TypeKind → (field item : Nat) → Ref → Prop
  | pointee : Stores (.pointer x) 0 0 (.type x)
  | lvalueReferent : Stores (.lvalueReference x) 0 0 (.type x)
  | rvalueReferent : Stores (.rvalueReference x) 0 0 (.type x)
  | arrayElement : Stores (.constantArray x size) 0 0 (.type x)
  | incompleteElement : Stores (.incompleteArray x) 0 0 (.type x)
  | result : Stores (.function proto) 0 0 (.type proto.result)
  | param (h : proto.params[i]? = some x) : Stores (.function proto) 1 i (.type x)
  | record : Stores (.record x) 0 0 (.decl x)
  | enumeration : Stores (.enum x) 0 0 (.decl x)
  | typedef : Stores (.typedef x type) 0 0 (.decl x)
  | underlying : Stores (.typedef x type) 1 0 (.type type)
  | instantiated : Stores (.specialization template (some x)) 0 0 (.type x)

/-- The reference at a place of the tree, with the name of the node that holds it. -/
inductive Ast.StoredAt (ast : Ast) : List Nat → Reference → Prop
  | topLevel (h : ast.topLevel[i]? = some x) : StoredAt ast [0, i] ⟨"translation unit", .decl x⟩
  | parent (hd : ast.decls[n]? = some d) (h : d.parent = some x) :
      StoredAt ast [1, n, 0, 0] ⟨holderName "declaration" n d.kind.title, .decl x⟩
  | decl (hd : ast.decls[n]? = some d) (h : d.kind.Stores f i r) :
      StoredAt ast [1, n, f + 1, i] ⟨holderName "declaration" n d.kind.title, r⟩
  | stmt (hs : ast.stmts[n]? = some s) (h : s.kind.Stores f i r) :
      StoredAt ast [2, n, f, i] ⟨holderName "statement" n s.kind.title, r⟩
  | typeOfExpr (he : ast.exprs[n]? = some e) :
      StoredAt ast [3, n, 0, 0] ⟨holderName "expression" n e.kind.title, .type e.type⟩
  | expr (he : ast.exprs[n]? = some e) (h : e.kind.Stores f i r) :
      StoredAt ast [3, n, f + 1, i] ⟨holderName "expression" n e.kind.title, r⟩
  | type (ht : ast.types[n]? = some t) (h : t.kind.Stores f i r) :
      StoredAt ast [4, n, f, i] ⟨holderName "type" n t.spelling, r⟩

/-! ## Lists that follow an order of places -/

/-- The list goes through all that stands at some place, in the order of the places. -/
def Enumerates (stands : List Nat → α → Prop) (l : List α) : Prop :=
  ∃ entries : List (List Nat × α), entries.map (·.2) = l ∧ entries.Pairwise (·.1 < ·.1) ∧
    ∀ place a, (place, a) ∈ entries ↔ stands place a

namespace Enumerates

variable {stands : List Nat → α → Prop} {l : List α}

theorem congr {stands' : List Nat → α → Prop} (h : Enumerates stands l)
    (hstands : ∀ place a, stands place a ↔ stands' place a) : Enumerates stands' l := by
  obtain ⟨entries, hl, hsorted, hentries⟩ := h
  exact ⟨entries, hl, hsorted, fun place a => (hentries place a).trans (hstands place a)⟩

theorem map (h : Enumerates stands l) (f : α → β) :
    Enumerates (fun place b => ∃ a, stands place a ∧ f a = b) (l.map f) := by
  obtain ⟨entries, rfl, hsorted, hentries⟩ := h
  refine ⟨entries.map fun entry => (entry.1, f entry.2), by simp, List.pairwise_map.mpr hsorted, ?_⟩
  intro place b
  simp only [List.mem_map, Prod.mk.injEq, Prod.exists, ← hentries]
  constructor
  · rintro ⟨p, a, ha, rfl, rfl⟩
    exact ⟨a, ha, rfl⟩
  · rintro ⟨a, ha, rfl⟩
    exact ⟨place, a, ha, rfl, rfl⟩

/-- Lists one after another: the number of the list comes first in a place. -/
theorem flatMap {l : List β} {g : β → List α} {R : β → List Nat → α → Prop}
    (h : ∀ x ∈ l, Enumerates (R x) (g x)) (start : Nat) :
    Enumerates (fun place a => ∃ i x rest, l[i]? = some x ∧ place = (start + i) :: rest ∧ R x rest a)
      (l.flatMap g) := by
  induction l generalizing start with
  | nil => exact ⟨[], rfl, .nil, by simp⟩
  | cons x l ih =>
    obtain ⟨first, hfirst, hsorted, hmem⟩ := h x (.head _)
    obtain ⟨later, hlater, hsorted', hmem'⟩ := ih (fun y hy => h y (.tail _ hy)) (start + 1)
    refine ⟨first.map (fun entry => (start :: entry.1, entry.2)) ++ later, ?_, ?_, ?_⟩
    · rw [List.map_append, List.map_map, List.flatMap_cons, ← hfirst, ← hlater]
      rfl
    · refine List.pairwise_append.mpr ⟨List.pairwise_map.mpr (hsorted.imp fun hlt => ?_), hsorted', ?_⟩
      · exact List.cons_lt_cons_iff.mpr (.inr ⟨rfl, hlt⟩)
      · intro a ha b hb
        obtain ⟨entry, -, rfl⟩ := List.mem_map.mp ha
        obtain ⟨i, y, rest, -, hplace, -⟩ := (hmem' b.1 b.2).mp hb
        rw [hplace]
        exact List.cons_lt_cons_iff.mpr (.inl (by omega))
    · intro place a
      rw [List.mem_append, hmem' place a]
      constructor
      · rintro (ha | ⟨i, y, rest, hy, rfl, hstands⟩)
        · obtain ⟨entry, hentry, heq⟩ := List.mem_map.mp ha
          obtain ⟨rfl, rfl⟩ := Prod.mk.inj heq
          exact ⟨0, x, entry.1, rfl, rfl, (hmem _ _).mp hentry⟩
        · exact ⟨i + 1, y, rest, hy, by rw [Nat.add_assoc, Nat.add_comm 1], hstands⟩
      · rintro ⟨i, y, rest, hy, rfl, hstands⟩
        cases i with
        | zero =>
          obtain rfl := Option.some.inj hy
          exact .inl (List.mem_map.mpr ⟨(rest, a), (hmem _ _).mpr hstands, rfl⟩)
        | succ i => exact .inr ⟨i, y, rest, hy, by rw [Nat.add_assoc, Nat.add_comm 1], hstands⟩

theorem singleton (a : α) : Enumerates (fun place b => place = [] ∧ b = a) [a] :=
  ⟨[([], a)], rfl, List.pairwise_singleton _ _, by simp⟩

theorem list (l : List α) : Enumerates (fun place a => ∃ i, place = [i] ∧ l[i]? = some a) l := by
  have h := flatMap (l := l) (g := fun a => [a]) (fun a _ => singleton a) 0
  rw [List.flatMap_singleton'] at h
  refine h.congr fun place a => ?_
  simp only [Nat.zero_add]
  constructor
  · rintro ⟨i, x, rest, hx, rfl, rfl, rfl⟩
    exact ⟨i, rfl, hx⟩
  · rintro ⟨i, rfl, ha⟩
    exact ⟨i, a, [], ha, rfl, rfl, rfl⟩

theorem find?_eq_none_iff {p : α → Bool} (h : Enumerates stands l) :
    l.find? p = none ↔ ∀ place a, stands place a → p a = false := by
  obtain ⟨entries, rfl, -, hentries⟩ := h
  simp only [List.find?_eq_none, List.mem_map, Prod.exists, exists_eq_right, hentries]
  simp only [forall_exists_index, Bool.not_eq_true]
  exact forall_comm

/-- **What is found is the first**: it stands at a place, and nothing that is looked for stands before it. -/
theorem find?_eq_some_iff {p : α → Bool} (h : Enumerates stands l) :
    l.find? p = some a ↔ ∃ place, stands place a ∧ p a = true ∧
      ∀ earlier < place, ∀ b, stands earlier b → p b = false := by
  obtain ⟨entries, rfl, hsorted, hentries⟩ := h
  rw [List.find?_map]
  constructor
  · intro hfound
    obtain ⟨entry, hentry, rfl⟩ := Option.map_eq_some_iff.mp hfound
    obtain ⟨hp, before, behind, hsplit, hbefore⟩ := List.find?_eq_some_iff_append.mp hentry
    refine ⟨entry.1, (hentries _ _).mp (by simp [hsplit]), hp, fun earlier hlt b hb => ?_⟩
    rw [hsplit] at hsorted
    -- An entry that is not in front of the one found has no smaller place.
    have hmem := hsplit ▸ (hentries earlier b).mpr hb
    rcases List.mem_append.mp hmem with hmem | hmem
    · simpa using hbefore _ hmem
    · exfalso
      obtain ⟨-, hlater, -⟩ := List.pairwise_append.mp hsorted
      rcases List.mem_cons.mp hmem with rfl | hmem
      · exact List.lt_irrefl _ hlt
      · exact List.lt_irrefl _ (List.lt_trans hlt ((List.pairwise_cons.mp hlater).1 _ hmem))
  · rintro ⟨place, ha, hp, hbefore⟩
    obtain ⟨front, behind, hsplit⟩ := List.append_of_mem ((hentries place a).mpr ha)
    refine Option.map_eq_some_iff.mpr ⟨(place, a), ?_, rfl⟩
    refine List.find?_eq_some_iff_append.mpr ⟨hp, front, behind, hsplit, fun entry hentry => ?_⟩
    rw [hsplit] at hsorted
    have hlt := (List.pairwise_append.mp hsorted).2.2 entry hentry _ (.head _)
    have hstands := (hentries entry.1 entry.2).mp (by simp [hsplit, hentry])
    simpa using hbefore entry.1 hlt entry.2 hstands

end Enumerates

/-! ## The references of a node -/

def DeclKind.fields : DeclKind → List (List Ref)
  | .scope decls | .linkageSpec _ decls => [decls.map .decl]
  | .record info => [info.bases.map fun b => .type b.type, info.members.map .decl]
  | .enum info => [[.type info.integerType], info.constants.map .decl]
  | .constant _ init => [init.toList.map .expr]
  | .function ⟨type, params, body, _, _, _⟩ | .method ⟨type, params, body, _, _, _, _⟩ =>
    [[.type type], params.map .decl, body.toList.map .stmt]
  | .constructor params body => [params.map .decl, body.toList.map .stmt]
  | .destructor _ body => [body.toList.map .stmt]
  | .field ⟨type, _, _⟩ | .param type | .typedef type => [[.type type]]
  | .var info => [[.type info.type], info.init.toList.map .expr]
  | .other _ => []

def StmtKind.fields : StmtKind → List (List Ref)
  | .compound children => [children.map .stmt]
  | .decls ds => [ds.map .decl]
  | .expr value => [[.expr value]]
  | .ret value => [value.toList.map .expr]
  | .ifElse cond thenBranch elseBranch =>
    [[.expr cond], [.stmt thenBranch], elseBranch.toList.map .stmt]
  | .whileLoop cond body | .doLoop body cond | .switch cond body | .caseLabel cond body =>
    [[.expr cond], [.stmt body]]
  | .forLoop init cond inc body =>
    [init.toList.map .stmt, cond.toList.map .expr, inc.toList.map .expr, [.stmt body]]
  | .defaultLabel body => [[.stmt body]]
  | .breakOut | .continueLoop | .empty | .other _ => []

def ExprKind.fields : ExprKind → List (List Ref)
  | .declRef decl => [[.decl decl]]
  | .paren e | .unary _ e | .implicitCast _ e | .explicitCast _ _ e => [[.expr e]]
  | .binary _ a b | .subscript a b => [[.expr a], [.expr b]]
  | .conditional cond thenExpr elseExpr => [[.expr cond], [.expr thenExpr], [.expr elseExpr]]
  | .call callee args => [[.expr callee], args.map .expr]
  | .member base target _ => [[.expr base], [.decl target]]
  | .initList elements => [elements.map .expr]
  | .sizeOf arg => [[.type arg]]
  | _ => []

def TypeKind.fields : TypeKind → List (List Ref)
  | .pointer t | .lvalueReference t | .rvalueReference t | .constantArray t _ | .incompleteArray t =>
    [[.type t]]
  | .function proto => [[.type proto.result], proto.params.map .type]
  | .record decl | .enum decl => [[.decl decl]]
  | .typedef decl type => [[.decl decl], [.type type]]
  | .specialization _ canonical => [canonical.toList.map .type]
  | .builtin _ | .unexposed => []

theorem DeclKind.flatten_fields (kind : DeclKind) : kind.fields.flatten = kind.refs := by
  cases kind <;> simp [fields]

theorem StmtKind.flatten_fields (kind : StmtKind) : kind.fields.flatten = kind.refs := by
  cases kind <;> simp [fields]

theorem ExprKind.flatten_fields (kind : ExprKind) : kind.fields.flatten = kind.refs := by
  cases kind <;> simp [fields]

theorem TypeKind.flatten_fields (kind : TypeKind) : kind.fields.flatten = kind.refs := by
  cases kind <;> simp [fields]

theorem getElem?_singleton_eq_some {a b : α} : [a][i]? = some b ↔ i = 0 ∧ a = b := by
  cases i <;> simp

theorem getElem?_toList_eq_some {o : Option α} {b : α} : o.toList[i]? = some b ↔ i = 0 ∧ o = some b := by
  cases o <;> cases i <;> simp

/-- The reference at a position of a field. -/
def IsInField (fields : List (List Ref)) (f i : Nat) (r : Ref) : Prop :=
  ∃ field ∈ fields[f]?, field[i]? = some r

theorem DeclKind.stores_iff {kind : DeclKind} : kind.Stores f i r ↔ IsInField kind.fields f i r := by
  constructor
  · intro h
    cases h <;> simp [IsInField, fields, *]
  · rintro ⟨field, hfield, hr⟩
    cases kind <;> rcases f with _ | _ | _ | f <;> cases hfield <;>
      simp only [getElem?_singleton_eq_some, getElem?_toList_eq_some, List.getElem?_map,
        Option.map_eq_some_iff] at hr <;>
      grind [DeclKind.Stores]

theorem StmtKind.stores_iff {kind : StmtKind} : kind.Stores f i r ↔ IsInField kind.fields f i r := by
  constructor
  · intro h
    cases h <;> simp [IsInField, fields, *]
  · rintro ⟨field, hfield, hr⟩
    cases kind <;> rcases f with _ | _ | _ | _ | f <;> cases hfield <;>
      simp only [getElem?_singleton_eq_some, getElem?_toList_eq_some, List.getElem?_map,
        Option.map_eq_some_iff] at hr <;>
      grind [StmtKind.Stores]

theorem ExprKind.stores_iff {kind : ExprKind} : kind.Stores f i r ↔ IsInField kind.fields f i r := by
  constructor
  · intro h
    cases h <;> simp [IsInField, fields, *]
  · rintro ⟨field, hfield, hr⟩
    cases kind <;> rcases f with _ | _ | _ | f <;> cases hfield <;>
      simp only [getElem?_singleton_eq_some, List.getElem?_map, Option.map_eq_some_iff] at hr <;>
      grind [ExprKind.Stores]

theorem TypeKind.stores_iff {kind : TypeKind} : kind.Stores f i r ↔ IsInField kind.fields f i r := by
  constructor
  · intro h
    cases h <;> simp [IsInField, fields, *]
  · rintro ⟨field, hfield, hr⟩
    cases kind <;> rcases f with _ | _ | f <;> cases hfield <;>
      simp only [getElem?_singleton_eq_some, getElem?_toList_eq_some, List.getElem?_map,
        Option.map_eq_some_iff] at hr <;>
      grind [TypeKind.Stores]

theorem enumerates_flatten (fields : List (List Ref)) :
    Enumerates (fun place r => ∃ f i, place = [f, i] ∧ IsInField fields f i r) fields.flatten := by
  have h := Enumerates.flatMap (l := fields) (g := id) (fun field _ => Enumerates.list field) 0
  rw [List.flatMap_id] at h
  refine h.congr fun place r => ?_
  simp only [Nat.zero_add, IsInField]
  constructor
  · rintro ⟨f, field, rest, hfield, rfl, i, rfl, hr⟩
    exact ⟨f, i, rfl, field, hfield, hr⟩
  · rintro ⟨f, i, rfl, field, hfield, hr⟩
    exact ⟨f, field, [i], hfield, rfl, i, rfl, hr⟩

/-! ## The references of a tree -/

theorem isInField_cons {field : List Ref} :
    IsInField (field :: fields) f i r ↔ (f = 0 ∧ field[i]? = some r) ∨ ∃ g, f = g + 1 ∧ IsInField fields g i r := by
  cases f <;> simp [IsInField]

theorem enumerates_arenaReferences {refs : α → List Ref} {stands : α → List Nat → Ref → Prop}
    (h : ∀ a, Enumerates (stands a) (refs a)) (category : String) (detail : α → String) (nodes : Array α) :
    Enumerates (fun place x => ∃ n a rest r, nodes[n]? = some a ∧ place = n :: rest ∧ stands a rest r ∧
        x = ⟨holderName category n (detail a), r⟩) (Ast.arenaReferences category detail refs nodes) := by
  have hnodes := Enumerates.flatMap (l := nodes.toList.zipIdx)
    (fun node _ => (h node.1).map (Reference.mk (holderName category node.2 (detail node.1)))) 0
  refine hnodes.congr fun place x => ?_
  simp only [Nat.zero_add, List.getElem?_zipIdx, Option.map_eq_some_iff, Array.getElem?_toList]
  constructor
  · rintro ⟨n, node, rest, ⟨a, ha, rfl⟩, rfl, r, hr, rfl⟩
    exact ⟨n, a, rest, r, ha, rfl, hr, rfl⟩
  · rintro ⟨n, a, rest, r, ha, rfl, hr, rfl⟩
    exact ⟨n, (a, n), rest, ⟨a, ha, rfl⟩, rfl, r, hr, rfl⟩

theorem enumerates_decl (d : Decl) :
    Enumerates (fun place r => ∃ f i, place = [f, i] ∧
        ((f = 0 ∧ i = 0 ∧ ∃ id, d.parent = some id ∧ .decl id = r) ∨ ∃ g, f = g + 1 ∧ d.kind.Stores g i r))
      (d.parent.toList.map .decl ++ d.kind.refs) := by
  rw [← DeclKind.flatten_fields, ← List.flatten_cons]
  refine (enumerates_flatten _).congr fun place r => ?_
  simp only [isInField_cons, List.getElem?_map, Option.map_eq_some_iff, getElem?_toList_eq_some, and_assoc,
    exists_and_left, DeclKind.stores_iff]

theorem enumerates_expr (e : Expr) :
    Enumerates (fun place r => ∃ f i, place = [f, i] ∧
        ((f = 0 ∧ i = 0 ∧ .type e.type = r) ∨ ∃ g, f = g + 1 ∧ e.kind.Stores g i r))
      (.type e.type :: e.kind.refs) := by
  rw [← ExprKind.flatten_fields, ← List.singleton_append, ← List.flatten_cons]
  refine (enumerates_flatten _).congr fun place r => ?_
  simp only [isInField_cons, getElem?_singleton_eq_some, ExprKind.stores_iff]

theorem enumerates_stmt (s : Stmt) :
    Enumerates (fun place r => ∃ f i, place = [f, i] ∧ s.kind.Stores f i r) s.kind.refs := by
  simp only [StmtKind.stores_iff, ← StmtKind.flatten_fields]
  exact enumerates_flatten _

theorem enumerates_type (t : Ty) :
    Enumerates (fun place r => ∃ f i, place = [f, i] ∧ t.kind.Stores f i r) t.kind.refs := by
  simp only [TypeKind.stores_iff, ← TypeKind.flatten_fields]
  exact enumerates_flatten _

/-- The references of a tree are checked in the order of their places. -/
theorem enumerates_references (ast : Ast) : Enumerates ast.StoredAt ast.references := by
  have htop := (Enumerates.list ast.topLevel).map fun id => Reference.mk "translation unit" (.decl id)
  have hdecls := enumerates_arenaReferences enumerates_decl "declaration" (·.kind.title) ast.decls
  have hstmts := enumerates_arenaReferences enumerates_stmt "statement" (·.kind.title) ast.stmts
  have hexprs := enumerates_arenaReferences enumerates_expr "expression" (·.kind.title) ast.exprs
  have htypes := enumerates_arenaReferences enumerates_type "type" (·.spelling) ast.types
  have h := Enumerates.flatMap (l := [(_, _), (_, _), (_, _), (_, _), (_, _)]) (g := Prod.fst) (R := Prod.snd)
    (List.forall_mem_cons.mpr ⟨htop, List.forall_mem_cons.mpr ⟨hdecls, List.forall_mem_cons.mpr ⟨hstmts,
      List.forall_mem_cons.mpr ⟨hexprs, List.forall_mem_singleton.mpr htypes⟩⟩⟩⟩) 0
  simp only [List.flatMap_cons, List.flatMap_nil, List.append_nil, ← List.append_assoc] at h
  refine h.congr fun place x => ?_
  simp only [Nat.zero_add]
  constructor
  · rintro ⟨arena, part, rest, hpart, rfl, hx⟩
    rcases arena with _ | _ | _ | _ | _ | arena <;> cases hpart
    · obtain ⟨id, ⟨i, rfl, hid⟩, rfl⟩ := hx
      exact .topLevel hid
    · obtain ⟨n, d, rest, r, hd, rfl, ⟨f, i, rfl, ⟨rfl, rfl, id, hid, rfl⟩ | ⟨g, rfl, hr⟩⟩, rfl⟩ := hx
      · exact .parent hd hid
      · exact .decl hd hr
    · obtain ⟨n, s, rest, r, hs, rfl, ⟨f, i, rfl, hr⟩, rfl⟩ := hx
      exact .stmt hs hr
    · obtain ⟨n, e, rest, r, he, rfl, ⟨f, i, rfl, ⟨rfl, rfl, rfl⟩ | ⟨g, rfl, hr⟩⟩, rfl⟩ := hx
      · exact .typeOfExpr he
      · exact .expr he hr
    · obtain ⟨n, t, rest, r, ht, rfl, ⟨f, i, rfl, hr⟩, rfl⟩ := hx
      exact .type ht hr
  · intro hx
    cases hx with
    | topLevel h => exact ⟨0, _, _, rfl, rfl, _, ⟨_, rfl, h⟩, rfl⟩
    | parent hd h => exact ⟨1, _, _, rfl, rfl, _, _, _, _, hd, rfl, ⟨_, _, rfl, .inl ⟨rfl, rfl, _, h, rfl⟩⟩, rfl⟩
    | decl hd h => exact ⟨1, _, _, rfl, rfl, _, _, _, _, hd, rfl, ⟨_, _, rfl, .inr ⟨_, rfl, h⟩⟩, rfl⟩
    | stmt hs h => exact ⟨2, _, _, rfl, rfl, _, _, _, _, hs, rfl, ⟨_, _, rfl, h⟩, rfl⟩
    | typeOfExpr he => exact ⟨3, _, _, rfl, rfl, _, _, _, _, he, rfl, ⟨_, _, rfl, .inl ⟨rfl, rfl, rfl⟩⟩, rfl⟩
    | expr he h => exact ⟨3, _, _, rfl, rfl, _, _, _, _, he, rfl, ⟨_, _, rfl, .inr ⟨_, rfl, h⟩⟩, rfl⟩
    | type ht h => exact ⟨4, _, _, rfl, rfl, _, _, _, _, ht, rfl, ⟨_, _, rfl, h⟩, rfl⟩

/-- **Validation is exact.** It passes exactly if every stored reference leads into its arena; if not, its
message is about the first one that does not, in the order of the places. -/
theorem validation_names_first_dangling (ast : Ast) :
    (ast.firstMissing? = none ↔ ∀ place r, ast.StoredAt place r → ast.inRange r.target) ∧
    ∀ message, ast.firstMissing?.map Reference.fault = some message ↔
      ∃ place holder target, ast.StoredAt place ⟨holder, target⟩ ∧ ¬ ast.inRange target ∧
        (∀ earlier < place, ∀ r, ast.StoredAt earlier r → ast.inRange r.target) ∧
        message = holder ++ " references missing " ++ target.title := by
  have h := enumerates_references ast
  refine ⟨?_, fun message => ?_⟩
  · simp [Ast.firstMissing?, h.find?_eq_none_iff]
  · simp only [Ast.firstMissing?, Option.map_eq_some_iff, h.find?_eq_some_iff, Bool.not_eq_eq_eq_not,
      Bool.not_true, Bool.not_false, Bool.not_eq_true]
    constructor
    · rintro ⟨⟨holder, target⟩, ⟨place, hstored, hmissing, hbefore⟩, rfl⟩
      exact ⟨place, holder, target, hstored, hmissing, hbefore, rfl⟩
    · rintro ⟨place, holder, target, hstored, hmissing, hbefore, rfl⟩
      exact ⟨⟨holder, target⟩, ⟨place, hstored, hmissing, hbefore⟩, rfl⟩

end Interop.Native
