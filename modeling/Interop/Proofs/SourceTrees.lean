import Mathlib.Data.Fintype.Card
import Interop.Binding.Emit
import Interop.Proofs.Csharp.Printing

/-!
# Native expressions as trees

`Source` is the tree behind a numbered expression, for literals, local variables, parentheses, operators,
conditionals, subscripts and casts. `Holds env id s` says that `s` stands at the number `id`; there is at
most one such tree (`Holds.unique`), no higher than there are expressions (`Holds.height_le`).
`Source.value` is the C# tree that an expression should become, and `Source.condition` the one where a
truth value is asked for.
-/

namespace Interop.Native.TypeKind

def isBool (type : TypeKind) : Bool :=
  type == .builtin .bool

def isPointer : TypeKind → Bool
  | .pointer _ => true
  | .builtin kind => kind == .nullPtr
  | _ => false

def isUnsigned : TypeKind → Bool
  | .builtin kind => kind.isUnsigned
  | _ => false

def isReference : TypeKind → Bool
  | .lvalueReference _ | .rvalueReference _ => true
  | _ => false

end Interop.Native.TypeKind

namespace Interop.Binding

open Native (ExprId TypeId DeclId ExprKind TypeKind CastKind CastStyle)
open Csharp (Tree Suffix)

/-! ## Trees -/

/-- A native expression, with the C# names of what it refers to. -/
inductive Source where
  | integer (type : TypeKind) (value : Nat) (managed : String)
  | truth (type : TypeKind) (value : Bool)
  | declRef (type : TypeKind) (target : DeclId) (name : String)
  | paren (type : TypeKind) (inner : Source)
  | unary (type : TypeKind) (op : UnaryOp) (operand : Source)
  | binary (type : TypeKind) (op : BinaryOp) (lhs rhs : Source)
  | conditional (type : TypeKind) (cond thenSource elseSource : Source)
  | subscript (type : TypeKind) (base index : Source)
  | implicitCast (type : TypeKind) (kind : CastKind) (operand : Source)
  | explicitCast (type : TypeKind) (style : CastStyle) (kind : CastKind) (managed : String)
    (operand : Source)

def isTruthCast : CastKind → Bool
  | .integralToBoolean | .floatingToBoolean | .pointerToBoolean => true
  | _ => false

namespace Source

def type : Source → TypeKind
  | integer type .. | truth type .. | declRef type .. | paren type .. | unary type ..
  | binary type .. | conditional type .. | subscript type .. | implicitCast type ..
  | explicitCast type .. => type

def height : Source → Nat
  | integer .. | truth .. | declRef .. => 1
  | paren _ x | unary _ _ x | implicitCast _ _ x | explicitCast _ _ _ _ x => x.height + 1
  | binary _ _ x y | subscript _ x y => max x.height y.height + 1
  | conditional _ x y z => max x.height (max y.height z.height) + 1

theorem height_pos (s : Source) : 0 < s.height := by
  cases s <;> exact Nat.succ_pos _

def core : Source → Source
  | paren _ x => x.core
  | s => s

theorem height_core_le (s : Source) : s.core.height ≤ s.height := by
  induction s with
  | paren type x ih => exact Nat.le_succ_of_le ih
  | integer | truth | declRef | unary | binary | conditional | subscript | implicitCast
  | explicitCast => exact Nat.le_refl _

def isLiteral (s : Source) : Bool :=
  match s.core with
  | integer .. => true
  | _ => false

def isNegatedLiteral (s : Source) : Bool :=
  match s.core with
  | unary _ .minus x => x.isLiteral
  | _ => false

def isLvalue : Source → Bool
  | declRef .. | subscript .. => true
  | paren _ x => x.isLvalue
  | explicitCast _ _ kind _ x => !isTruthCast kind && x.isLvalue
  | unary _ op _ => op == .deref || op == .preInc || op == .preDec
  | binary _ op _ _ => op.isAssignment
  | conditional _ _ x y => x.isLvalue && y.isLvalue
  | integer .. | truth .. | implicitCast .. => false

end Source

/-! ## The intended C# trees -/

/-- The C# trees for an expression as a value and as a condition. -/
structure Forms where
  value : Tree
  truth : Option Tree := none

namespace Forms

/-- The comparison of a value with zero or null; a truth value stays as it is. -/
def nonzero (type : TypeKind) (t : Tree) : Tree :=
  if type.isBool then t
  else if type.isPointer then .binary .ne t .null
  else .binary .ne t (.number 0 .none)

def asInteger (t : Tree) : Tree :=
  .conditional t (.number 1 .none) (.number 0 .none)

/-- The forms of a truth value of a native type: an integer unless that is `bool`. -/
def ofTruth (type : TypeKind) (t : Tree) : Forms :=
  { value := if type.isBool then t else asInteger t, truth := some t }

def condition (f : Forms) (type : TypeKind) : Tree :=
  f.truth.getD (nonzero type f.value)

@[simp] theorem condition_ofTruth (type type' : TypeKind) (t : Tree) :
    (ofTruth type t).condition type' = t := rfl

end Forms

namespace Source

def forms : Source → Forms
  | integer _ value managed => { value := .number value (Suffix.ofType managed) }
  | truth _ value => { value := .truth value }
  | declRef _ _ name => { value := .name name }
  | paren _ x => x.forms
  | unary type op x =>
    if op = .logicalNot then .ofTruth type (.unary op (x.forms.condition x.type))
    else { value := .unary op x.forms.value }
  | binary type op x y =>
    if op.isLogical then
      .ofTruth type (.binary op (x.forms.condition x.type) (y.forms.condition y.type))
    else if op.isComparison then .ofTruth type (.binary op x.forms.value y.forms.value)
    else { value := .binary op x.forms.value y.forms.value }
  | conditional _ c x y =>
    { value := .conditional (c.forms.condition c.type) x.forms.value y.forms.value }
  | subscript _ x y => { value := .subscript x.forms.value y.forms.value }
  | implicitCast _ kind x =>
    { value :=
        if isTruthCast kind then x.forms.condition x.type
        else if kind = .integralCast then Forms.asInteger x.forms.value
        else x.forms.value }
  | explicitCast type style kind managed x =>
    { value :=
        if style = .const then x.forms.value
        else if style = .dynamic then .cast managed x.forms.value
        else if isTruthCast kind then x.forms.condition x.type
        else if x.type.isBool && !type.isBool then
          -- A truth value becomes an `int` without a cast.
          if managed = "int" then Forms.asInteger x.forms.value
          else .cast managed (Forms.asInteger x.forms.value)
        else if type.isUnsigned && x.isNegatedLiteral then
          .unchecked (.cast managed x.forms.value)
        else .cast managed x.forms.value }

def value (s : Source) : Tree :=
  s.forms.value

def condition (s : Source) : Tree :=
  s.forms.condition s.type

section Forms

variable {type : TypeKind}

theorem forms_logicalNot :
    (unary type .logicalNot x).forms = .ofTruth type (.unary .logicalNot x.condition) := rfl

theorem forms_unary (h : op ≠ .logicalNot) : (unary type op x).forms = { value := .unary op x.value } :=
  if_neg h

theorem forms_logical {op : BinaryOp} (h : op.isLogical = true) :
    (binary type op x y).forms = .ofTruth type (.binary op x.condition y.condition) :=
  if_pos h

theorem forms_comparison {op : BinaryOp} (h : op.isComparison = true) :
    (binary type op x y).forms = .ofTruth type (.binary op x.value y.value) := by
  have hlogical : op.isLogical = false := by
    cases op <;> first | rfl | cases h
  simp [forms, hlogical, h, value]

theorem forms_binary {op : BinaryOp} (hlogical : op.isLogical = false)
    (hcomparison : op.isComparison = false) :
    (binary type op x y).forms = { value := .binary op x.value y.value } := by
  simp [forms, hlogical, hcomparison, value]

end Forms

theorem core_ne_paren (s : Source) (type : TypeKind) (x : Source) : s.core ≠ paren type x := by
  induction s with
  | paren type' x' ih => exact ih
  | integer | truth | declRef | unary | binary | conditional | subscript | implicitCast
  | explicitCast => exact nofun

theorem forms_core (s : Source) : s.core.forms = s.forms := by
  induction s with
  | paren type x ih => exact ih
  | integer | truth | declRef | unary | binary | conditional | subscript | implicitCast
  | explicitCast => rfl

theorem value_ne_addressOf {s : Source} (h : s.isLvalue = true) (t : Tree) :
    s.value ≠ .unary .addressOf t := by
  induction s with
  | integer | truth | implicitCast => cases h
  | declRef | conditional | subscript => exact nofun
  | paren type x ih => exact ih h
  | unary type op x =>
    have hop : op ≠ .logicalNot ∧ op ≠ .addressOf := by
      constructor <;>
      · rintro rfl
        cases h
    simp [value, forms_unary hop.1, hop.2]
  | binary type op x y =>
    have hop : op.isLogical = false ∧ op.isComparison = false := by
      rw [isLvalue] at h
      cases op <;> first | exact ⟨rfl, rfl⟩ | cases h
    simp [value, forms_binary hop.1 hop.2]
  | explicitCast type style kind managed x ih =>
    simp only [isLvalue, Bool.and_eq_true, Bool.not_eq_true'] at h
    simp only [value, forms, h.1, Bool.false_eq_true, if_false]
    split
    · exact ih h.2
    all_goals (repeat' split) <;> exact nofun

end Source

/-! ## Trees in the arena -/

def IsNode (env : Env) (id : ExprId) (kind : ExprKind) (type : TypeKind) : Prop :=
  ∃ e, env.ast.expr? id = some e ∧ e.kind = kind ∧ env.ast.canonicalKind? e.type = some type

def HasManagedType (env : Env) (id : ExprId) (name : String) : Prop :=
  ∃ e, env.ast.expr? id = some e ∧ ∀ record location,
    ∃ mapped, (TypeContext.mk env.ast env.symbols record location).map e.type .cast = .ok mapped ∧
      mapped.type = .named name

/-- A local variable or a parameter that is no reference, and whose name is an identifier. -/
inductive IsLocal (env : Env) (id : DeclId) : Prop
  | var {d : Native.Decl} {v : Native.Var} {type : TypeKind} :
      env.ast.decl? id = some d → d.kind = .var v → env.symbols.isGlobal id = false →
      (∀ parent ∈ d.parent, ∃ p, env.ast.decl? parent = some p ∧ ∀ r, p.kind ≠ .record r) →
      env.ast.canonicalKind? v.type = some type → type.isReference = false →
      Csharp.isWord d.name.toList = true → IsLocal env id
  | param {d : Native.Decl} {paramType : TypeId} {type : TypeKind} :
      env.ast.decl? id = some d → d.kind = .param paramType →
      env.ast.canonicalKind? paramType = some type → type.isReference = false →
      (d.name = "" ∨ Csharp.isWord d.name.toList = true) → IsLocal env id

/-- The C# types that have keywords or names of their own and hold numbers or truth values. -/
def primitiveTypes : List String :=
  ["bool", "byte", "char", "double", "float", "int", "long", "nint", "nuint", "sbyte", "short",
   "uint", "ulong", "ushort"]

/-- A tree stands at a number of the arena. -/
inductive Holds (env : Env) : ExprId → Source → Prop
  | integer {id : ExprId} {type : TypeKind} {spelling managed : String} {value : Nat} :
      IsNode env id (.integer spelling) type → Native.integer? spelling.toList = some value →
      HasManagedType env id managed → Holds env id (.integer type value managed)
  | truth {id : ExprId} {type : TypeKind} {value : Bool} :
      IsNode env id (.bool value) type → Holds env id (.truth type value)
  | declRef {id : ExprId} {type : TypeKind} {target : DeclId} :
      IsNode env id (.declRef target) type → IsLocal env target →
      Holds env id (.declRef type target (env.symbols.name target))
  | paren {id inner : ExprId} {type : TypeKind} {x : Source} :
      IsNode env id (.paren inner) type → Holds env inner x → Holds env id (.paren type x)
  | unary {id operand : ExprId} {type : TypeKind} {op : UnaryOp} {x : Source} :
      IsNode env id (.unary op operand) type → (op = .addressOf → x.isLvalue = true) →
      Holds env operand x → Holds env id (.unary type op x)
  | binary {id lhs rhs : ExprId} {type : TypeKind} {op : BinaryOp} {x y : Source} :
      IsNode env id (.binary op lhs rhs) type → op ≠ .comma → Holds env lhs x → Holds env rhs y →
      Holds env id (.binary type op x y)
  | conditional {id cond thenExpr elseExpr : ExprId} {type : TypeKind} {c x y : Source} :
      IsNode env id (.conditional cond thenExpr elseExpr) type → Holds env cond c →
      Holds env thenExpr x → Holds env elseExpr y → Holds env id (.conditional type c x y)
  | subscript {id base index : ExprId} {type : TypeKind} {x y : Source} :
      IsNode env id (.subscript base index) type → Holds env base x → Holds env index y →
      Holds env id (.subscript type x y)
  | implicitCast {id operand : ExprId} {type : TypeKind} {kind : CastKind} {x : Source} :
      IsNode env id (.implicitCast kind operand) type →
      (kind = .lvalueToRValue ∨ kind = .integralToBoolean ∨
        kind = .integralCast ∧ x.type.isBool = true ∧ type.isBool = false) →
      Holds env operand x → Holds env id (.implicitCast type kind x)
  | explicitCast {id operand : ExprId} {type : TypeKind} {style : CastStyle} {kind : CastKind}
      {managed : String} {x : Source} :
      IsNode env id (.explicitCast style kind operand) type → HasManagedType env id managed →
      managed ∈ primitiveTypes → Holds env operand x →
      Holds env id (.explicitCast type style kind managed x)

theorem IsNode.unique {id : ExprId} (h : IsNode env id kind type) (h' : IsNode env id kind' type') :
    kind = kind' ∧ type = type' := by
  obtain ⟨e, he, rfl, htype⟩ := h
  obtain ⟨e', he', rfl, htype'⟩ := h'
  obtain rfl := Option.mem_unique he he'
  exact ⟨rfl, Option.mem_unique htype htype'⟩

theorem HasManagedType.unique {id : ExprId} (h : HasManagedType env id name)
    (h' : HasManagedType env id name') : name = name' := by
  obtain ⟨e, he, hmap⟩ := h
  obtain ⟨e', he', hmap'⟩ := h'
  obtain rfl := Option.mem_unique he he'
  obtain ⟨m, hm, hname⟩ := hmap none {}
  obtain ⟨m', hm', hname'⟩ := hmap' none {}
  obtain rfl : m = m' := Except.ok.inj (hm.symm.trans hm')
  exact Managed.TypeName.named.inj (hname.symm.trans hname')

namespace Holds

variable {id : ExprId}

theorem isNode (h : Holds env id s) : ∃ kind, IsNode env id kind s.type := by
  cases h with
  | integer hnode | truth hnode | declRef hnode | paren hnode | unary hnode | binary hnode
  | conditional hnode | subscript hnode | implicitCast hnode | explicitCast hnode =>
    exact ⟨_, hnode⟩

theorem unique (h : Holds env id s) (h' : Holds env id s') : s = s' := by
  -- The node decides the constructor; the other cases of the second tree are closed by its kind.
  induction h generalizing s' with
  | integer hnode hvalue hmanaged =>
    cases h' <;> obtain ⟨hkind, rfl⟩ := hnode.unique ‹IsNode _ _ _ _› <;> cases hkind
    rename_i hvalue' _
    rw [hmanaged.unique ‹HasManagedType _ _ _›, Option.mem_unique hvalue hvalue']
  | truth hnode | declRef hnode =>
    cases h' <;> obtain ⟨hkind, rfl⟩ := hnode.unique ‹IsNode _ _ _ _› <;> cases hkind
    rfl
  | paren hnode _ ih | unary hnode _ _ ih | implicitCast hnode _ _ ih =>
    cases h' <;> obtain ⟨hkind, rfl⟩ := hnode.unique ‹IsNode _ _ _ _› <;> cases hkind
    rw [ih ‹_›]
  | binary hnode _ _ _ ihx ihy | subscript hnode _ _ ihx ihy =>
    cases h' <;> obtain ⟨hkind, rfl⟩ := hnode.unique ‹IsNode _ _ _ _› <;> cases hkind
    rw [ihx ‹_›, ihy ‹_›]
  | conditional hnode _ _ _ ihc ihx ihy =>
    cases h' <;> obtain ⟨hkind, rfl⟩ := hnode.unique ‹IsNode _ _ _ _› <;> cases hkind
    rw [ihc ‹_›, ihx ‹_›, ihy ‹_›]
  | explicitCast hnode hmanaged _ _ ih =>
    cases h' <;> obtain ⟨hkind, rfl⟩ := hnode.unique ‹IsNode _ _ _ _› <;> cases hkind
    rw [hmanaged.unique ‹HasManagedType _ _ _›, ih ‹_›]

theorem exists_part (h : Holds env id s) (hs : 1 < s.height) :
    ∃ id' s', Holds env id' s' ∧ s.height = s'.height + 1 := by
  cases h with
  | integer | truth | declRef => exact absurd hs (Nat.lt_irrefl 1)
  | paren _ hx | unary _ _ hx | implicitCast _ _ hx | explicitCast _ _ _ hx => exact ⟨_, _, hx, rfl⟩
  | @binary _ _ _ _ _ x y _ _ hx hy | @subscript _ _ _ _ x y _ hx hy =>
    rcases max_choice x.height y.height with hmax | hmax
    · exact ⟨_, _, hx, congrArg (· + 1) hmax⟩
    · exact ⟨_, _, hy, congrArg (· + 1) hmax⟩
  | @conditional _ _ _ _ _ c x y _ hc hx hy =>
    rcases max_choice c.height (max x.height y.height) with hmax | hmax
    · exact ⟨_, _, hc, congrArg (· + 1) hmax⟩
    · rcases max_choice x.height y.height with hmax' | hmax'
      · exact ⟨_, _, hx, congrArg (· + 1) (hmax.trans hmax')⟩
      · exact ⟨_, _, hy, congrArg (· + 1) (hmax.trans hmax')⟩

theorem exists_of_height (h : Holds env id s) (hn : 0 < n) (hle : n ≤ s.height) :
    ∃ id' s', Holds env id' s' ∧ s'.height = n := by
  obtain ⟨k, hk⟩ := Nat.exists_eq_add_of_le hle
  induction k generalizing id s with
  | zero => exact ⟨id, s, h, hk⟩
  | succ k ih =>
    obtain ⟨id', s', hs', hheight⟩ := h.exists_part (by omega)
    exact ih hs' (by omega) (by omega)

/-- **No tree is higher than there are expressions**: the numbers on a way down differ. -/
theorem height_le (h : Holds env id s) : s.height ≤ env.ast.exprs.size := by
  have hbelow : ∀ n : Fin s.height, ∃ i : Fin env.ast.exprs.size, ∃ s',
      Holds env ⟨i⟩ s' ∧ s'.height = n + 1 := by
    intro n
    obtain ⟨⟨i⟩, s', hs', hheight⟩ := h.exists_of_height n.val.succ_pos n.isLt
    obtain ⟨kind, e, he, -⟩ := hs'.isNode
    have hi : i < env.ast.exprs.size := (Array.getElem?_eq_some_iff.mp he).1
    exact ⟨⟨i, hi⟩, s', hs', hheight⟩
  -- One number for each height, and no number has two heights.
  choose number tree hholds hheight using hbelow
  have hinjective : Function.Injective number := by
    intro n m hnm
    have hn := hholds n
    rw [hnm] at hn
    have hsame := hheight n
    rw [hn.unique (hholds m), hheight m] at hsame
    omega
  simpa using Fintype.card_le_of_injective number hinjective

end Holds

end Interop.Binding
