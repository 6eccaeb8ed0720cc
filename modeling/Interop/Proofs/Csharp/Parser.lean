import Interop.Managed.Precedence
import Interop.Proofs.Csharp.Lexer

/-!
# Reading C#: expressions

A parser for C# expressions in the shape of the grammar, with one rule for all levels of binary operators.
A parenthesis opens a cast if a type keyword stands in it, or if a single name does and the next token
starts an operand; that is how C# tells `(x)(y)` from `(x) - y`. The tokens of a tree are read back as the
same tree if its operands are tight enough for their places (`parse_tokens`). Every parser is proved
correct in front of any tokens that do not go on with what it reads (`Stops`).
-/

namespace Interop.Csharp

open Managed (Precedence)

variable {op : BinaryOp} {least : Nat} {type : String}

/-! ## Trees -/

/-- A C# expression as it is read, with its parentheses. -/
inductive Tree where
  | number (value : Nat) (suffix : Suffix)
  | truth (value : Bool)
  | null
  | name (text : String)
  | paren (inner : Tree)
  | unary (op : UnaryOp) (operand : Tree)
  | binary (op : BinaryOp) (lhs rhs : Tree)
  | conditional (cond thenTree elseTree : Tree)
  | cast (type : String) (operand : Tree)
  | unchecked (inner : Tree)
  | subscript (base index : Tree)
  deriving DecidableEq

def binaryOperators : List (String × BinaryOp × Precedence) :=
  [("||", .logicalOr, .logicalOr), ("&&", .logicalAnd, .logicalAnd), ("|", .or, .bitOr),
   ("^", .xor, .bitXor), ("&", .and, .bitAnd), ("==", .eq, .equality), ("!=", .ne, .equality),
   ("<", .lt, .relational), (">", .gt, .relational), ("<=", .le, .relational),
   (">=", .ge, .relational), ("<<", .shl, .shift), (">>", .shr, .shift), ("+", .add, .additive),
   ("-", .sub, .additive), ("*", .mul, .multiplicative), ("/", .div, .multiplicative),
   ("%", .rem, .multiplicative)]

def assignments : List (String × BinaryOp) :=
  [("=", .assign), ("+=", .addAssign), ("-=", .subAssign), ("*=", .mulAssign), ("/=", .divAssign),
   ("%=", .remAssign), ("&=", .andAssign), ("|=", .orAssign), ("^=", .xorAssign),
   ("<<=", .shlAssign), (">>=", .shrAssign)]

def leadingOperators : List (String × UnaryOp) :=
  [("+", .plus), ("-", .minus), ("!", .logicalNot), ("~", .complement), ("++", .preInc),
   ("--", .preDec), ("&", .addressOf), ("*", .deref)]

def trailingOperators : List (String × UnaryOp) :=
  [("++", .postInc), ("--", .postDec)]

def typeKeywords : List String :=
  ["bool", "byte", "char", "decimal", "double", "float", "int", "long", "object", "sbyte", "short",
   "string", "uint", "ulong", "ushort", "void"]

namespace Tree

def operatorLevel (op : BinaryOp) : Precedence :=
  match binaryOperators.find? fun entry => entry.2.1 = op with
  | some entry => entry.2.2
  | none => .assignment

def level : Tree → Precedence
  | .unary op _ => if trailingOperators.any (·.2 = op) then .primary else .unary
  | .binary op _ _ => operatorLevel op
  | .conditional _ _ _ => .conditional
  | .cast _ _ => .unary
  | _ => .primary

def rank (t : Tree) : Nat :=
  t.level.rank

def bare : Tree → Tree
  | .number value suffix => .number value suffix
  | .truth value => .truth value
  | .null => .null
  | .name text => .name text
  | .paren inner => inner.bare
  | .unary op operand => .unary op operand.bare
  | .binary op lhs rhs => .binary op lhs.bare rhs.bare
  | .conditional cond thenTree elseTree => .conditional cond.bare thenTree.bare elseTree.bare
  | .cast type operand => .cast type operand.bare
  | .unchecked inner => .unchecked inner.bare
  | .subscript base index => .subscript base.bare index.bare

end Tree

/-! ## The parser -/

def startsOperand : Token → Bool
  | .name _ => true
  | .number _ _ => true
  | .keyword text => text ≠ "as" && text ≠ "is"
  | .symbol text => text = "~" || text = "!" || text = "("

def keywordCast? : List Token → Option (String × List Token)
  | .symbol "(" :: .keyword type :: .symbol ")" :: rest =>
    if typeKeywords.contains type then some (type, rest) else none
  | _ => none

def operator? {α : Type} (table : List (String × α)) : List Token → Option (α × List Token)
  | .symbol text :: rest => (table.lookup text).map fun op => (op, rest)
  | _ => none

def expect? (text : String) : List Token → Option (List Token)
  | .symbol found :: rest => if found = text then some rest else none
  | _ => none

mutual

def expression : (fuel : Nat) → List Token → Option (Tree × List Token)
  | 0, _ => none
  | fuel + 1, ts => do
    let (t, rest) ← chain fuel Precedence.logicalOr.rank ts
    match expect? "?" rest, operator? assignments rest with
    | some rest, _ =>
      let (thenTree, rest) ← expression fuel rest
      let rest ← expect? ":" rest
      let (elseTree, rest) ← expression fuel rest
      return (.conditional t thenTree elseTree, rest)
    | none, some (op, rest) =>
      if t.rank < Precedence.unary.rank then none
      else
        let (value, rest) ← expression fuel rest
        return (.binary op t value, rest)
    | none, none => return (t, rest)

def chain : (fuel : Nat) → (least : Nat) → List Token → Option (Tree × List Token)
  | 0, _, _ => none
  | fuel + 1, least, ts =>
    if least < Precedence.unary.rank then do
      let (t, rest) ← chain fuel (least + 1) ts
      chainFrom fuel least t rest
    else unary fuel ts

def chainFrom : (fuel : Nat) → (least : Nat) → Tree → List Token → Option (Tree × List Token)
  | 0, _, _, _ => none
  | fuel + 1, least, lhs, ts =>
    match operator? binaryOperators ts with
    | some ((op, level), rest) =>
      if level.rank = least then do
        let (rhs, rest) ← chain fuel (least + 1) rest
        chainFrom fuel least (.binary op lhs rhs) rest
      else some (lhs, ts)
    | none => some (lhs, ts)

def unary : (fuel : Nat) → List Token → Option (Tree × List Token)
  | 0, _ => none
  | fuel + 1, ts =>
    match keywordCast? ts, operator? leadingOperators ts with
    | some (type, rest), _ => do
      let (operand, rest) ← unary fuel rest
      return (.cast type operand, rest)
    | none, some (op, rest) => do
      let (operand, rest) ← unary fuel rest
      return (.unary op operand, rest)
    | none, none => do
      let (t, rest) ← primary fuel ts
      match t with
      | .paren (.name type) =>
        if rest.head?.any startsOperand then
          let (operand, rest) ← unary fuel rest
          return (.cast type operand, rest)
        else return (t, rest)
      | _ => return (t, rest)

def primary : (fuel : Nat) → List Token → Option (Tree × List Token)
  | 0, _ => none
  | fuel + 1, ts =>
    match ts with
    | .number value suffix :: rest => suffixes fuel (.number value suffix) rest
    | .name text :: rest => suffixes fuel (.name text) rest
    | .keyword "true" :: rest => suffixes fuel (.truth true) rest
    | .keyword "false" :: rest => suffixes fuel (.truth false) rest
    | .keyword "null" :: rest => suffixes fuel .null rest
    | .keyword "unchecked" :: .symbol "(" :: rest => do
      let (inner, rest) ← expression fuel rest
      suffixes fuel (.unchecked inner) (← expect? ")" rest)
    | .symbol "(" :: rest => do
      let (inner, rest) ← expression fuel rest
      suffixes fuel (.paren inner) (← expect? ")" rest)
    | _ => none

def suffixes : (fuel : Nat) → Tree → List Token → Option (Tree × List Token)
  | 0, _, _ => none
  | fuel + 1, t, ts =>
    match expect? "[" ts, operator? trailingOperators ts with
    | some rest, _ => do
      let (index, rest) ← expression fuel rest
      suffixes fuel (.subscript t index) (← expect? "]" rest)
    | none, some (op, rest) => suffixes fuel (.unary op t) rest
    | none, none => some (t, ts)

end

def parse (ts : List Token) : Option Tree := do
  let (t, rest) ← expression (16 * (ts.length + 1)) ts
  if rest.isEmpty then some t else none

def read (text : String) : Option Tree := do
  parse (← lex text.toList)

/-! ## The tokens of a tree -/

namespace Tree

def tokens : Tree → List Token
  | .number value suffix => [.number value suffix]
  | .truth value => [.keyword (if value then "true" else "false")]
  | .null => [.keyword "null"]
  | .name text => [.name text]
  | .paren inner => .symbol "(" :: (inner.tokens ++ [.symbol ")"])
  | .unary op operand =>
    if op.isSuffix then operand.tokens ++ [.symbol op.symbol] else .symbol op.symbol :: operand.tokens
  | .binary op lhs rhs => lhs.tokens ++ .symbol op.symbol :: rhs.tokens
  | .conditional cond thenTree elseTree =>
    cond.tokens ++ .symbol "?" :: (thenTree.tokens ++ .symbol ":" :: elseTree.tokens)
  | .cast type operand => .symbol "(" :: wordToken type :: .symbol ")" :: operand.tokens
  | .unchecked inner => .keyword "unchecked" :: .symbol "(" :: (inner.tokens ++ [.symbol ")"])
  | .subscript base index => base.tokens ++ .symbol "[" :: (index.tokens ++ [.symbol "]"])

/-- Whether every operand is tight enough for its place. The operand of a cast is in parentheses. -/
def Grouped : Tree → Prop
  | .number _ _ | .truth _ | .null | .name _ => True
  | .paren inner => inner.Grouped
  | .unary op operand => operand.Grouped ∧ (if op.isSuffix then 13 else 12) ≤ operand.rank
  | .binary op lhs rhs =>
    lhs.Grouped ∧ rhs.Grouped ∧
      if op.isAssignment then 12 ≤ lhs.rank
      else op ≠ .comma ∧ (operatorLevel op).rank ≤ lhs.rank ∧ (operatorLevel op).rank < rhs.rank
  | .conditional cond thenTree elseTree =>
    cond.Grouped ∧ thenTree.Grouped ∧ elseTree.Grouped ∧ 2 ≤ cond.rank
  | .cast type operand =>
    operand.Grouped ∧ (∃ inner, operand = .paren inner) ∧
      (typeKeywords.contains type ∨ ¬ Managed.keywords.contains type)
  | .unchecked inner => inner.Grouped
  | .subscript base index => base.Grouped ∧ index.Grouped ∧ base.rank = 13

theorem rank_le (t : Tree) : t.rank ≤ 13 := by
  rw [rank]
  cases t.level <;> decide

def firstToken : Tree → Token
  | .number value suffix => .number value suffix
  | .truth value => .keyword (if value then "true" else "false")
  | .null => .keyword "null"
  | .name text => .name text
  | .paren _ => .symbol "("
  | .unary op operand => if op.isSuffix then operand.firstToken else .symbol op.symbol
  | .binary _ lhs _ => lhs.firstToken
  | .conditional cond _ _ => cond.firstToken
  | .cast _ _ => .symbol "("
  | .unchecked _ => .keyword "unchecked"
  | .subscript base _ => base.firstToken

theorem exists_tokens_eq (t : Tree) : ∃ rest, t.tokens = t.firstToken :: rest := by
  induction t with
  | unary op operand ih =>
    obtain ⟨rest, h⟩ := ih
    by_cases hop : op.isSuffix <;> simp [tokens, firstToken, hop, h]
  | binary _ _ _ ih _ | conditional _ _ _ ih _ _ | subscript _ _ ih _ =>
    obtain ⟨rest, h⟩ := ih
    simp [tokens, firstToken, h]
  | number | truth | null | name | paren | cast | unchecked => simp [tokens, firstToken]

theorem length_tokens_pos (t : Tree) : 0 < t.tokens.length := by
  obtain ⟨rest, h⟩ := t.exists_tokens_eq
  simp [h]

theorem firstToken_not_type (t : Tree) {type : String} (h : t.firstToken = .keyword type) :
    typeKeywords.contains type = false := by
  induction t with
  | unary op operand ih =>
    by_cases hop : op.isSuffix
    · exact ih (by simpa [firstToken, hop] using h)
    · simp [firstToken, hop] at h
  | binary _ _ _ ih _ | conditional _ _ _ ih _ _ | subscript _ _ ih _ => exact ih h
  | truth value =>
    simp only [firstToken, Token.keyword.injEq] at h
    subst h
    cases value <;> decide
  | null | unchecked =>
    simp only [firstToken, Token.keyword.injEq] at h
    subst h
    decide
  | number | name | paren | cast => cases h

end Tree

/-! ## Where an expression ends -/

/-- The tokens do not go on with an expression whose operators are at least as tight as `least`. -/
structure Stops (least : Nat) (ts : List Token) : Prop where
  operand : ts.head?.any startsOperand = false
  subscript : expect? "[" ts = none
  trailing : operator? trailingOperators ts = none
  binary : ∀ op level rest, operator? binaryOperators ts = some ((op, level), rest) →
    level.rank < least
  choice : least ≤ 1 → expect? "?" ts = none
  assignment : least = 0 → operator? assignments ts = none

theorem Stops.mono (h : Stops least ts) (hle : least ≤ least') : Stops least' ts where
  operand := h.operand
  subscript := h.subscript
  trailing := h.trailing
  binary op level rest ho := Nat.lt_of_lt_of_le (h.binary op level rest ho) hle
  choice h' := h.choice (Nat.le_trans hle h')
  assignment h' := h.assignment (by omega)

theorem stops_nil (least : Nat) : Stops least [] :=
  ⟨rfl, rfl, rfl, (fun _ _ _ h => nomatch h), fun _ => rfl, fun _ => rfl⟩

theorem stops_closing (h : text = ")" ∨ text = "]" ∨ text = ":") (ts : List Token) :
    Stops 0 (.symbol text :: ts) := by
  rcases h with rfl | rfl | rfl <;>
    exact ⟨rfl, rfl, rfl, (fun _ _ _ h => nomatch h), fun _ => rfl, fun _ => rfl⟩

theorem stops_question (ts : List Token) : Stops 2 (.symbol "?" :: ts) :=
  ⟨rfl, rfl, rfl, (fun _ _ _ h => nomatch h), fun h => absurd h (by decide),
    fun h => absurd h (by decide)⟩

theorem operator_assignments (h : op.isAssignment) (ts : List Token) :
    operator? assignments (.symbol op.symbol :: ts) = some (op, ts) := by
  cases op <;> first | rfl | cases h

theorem stops_assignment (h : op.isAssignment) (ts : List Token) : Stops 2 (.symbol op.symbol :: ts) := by
  cases op <;> first
    | exact absurd h (by decide)
    | exact ⟨rfl, rfl, rfl, (fun _ _ _ h => nomatch h), fun h => absurd h (by decide),
        fun h => absurd h (by decide)⟩

theorem operator_binary (hassign : ¬ op.isAssignment) (hcomma : op ≠ .comma) (ts : List Token) :
    operator? binaryOperators (.symbol op.symbol :: ts) = some ((op, Tree.operatorLevel op), ts) := by
  cases op <;> first | rfl | exact absurd rfl hassign | exact absurd rfl hcomma

theorem operatorLevel_bounds (hassign : ¬ op.isAssignment) (hcomma : op ≠ .comma) :
    2 ≤ (Tree.operatorLevel op).rank ∧ (Tree.operatorLevel op).rank < 12 := by
  cases op <;> first | decide | exact absurd rfl hassign | exact absurd rfl hcomma

theorem stops_binary (hassign : ¬ op.isAssignment) (hcomma : op ≠ .comma) (ts : List Token) :
    Stops ((Tree.operatorLevel op).rank + 1) (.symbol op.symbol :: ts) := by
  have hbounds := operatorLevel_bounds hassign hcomma
  refine ⟨?_, ?_, ?_, fun op' level rest h => ?_, fun h => by omega, fun h => by omega⟩
  · cases op <;> rfl
  · cases op <;> rfl
  · cases op <;> rfl
  · rw [operator_binary hassign hcomma] at h
    cases h
    exact Nat.lt_succ_self _

theorem operator_leading {op : UnaryOp} (h : ¬ op.isSuffix) (ts : List Token) :
    operator? leadingOperators (.symbol op.symbol :: ts) = some (op, ts) := by
  cases op <;> first | rfl | exact absurd rfl h

theorem operator_trailing {op : UnaryOp} (h : op.isSuffix) (ts : List Token) :
    operator? trailingOperators (.symbol op.symbol :: ts) = some (op, ts) := by
  cases op <;> first | rfl | cases h

theorem expect_trailing {op : UnaryOp} (h : op.isSuffix) (ts : List Token) :
    expect? "[" (.symbol op.symbol :: ts) = none := by
  cases op <;> rfl

theorem rank_unary (op : UnaryOp) (t : Tree) : (Tree.unary op t).rank = if op.isSuffix then 13 else 12 := by
  cases op <;> rfl

theorem rank_binary (op : BinaryOp) (l r : Tree) :
    (Tree.binary op l r).rank = (Tree.operatorLevel op).rank := rfl

/-! ## What each rule reads -/

def PrimaryReads (t : Tree) : Prop :=
  ∀ n ts, 16 * t.tokens.length ≤ n →
    ∃ m, n ≤ m + t.tokens.length ∧ primary n (t.tokens ++ ts) = suffixes m t ts

def LeadsPrimary (t : Tree) : Prop :=
  ∀ ts, keywordCast? (t.tokens ++ ts) = none ∧ operator? leadingOperators (t.tokens ++ ts) = none

def UnaryReads (t : Tree) : Prop :=
  ∀ n ts, 16 * t.tokens.length + 1 ≤ n → Stops 12 ts → unary n (t.tokens ++ ts) = some (t, ts)

def ChainStarts (least : Nat) (t : Tree) : Prop :=
  ∀ n ts, 16 * t.tokens.length + 14 ≤ n + least → Stops (least + 1) ts →
    ∃ m, n ≤ m + t.tokens.length ∧ chain n least (t.tokens ++ ts) = chainFrom m least t ts

def ChainReads (least : Nat) (t : Tree) : Prop :=
  ∀ n ts, 16 * t.tokens.length + 14 ≤ n + least → Stops least ts →
    chain n least (t.tokens ++ ts) = some (t, ts)

def ExpressionReads (t : Tree) : Prop :=
  ∀ n ts, 16 * t.tokens.length + 13 ≤ n → Stops 0 ts → expression n (t.tokens ++ ts) = some (t, ts)

theorem suffixes_of_stops (h : Stops least ts) (hn : 0 < n) : suffixes n t ts = some (t, ts) := by
  obtain _ | n := n
  · omega
  simp [suffixes, h.subscript, h.trailing]

theorem chainFrom_of_stops (h : Stops least ts) (hn : 0 < n) : chainFrom n least t ts = some (t, ts) := by
  obtain _ | n := n
  · omega
  rw [chainFrom]
  split
  · rename_i op level rest hop
    have hlt := h.binary op level rest hop
    rw [if_neg (by omega)]
  · rfl

variable {t : Tree}

/-! ### From one rule to the next -/

theorem PrimaryReads.unaryReads (h : PrimaryReads t) (hlead : LeadsPrimary t) : UnaryReads t := by
  intro n ts hn hstops
  obtain _ | n := n
  · omega
  obtain ⟨m, hm, hprimary⟩ := h n ts (by omega)
  have hpos := t.length_tokens_pos
  have hread : primary n (t.tokens ++ ts) = some (t, ts) := by
    rw [hprimary, suffixes_of_stops hstops (by omega)]
  rw [unary]
  simp only [(hlead ts).1, (hlead ts).2, hread, Option.bind_eq_bind, Option.bind_some]
  -- A name in parentheses could still be the type of a cast, but no operand follows it.
  split
  · rw [if_neg (by simp [hstops.operand])]
    rfl
  · rfl

theorem UnaryReads.chainReads (h : UnaryReads t) : ChainReads 12 t := by
  intro n ts hn hstops
  obtain _ | n := n
  · omega
  rw [chain, if_neg (show ¬ 12 < Precedence.unary.rank by decide)]
  exact h n ts (by omega) hstops

theorem ChainReads.chainStarts (h : ChainReads (least + 1) t) (hleast : least < 12) :
    ChainStarts least t := by
  intro n ts hn hstops
  have hpos := t.length_tokens_pos
  obtain _ | n := n
  · omega
  refine ⟨n, by omega, ?_⟩
  rw [chain, if_pos (show least < Precedence.unary.rank from hleast), h n ts (by omega) hstops]
  rfl

theorem ChainStarts.chainReads (h : ChainStarts least t) (hleast : least < 12) : ChainReads least t := by
  intro n ts hn hstops
  have hpos := t.length_tokens_pos
  obtain ⟨m, hm, hchain⟩ := h n ts hn (hstops.mono (Nat.le_succ _))
  rw [hchain, chainFrom_of_stops hstops (by omega)]

theorem ChainReads.of_le (h : ChainReads least' t) (hle : least ≤ least') (hleast' : least' ≤ 12) :
    ChainReads least t := by
  -- One level looser, the tree is the first operand of a chain that ends at once.
  induction hle with
  | refl => exact h
  | step hle ih => exact ih ((h.chainStarts (by omega)).chainReads (by omega)) (by omega)

theorem ChainReads.expressionReads (h : ChainReads 2 t) : ExpressionReads t := by
  intro n ts hn hstops
  obtain _ | n := n
  · omega
  have hread : chain n Precedence.logicalOr.rank (t.tokens ++ ts) = some (t, ts) :=
    h n ts (by omega) (hstops.mono (Nat.zero_le _))
  rw [expression, hread]
  simp [hstops.choice (by omega), hstops.assignment rfl]

structure Reads (t : Tree) : Prop where
  primary : t.rank = 13 → PrimaryReads t
  lead : t.rank = 13 → LeadsPrimary t
  unary : 12 ≤ t.rank → UnaryReads t
  starts : ∀ least, 2 ≤ least → least < 12 → least ≤ t.rank → ChainStarts least t
  expression : ExpressionReads t

theorem Reads.chain (h : Reads t) (htwo : 2 ≤ least) (htwelve : least ≤ 12) (hrank : least ≤ t.rank) :
    ChainReads least t := by
  rcases Nat.lt_or_eq_of_le htwelve with hlt | rfl
  · exact (h.starts least htwo hlt hrank).chainReads hlt
  · exact (h.unary hrank).chainReads

theorem Reads.of_primary (hprimary : PrimaryReads t) (hlead : LeadsPrimary t) : Reads t :=
  have hchain := (hprimary.unaryReads hlead).chainReads
  { primary := fun _ => hprimary
    lead := fun _ => hlead
    unary := fun _ => hprimary.unaryReads hlead
    starts := fun _ _ hlt _ => (hchain.of_le hlt (Nat.le_refl 12)).chainStarts hlt
    expression := (hchain.of_le (by decide) (Nat.le_refl 12)).expressionReads }

theorem Reads.of_unary (hrank : t.rank = 12) (h : UnaryReads t) : Reads t where
  primary hrank' := by omega
  lead hrank' := by omega
  unary _ := h
  starts _ _ hlt _ := (h.chainReads.of_le hlt (Nat.le_refl 12)).chainStarts hlt
  expression := (h.chainReads.of_le (by decide) (Nat.le_refl 12)).expressionReads

theorem Reads.of_chain (htwo : 2 ≤ t.rank) (hlt : t.rank < 12) (h : ChainStarts t.rank t) : Reads t where
  primary hrank := by omega
  lead hrank := by omega
  unary hrank := by omega
  starts least htwo' hlt' hle := by
    rcases Nat.lt_or_eq_of_le hle with hless | rfl
    · exact ((h.chainReads hlt).of_le hless (by omega)).chainStarts hlt'
    · exact h
  expression := ((h.chainReads hlt).of_le htwo (by omega)).expressionReads

theorem Reads.of_expression (hrank : t.rank < 2) (h : ExpressionReads t) : Reads t where
  primary hrank' := by omega
  lead hrank' := by omega
  unary hrank' := by omega
  starts least htwo _ hle := by omega
  expression := h

/-! ### The cases -/

theorem reads_token (htokens : t.tokens = [token])
    (hprimary : ∀ n ts, primary (n + 1) (token :: ts) = suffixes n t ts)
    (hsymbol : ∀ text, token ≠ .symbol text) : Reads t := by
  refine .of_primary (fun n ts hn => ?_) (fun ts => ?_)
  · rw [htokens, List.length_singleton] at hn
    rw [htokens]
    obtain _ | n := n
    · omega
    exact ⟨n, Nat.le_refl _, hprimary n ts⟩
  · rw [htokens]
    cases token with
    | symbol text => exact absurd rfl (hsymbol text)
    | name | keyword | number => exact ⟨rfl, rfl⟩

theorem reads_name (text : String) : Reads (.name text) :=
  reads_token rfl (fun _ _ => by rw [primary]) (fun _ => nofun)

theorem reads_paren (h : Reads t) : Reads (.paren t) := by
  refine .of_primary (fun n ts hn => ?_) (fun ts => ⟨?_, rfl⟩)
  · simp only [Tree.tokens, List.length_cons, List.length_append, List.length_nil] at hn
    obtain _ | n := n
    · omega
    refine ⟨n, by simp [Tree.tokens], ?_⟩
    have hinner := h.expression n (.symbol ")" :: ts) (by omega) (stops_closing (.inl rfl) ts)
    simp [Tree.tokens, primary, hinner, expect?]
  · -- No expression starts with the keyword of a type, so the parenthesis opens no cast.
    obtain ⟨rest, htokens⟩ := t.exists_tokens_eq
    simp only [Tree.tokens, htokens, List.cons_append]
    unfold keywordCast?
    split
    · rename_i type rest' heq
      simp only [List.cons.injEq] at heq
      rw [t.firstToken_not_type heq.2.1]
      rfl
    · rfl

theorem reads_unchecked (h : Reads t) : Reads (.unchecked t) := by
  refine .of_primary (fun n ts hn => ?_) (fun ts => ⟨rfl, rfl⟩)
  simp only [Tree.tokens, List.length_cons, List.length_append, List.length_nil] at hn
  obtain _ | n := n
  · omega
  refine ⟨n, by simp [Tree.tokens], ?_⟩
  have hinner := h.expression n (.symbol ")" :: ts) (by omega) (stops_closing (.inl rfl) ts)
  simp [Tree.tokens, primary, hinner, expect?]

theorem reads_trailing {op : UnaryOp} (hop : op.isSuffix) (h : Reads t) (hrank : t.rank = 13) :
    Reads (.unary op t) := by
  have htokens : (Tree.unary op t).tokens = t.tokens ++ [.symbol op.symbol] := by
    simp [Tree.tokens, hop]
  refine .of_primary (fun n ts hn => ?_) (fun ts => ?_)
  · rw [htokens, List.length_append, List.length_singleton] at hn ⊢
    obtain ⟨m, hm, hprimary⟩ := h.primary hrank n (.symbol op.symbol :: ts) (by omega)
    obtain _ | m := m
    · omega
    refine ⟨m, by omega, ?_⟩
    rw [List.append_assoc, List.singleton_append, hprimary, suffixes]
    simp [expect_trailing hop, operator_trailing hop]
  · rw [htokens, List.append_assoc]
    exact h.lead hrank _

theorem reads_subscript (h : Reads t) (hindex : Reads index) (hrank : t.rank = 13) :
    Reads (.subscript t index) := by
  have htokens : (Tree.subscript t index).tokens =
      t.tokens ++ .symbol "[" :: (index.tokens ++ [.symbol "]"]) := rfl
  refine .of_primary (fun n ts hn => ?_) (fun ts => ?_)
  · simp only [htokens, List.length_append, List.length_cons, List.length_nil] at hn ⊢
    obtain ⟨m, hm, hprimary⟩ :=
      h.primary hrank n (.symbol "[" :: (index.tokens ++ .symbol "]" :: ts)) (by omega)
    obtain _ | m := m
    · omega
    refine ⟨m, by omega, ?_⟩
    have hread := hindex.expression m (.symbol "]" :: ts) (by omega) (stops_closing (.inr (.inl rfl)) ts)
    rw [show t.tokens ++ .symbol "[" :: (index.tokens ++ [.symbol "]"]) ++ ts =
      t.tokens ++ .symbol "[" :: (index.tokens ++ .symbol "]" :: ts) by simp, hprimary, suffixes]
    simp [expect?, hread]
  · rw [htokens, List.append_assoc]
    exact h.lead hrank _

theorem reads_leading {op : UnaryOp} (hop : ¬ op.isSuffix) (h : Reads t) (hrank : 12 ≤ t.rank) :
    Reads (.unary op t) := by
  have htokens : (Tree.unary op t).tokens = .symbol op.symbol :: t.tokens := by
    simp [Tree.tokens, hop]
  refine .of_unary (by rw [rank_unary, if_neg hop]) (fun n ts hn hstops => ?_)
  rw [htokens, List.length_cons] at hn
  obtain _ | n := n
  · omega
  have hread := h.unary hrank n ts (by omega) hstops
  have hcast : ∀ rest, keywordCast? (.symbol op.symbol :: rest) = none := by
    intro rest
    cases op <;> rfl
  rw [htokens, List.cons_append, unary]
  simp [hcast, operator_leading hop, hread]

theorem reads_keywordCast (htype : typeKeywords.contains type) (h : Reads t) (hrank : 12 ≤ t.rank) :
    Reads (.cast type t) := by
  have hkeyword : Managed.keywords.contains type := by
    have hall : ∀ type ∈ typeKeywords, Managed.keywords.contains type := by decide
    exact hall type (List.contains_iff_mem.mp htype)
  refine .of_unary rfl (fun n ts hn hstops => ?_)
  simp only [Tree.tokens, List.length_cons] at hn
  obtain _ | n := n
  · omega
  have hread := h.unary hrank n ts (by omega) hstops
  simp only [Tree.tokens, wordToken, hkeyword, if_true, List.cons_append]
  rw [unary]
  simp only [keywordCast?, htype, if_true, hread, Option.bind_eq_bind, Option.bind_some]
  rfl

theorem reads_nameCast (htype : ¬ Managed.keywords.contains type) (h : Reads (.paren t)) :
    Reads (.cast type (.paren t)) := by
  refine .of_unary rfl (fun n ts hn hstops => ?_)
  have htokens : (Tree.cast type (.paren t)).tokens =
      (Tree.paren (.name type)).tokens ++ (Tree.paren t).tokens := by
    have hword : wordToken type = .name type := if_neg htype
    simp [Tree.tokens, hword]
  have hlength : (Tree.paren (.name type)).tokens.length = 3 := rfl
  rw [htokens, List.length_append] at hn
  obtain _ | n := n
  · omega
  have hname := reads_paren (reads_name type)
  obtain ⟨hcast, hop⟩ := hname.lead rfl ((Tree.paren t).tokens ++ ts)
  obtain ⟨m, hm, hprimary⟩ := hname.primary rfl n ((Tree.paren t).tokens ++ ts) (by omega)
  have hsuffixes : suffixes m (.paren (.name type)) ((Tree.paren t).tokens ++ ts) =
      some (.paren (.name type), (Tree.paren t).tokens ++ ts) := by
    obtain _ | m := m
    · omega
    rfl
  have hstarts : ((Tree.paren t).tokens ++ ts).head?.any startsOperand = true := rfl
  have hread := h.unary (Nat.le_succ 12) n ts (by omega) hstops
  rw [htokens, List.append_assoc, unary, hcast, hop]
  simp only [hprimary, hsuffixes, Option.bind_eq_bind, Option.bind_some]
  rw [if_pos hstarts, hread]
  rfl

theorem reads_binary (hassign : ¬ op.isAssignment) (hcomma : op ≠ .comma) (hl : Reads t) (hr : Reads rhs)
    (hlrank : (Tree.operatorLevel op).rank ≤ t.rank) (hrrank : (Tree.operatorLevel op).rank < rhs.rank) :
    Reads (.binary op t rhs) := by
  obtain ⟨htwo, hlt⟩ := operatorLevel_bounds hassign hcomma
  refine .of_chain htwo hlt (fun n ts hn hstops => ?_)
  rw [rank_binary] at hn hstops ⊢
  simp only [Tree.tokens, List.length_append, List.length_cons] at hn ⊢
  -- The operator ends the levels above its own, and the chain of its own level goes on with it.
  obtain ⟨m, hm, hstart⟩ := hl.starts _ htwo hlt hlrank n (.symbol op.symbol :: (rhs.tokens ++ ts))
    (by omega) (stops_binary hassign hcomma _)
  obtain _ | m := m
  · omega
  have hread := hr.chain (Nat.le_succ_of_le htwo) hlt hrrank m ts (by omega) hstops
  refine ⟨m, by omega, ?_⟩
  rw [List.append_assoc, List.cons_append, hstart, chainFrom, operator_binary hassign hcomma]
  simp [hread]

theorem reads_assignment (hassign : op.isAssignment) (hl : Reads t) (hr : Reads rhs) (hlrank : 12 ≤ t.rank) :
    Reads (.binary op t rhs) := by
  have hrank : (Tree.binary op t rhs).rank < 2 := by
    cases op <;> first | exact absurd hassign (by decide) | exact (by decide : (0 : Nat) < 2)
  refine .of_expression hrank (fun n ts hn hstops => ?_)
  simp only [Tree.tokens, List.length_append, List.length_cons] at hn
  obtain _ | n := n
  · omega
  have hleft : chain n Precedence.logicalOr.rank (t.tokens ++ .symbol op.symbol :: (rhs.tokens ++ ts)) =
      some (t, .symbol op.symbol :: (rhs.tokens ++ ts)) :=
    hl.chain (Nat.le_refl 2) (by decide) (by omega) n _ (by omega) (stops_assignment hassign _)
  have hright := hr.expression n ts (by omega) hstops
  have hquestion : expect? "?" (.symbol op.symbol :: (rhs.tokens ++ ts)) = none := by
    cases op <;> rfl
  rw [Tree.tokens, List.append_assoc, List.cons_append, expression, hleft]
  simp only [Option.bind_eq_bind, Option.bind_some, hquestion, operator_assignments hassign]
  rw [if_neg (show ¬ t.rank < Precedence.unary.rank from Nat.not_lt_of_le hlrank), hright]
  rfl

theorem reads_conditional (hc : Reads t) (ht : Reads thenTree) (he : Reads elseTree) (hrank : 2 ≤ t.rank) :
    Reads (.conditional t thenTree elseTree) := by
  refine .of_expression (by exact (by decide : (1 : Nat) < 2)) (fun n ts hn hstops => ?_)
  simp only [Tree.tokens, List.length_append, List.length_cons] at hn
  obtain _ | n := n
  · omega
  have hcond : chain n Precedence.logicalOr.rank (t.tokens ++ .symbol "?" ::
      (thenTree.tokens ++ .symbol ":" :: (elseTree.tokens ++ ts))) =
      some (t, .symbol "?" :: (thenTree.tokens ++ .symbol ":" :: (elseTree.tokens ++ ts))) :=
    hc.chain (Nat.le_refl 2) (by decide) hrank n _ (by omega) (stops_question _)
  -- Both branches are whole expressions, the first one up to the colon.
  have hthen := ht.expression n (.symbol ":" :: (elseTree.tokens ++ ts)) (by omega)
    (stops_closing (.inr (.inr rfl)) _)
  have helse := he.expression n ts (by omega) hstops
  rw [Tree.tokens, List.append_assoc, List.cons_append, List.append_assoc, List.cons_append,
    expression, hcond]
  simp [expect?, hthen, helse]

/-! ### All trees -/

theorem reads_of_grouped (t : Tree) (h : t.Grouped) : Reads t := by
  induction t with
  | number value suffix => exact reads_token rfl (fun _ _ => by rw [primary]) (fun _ => nofun)
  | truth value =>
    cases value with
    | false =>
      exact reads_token (show _ = [.keyword "false"] from rfl) (fun _ _ => by rw [primary])
        (fun _ => nofun)
    | true =>
      exact reads_token (show _ = [.keyword "true"] from rfl) (fun _ _ => by rw [primary])
        (fun _ => nofun)
  | null => exact reads_token rfl (fun _ _ => by rw [primary]) (fun _ => nofun)
  | name text => exact reads_name text
  | paren inner ih => exact reads_paren (ih h)
  | unary op operand ih =>
    obtain ⟨hgrouped, hrank⟩ := h
    by_cases hop : op.isSuffix
    · rw [if_pos hop] at hrank
      exact reads_trailing hop (ih hgrouped) (Nat.le_antisymm operand.rank_le hrank)
    · rw [if_neg hop] at hrank
      exact reads_leading hop (ih hgrouped) hrank
  | binary op lhs rhs ihl ihr =>
    obtain ⟨hl, hr, hlevels⟩ := h
    by_cases hop : op.isAssignment
    · rw [if_pos hop] at hlevels
      exact reads_assignment hop (ihl hl) (ihr hr) hlevels
    · rw [if_neg hop] at hlevels
      exact reads_binary hop hlevels.1 (ihl hl) (ihr hr) hlevels.2.1 hlevels.2.2
  | conditional cond thenTree elseTree ihc iht ihe =>
    obtain ⟨hc, ht, he, hrank⟩ := h
    exact reads_conditional (ihc hc) (iht ht) (ihe he) hrank
  | cast type operand ih =>
    obtain ⟨hgrouped, ⟨inner, rfl⟩, htype⟩ := h
    by_cases hkeyword : typeKeywords.contains type
    · exact reads_keywordCast hkeyword (ih hgrouped) (Nat.le_succ 12)
    · exact reads_nameCast (htype.resolve_left hkeyword) (ih hgrouped)
  | unchecked inner ih => exact reads_unchecked (ih h)
  | subscript base index ihb ihi =>
    obtain ⟨hb, hi, hrank⟩ := h
    exact reads_subscript (ihb hb) (ihi hi) hrank

/-- **The tokens of a tree are read back as the tree**, and nothing is left. -/
theorem parse_tokens {t : Tree} (h : t.Grouped) : parse t.tokens = some t := by
  have hread := (reads_of_grouped t h).expression (16 * (t.tokens.length + 1)) [] (by omega)
    (stops_nil 0)
  rw [List.append_nil] at hread
  rw [parse, hread]
  rfl

example : read "-(a + 1) * b[c] ? x = y = 1U : (int)(z)" =
    some (.conditional
      (.binary .mul (.unary .minus (.paren (.binary .add (.name "a") (.number 1 .none))))
        (.subscript (.name "b") (.name "c")))
      (.binary .assign (.name "x") (.binary .assign (.name "y") (.number 1 .u)))
      (.cast "int" (.paren (.name "z")))) := by
  decide +kernel

end Interop.Csharp
