import Interop.Managed.Expr
import Interop.Proofs.Csharp.Parser
import Interop.Proofs.IntegerLiterals

/-!
# Printed expressions are read back

`Denotes e t` says which C# tree, without parentheses, an expression stands for. Its printed text is
read back as that tree with the parentheses that precedence calls for (`read_text`). What has to be known
about the text of an operand is with which characters it may start (`Opening`), and that its last lexeme
does not go on into anything that may stand behind an operand (`Closing`).
-/

namespace Interop.Csharp

open Managed (Precedence Piece keywords Expr)

variable {t u : Tree} {p : Piece} {text : String} {e : Expr} {op : UnaryOp}

/-! ## Words and symbols -/

def isWord : List Char → Bool
  | [] => false
  | first :: tail => isWordChar first && !first.isDigit && tail.all isWordChar

/-- Whether a text is a name: a word that is no keyword, or a word behind an at sign. -/
def isName (text : String) : Bool :=
  match text.toList with
  | '@' :: word => isWord word
  | cs => isWord cs && !keywords.contains text

theorem lexes_word (h : isWord text.toList = true) :
    ∃ first, startsWord first = true ∧ Lexes text.toList [wordToken text] first text.toList := by
  cases hcs : text.toList with
  | nil =>
    rw [hcs] at h
    cases h
  | cons first tail =>
    rw [hcs] at h
    simp only [isWord, Bool.and_eq_true, Bool.not_eq_true', List.all_eq_true] at h
    obtain ⟨⟨hfirst, hdigit⟩, htail⟩ := h
    have hstart : startsWord first = true := by simp [startsWord, hfirst]
    have hblank : first ≠ ' ' ∧ first ≠ '@' := by
      constructor <;>
      · rintro rfl
        cases hfirst
    have htext : String.ofList (first :: tail) = text := by rw [← hcs, String.ofList_toList]
    refine ⟨first, hstart, lexes_single (extends_word hstart htail) ?_⟩
    simp only [token?, hblank, hdigit, hfirst, if_false, if_true, Bool.false_eq_true, htext]

theorem lexes_name (h : isName text = true) :
    ∃ first, startsWord first = true ∧ Lexes text.toList [.name text] first text.toList := by
  unfold isName at h
  split at h
  · rename_i word hcs
    have htext : String.ofList ('@' :: word) = text := by rw [← hcs, String.ofList_toList]
    have hword : word ≠ [] := by
      rintro rfl
      cases h
    have htail : ∀ c ∈ word, isWordChar c = true := by
      cases word with
      | nil => simp
      | cons first tail =>
        simp only [isWord, Bool.and_eq_true, List.all_eq_true] at h
        exact List.forall_mem_cons.mpr ⟨h.1.1, h.2⟩
    rw [hcs]
    refine ⟨'@', rfl, lexes_single (extends_word rfl htail) ?_⟩
    simp [token?, hword, htext]
  · simp only [Bool.and_eq_true, Bool.not_eq_true'] at h
    have hname : wordToken text = .name text := by
      rw [wordToken, h.2]
      rfl
    exact hname ▸ lexes_word h.1

theorem lexes_symbol (h : text ∈ symbols) :
    (∃ first, Lexes text.toList [.symbol text] first text.toList) ∧ continues text.toList ' ' = false := by
  have hall : ∀ text ∈ symbols, continues text.toList ' ' = false ∧ text.toList ≠ [] ∧
      extends? (text.toList.take 1) (text.toList.drop 1) = true ∧
      token? text.toList = some [.symbol text] := by
    decide
  obtain ⟨hblank, hne, hextends, htoken⟩ := hall text h
  refine ⟨?_, hblank⟩
  cases hcs : text.toList with
  | nil => exact absurd hcs hne
  | cons first tail =>
    rw [hcs] at hextends htoken
    exact ⟨first, lexes_single hextends htoken⟩

/-! ## The ends of an operand -/

/-- A character that an operand may start with. -/
def Opening (first : Char) : Prop :=
  startsWord first = true ∨ first ∈ ['(', '+', '-', '!', '~', '&', '*']

/-- The last lexeme does not go on into anything that may stand behind an operand. -/
def Closing (last : List Char) : Prop :=
  ∀ c ∈ [' ', ')', ']', '[', '+', '-'], continues last c = false

theorem closing_word (h : startsWord first = true) : Closing (first :: tail) := by
  have hall : [' ', ')', ']', '[', '+', '-'].all (fun c => !isWordChar c) = true := by decide
  intro c hc
  have hchar : isWordChar c = false := by simpa using List.all_eq_true.mp hall c hc
  simp [continues, h, hchar]

theorem closing_symbol (h : text ∈ [")", "]", "++", "--"]) : Closing text.toList := by
  have hall : ∀ text ∈ [")", "]", "++", "--"],
      [' ', ')', ']', '[', '+', '-'].all (fun c => !continues text.toList c) = true := by
    decide
  intro c hc
  simpa using List.all_eq_true.mp (hall text h) c hc

theorem continues_leading (hop : op.isSuffix = false) (hfirst : Opening first)
    (hsign : Expr.fusesWithSign op = true → first ≠ '+' ∧ first ≠ '-')
    (hampersand : op = .addressOf → first ≠ '&') : continues op.symbol.toList first = false := by
  have hne : first ≠ '=' ∧ first ≠ '>' := by
    constructor <;>
    · rintro rfl
      rcases hfirst with h | h <;> exact absurd h (by decide)
  have hnot : first ∉ followers op.symbol.toList := by
    cases op with
    | plus =>
      change first ∉ ['+', '=']
      simp [hsign rfl, hne]
    | minus =>
      change first ∉ ['-', '>', '=']
      simp [hsign rfl, hne]
    | addressOf =>
      change first ∉ ['&', '=']
      simp [hampersand rfl, hne]
    | deref | logicalNot =>
      change first ∉ ['=']
      simp [hne]
    | preInc | preDec | complement => exact List.not_mem_nil
    | postInc | postDec => cases hop
  have hcontinues : continues op.symbol.toList first = (followers op.symbol.toList).contains first := by
    cases op <;> rfl
  simpa [hcontinues] using hnot

/-- The characters are a text of the tree that fits between other operands. -/
def Spells (cs : List Char) (t : Tree) : Prop :=
  ∃ first last, Lexes cs t.tokens first last ∧ Opening first ∧ Closing last ∧
    (first = '&' → t.firstToken = .symbol "&")

theorem Lexes.spaced (h : Lexes cs ts first last) (hlast : continues last ' ' = false)
    (htext : text ∈ symbols) (h' : Lexes ds us first₂ last₂) :
    Lexes (cs ++ ([' '] ++ (text.toList ++ ([' '] ++ ds)))) (ts ++ .symbol text :: us) first last₂ := by
  obtain ⟨⟨start, hsymbol⟩, hblank⟩ := lexes_symbol htext
  have hblankLexes : Lexes [' '] [] ' ' [' '] := lexes_single rfl rfl
  have hright := hsymbol.append (hblankLexes.append h' (continues_blank _)) hblank
  exact h.append (hblankLexes.append hright (continues_blank _)) hlast

namespace Spells

theorem lexes_open : Lexes ['('] [.symbol "("] '(' ['('] := lexes_single rfl rfl

theorem lexes_close : Lexes [')'] [.symbol ")"] ')' [')'] := lexes_single rfl rfl

theorem continues_open (c : Char) : continues ['('] c = false := rfl

theorem continues_close (c : Char) : continues [')'] c = false := rfl

theorem paren (h : Spells cs t) : Spells (['('] ++ (cs ++ [')'])) (.paren t) := by
  obtain ⟨first, last, hlex, -, hclosing, -⟩ := h
  have hinner := hlex.append lexes_close (hclosing ')' (by decide))
  exact ⟨'(', [')'], lexes_open.append hinner (continues_open _), .inr (by decide),
    closing_symbol (by decide : ")" ∈ [")", "]", "++", "--"]), nofun⟩

theorem trailing (hop : op.isSuffix = true) (h : Spells cs t) :
    Spells (cs ++ op.symbol.toList) (.unary op t) := by
  obtain ⟨first, last, hlex, hopening, hclosing, hampersand⟩ := h
  have htokens : (Tree.unary op t).tokens = t.tokens ++ [.symbol op.symbol] := by
    simp [Tree.tokens, hop]
  refine ⟨first, op.symbol.toList, ?_, hopening, closing_symbol ?_, ?_⟩
  · rw [htokens]
    cases op with
    | postInc => exact hlex.append (lexes_single rfl rfl) (hclosing '+' (by decide))
    | postDec => exact hlex.append (lexes_single rfl rfl) (hclosing '-' (by decide))
    | preInc | preDec | addressOf | deref | plus | minus | complement | logicalNot => cases hop
  · cases op <;> first | decide | cases hop
  · simpa [Tree.firstToken, hop] using hampersand

theorem leading (hop : op.isSuffix = false) (h : Spells cs t)
    (hsign : Expr.fusesWithSign op = true → ∀ c ∈ cs.head?, c ≠ '+' ∧ c ≠ '-')
    (hampersand : op = .addressOf → t.firstToken ≠ .symbol "&") :
    Spells (op.symbol.toList ++ cs) (.unary op t) := by
  obtain ⟨first, last, hlex, hopening, hclosing, hfirst⟩ := h
  have hhead : first ∈ cs.head? := by
    obtain ⟨tail, _, _, rfl, -⟩ := hlex
    rfl
  have htokens : (Tree.unary op t).tokens = [.symbol op.symbol] ++ t.tokens := by
    simp [Tree.tokens, hop]
  have hjoin := continues_leading hop hopening (fun hfuses => hsign hfuses first hhead)
    (fun hop heq => hampersand hop (hfirst heq))
  obtain ⟨start, hstart, hsymbol⟩ : ∃ start, start ∈ ['(', '+', '-', '!', '~', '&', '*'] ∧
      (start = '&' → op = .addressOf) ∧
      Lexes op.symbol.toList [.symbol op.symbol] start op.symbol.toList := by
    cases op with
    | preInc | preDec | addressOf | deref | plus | minus | complement | logicalNot =>
      exact ⟨_, by decide, by decide, lexes_single rfl rfl⟩
    | postInc | postDec => cases hop
  refine ⟨start, last, htokens ▸ hsymbol.2.append hlex hjoin, .inr hstart, hclosing, fun heq => ?_⟩
  rw [hsymbol.1 heq]
  rfl

theorem binary {op : BinaryOp} (hop : op ≠ .comma) (h : Spells cs t) (h' : Spells ds r) :
    Spells (cs ++ ([' '] ++ (op.symbol.toList ++ ([' '] ++ ds)))) (.binary op t r) := by
  obtain ⟨first, last, hlex, hopening, hclosing, hampersand⟩ := h
  obtain ⟨first₂, last₂, hlex₂, -, hclosing₂, -⟩ := h'
  have hsymbol : op.symbol ∈ symbols := by
    cases op <;> decide
  exact ⟨first, last₂, hlex.spaced (hclosing ' ' (by decide)) hsymbol hlex₂, hopening, hclosing₂,
    hampersand⟩

theorem conditional {u : Tree} (h : Spells cs t) (h' : Spells ds r) (h'' : Spells es u) :
    Spells (cs ++ ([' '] ++ ("?".toList ++ ([' '] ++
      (ds ++ ([' '] ++ (":".toList ++ ([' '] ++ es)))))))) (.conditional t r u) := by
  obtain ⟨first, last, hlex, hopening, hclosing, hampersand⟩ := h
  obtain ⟨first₂, last₂, hlex₂, -, hclosing₂, -⟩ := h'
  obtain ⟨first₃, last₃, hlex₃, -, hclosing₃, -⟩ := h''
  have hchoice : Lexes (ds ++ ([' '] ++ (":".toList ++ ([' '] ++ es))))
      (r.tokens ++ .symbol ":" :: u.tokens) first₂ last₃ :=
    hlex₂.spaced (hclosing₂ ' ' (by decide)) (by decide) hlex₃
  exact ⟨first, last₃, hlex.spaced (hclosing ' ' (by decide)) (by decide) hchoice, hopening,
    hclosing₃, hampersand⟩

theorem subscript (h : Spells cs t) (h' : Spells ds r) :
    Spells (cs ++ (['['] ++ (ds ++ [']']))) (.subscript t r) := by
  obtain ⟨first, last, hlex, hopening, hclosing, hampersand⟩ := h
  obtain ⟨first₂, last₂, hlex₂, -, hclosing₂, -⟩ := h'
  have hopen : Lexes ['['] [.symbol "["] '[' ['['] := lexes_single rfl rfl
  have hclose : Lexes [']'] [.symbol "]"] ']' [']'] := lexes_single rfl rfl
  have hindex := hopen.append (hlex₂.append hclose (hclosing₂ ']' (by decide))) rfl
  exact ⟨first, [']'], hlex.append hindex (hclosing '[' (by decide)), hopening,
    closing_symbol (by decide : "]" ∈ [")", "]", "++", "--"]), hampersand⟩

theorem cast {type : String} (htype : isWord type.toList = true) (h : Spells cs t) :
    Spells (['('] ++ (type.toList ++ ([')'] ++ cs))) (.cast type t) := by
  obtain ⟨first, last, hlex, -, hclosing, -⟩ := h
  obtain ⟨start, hstart, hword⟩ := lexes_word htype
  have hcontinues : continues type.toList ')' = false := by
    obtain ⟨tail, _, _, hcs, -⟩ := hword
    rw [hcs]
    exact closing_word hstart ')' (by decide)
  have hrest := hword.append (lexes_close.append hlex (continues_close _)) hcontinues
  exact ⟨'(', last, lexes_open.append hrest (continues_open _), .inr (by decide), hclosing, nofun⟩

theorem unchecked (h : Spells cs t) :
    Spells ("unchecked".toList ++ (['('] ++ (cs ++ [')']))) (.unchecked t) := by
  obtain ⟨first, last, hlex, -, hclosing, -⟩ := h
  have hinner := hlex.append lexes_close (hclosing ')' (by decide))
  have hword : Lexes "unchecked".toList [.keyword "unchecked"] 'u' "unchecked".toList :=
    lexes_single rfl rfl
  exact ⟨'u', [')'], hword.append (lexes_open.append hinner (continues_open _)) rfl, .inl rfl,
    closing_symbol (by decide : ")" ∈ [")", "]", "++", "--"]), nofun⟩

theorem token {token : Token} {first : Char} (htokens : t.tokens = [token])
    (hfirst : startsWord first = true) (h : Lexes cs [token] first cs) : Spells cs t := by
  refine ⟨first, cs, htokens ▸ h, .inl hfirst, ?_, ?_⟩
  · obtain ⟨tail, _, _, rfl, -⟩ := h
    exact closing_word hfirst
  · rintro rfl
    cases hfirst

end Spells

/-! ## The tree of an expression -/

/-- Whether a text is the name of a type that may stand in a cast. -/
def isTypeWord (type : String) : Bool :=
  isWord type.toList && (typeKeywords.contains type || !keywords.contains type)

/-- The tree, without parentheses, that an expression stands for. -/
inductive Denotes : Expr → Tree → Prop
  | number {text : String} {value : Nat} {suffix : Suffix} :
      integer? text.toList = some (value, suffix) → Denotes (.literal text) (.number value suffix)
  | truth (value : Bool) : Denotes (.literal (if value then "true" else "false")) (.truth value)
  | null : Denotes (.literal "null") .null
  | name {text : String} : isName text = true → Denotes (.ident text) (.name text)
  | paren {e : Expr} {t : Tree} : Denotes e t → Denotes (.paren e) t
  | unary {op : UnaryOp} {e : Expr} {t : Tree} : Denotes e t →
      (op = .addressOf → ∀ x, t ≠ .unary .addressOf x) → Denotes (.unary op e) (.unary op t)
  | binary {op : BinaryOp} {l r : Expr} {t u : Tree} : op ≠ .comma → Denotes l t →
      Denotes r u → Denotes (.binary op l r) (.binary op t u)
  | conditional {c a b : Expr} {t u v : Tree} : Denotes c t → Denotes a u → Denotes b v →
      Denotes (.conditional c a b) (.conditional t u v)
  | cast {type : String} {e : Expr} {t : Tree} : isTypeWord type = true → Denotes e t →
      Denotes (.castTo (.named type) e) (.cast type t)
  | unchecked {e : Expr} {t : Tree} : Denotes e t → Denotes (.unchecked e) (.unchecked t)
  | subscript {b i : Expr} {t u : Tree} : Denotes b t → Denotes i u →
      Denotes (.subscript b i) (.subscript t u)

/-! ## Printed pieces -/

def Operand (text : String) (least : Nat) (t : Tree) : Prop :=
  ∃ u : Tree, u.bare = t ∧ u.Grouped ∧ least ≤ u.rank ∧ Spells text.toList u

/-- The piece is a text of the tree, grouped as its level says. -/
def Printed (p : Piece) (t : Tree) : Prop :=
  ∃ u : Tree, u.bare = t ∧ u.Grouped ∧ u.rank = p.level.rank ∧ Spells p.text.toList u

theorem Operand.parenthesized (h : Operand text least t) (hleast : least' ≤ 13) :
    Operand (Managed.parenthesized text) least' t := by
  obtain ⟨u, rfl, hgrouped, -, hspells⟩ := h
  refine ⟨.paren u, rfl, hgrouped, hleast, ?_⟩
  simpa [Managed.parenthesized] using hspells.paren

theorem Printed.operand (h : Printed p t) : Operand p.text p.level.rank t := by
  obtain ⟨u, hbare, hgrouped, hrank, hspells⟩ := h
  exact ⟨u, hbare, hgrouped, Nat.le_of_eq hrank.symm, hspells⟩

theorem Precedence.rank_le (level : Precedence) : level.rank ≤ 13 := by
  cases level <;> decide

theorem Printed.atLeast (h : Printed p t) (least : Precedence) : Operand (p.atLeast least) least.rank t := by
  unfold Piece.atLeast
  split
  · exact h.operand.parenthesized (Precedence.rank_le least)
  · obtain ⟨u, hbare, hgrouped, hrank, hspells⟩ := h
    exact ⟨u, hbare, hgrouped, by omega, hspells⟩

theorem Printed.above (h : Printed p t) {level : Precedence} (hlevel : level.rank < 13) :
    Operand (p.above level) (level.rank + 1) t := by
  unfold Piece.above
  split
  · exact h.operand.parenthesized hlevel
  · obtain ⟨u, hbare, hgrouped, hrank, hspells⟩ := h
    exact ⟨u, hbare, hgrouped, by omega, hspells⟩

theorem eq_addressOf_of_firstToken (hgrouped : t.Grouped) (hrank : 12 ≤ t.rank)
    (h : t.firstToken = .symbol "&") : ∃ x, t = .unary .addressOf x := by
  rcases Nat.lt_or_eq_of_le t.rank_le with hlt | heq
  · -- Below the primary level, only operators in front and casts are tight enough.
    cases t with
    | unary op x =>
      by_cases hop : op.isSuffix
      · rw [rank_unary, if_pos hop] at hlt
        omega
      · have hsymbol : op.symbol = "&" := by simpa [Tree.firstToken, hop] using h
        have haddress : op = .addressOf := by
          cases op <;> first | rfl | exact absurd hsymbol (by decide)
        exact ⟨x, by rw [haddress]⟩
    | cast type x => simp [Tree.firstToken] at h
    | number | truth | null | name | paren | unchecked | subscript =>
      exact absurd hlt (Nat.lt_irrefl 13)
    | conditional => exact absurd hrank (by exact (by decide : ¬ 12 ≤ 1))
    | binary op l r =>
      rw [rank_binary] at hrank
      cases op <;> exact absurd hrank (by decide)
  · -- A primary expression starts with no operator at all.
    obtain ⟨rest, htokens⟩ := t.exists_tokens_eq
    have hlead := ((reads_of_grouped t hgrouped).lead heq []).2
    rw [htokens, h] at hlead
    cases hlead

theorem operatorLevel_eq (op : BinaryOp) : Tree.operatorLevel op = Precedence.ofBinary op := by
  cases op <;> rfl

theorem printed_token (hlevel : p.level = .primary) (hrank : t.rank = 13) (hgrouped : t.Grouped)
    (htokens : t.tokens = [token]) (hbare : t.bare = t)
    (h : ∃ first, startsWord first = true ∧ Lexes p.text.toList [token] first p.text.toList) :
    Printed p t := by
  obtain ⟨first, hfirst, hlex⟩ := h
  exact ⟨t, hbare, hgrouped, by rw [hrank, hlevel]; rfl, Spells.token htokens hfirst hlex⟩

theorem startsWith_of_head {p : Char → Bool} {s : String} (h : c ∈ s.toList.head?) :
    Text.startsWith p s = p c := by
  unfold Text.startsWith
  cases hs : s.toList with
  | nil => simp [hs] at h
  | cons c' rest =>
    obtain rfl : c' = c := by simpa [hs] using h
    rfl

theorem printed_unary (h : Printed p t) (haddress : op = .addressOf → ∀ x, t ≠ .unary .addressOf x) :
    Printed (Expr.unaryPiece op p) (.unary op t) := by
  unfold Expr.unaryPiece
  split
  · rename_i hop
    obtain ⟨u, rfl, hgrouped, hrank, hspells⟩ := h.atLeast .primary
    refine ⟨.unary op u, rfl, ⟨hgrouped, by rwa [if_pos hop]⟩, by rw [rank_unary, if_pos hop]; rfl, ?_⟩
    rw [String.toList_append]
    exact hspells.trailing hop
  · rename_i hop
    have hop : op.isSuffix = false := by simpa using hop
    obtain ⟨u, rfl, hgrouped, hrank, hspells⟩ := h.atLeast .unary
    dsimp only
    split
    · -- The operand starts with a sign that would join with the operator.
      refine ⟨.unary op (.paren u), rfl, ⟨hgrouped, ?_⟩, by rw [rank_unary, hop]; rfl, ?_⟩
      · rw [hop]
        exact Nat.le_succ 12
      · have hparen : Spells _ (.unary op (.paren u)) :=
          hspells.paren.leading hop (by simp) (by simp [Tree.firstToken])
        simpa [Managed.parenthesized] using hparen
    · rename_i hfuses
      refine ⟨.unary op u, rfl, ⟨hgrouped, by rwa [hop]⟩, by rw [rank_unary, hop]; rfl, ?_⟩
      rw [String.toList_append]
      refine hspells.leading hop (fun hsign c hc => ?_) (fun hop' heq => ?_)
      · rw [hsign, Bool.true_and, startsWith_of_head hc] at hfuses
        simpa using hfuses
      · obtain ⟨x, rfl⟩ := eq_addressOf_of_firstToken hgrouped hrank heq
        exact haddress hop' x.bare rfl

theorem printed_binary {op : BinaryOp} (hop : op ≠ .comma) (hp : Printed p t) (hq : Printed q u) :
    Printed (Expr.binaryPiece op p q) (.binary op t u) := by
  unfold Expr.binaryPiece
  dsimp only
  split
  · rename_i hassign
    obtain ⟨l, rfl, hl, hlrank, hlspells⟩ := hp.atLeast .unary
    obtain ⟨r, rfl, hr, -, hrspells⟩ := hq
    refine ⟨.binary op l r, rfl, ⟨hl, hr, by rwa [if_pos hassign]⟩, ?_, ?_⟩
    · cases op <;> first | rfl | cases hassign
    · simpa using hlspells.binary hop hrspells
  · rename_i hassign
    have hlevel := operatorLevel_eq op
    have hbounds := operatorLevel_bounds hassign hop
    rw [hlevel] at hbounds
    obtain ⟨l, rfl, hl, hlrank, hlspells⟩ := hp.atLeast (Precedence.ofBinary op)
    obtain ⟨r, rfl, hr, hrrank, hrspells⟩ := hq.above (show (Precedence.ofBinary op).rank < 13 by omega)
    refine ⟨.binary op l r, rfl, ⟨hl, hr, ?_⟩, ?_, ?_⟩
    · rw [if_neg hassign, hlevel]
      exact ⟨hop, hlrank, hrrank⟩
    · rw [rank_binary, hlevel]
    · simpa using hlspells.binary hop hrspells

theorem printed_conditional (hp : Printed p t) (hq : Printed q u) (hr : Printed r v) :
    Printed ⟨p.above .conditional ++ " ? " ++ q.atLeast .conditional ++ " : " ++
      r.atLeast .conditional, .conditional⟩ (.conditional t u v) := by
  obtain ⟨c, rfl, hc, hcrank, hcspells⟩ := hp.above (show Precedence.conditional.rank < 13 by decide)
  obtain ⟨a, rfl, ha, -, haspells⟩ := hq.atLeast .conditional
  obtain ⟨b, rfl, hb, -, hbspells⟩ := hr.atLeast .conditional
  refine ⟨.conditional c a b, rfl, ⟨hc, ha, hb, hcrank⟩, rfl, ?_⟩
  simpa using hcspells.conditional haspells hbspells

theorem printed_of_denotes (h : Denotes e t) : Printed e.piece t := by
  induction h with
  | number hinteger =>
    exact printed_token rfl rfl trivial rfl rfl (lexes_integer hinteger)
  | truth value =>
    cases value with
    | true => exact printed_token rfl rfl trivial rfl rfl ⟨'t', rfl, lexes_single rfl rfl⟩
    | false => exact printed_token rfl rfl trivial rfl rfl ⟨'f', rfl, lexes_single rfl rfl⟩
  | null => exact printed_token rfl rfl trivial rfl rfl ⟨'n', rfl, lexes_single rfl rfl⟩
  | name hname => exact printed_token rfl rfl trivial rfl rfl (lexes_name hname)
  | paren _ ih =>
    obtain ⟨u, rfl, hgrouped, -, hspells⟩ := ih
    refine ⟨.paren u, rfl, hgrouped, rfl, ?_⟩
    simpa [Expr.piece, Managed.parenthesized] using hspells.paren
  | unary _ haddress ih => exact printed_unary ih haddress
  | binary hop _ _ ihl ihr => exact printed_binary hop ihl ihr
  | conditional _ _ _ ihc iha ihb => exact printed_conditional ihc iha ihb
  | @cast type e _ htype _ ih =>
    have htext : (Expr.castTo (.named type) e).piece.text =
        Managed.parenthesized type ++ Managed.parenthesized e.piece.text := rfl
    simp only [isTypeWord, Bool.and_eq_true, Bool.or_eq_true, Bool.not_eq_true'] at htype
    -- The operand is in parentheses whatever its level, so its own level does not matter.
    obtain ⟨u, rfl, hgrouped, -, hspells⟩ := ih
    refine ⟨.cast _ (.paren u), rfl, ⟨hgrouped, ⟨u, rfl⟩, ?_⟩, rfl, ?_⟩
    · simpa using htype.2
    · rw [htext]
      simpa [Managed.parenthesized] using hspells.paren.cast htype.1
  | unchecked _ ih =>
    obtain ⟨u, rfl, hgrouped, -, hspells⟩ := ih
    refine ⟨.unchecked u, rfl, hgrouped, rfl, ?_⟩
    simpa [Expr.piece, Managed.parenthesized] using hspells.unchecked
  | subscript _ _ ihb ihi =>
    obtain ⟨b, rfl, hb, hbrank, hbspells⟩ := ihb.atLeast .primary
    obtain ⟨i, rfl, hi, -, hispells⟩ := ihi
    refine ⟨.subscript b i, rfl, ⟨hb, hi, Nat.le_antisymm b.rank_le hbrank⟩, rfl, ?_⟩
    simpa [Expr.piece] using hbspells.subscript hispells

/-- **A printed expression is read back** as the tree it stands for. -/
theorem read_text (h : Denotes e t) : ∃ u, read e.text = some u ∧ u.bare = t ∧ u.rank = e.level.rank := by
  obtain ⟨u, hbare, hgrouped, hrank, first, last, hlex, -⟩ := printed_of_denotes h
  refine ⟨u, ?_, hbare, hrank⟩
  rw [read, Expr.text, hlex.lex_eq, Option.bind_eq_bind, Option.bind_some,
    parse_tokens hgrouped]

theorem read_parenthesized (h : Denotes e t) :
    ∃ u, read (Managed.parenthesized e.text) = some (.paren u) ∧ u.bare = t := by
  obtain ⟨u, hbare, hgrouped, -, hspells⟩ := printed_of_denotes h
  obtain ⟨first, last, hlex, -⟩ := hspells.paren
  have htext : (Managed.parenthesized e.text).toList = ['('] ++ (e.piece.text.toList ++ [')']) := by
    simp [Managed.parenthesized, Expr.text]
  have hparen : (Tree.paren u).Grouped := hgrouped
  refine ⟨u, ?_, hbare⟩
  rw [read, htext, hlex.lex_eq, Option.bind_eq_bind, Option.bind_some, parse_tokens hparen]

end Interop.Csharp
