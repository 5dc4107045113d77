import Pirc.Lib.Ebnf
import Pirc.Scripting.Parser

/-!
# Scripts: the documented grammar

`grammar.rs`, from blocks down, over the tokens of the lexer; the table of operator precedences; and
how an expression is written with tokens.
-/

namespace Pirc.Scripting

open Protocol (Str)

variable {F : Type}

/-! ## Productions -/

inductive Nonterminal
  | block | statementOrNewline | statement | ifStmt | whileStmt | varDecl | setStmt | variable_
  | returnStmt | commandStmt | comment
  | expression | logicalOr | logicalAnd | equality | comparison | addition | multiplication | unary
  | primary | functionCall | builtinIdent
  deriving DecidableEq

open Nonterminal (block statementOrNewline statement ifStmt whileStmt varDecl setStmt variable_
  returnStmt commandStmt comment expression logicalOr logicalAnd equality comparison addition
  multiplication unary primary functionCall builtinIdent)

section Productions

open Ebnf (token terminal opt rep)

private abbrev nt (n : Nonterminal) : Ebnf (TokenKind F) Nonterminal := .nonterminal n

/-- A level of left-associative operators over the next one. -/
def operators (operand : Nonterminal) (ops : Ebnf (TokenKind F) Nonterminal) :
    Ebnf (TokenKind F) Nonterminal :=
  nt operand ++ rep (ops ++ nt operand)

/-- **The productions** of blocks, statements and expressions. -/
def grammar : Nonterminal → Ebnf (TokenKind F) Nonterminal
  | .block => token .leftBrace ++ rep (nt statementOrNewline) ++ token .rightBrace
  | .statementOrNewline => nt statement ++ token .newline ||| token .newline
  | .statement => nt ifStmt ||| nt whileStmt ||| nt varDecl ||| nt setStmt ||| nt returnStmt |||
      nt commandStmt ||| nt comment
  | .ifStmt =>
      token .if_ ++ token .leftParen ++ nt expression ++ token .rightParen ++ nt block ++
        rep (token .elseIf ++ token .leftParen ++ nt expression ++ token .rightParen ++ nt block) ++
        opt (token .else_ ++ nt block)
  | .whileStmt =>
      token .while_ ++ token .leftParen ++ nt expression ++ token .rightParen ++ nt block
  | .varDecl => token .var ++ nt variable_ ++ token .equal ++ nt expression
  | .setStmt => token .set ++ nt variable_ ++ nt expression
  | .variable_ => terminal (∃ name, · = .variable_ name) ||| terminal (∃ name, · = .globalVariable name)
  | .returnStmt => token .return_ ++ opt (nt expression)
  | .commandStmt =>
      opt (token .slash) ++ terminal (∃ name, · = .identifier name) ++ rep (nt expression)
  | .comment => terminal (∃ text, · = .comment text) ++ token .newline
  | .expression => nt logicalOr
  | .logicalOr => operators logicalAnd (token .pipePipe)
  | .logicalAnd => operators equality (token .ampAmp)
  | .equality => operators comparison (token .equalEqual ||| token .bangEqual)
  | .comparison => operators addition
      (token .less ||| token .greater ||| token .lessEqual ||| token .greaterEqual)
  | .addition => operators multiplication (token .plus ||| token .minus)
  | .multiplication => operators unary (token .star ||| token .slash ||| token .percent)
  | .unary => (token .bang ||| token .minus) ++ nt unary ||| nt primary
  | .primary =>
      terminal (∃ value, · = .intLiteral value) ||| terminal (∃ value, · = .numberLiteral value) |||
        terminal (∃ value, · = .stringLiteral value) ||| nt variable_ ||| nt builtinIdent |||
        nt functionCall ||| token .leftParen ++ nt expression ++ token .rightParen |||
        (token .true ||| token .false)
  | .functionCall =>
      terminal (∃ name, · = .builtinIdentifier name) ++ token .leftParen ++
        opt (nt expression ++ rep (token .comma ++ nt expression)) ++ token .rightParen
  | .builtinIdent => terminal (∃ name, · = .builtinIdentifier name)

abbrev Derives (n : Nonterminal) (ts : List (TokenKind F)) : Prop :=
  Ebnf.Derives grammar (.nonterminal n) ts

end Productions

/-! ## Precedences -/

/-- The precedence table. -/
def BinaryOp.precedence : BinaryOp → ℕ
  | or => 1
  | and => 2
  | eq | neq => 3
  | lt | gt | lte | gte => 4
  | add | sub => 5
  | mul | div | mod => 6

def BinaryOp.token : BinaryOp → TokenKind F
  | or => .pipePipe
  | and => .ampAmp
  | eq => .equalEqual
  | neq => .bangEqual
  | lt => .less
  | gt => .greater
  | lte => .lessEqual
  | gte => .greaterEqual
  | add => .plus
  | sub => .minus
  | mul => .star
  | div => .slash
  | mod => .percent

def UnaryOp.token : UnaryOp → TokenKind F
  | not => .bang
  | neg => .minus

namespace Expression

/-- Where an expression stands in the precedence table. -/
def level : Expression F → ℕ
  | binaryOp _ op _ _ => op.precedence
  | unaryOp _ _ _ => 7
  | _ => 8

mutual

/-- The tokens that the expression is written with. A string with its references taken apart is not
written. -/
def tokens : Expression F → List (TokenKind F)
  | binaryOp left op right _ => left.tokens ++ op.token :: right.tokens
  | unaryOp op operand _ => op.token :: operand.tokens
  | stringLiteral value _ => [.stringLiteral value]
  | numberLiteral value _ => [.numberLiteral value]
  | intLiteral value _ => [.intLiteral value]
  | boolLiteral true _ => [.true]
  | boolLiteral false _ => [.false]
  | variable_ name _ => [.variable_ name]
  | globalVariable name _ => [.globalVariable name]
  | builtinId name _ => [.builtinIdentifier name]
  | identifier name _ => [.identifier name]
  | functionCall name args _ =>
    .builtinIdentifier name :: .leftParen :: (argumentTokens args ++ [.rightParen])
  | interpolated _ _ => []
  | grouped expr _ => .leftParen :: (expr.tokens ++ [.rightParen])

def argumentTokens : List (Expression F) → List (TokenKind F)
  | [] => []
  | arg :: args => arg.tokens ++ furtherTokens args

def furtherTokens : List (Expression F) → List (TokenKind F)
  | [] => []
  | arg :: args => .comma :: (arg.tokens ++ furtherTokens args)

end

mutual

/-- The tree without its positions. -/
def unspanned : Expression F → Expression F
  | binaryOp left op right _ => .binaryOp left.unspanned op right.unspanned default
  | unaryOp op operand _ => .unaryOp op operand.unspanned default
  | stringLiteral value _ => .stringLiteral value default
  | numberLiteral value _ => .numberLiteral value default
  | intLiteral value _ => .intLiteral value default
  | boolLiteral value _ => .boolLiteral value default
  | variable_ name _ => .variable_ name default
  | globalVariable name _ => .globalVariable name default
  | builtinId name _ => .builtinId name default
  | identifier name _ => .identifier name default
  | functionCall name args _ => .functionCall name (unspannedAll args) default
  | interpolated parts _ => .interpolated (unspannedParts parts) default
  | grouped expr _ => .grouped expr.unspanned default

def unspannedAll : List (Expression F) → List (Expression F)
  | [] => []
  | e :: es => e.unspanned :: unspannedAll es

def unspannedParts : List (StringPart F) → List (StringPart F)
  | [] => []
  | .literal text :: parts => .literal text :: unspannedParts parts
  | .expr e :: parts => .expr e.unspanned :: unspannedParts parts

end

end Expression

/-- **Trees that are written unambiguously**: the left operand binds at least as strongly as the
operator, the right operand and the operand of a unary operator more strongly, or they are in
parentheses. Strings are from `S`. -/
inductive Bracketed (S : Str → Prop) : Expression F → Prop
  | binaryOp {left op right span} (hleft : op.precedence ≤ left.level)
      (hright : op.precedence < right.level) (bleft : Bracketed S left) (bright : Bracketed S right) :
      Bracketed S (.binaryOp left op right span)
  | unaryOp {op operand span} (hoperand : 7 ≤ operand.level) (boperand : Bracketed S operand) :
      Bracketed S (.unaryOp op operand span)
  | stringLiteral {value span} (h : S value) : Bracketed S (.stringLiteral value span)
  | numberLiteral {value span} : Bracketed S (.numberLiteral value span)
  | intLiteral {value span} : Bracketed S (.intLiteral value span)
  | boolLiteral {value span} : Bracketed S (.boolLiteral value span)
  | variable_ {name span} : Bracketed S (.variable_ name span)
  | globalVariable {name span} : Bracketed S (.globalVariable name span)
  | builtinId {name span} : Bracketed S (.builtinId name span)
  | functionCall {name args span} (bargs : ∀ arg ∈ args, Bracketed S arg) :
      Bracketed S (.functionCall name args span)
  | grouped {expr span} (bexpr : Bracketed S expr) : Bracketed S (.grouped expr span)

/-! ## From derivations to trees -/

def Written (level : ℕ) (ts : List (TokenKind F)) : Prop :=
  ∃ e : Expression F, Bracketed (fun _ => True) e ∧ level ≤ e.level ∧ e.tokens = ts

/-- The level of the trees that a production derives. -/
def Nonterminal.stratum : Nonterminal → Option ℕ
  | expression | logicalOr => some 1
  | logicalAnd => some 2
  | equality => some 3
  | comparison => some 4
  | addition => some 5
  | multiplication => some 6
  | unary => some 7
  | primary | functionCall | builtinIdent | variable_ => some 8
  | _ => none

variable {p k : ℕ} {ts : List (TokenKind F)}

theorem Written.mono {q : ℕ} (h : Written q ts) (hle : p ≤ q) : Written p ts :=
  let ⟨e, hb, hlevel, htokens⟩ := h
  ⟨e, hb, hle.trans hlevel, htokens⟩

theorem Written.chain {words : List (List (TokenKind F))}
    (hwords : ∀ word ∈ words, ∃ (op : BinaryOp) (us : List (TokenKind F)), op.precedence = p ∧
      word = op.token :: us ∧ Written (p + 1) us) (h : Written p ts) :
    Written p (ts ++ words.flatten) := by
  induction words generalizing ts with
  | nil => simpa using h
  | cons word words ih =>
    obtain ⟨hword, hrest⟩ := List.forall_mem_cons.mp hwords
    obtain ⟨op, us, hop, rfl, right, bright, hright, rfl⟩ := hword
    obtain ⟨left, bleft, hleft, rfl⟩ := h
    have hnext : Written p (left.tokens ++ op.token :: right.tokens) :=
      ⟨.binaryOp left op right default, .binaryOp (hop ▸ hleft) (hop ▸ hright) bleft bright, hop.ge,
        by rw [Expression.tokens]⟩
    simpa using ih hrest hnext

theorem written_operators {operand : Nonterminal} {ops : Ebnf (TokenKind F) Nonterminal}
    (hops : ∀ us, Ebnf.DerivesIn grammar k ops us → ∃ op : BinaryOp, op.precedence = p ∧ us = [op.token])
    (hoperand : ∀ us : List (TokenKind F), Ebnf.DerivesIn grammar k (.nonterminal operand) us →
      Written (p + 1) us)
    (h : Ebnf.DerivesIn grammar k (operators operand ops) ts) : Written p ts := by
  simp only [operators, Ebnf.derivesIn_seq, Ebnf.derivesIn_rep] at h
  obtain ⟨first, rest, hfirst, ⟨words, hwords, rfl⟩, rfl⟩ := h
  refine Written.chain ?_ ((hoperand first hfirst).mono p.le_succ)
  intro word hword
  obtain ⟨opTokens, us, hop, hus, rfl⟩ := hwords word hword
  obtain ⟨op, hprecedence, rfl⟩ := hops opTokens hop
  exact ⟨op, us, hprecedence, rfl, hoperand us hus⟩

theorem exists_furtherTokens (words : List (List (TokenKind F)))
    (hwords : ∀ word ∈ words, ∃ us, word = .comma :: us ∧ Written 1 us) :
    ∃ args : List (Expression F), (∀ arg ∈ args, Bracketed (fun _ => True) arg) ∧
      Expression.furtherTokens args = words.flatten := by
  induction words with
  | nil => exact ⟨[], by simp, by simp [Expression.furtherTokens]⟩
  | cons word words ih =>
    obtain ⟨hword, hrest⟩ := List.forall_mem_cons.mp hwords
    obtain ⟨us, rfl, arg, barg, -, rfl⟩ := hword
    obtain ⟨args, bargs, hargs⟩ := ih hrest
    exact ⟨arg :: args, List.forall_mem_cons.mpr ⟨barg, bargs⟩, by simp [Expression.furtherTokens, hargs]⟩

theorem written_leaf (e : Expression F) (hb : Bracketed (fun _ => True) e) (h : e.level = 8) :
    Written 8 e.tokens :=
  ⟨e, hb, h.ge, rfl⟩

/-- **What a production of the expression grammar derives is how a bracketed tree is written.** -/
theorem written_of_derivesIn {n : Nonterminal} (hn : n.stratum = some p)
    (h : Ebnf.DerivesIn grammar k (.nonterminal n) ts) : Written p ts := by
  induction k generalizing n p ts with
  | zero => exact absurd h Ebnf.not_derivesIn_zero
  | succ k ih =>
    rw [Ebnf.derivesIn_nonterminal] at h
    cases n with
    | expression =>
      cases hn
      exact ih rfl h
    | logicalOr =>
      cases hn
      refine written_operators (fun us hus => ?_) (fun us hus => ih rfl hus) h
      exact ⟨.or, rfl, Ebnf.derivesIn_token.mp hus⟩
    | logicalAnd =>
      cases hn
      refine written_operators (fun us hus => ?_) (fun us hus => ih rfl hus) h
      exact ⟨.and, rfl, Ebnf.derivesIn_token.mp hus⟩
    | equality =>
      cases hn
      refine written_operators (fun us hus => ?_) (fun us hus => ih rfl hus) h
      rw [Ebnf.derivesIn_alt, Ebnf.derivesIn_token, Ebnf.derivesIn_token] at hus
      rcases hus with rfl | rfl
      · exact ⟨.eq, rfl, rfl⟩
      · exact ⟨.neq, rfl, rfl⟩
    | comparison =>
      cases hn
      refine written_operators (fun us hus => ?_) (fun us hus => ih rfl hus) h
      simp only [Ebnf.derivesIn_alt, Ebnf.derivesIn_token] at hus
      rcases hus with ((rfl | rfl) | rfl) | rfl
      · exact ⟨.lt, rfl, rfl⟩
      · exact ⟨.gt, rfl, rfl⟩
      · exact ⟨.lte, rfl, rfl⟩
      · exact ⟨.gte, rfl, rfl⟩
    | addition =>
      cases hn
      refine written_operators (fun us hus => ?_) (fun us hus => ih rfl hus) h
      rw [Ebnf.derivesIn_alt, Ebnf.derivesIn_token, Ebnf.derivesIn_token] at hus
      rcases hus with rfl | rfl
      · exact ⟨.add, rfl, rfl⟩
      · exact ⟨.sub, rfl, rfl⟩
    | multiplication =>
      cases hn
      refine written_operators (fun us hus => ?_) (fun us hus => ih rfl hus) h
      simp only [Ebnf.derivesIn_alt, Ebnf.derivesIn_token] at hus
      rcases hus with (rfl | rfl) | rfl
      · exact ⟨.mul, rfl, rfl⟩
      · exact ⟨.div, rfl, rfl⟩
      · exact ⟨.mod, rfl, rfl⟩
    | unary =>
      cases hn
      simp only [grammar, Ebnf.derivesIn_alt, Ebnf.derivesIn_seq, Ebnf.derivesIn_token] at h
      rcases h with ⟨ops, us, hop, hus, rfl⟩ | h
      · obtain ⟨operand, boperand, hoperand, rfl⟩ := ih (p := 7) rfl hus
        rcases hop with rfl | rfl
        · exact ⟨.unaryOp .not operand default, .unaryOp hoperand boperand, le_rfl, rfl⟩
        · exact ⟨.unaryOp .neg operand default, .unaryOp hoperand boperand, le_rfl, rfl⟩
      · exact (ih rfl h).mono (by decide)
    | primary =>
      cases hn
      simp only [grammar, Ebnf.derivesIn_alt, Ebnf.derivesIn_seq, Ebnf.derivesIn_token,
        Ebnf.derivesIn_terminal] at h
      rcases h with ((((((h | h) | h) | h) | h) | h) | h) | h
      · obtain ⟨_, ⟨value, rfl⟩, rfl⟩ := h
        exact written_leaf (.intLiteral value default) .intLiteral rfl
      · obtain ⟨_, ⟨value, rfl⟩, rfl⟩ := h
        exact written_leaf (.numberLiteral value default) .numberLiteral rfl
      · obtain ⟨_, ⟨value, rfl⟩, rfl⟩ := h
        exact written_leaf (.stringLiteral value default) (.stringLiteral trivial) rfl
      · exact ih rfl h
      · exact ih rfl h
      · exact ih rfl h
      · obtain ⟨_, _, ⟨_, us, rfl, hus, rfl⟩, rfl, rfl⟩ := h
        obtain ⟨expr, bexpr, -, rfl⟩ := ih (p := 1) rfl hus
        exact written_leaf (.grouped expr default) (.grouped bexpr) rfl
      · rcases h with rfl | rfl
        · exact written_leaf (.boolLiteral true default) .boolLiteral rfl
        · exact written_leaf (.boolLiteral false default) .boolLiteral rfl
    | variable_ =>
      cases hn
      simp only [grammar, Ebnf.derivesIn_alt, Ebnf.derivesIn_terminal] at h
      rcases h with ⟨_, ⟨name, rfl⟩, rfl⟩ | ⟨_, ⟨name, rfl⟩, rfl⟩
      · exact written_leaf (.variable_ name default) .variable_ rfl
      · exact written_leaf (.globalVariable name default) .globalVariable rfl
    | builtinIdent =>
      cases hn
      simp only [grammar, Ebnf.derivesIn_terminal] at h
      obtain ⟨_, ⟨name, rfl⟩, rfl⟩ := h
      exact written_leaf (.builtinId name default) .builtinId rfl
    | functionCall =>
      cases hn
      simp only [grammar, Ebnf.derivesIn_seq, Ebnf.derivesIn_terminal, Ebnf.derivesIn_token,
        Ebnf.derivesIn_opt, Ebnf.derivesIn_rep] at h
      obtain ⟨_, _, ⟨_, us, ⟨_, _, ⟨_, ⟨name, rfl⟩, rfl⟩, rfl, rfl⟩, hargs, rfl⟩, rfl, rfl⟩ := h
      -- no arguments, or a first one and further ones
      rcases hargs with rfl | ⟨first, rest, hfirst, ⟨words, hwords, rfl⟩, rfl⟩
      · exact written_leaf (.functionCall name [] default) (.functionCall (by simp)) rfl
      · obtain ⟨arg, barg, -, rfl⟩ := ih (p := 1) rfl hfirst
        obtain ⟨args, bargs, hargs⟩ := exists_furtherTokens words fun word hword => by
          obtain ⟨_, us, rfl, hus, rfl⟩ := hwords word hword
          exact ⟨us, rfl, ih rfl hus⟩
        have hleaf := written_leaf (.functionCall name (arg :: args) default)
          (.functionCall (List.forall_mem_cons.mpr ⟨barg, bargs⟩)) rfl
        simpa [Expression.tokens, Expression.argumentTokens, hargs] using hleaf
    | _ => cases hn

end Pirc.Scripting
