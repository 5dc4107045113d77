import Pirc.Lib.Parse
import Pirc.Scripting.Syntax

/-!
# Scripts: the parser of blocks, statements and expressions

`parser/mod.rs`. The parser is at a position in the tokens of a script; the end of the input, which
the lexer writes as the last token, is the end of the list. Loops and nested calls are counted down
from the number of tokens that are left, as each of them begins with a token that the next one does
not see.
-/

namespace Pirc.Scripting

open Protocol (Str)
open Parse (cutOff fail)

variable {F : Type}

/-- The position of the parser: the tokens from there on, and where the input ends. -/
structure Parser (F : Type) where
  source : Str
  tokens : List (Token F)
  eof : Span

namespace Parser

def peekKind (p : Parser F) : TokenKind F :=
  match p.tokens with
  | [] => .eof
  | token :: _ => token.kind

def currentSpan (p : Parser F) : Span :=
  match p.tokens with
  | [] => p.eof
  | token :: _ => token.span

def atEnd (p : Parser F) : Bool := p.peekKind.ctorIdx = (.eof : TokenKind F).ctorIdx

def check (p : Parser F) (kind : TokenKind F) : Bool := p.peekKind.ctorIdx = kind.ctorIdx

/-- The next position; the end of the input is not passed. -/
def next (p : Parser F) : Parser F := { p with tokens := p.tokens.tail }

end Parser

abbrev Parsing (F : Type) := Parse (Parser F) ParseError

def advance : Parsing F PUnit := modify Parser.next

/-! ## Errors and trivia -/

def TokenKind.describe : TokenKind F → Str
  | alias_ => "'alias'".toList
  | on => "'on'".toList
  | if_ => "'if'".toList
  | elseIf => "'elseif'".toList
  | else_ => "'else'".toList
  | while_ => "'while'".toList
  | var => "'var'".toList
  | set => "'set'".toList
  | timer => "'timer'".toList
  | return_ => "'return'".toList
  | break_ => "'break'".toList
  | continue_ => "'continue'".toList
  | true => "'true'".toList
  | false => "'false'".toList
  | stringLiteral _ => "string literal".toList
  | numberLiteral _ => "number literal".toList
  | intLiteral _ => "integer literal".toList
  | identifier name => "identifier '".toList ++ name ++ "'".toList
  | variable_ name => "variable '%".toList ++ name ++ "'".toList
  | globalVariable name => "variable '%%".toList ++ name ++ "'".toList
  | builtinIdentifier name => "builtin '$".toList ++ name ++ "'".toList
  | plus => "'+'".toList
  | minus => "'-'".toList
  | star => "'*'".toList
  | slash => "'/'".toList
  | percent => "'%'".toList
  | equal => "'='".toList
  | equalEqual => "'=='".toList
  | bangEqual => "'!='".toList
  | less => "'<'".toList
  | greater => "'>'".toList
  | lessEqual => "'<='".toList
  | greaterEqual => "'>='".toList
  | ampAmp => "'&&'".toList
  | pipePipe => "'||'".toList
  | bang => "'!'".toList
  | leftBrace => "'\x7b'".toList
  | rightBrace => "'\x7d'".toList
  | leftParen => "'('".toList
  | rightParen => "')'".toList
  | comma => "','".toList
  | colon => "':'".toList
  | semicolon => "';'".toList
  | newline => "newline".toList
  | eof => "end of input".toList
  | comment _ => "comment".toList

def unexpectedToken {α : Type} (expected : String) : Parsing F α := do
  let p ← get
  fail (.unexpectedToken expected.toList p.peekKind.describe p.currentSpan
    (.fromOffset p.source p.currentSpan.offset))

/-- The current token is not what is expected, or the input has ended. -/
def unexpected {α : Type} (expected : String) : Parsing F α := do
  let p ← get
  if p.atEnd then
    fail (.unexpectedEof expected.toList p.currentSpan (.fromOffset p.source p.currentSpan.offset))
  else unexpectedToken expected

def expect (kind : TokenKind F) (expected : String) : Parsing F Span := do
  let p ← get
  if !p.atEnd && p.check kind then
    advance
    pure p.currentSpan
  else unexpected expected

def expectIdentifier (expected : String) : Parsing F Str := do
  match (← get).peekKind with
  | .identifier name => advance; pure name
  | _ => unexpected expected

def expectVariable (expected : String) : Parsing F (Str × Bool) := do
  match (← get).peekKind with
  | .variable_ name => advance; pure (name, false)
  | .globalVariable name => advance; pure (name, true)
  | _ => unexpected expected

def TokenKind.isTrivia : TokenKind F → Bool
  | newline | comment _ => .true
  | _ => .false

def skipTrivia : Parsing F PUnit :=
  modify fun p => { p with tokens := p.tokens.dropWhile (·.kind.isTrivia) }

/-! ## References in strings -/

/-- The characters a name in a string may start with. -/
def isInterpStart (c : Char) : Bool := c.isAlpha || c = '_'

/-- The characters a name in a string may go on with. -/
def isInterpContinue (c : Char) : Bool := c.isAlphanum || c = '_' || c = '-'

def literalParts (buf : Str) : List (StringPart F) := if buf = [] then [] else [.literal buf]

/-- Split a string at its references; `buf` is the text since the last one. The name of a reference
may begin with `%` only where it begins with a letter at once, so that the source's check for `%%`
never succeeds. -/
def scanReferences (span : Span) : ℕ → Str → Str → List (StringPart F) → List (StringPart F) × Str
  | 0, buf, _, parts => (parts, buf)
  | _ + 1, buf, [], parts => (parts, buf)
  | n + 1, buf, c :: rest, parts =>
    let names := rest.head?.any isInterpStart
    let name := rest.takeWhile isInterpContinue
    if c = '$' && names then
      scanReferences span n [] (rest.dropWhile isInterpContinue)
        (parts ++ literalParts buf ++ [.expr (.builtinId name span)])
    else if c = '%' && names then
      scanReferences span n [] (rest.dropWhile isInterpContinue)
        (parts ++ literalParts buf ++ [.expr (.variable_ name span)])
    else scanReferences span n (buf ++ [c]) rest parts

/-- A string literal: with its parts if it has references, else as it is. -/
def parseStringInterpolation (raw : Str) (span : Span) : Expression F :=
  match scanReferences span raw.length [] raw [] with
  | ([], _) => .stringLiteral raw span
  | (parts, buf) => .interpolated (parts ++ literalParts buf) span

/-! ## Expressions -/

def TokenKind.infixOp : TokenKind F → Option BinaryOp
  | pipePipe => some .or
  | ampAmp => some .and
  | equalEqual => some .eq
  | bangEqual => some .neq
  | less => some .lt
  | greater => some .gt
  | lessEqual => some .lte
  | greaterEqual => some .gte
  | plus => some .add
  | minus => some .sub
  | star => some .mul
  | slash => some .div
  | percent => some .mod
  | _ => none

/-- How strongly an operator binds to its left and to its right. -/
def infixBindingPower : BinaryOp → ℕ × ℕ
  | .or => (1, 2)
  | .and => (3, 4)
  | .eq | .neq => (5, 6)
  | .lt | .gt | .lte | .gte => (7, 8)
  | .add | .sub => (9, 10)
  | .mul | .div | .mod => (11, 12)

def prefixBp : ℕ := 13

section Expressions

variable (parseBp : ℕ → Parsing F (Expression F))

def parseArguments : ℕ → List (Expression F) → Parsing F (List (Expression F))
  | 0, _ => cutOff
  | n + 1, args => do
    if (← get).check .comma then
      advance
      let arg ← parseBp 0
      parseArguments n (args ++ [arg])
    else pure args

def parseCallArguments : Parsing F (List (Expression F)) := do
  if (← get).check .rightParen then pure [] else do
    let arg ← parseBp 0
    parseArguments parseBp ((← get).tokens.length + 1) [arg]

def parseFunctionCall (name : Str) (startSpan : Span) : Parsing F (Expression F) := do
  advance
  let args ← parseCallArguments parseBp
  let endSpan ← expect .rightParen "')'"
  pure (.functionCall name args (startSpan.merge endSpan))

def parsePrimaryExpression : Parsing F (Expression F) := do
  let p ← get
  match p.peekKind with
  | .intLiteral value => advance; pure (.intLiteral value p.currentSpan)
  | .numberLiteral value => advance; pure (.numberLiteral value p.currentSpan)
  | .stringLiteral value => advance; pure (parseStringInterpolation value p.currentSpan)
  | .true => advance; pure (.boolLiteral true p.currentSpan)
  | .false => advance; pure (.boolLiteral false p.currentSpan)
  | .variable_ name => advance; pure (.variable_ name p.currentSpan)
  | .globalVariable name => advance; pure (.globalVariable name p.currentSpan)
  | .builtinIdentifier name => do
    advance
    if (← get).check .leftParen then parseFunctionCall parseBp name p.currentSpan
    else pure (.builtinId name p.currentSpan)
  | .identifier name => advance; pure (.identifier name p.currentSpan)
  | .leftParen => do
    advance
    let inner ← parseBp 0
    let endSpan ← expect .rightParen "')'"
    pure (.grouped inner (p.currentSpan.merge endSpan))
  | _ => unexpectedToken "expression"

def parsePrefix : Parsing F (Expression F) := do
  let p ← get
  match p.peekKind with
  | .bang => do
    advance
    let operand ← parseBp prefixBp
    pure (.unaryOp .not operand (p.currentSpan.merge operand.span))
  | .minus => do
    advance
    let operand ← parseBp prefixBp
    pure (.unaryOp .neg operand (p.currentSpan.merge operand.span))
  | _ => parsePrimaryExpression parseBp

/-- The operators that bind at least as strongly as `minBp`, with their right operands. -/
def parseInfix (minBp : ℕ) : ℕ → Expression F → Parsing F (Expression F)
  | 0, _ => cutOff
  | n + 1, lhs => do
    match (← get).peekKind.infixOp with
    | none => pure lhs
    | some op =>
      if (infixBindingPower op).1 < minBp then pure lhs
      else do
        advance
        let rhs ← parseBp (infixBindingPower op).2
        parseInfix minBp n (.binaryOp lhs op rhs (lhs.span.merge rhs.span))

end Expressions

/-- **Expressions** of operators that bind at least as strongly as `minBp`. -/
def parseExpressionBp : ℕ → ℕ → Parsing F (Expression F)
  | 0, _ => cutOff
  | n + 1, minBp => do
    let lhs ← parsePrefix (parseExpressionBp n)
    parseInfix (parseExpressionBp n) minBp ((← get).tokens.length + 1) lhs

/-- The calls that the tokens which are left allow for. -/
def Parser.fuel (p : Parser F) : ℕ := p.tokens.length + 1

/-- Any expression. -/
def parseExpression : Parsing F (Expression F) := do
  parseExpressionBp (← get).fuel 0

def parsePrimary : Parsing F (Expression F) := do
  parsePrimaryExpression (parseExpressionBp (← get).fuel)

/-! ## Statements -/

def TokenKind.endsLine : TokenKind F → Bool
  | newline | rightBrace | eof | comment _ => .true
  | _ => .false

def parseReturnStatement : Parsing F (Statement F) := do
  let startSpan := (← get).currentSpan
  advance
  if (← get).peekKind.endsLine then pure (.return_ ⟨none, startSpan.merge startSpan⟩)
  else do
    let value ← parseExpression
    pure (.return_ ⟨some value, startSpan.merge value.span⟩)

def parseVarStatement : Parsing F (Statement F) := do
  let startSpan := (← get).currentSpan
  advance
  let (name, global) ← expectVariable "variable name"
  let _ ← expect .equal "'='"
  let value ← parseExpression
  pure (.varDecl ⟨name, global, value, startSpan.merge value.span⟩)

def parseSetStatement : Parsing F (Statement F) := do
  let startSpan := (← get).currentSpan
  advance
  let (name, global) ← expectVariable "variable name"
  let value ← parseExpression
  pure (.set ⟨name, global, value, startSpan.merge value.span⟩)

def parseCommandArguments : ℕ → List (Expression F) → Parsing F (List (Expression F))
  | 0, _ => cutOff
  | n + 1, args => do
    if (← get).peekKind.endsLine then pure args
    else do
      let arg ← parsePrimary
      parseCommandArguments n (args ++ [arg])

def parseCommandStatement : Parsing F (Statement F) := do
  let startSpan := (← get).currentSpan
  if (← get).check .slash then advance
  let name ← expectIdentifier "command name"
  let args ← parseCommandArguments ((← get).tokens.length + 1) []
  let endSpan := (args.getLast?.map Expression.span).getD
    ⟨startSpan.offset, (name.flatMap String.utf8EncodeChar).length⟩
  pure (.command ⟨name, args, startSpan.merge endSpan⟩)

section Blocks

variable (parseStatement : Parsing F (Statement F))

def parseStatements : ℕ → List (Statement F) → Parsing F (List (Statement F))
  | 0, _ => cutOff
  | n + 1, stmts => do
    let p ← get
    if !p.check .rightBrace && !p.atEnd then
      let stmt ← parseStatement
      skipTrivia
      parseStatements n (stmts ++ [stmt])
    else pure stmts

def parseBlockWith : Parsing F (List (Statement F)) := do
  let _ ← expect .leftBrace "'\x7b'"
  skipTrivia
  let stmts ← parseStatements parseStatement ((← get).tokens.length + 1) []
  let _ ← expect .rightBrace "'\x7d'"
  pure stmts

def parseGuarded : Parsing F (Expression F × List (Statement F)) := do
  advance
  let _ ← expect .leftParen "'('"
  let condition ← parseExpression
  let _ ← expect .rightParen "')'"
  skipTrivia
  let body ← parseBlockWith parseStatement
  pure (condition, body)

def parseBranches : ℕ → List (ElseIfBranch F (Statement F)) →
    Parsing F (List (ElseIfBranch F (Statement F)) × Option (List (Statement F)))
  | 0, _ => cutOff
  | n + 1, branches => do
    skipTrivia
    let p ← get
    if p.check .elseIf then
      let (condition, body) ← parseGuarded parseStatement
      let branchEnd := (← get).currentSpan
      parseBranches n (branches ++ [⟨condition, body, p.currentSpan.merge branchEnd⟩])
    else if p.check .else_ then
      advance
      skipTrivia
      let body ← parseBlockWith parseStatement
      pure (branches, some body)
    else pure (branches, none)

def parseIfStatement : Parsing F (Statement F) := do
  let startSpan := (← get).currentSpan
  let (condition, thenBody) ← parseGuarded parseStatement
  let (elseifBranches, elseBody) ← parseBranches parseStatement ((← get).tokens.length + 1) []
  let endSpan := (← get).currentSpan
  pure (.if_ ⟨condition, thenBody, elseifBranches, elseBody, startSpan.merge endSpan⟩)

def parseWhileStatement : Parsing F (Statement F) := do
  let startSpan := (← get).currentSpan
  let (condition, body) ← parseGuarded parseStatement
  let endSpan := (← get).currentSpan
  pure (.while_ ⟨condition, body, startSpan.merge endSpan⟩)

end Blocks

/-- **Statements**, with blocks nested no deeper than the count. -/
def parseStatementN : ℕ → Parsing F (Statement F)
  | 0 => cutOff
  | n + 1 => do
    let p ← get
    match p.peekKind with
    | .if_ => parseIfStatement (parseStatementN n)
    | .while_ => parseWhileStatement (parseStatementN n)
    | .var => parseVarStatement
    | .set => parseSetStatement
    | .return_ => parseReturnStatement
    | .break_ => advance; pure (.break_ p.currentSpan)
    | .continue_ => advance; pure (.continue_ p.currentSpan)
    | .slash | .identifier _ => parseCommandStatement
    | _ => unexpectedToken "statement"

/-- A statement, told by its first token. -/
def parseStatement : Parsing F (Statement F) := do
  parseStatementN (← get).fuel

/-- **Blocks**. -/
def parseBlock : Parsing F (List (Statement F)) := do
  parseBlockWith (parseStatementN (← get).fuel)

end Pirc.Scripting
