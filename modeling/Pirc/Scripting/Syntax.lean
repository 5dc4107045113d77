import Pirc.Protocol.Message

/-!
# Scripts: tokens and syntax trees

`token.rs`, `ast.rs` and the parse errors of `error.rs`. Floating-point literals are values of a
type `F`, which the parser only carries; positions are byte offsets.
-/

namespace Pirc.Scripting

open Protocol (Str)

/-! ## Positions -/

/-- A part of the source text, in bytes. -/
structure Span where
  offset : ℕ
  length : ℕ
  deriving DecidableEq, Inhabited

namespace Span

def finish (s : Span) : ℕ := s.offset + s.length

def merge (s t : Span) : Span :=
  let start := min s.offset t.offset
  ⟨start, max s.finish t.finish - start⟩

end Span

/-- Line and column of a place in the source. -/
structure SourceLocation where
  line : ℕ
  column : ℕ
  deriving DecidableEq

/-- The location of a byte offset: characters are counted up to it. -/
def SourceLocation.fromOffset (source : Str) (offset : ℕ) : SourceLocation :=
  go 0 ⟨1, 1⟩ source
where
  go (i : ℕ) (location : SourceLocation) : Str → SourceLocation
    | [] => location
    | c :: rest =>
      if offset ≤ i then location
      else go (i + (String.utf8EncodeChar c).length)
        (if c = '\n' then ⟨location.line + 1, 1⟩ else ⟨location.line, location.column + 1⟩) rest

/-! ## Tokens -/

/-- What a token is. -/
inductive TokenKind (F : Type)
  | alias_ | on | if_ | elseIf | else_ | while_ | var | set | timer | return_ | break_ | continue_
  | true | false
  | stringLiteral (value : Str)
  | numberLiteral (value : F)
  | intLiteral (value : Int64)
  | identifier (name : Str)
  | variable_ (name : Str)
  | globalVariable (name : Str)
  | builtinIdentifier (name : Str)
  | plus | minus | star | slash | percent | equal | equalEqual | bangEqual | less | greater
  | lessEqual | greaterEqual | ampAmp | pipePipe | bang
  | leftBrace | rightBrace | leftParen | rightParen | comma | colon | semicolon
  | newline | eof
  | comment (text : Str)
  deriving DecidableEq

/-- A token, and where it stands. -/
structure Token (F : Type) where
  kind : TokenKind F
  span : Span
  deriving DecidableEq

/-! ## Expressions -/

inductive BinaryOp
  | add | sub | mul | div | mod | eq | neq | lt | gt | lte | gte | and | or
  deriving DecidableEq

inductive UnaryOp
  | not | neg
  deriving DecidableEq

mutual

/-- Expressions, with where they stand. -/
inductive Expression (F : Type)
  | binaryOp (left : Expression F) (op : BinaryOp) (right : Expression F) (span : Span)
  | unaryOp (op : UnaryOp) (operand : Expression F) (span : Span)
  | stringLiteral (value : Str) (span : Span)
  | numberLiteral (value : F) (span : Span)
  | intLiteral (value : Int64) (span : Span)
  | boolLiteral (value : Bool) (span : Span)
  | variable_ (name : Str) (span : Span)
  | globalVariable (name : Str) (span : Span)
  | builtinId (name : Str) (span : Span)
  | identifier (name : Str) (span : Span)
  | functionCall (name : Str) (args : List (Expression F)) (span : Span)
  | interpolated (parts : List (StringPart F)) (span : Span)
  | grouped (expr : Expression F) (span : Span)

inductive StringPart (F : Type)
  | literal (text : Str)
  | expr (e : Expression F)

end

namespace Expression

variable {F : Type}

def span : Expression F → Span
  | binaryOp _ _ _ span | unaryOp _ _ span | stringLiteral _ span | numberLiteral _ span
  | intLiteral _ span | boolLiteral _ span | variable_ _ span | globalVariable _ span
  | builtinId _ span | identifier _ span | functionCall _ _ span | interpolated _ span
  | grouped _ span => span

end Expression

/-! ## Statements -/

structure CommandStatement (F : Type) where
  name : Str
  args : List (Expression F)
  span : Span

structure ElseIfBranch (F S : Type) where
  condition : Expression F
  body : List S
  span : Span

structure IfStatement (F S : Type) where
  condition : Expression F
  thenBody : List S
  elseifBranches : List (ElseIfBranch F S)
  elseBody : Option (List S)
  span : Span

structure WhileStatement (F S : Type) where
  condition : Expression F
  body : List S
  span : Span

/-- A declaration or an assignment: `VarDeclStatement` and `SetStatement`. -/
structure SetStatement (F : Type) where
  name : Str
  global : Bool
  value : Expression F
  span : Span

structure ReturnStatement (F : Type) where
  value : Option (Expression F)
  span : Span

structure ExprStatement (F : Type) where
  expr : Expression F
  span : Span

/-- Statements, with where they stand. -/
inductive Statement (F : Type)
  | command (s : CommandStatement F)
  | if_ (s : IfStatement F (Statement F))
  | while_ (s : WhileStatement F (Statement F))
  | varDecl (s : SetStatement F)
  | set (s : SetStatement F)
  | return_ (s : ReturnStatement F)
  | break_ (span : Span)
  | continue_ (span : Span)
  | exprStatement (s : ExprStatement F)

namespace Statement

variable {F : Type}

def span : Statement F → Span
  | command s => s.span
  | if_ s => s.span
  | while_ s => s.span
  | varDecl s | set s => s.span
  | return_ s => s.span
  | break_ span | continue_ span => span
  | exprStatement s => s.span

end Statement

/-! ## Scripts -/

inductive EventType
  | text | join | part | kick | quit | connect | disconnect | invite | notice | nick | topic | mode
  | ctcp | action | numeric
  deriving DecidableEq

structure AliasDefinition (F : Type) where
  name : Str
  body : List (Statement F)
  span : Span

structure EventHandler (F : Type) where
  eventType : EventType
  pattern : Str
  body : List (Statement F)
  span : Span

structure TimerDefinition (F : Type) where
  name : Str
  interval : Expression F
  repetitions : Expression F
  body : List (Statement F)
  span : Span

inductive TopLevelItem (F : Type)
  | alias_ (a : AliasDefinition F)
  | event (e : EventHandler F)
  | timer (t : TimerDefinition F)

/-- The items of a script. -/
structure Script (F : Type) where
  items : List (TopLevelItem F)
  span : Span

/-! ## Errors -/

/-- What the parser finds wrong, and where. -/
inductive ParseError
  | unexpectedToken (expected found : Str) (span : Span) (location : SourceLocation)
  | unexpectedEof (expected : Str) (span : Span) (location : SourceLocation)
  | invalidEventType (name : Str) (span : Span) (location : SourceLocation)
  deriving DecidableEq

end Pirc.Scripting
