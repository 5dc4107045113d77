import Pirc.Lib.Utf8
import Pirc.Scripting.Parser
import Pirc.Scripting.Value
import Pirc.Server.Channel

/-!
# Scripts: the parser of whole scripts

`parser/mod.rs`: aliases, event handlers and timers. The pattern of an event handler is put together
from the tokens up to the brace of its body.

## Main results

* `leads_parseBlock`, `leads_parseTopLevelItem`: the parser is always at one of the tokens behind
  those that it has read
* `exists_parseEvent`, `returns_parseEvent`: where the handlers of a script come from
-/

namespace Pirc.Scripting

open Protocol (Str decimal)
open Parse

variable {F : Type}

/-- The parser at the first token of a script; the last one is the end of the input. -/
def Parser.new (tokens : List (Token F)) (source : Str) : Parser F :=
  ⟨source, tokens.dropLast, (tokens.getLast?.map Token.span).getD ⟨0, 0⟩⟩

/-! ## Event handlers -/

/-- The type of an event by its name, in any case. Names of tokens have ASCII letters only. -/
def EventType.ofName (name : Str) : Option EventType :=
  let name := name.map Char.toUpper
  if name = "TEXT".toList then some .text
  else if name = "JOIN".toList then some .join
  else if name = "PART".toList then some .part
  else if name = "KICK".toList then some .kick
  else if name = "QUIT".toList then some .quit
  else if name = "CONNECT".toList then some .connect
  else if name = "DISCONNECT".toList then some .disconnect
  else if name = "INVITE".toList then some .invite
  else if name = "NOTICE".toList then some .notice
  else if name = "NICK".toList then some .nick
  else if name = "TOPIC".toList then some .topic
  else if name = "MODE".toList then some .mode
  else if name = "CTCP".toList then some .ctcp
  else if name = "ACTION".toList then some .action
  else if name = "NUMERIC".toList then some .numeric
  else none

def parseEventType (name : Str) (span : Span) : Parsing F EventType := do
  match EventType.ofName name with
  | some eventType => pure eventType
  | none => fail (.invalidEventType name span (.fromOffset (← get).source span.offset))

def TokenKind.endsPattern : TokenKind F → Bool
  | leftBrace | newline | eof => .true
  | _ => .false

def intText (n : Int64) : Str :=
  if n.toInt < 0 then '-' :: decimal n.toInt.natAbs else decimal n.toInt.natAbs

/-- What a token adds to a pattern: the tokens that are not named have their text in the source,
which is none if it is not between characters. -/
def Token.patternText (source : Str) (token : Token F) : Option Str :=
  match token.kind with
  | .star => some ['*']
  | .identifier name => some name
  | .stringLiteral s => some s
  | .intLiteral n => some (intText n)
  | .colon => some [':']
  | .minus => some ['-']
  | _ => strSlice source token.span.offset token.span.finish

def patternOf (text : Str) : Str :=
  let trimmed := Server.trim text
  if trimmed = [] then ['*'] else trimmed

/-- **The pattern of an event handler**, from the tokens up to the body. -/
def parsePattern : Parsing F Str := do
  let p ← get
  -- The parser panics where a part of the source is not between characters.
  match (p.tokens.takeWhile (!·.kind.endsPattern)).mapM (Token.patternText p.source) with
  | none => cutOff
  | some texts => do
    set { p with tokens := p.tokens.dropWhile (!·.kind.endsPattern) }
    pure (patternOf texts.flatten)

/-- `on TYPE:pattern { … }`. -/
def parseEvent : Parsing F (EventHandler F) := do
  let startSpan := (← get).currentSpan
  advance
  let typeSpan := (← get).currentSpan
  let name ← expectIdentifier "event type"
  let eventType ← parseEventType name typeSpan
  let pattern ← if (← get).check .colon then do
      advance
      parsePattern
    else pure ['*']
  skipTrivia
  let body ← parseBlock
  let endSpan := (← get).currentSpan
  pure ⟨eventType, pattern, body, startSpan.merge endSpan⟩

/-! ## Aliases and timers -/

/-- `alias name { … }`. -/
def parseAlias : Parsing F (AliasDefinition F) := do
  let startSpan := (← get).currentSpan
  advance
  let name ← expectIdentifier "alias name"
  skipTrivia
  let body ← if (← get).check .leftBrace then parseBlock else do
    let stmt ← parseStatement
    pure [stmt]
  let endSpan := (body.getLast?.map Statement.span).getD startSpan
  pure ⟨name, body, startSpan.merge endSpan⟩

/-- `timer name interval repetitions { … }`. -/
def parseTimer : Parsing F (TimerDefinition F) := do
  let startSpan := (← get).currentSpan
  advance
  let name ← expectIdentifier "timer name"
  let interval ← parsePrimary
  let repetitions ← parsePrimary
  skipTrivia
  let body ← parseBlock
  let endSpan := (← get).currentSpan
  pure ⟨name, interval, repetitions, body, startSpan.merge endSpan⟩

/-! ## Scripts -/

def parseTopLevelItem : Parsing F (TopLevelItem F) := do
  match (← get).peekKind with
  | .alias_ => do
    let a ← parseAlias
    pure (.alias_ a)
  | .on => do
    let e ← parseEvent
    pure (.event e)
  | .timer => do
    let t ← parseTimer
    pure (.timer t)
  | _ => unexpectedToken "'alias', 'on', or 'timer'"

def parseItems : ℕ → List (TopLevelItem F) → Parsing F (List (TopLevelItem F))
  | 0, _ => cutOff
  | n + 1, items => do
    if (← get).atEnd then pure items
    else do
      let item ← parseTopLevelItem
      skipTrivia
      parseItems n (items ++ [item])

/-- **Scripts.** -/
def parse : Parsing F (Script F) := do
  let startSpan := (← get).currentSpan
  skipTrivia
  let items ← parseItems ((← get).tokens.length + 1) []
  let endSpan := (← get).currentSpan
  pure ⟨items, if items.isEmpty then startSpan else startSpan.merge endSpan⟩

/-! ## Where the parser is -/

/-- **A position further on** in the tokens of the same script. -/
structure Parser.Later (p q : Parser F) : Prop where
  source : q.source = p.source
  eof : q.eof = p.eof
  tokens : q.tokens <:+ p.tokens

instance : Std.Refl (Parser.Later (F := F)) := ⟨fun _ => ⟨rfl, rfl, List.suffix_rfl⟩⟩

instance : IsTrans (Parser F) Parser.Later :=
  ⟨fun _ _ _ h h' => ⟨h'.source.trans h.source, h'.eof.trans h.eof, h'.tokens.trans h.tokens⟩⟩

section Leads

variable {α β : Type}

theorem leads_advance : Leads Parser.Later (advance : Parsing F PUnit) :=
  leads_modify fun p => ⟨rfl, rfl, List.tail_suffix p.tokens⟩

theorem leads_skipTrivia : Leads Parser.Later (skipTrivia : Parsing F PUnit) :=
  leads_modify fun _ => ⟨rfl, rfl, List.dropWhile_suffix _⟩

theorem leads_unexpectedToken (expected : String) :
    Leads Parser.Later (unexpectedToken expected : Parsing F α) :=
  leads_get_bind fun _ => leads_fail _

theorem leads_unexpected (expected : String) : Leads Parser.Later (unexpected expected : Parsing F α) :=
  leads_get_bind fun _ => .ite (leads_fail _) (leads_unexpectedToken _)

theorem leads_expect (kind : TokenKind F) (expected : String) :
    Leads Parser.Later (expect kind expected) :=
  leads_get_bind fun _ => .ite (leads_advance.bind fun _ => leads_pure _) (leads_unexpected _)

theorem leads_expectIdentifier (expected : String) :
    Leads Parser.Later (expectIdentifier expected : Parsing F Str) := by
  refine leads_get_bind fun p => ?_
  split
  · exact leads_advance.bind fun _ => leads_pure _
  · exact leads_unexpected _

theorem leads_expectVariable (expected : String) :
    Leads Parser.Later (expectVariable expected : Parsing F (Str × Bool)) := by
  refine leads_get_bind fun p => ?_
  split
  · exact leads_advance.bind fun _ => leads_pure _
  · exact leads_advance.bind fun _ => leads_pure _
  · exact leads_unexpected _

/-! ### Expressions -/

section Expressions

variable {parseBp : ℕ → Parsing F (Expression F)} (h : ∀ minBp, Leads Parser.Later (parseBp minBp))
include h

theorem leads_parseArguments (n : ℕ) (args : List (Expression F)) :
    Leads Parser.Later (parseArguments parseBp n args) := by
  induction n generalizing args with
  | zero => exact leads_cutOff
  | succ n ih =>
    exact leads_get_bind fun _ => .ite (leads_advance.bind fun _ => (h 0).bind fun _ => ih _) (leads_pure _)

theorem leads_parseFunctionCall (name : Str) (startSpan : Span) :
    Leads Parser.Later (parseFunctionCall parseBp name startSpan) := by
  refine leads_advance.bind fun _ => ?_
  refine Leads.bind ?_ fun _ => (leads_expect _ _).bind fun _ => leads_pure _
  exact leads_get_bind fun _ => .ite (leads_pure _) <| (h 0).bind fun _ =>
    leads_get_bind fun _ => leads_parseArguments h _ _

theorem leads_parsePrimaryExpression : Leads Parser.Later (parsePrimaryExpression parseBp) := by
  refine leads_get_bind fun p => ?_
  have htoken : ∀ e : Expression F, Leads Parser.Later (do advance; pure e : Parsing F (Expression F)) :=
    fun e => leads_advance.bind fun _ => leads_pure e
  split
  case h_8 name =>
    exact leads_advance.bind fun _ => leads_get_bind fun _ =>
      .ite (leads_parseFunctionCall h _ _) (leads_pure _)
  case h_10 =>
    exact leads_advance.bind fun _ => (h 0).bind fun _ => (leads_expect _ _).bind fun _ => leads_pure _
  case h_11 => exact leads_unexpectedToken _
  all_goals exact htoken _

theorem leads_parsePrefix : Leads Parser.Later (parsePrefix parseBp) := by
  refine leads_get_bind fun p => ?_
  split
  · exact leads_advance.bind fun _ => (h _).bind fun _ => leads_pure _
  · exact leads_advance.bind fun _ => (h _).bind fun _ => leads_pure _
  · exact leads_parsePrimaryExpression h

theorem leads_parseInfix (minBp n : ℕ) (lhs : Expression F) :
    Leads Parser.Later (parseInfix parseBp minBp n lhs) := by
  induction n generalizing lhs with
  | zero => exact leads_cutOff
  | succ n ih =>
    refine leads_get_bind fun p => ?_
    split
    · exact leads_pure _
    · exact .ite (leads_pure _) (leads_advance.bind fun _ => (h _).bind fun _ => ih _)

end Expressions

theorem leads_parseExpressionBp (n minBp : ℕ) :
    Leads Parser.Later (parseExpressionBp n minBp : Parsing F (Expression F)) := by
  induction n generalizing minBp with
  | zero => exact leads_cutOff
  | succ n ih =>
    exact (leads_parsePrefix ih).bind fun _ => leads_get_bind fun _ => leads_parseInfix ih _ _ _

theorem leads_parseExpression : Leads Parser.Later (parseExpression : Parsing F (Expression F)) :=
  leads_get_bind fun _ => leads_parseExpressionBp _ _

theorem leads_parsePrimary : Leads Parser.Later (parsePrimary : Parsing F (Expression F)) :=
  leads_get_bind fun _ => leads_parsePrimaryExpression (leads_parseExpressionBp _)

/-! ### Statements -/

theorem leads_parseReturnStatement : Leads Parser.Later (parseReturnStatement : Parsing F (Statement F)) :=
  leads_get_bind fun _ => leads_advance.bind fun _ => leads_get_bind fun _ =>
    .ite (leads_pure _) (leads_parseExpression.bind fun _ => leads_pure _)

theorem leads_parseVarStatement : Leads Parser.Later (parseVarStatement : Parsing F (Statement F)) :=
  leads_get_bind fun _ => leads_advance.bind fun _ => (leads_expectVariable _).bind fun _ =>
    (leads_expect _ _).bind fun _ => leads_parseExpression.bind fun _ => leads_pure _

theorem leads_parseSetStatement : Leads Parser.Later (parseSetStatement : Parsing F (Statement F)) :=
  leads_get_bind fun _ => leads_advance.bind fun _ => (leads_expectVariable _).bind fun _ =>
    leads_parseExpression.bind fun _ => leads_pure _

theorem leads_parseCommandArguments (n : ℕ) (args : List (Expression F)) :
    Leads Parser.Later (parseCommandArguments n args) := by
  induction n generalizing args with
  | zero => exact leads_cutOff
  | succ n ih =>
    exact leads_get_bind fun _ => .ite (leads_pure _) (leads_parsePrimary.bind fun _ => ih _)

theorem leads_parseCommandStatement :
    Leads Parser.Later (parseCommandStatement : Parsing F (Statement F)) := by
  refine leads_get_bind fun _ => leads_get_bind fun _ => .ite (leads_advance.bind fun _ => ?_) ?_
  all_goals
    exact (leads_expectIdentifier _).bind fun _ => leads_get_bind fun _ =>
      (leads_parseCommandArguments _ _).bind fun _ => leads_pure _

section Blocks

variable {parseStatement : Parsing F (Statement F)} (h : Leads Parser.Later parseStatement)
include h

theorem leads_parseStatements (n : ℕ) (stmts : List (Statement F)) :
    Leads Parser.Later (parseStatements parseStatement n stmts) := by
  induction n generalizing stmts with
  | zero => exact leads_cutOff
  | succ n ih =>
    exact leads_get_bind fun _ => .ite
      (h.bind fun _ => leads_skipTrivia.bind fun _ => ih _) (leads_pure _)

theorem leads_parseBlockWith : Leads Parser.Later (parseBlockWith parseStatement) :=
  (leads_expect _ _).bind fun _ => leads_skipTrivia.bind fun _ => leads_get_bind fun _ =>
    (leads_parseStatements h _ _).bind fun _ => (leads_expect _ _).bind fun _ => leads_pure _

theorem leads_parseGuarded : Leads Parser.Later (parseGuarded parseStatement) :=
  leads_advance.bind fun _ => (leads_expect _ _).bind fun _ => leads_parseExpression.bind fun _ =>
    (leads_expect _ _).bind fun _ => leads_skipTrivia.bind fun _ =>
      (leads_parseBlockWith h).bind fun _ => leads_pure _

theorem leads_parseBranches (n : ℕ) (branches : List (ElseIfBranch F (Statement F))) :
    Leads Parser.Later (parseBranches parseStatement n branches) := by
  induction n generalizing branches with
  | zero => exact leads_cutOff
  | succ n ih =>
    refine leads_skipTrivia.bind fun _ => leads_get_bind fun _ => .ite ?_ (.ite ?_ (leads_pure _))
    · exact (leads_parseGuarded h).bind fun _ => leads_get_bind fun _ => ih _
    · exact leads_advance.bind fun _ => leads_skipTrivia.bind fun _ =>
        (leads_parseBlockWith h).bind fun _ => leads_pure _

theorem leads_parseIfStatement : Leads Parser.Later (parseIfStatement parseStatement) :=
  leads_get_bind fun _ => (leads_parseGuarded h).bind fun _ => leads_get_bind fun _ =>
    (leads_parseBranches h _ _).bind fun _ => leads_get_bind fun _ => leads_pure _

theorem leads_parseWhileStatement : Leads Parser.Later (parseWhileStatement parseStatement) :=
  leads_get_bind fun _ => (leads_parseGuarded h).bind fun _ => leads_get_bind fun _ => leads_pure _

end Blocks

theorem leads_parseStatementN (n : ℕ) :
    Leads Parser.Later (parseStatementN n : Parsing F (Statement F)) := by
  induction n with
  | zero => exact leads_cutOff
  | succ n ih =>
    refine leads_get_bind fun p => ?_
    split
    · exact leads_parseIfStatement ih
    · exact leads_parseWhileStatement ih
    · exact leads_parseVarStatement
    · exact leads_parseSetStatement
    · exact leads_parseReturnStatement
    · exact leads_advance.bind fun _ => leads_pure _
    · exact leads_advance.bind fun _ => leads_pure _
    · exact leads_parseCommandStatement
    · exact leads_parseCommandStatement
    · exact leads_unexpectedToken _

theorem leads_parseStatement : Leads Parser.Later (parseStatement : Parsing F (Statement F)) :=
  leads_get_bind fun _ => leads_parseStatementN _

theorem leads_parseBlock : Leads Parser.Later (parseBlock : Parsing F (List (Statement F))) :=
  leads_get_bind fun _ => leads_parseBlockWith (leads_parseStatementN _)

/-! ### Items -/

theorem leads_parseEventType (name : Str) (span : Span) :
    Leads Parser.Later (parseEventType name span : Parsing F EventType) := by
  unfold parseEventType
  split
  · exact leads_pure _
  · exact leads_get_bind fun _ => leads_fail _

theorem returns_parsePattern {p q : Parser F} {pattern : Str} :
    Returns parsePattern p pattern q ↔
      ∃ texts, (p.tokens.takeWhile (!·.kind.endsPattern)).mapM
        (Token.patternText p.source) = some texts ∧ pattern = patternOf texts.flatten ∧
        q = { p with tokens := p.tokens.dropWhile (!·.kind.endsPattern) } := by
  unfold parsePattern
  rw [returns_bind_iff]
  constructor
  · rintro ⟨p', p'', hget, h⟩
    cases hget
    cases htexts : (p.tokens.takeWhile (!·.kind.endsPattern)).mapM (Token.patternText p.source) with
    | none =>
      rw [htexts] at h
      cases h
    | some texts =>
      rw [htexts] at h
      cases h
      exact ⟨texts, rfl, rfl, rfl⟩
  · rintro ⟨texts, htexts, rfl, rfl⟩
    refine ⟨p, p, returns_get p, ?_⟩
    rw [htexts]
    rfl

theorem leads_parsePattern : Leads Parser.Later (parsePattern : Parsing F Str) := by
  intro p pattern q h
  obtain ⟨-, -, -, rfl⟩ := returns_parsePattern.mp h
  exact ⟨rfl, rfl, List.dropWhile_suffix _⟩

theorem leads_parseEvent : Leads Parser.Later (parseEvent : Parsing F (EventHandler F)) := by
  refine leads_get_bind fun _ => leads_advance.bind fun _ => leads_get_bind fun _ =>
    (leads_expectIdentifier _).bind fun _ => (leads_parseEventType _ _).bind fun _ => leads_get_bind
        fun _ =>
    .ite (leads_advance.bind fun _ => leads_parsePattern.bind fun _ => ?_) ((leads_pure _).bind fun _ => ?_)
  all_goals
    exact leads_skipTrivia.bind fun _ => leads_parseBlock.bind fun _ => leads_get_bind fun _ => leads_pure _

theorem leads_parseAlias : Leads Parser.Later (parseAlias : Parsing F (AliasDefinition F)) :=
  leads_get_bind fun _ => leads_advance.bind fun _ => (leads_expectIdentifier _).bind fun _ =>
    leads_skipTrivia.bind fun _ => leads_get_bind fun _ =>
    .ite (leads_parseBlock.bind fun _ => leads_pure _) (leads_parseStatement.bind fun _ => leads_pure _)

theorem leads_parseTimer : Leads Parser.Later (parseTimer : Parsing F (TimerDefinition F)) :=
  leads_get_bind fun _ => leads_advance.bind fun _ => (leads_expectIdentifier _).bind fun _ =>
    leads_parsePrimary.bind fun _ => leads_parsePrimary.bind fun _ => leads_skipTrivia.bind fun _ =>
    leads_parseBlock.bind fun _ => leads_get_bind fun _ => leads_pure _

theorem leads_parseTopLevelItem : Leads Parser.Later (parseTopLevelItem : Parsing F (TopLevelItem F)) := by
  refine leads_get_bind fun p => ?_
  split
  · exact leads_parseAlias.bind fun _ => leads_pure _
  · exact leads_parseEvent.bind fun _ => leads_pure _
  · exact leads_parseTimer.bind fun _ => leads_pure _
  · exact leads_unexpectedToken _

end Leads

/-! ## Where handlers come from -/

section Handlers

variable {p q : Parser F}

theorem exists_parseTopLevelItem {n : ℕ} {items items' : List (TopLevelItem F)}
    (h : Returns (parseItems n items) p items' q) {item : TopLevelItem F} (hmem : item ∈ items') :
    item ∈ items ∨ ∃ p' q', p.Later p' ∧ Returns parseTopLevelItem p' item q' := by
  induction n generalizing items p with
  | zero => cases h
  | succ n ih =>
    obtain ⟨_, _, hget, h⟩ := returns_bind_iff.mp h
    cases hget
    split_ifs at h
    · cases h
      exact .inl hmem
    · obtain ⟨item', p₁, hitem, h⟩ := returns_bind_iff.mp h
      obtain ⟨_, p₂, htrivia, h⟩ := returns_bind_iff.mp h
      have hlater : p.Later p₂ :=
        IsTrans.trans _ _ _ (leads_parseTopLevelItem _ _ _ hitem) (leads_skipTrivia _ _ _ htrivia)
      rcases ih h with hold | ⟨p', q', hp', hread⟩
      · rcases List.mem_append.mp hold with hold | hnew
        · exact .inl hold
        · rw [List.mem_singleton] at hnew
          exact .inr ⟨p, p₁, Std.Refl.refl p, hnew ▸ hitem⟩
      · exact .inr ⟨p', q', IsTrans.trans _ _ _ hlater hp', hread⟩

/-- **Where the handlers of a script come from.** -/
theorem exists_parseEvent {script : Script F} (h : Returns parse p script q) {e : EventHandler F}
    (hmem : .event e ∈ script.items) :
    ∃ p' q', p.Later p' ∧ p'.peekKind = .on ∧ Returns parseEvent p' e q' := by
  obtain ⟨_, _, hget, h⟩ := returns_bind_iff.mp h
  cases hget
  obtain ⟨_, p₁, htrivia, h⟩ := returns_bind_iff.mp h
  obtain ⟨_, _, hget, h⟩ := returns_bind_iff.mp h
  cases hget
  obtain ⟨items, p₂, hitems, h⟩ := returns_bind_iff.mp h
  obtain ⟨_, _, hget, h⟩ := returns_bind_iff.mp h
  cases hget
  cases h
  rcases exists_parseTopLevelItem hitems hmem with hnone | ⟨p', q', hp', hread⟩
  · cases hnone
  · obtain ⟨_, _, hget, h⟩ := returns_bind_iff.mp hread
    cases hget
    split at h
    · obtain ⟨a, _, -, h⟩ := returns_bind_iff.mp h
      cases h
    · next hkind =>
      obtain ⟨e', _, he, h⟩ := returns_bind_iff.mp h
      cases h
      exact ⟨p', _, IsTrans.trans _ _ _ (leads_skipTrivia _ _ _ htrivia) hp', hkind, he⟩
    · obtain ⟨t, _, -, h⟩ := returns_bind_iff.mp h
      cases h
    · cases h

theorem returns_expectIdentifier {expected : String} {name : Str}
    (h : Returns (expectIdentifier expected) p name q) : p.peekKind = .identifier name ∧ q = p.next := by
  obtain ⟨_, _, hget, h⟩ := returns_bind_iff.mp h
  cases hget
  split at h
  · next hkind =>
    obtain ⟨_, _, hadvance, h⟩ := returns_bind_iff.mp h
    cases hadvance
    cases h
    exact ⟨hkind, rfl⟩
  · obtain ⟨_, _, hget, h⟩ := returns_bind_iff.mp h
    cases hget
    split_ifs at h
    · cases h
    · cases h

theorem returns_parseEventType {name : Str} {span : Span} {eventType : EventType}
    (h : Returns (parseEventType name span) p eventType q) : q = p := by
  unfold parseEventType at h
  split at h
  · cases h
    rfl
  · cases h

theorem returns_parseEvent {e : EventHandler F} (h : Returns parseEvent p e q) :
    (∃ name, p.next.peekKind = .identifier name) ∧
      (p.next.next.check .colon = true → ∃ r, Returns parsePattern p.next.next.next e.pattern r) ∧
      ∃ r, p.Later r ∧ e.span = p.currentSpan.merge r.currentSpan := by
  obtain ⟨_, _, hget, h⟩ := returns_bind_iff.mp h
  cases hget
  obtain ⟨_, p₁, hadvance, h⟩ := returns_bind_iff.mp h
  have hlater := leads_advance _ _ _ hadvance
  cases hadvance
  obtain ⟨_, _, hget, h⟩ := returns_bind_iff.mp h
  cases hget
  obtain ⟨name, _, hname, h⟩ := returns_bind_iff.mp h
  replace hlater := IsTrans.trans _ _ _ hlater (leads_expectIdentifier _ _ _ _ hname)
  obtain ⟨hkind, rfl⟩ := returns_expectIdentifier hname
  obtain ⟨eventType, p₂, htype, h⟩ := returns_bind_iff.mp h
  obtain rfl := returns_parseEventType htype
  obtain ⟨_, _, hget, h⟩ := returns_bind_iff.mp h
  cases hget
  split_ifs at h with hcolon
  · obtain ⟨_, p₃, hadvance, h⟩ := returns_bind_iff.mp h
    replace hlater := IsTrans.trans _ _ _ hlater (leads_advance _ _ _ hadvance)
    cases hadvance
    obtain ⟨pattern, p₄, hpattern, h⟩ := returns_bind_iff.mp h
    replace hlater := IsTrans.trans _ _ _ hlater (leads_parsePattern _ _ _ hpattern)
    obtain ⟨_, p₅, htrivia, h⟩ := returns_bind_iff.mp h
    replace hlater := IsTrans.trans _ _ _ hlater (leads_skipTrivia _ _ _ htrivia)
    obtain ⟨body, p₆, hbody, h⟩ := returns_bind_iff.mp h
    replace hlater := IsTrans.trans _ _ _ hlater (leads_parseBlock _ _ _ hbody)
    obtain ⟨_, _, hget, h⟩ := returns_bind_iff.mp h
    cases hget
    cases h
    exact ⟨⟨name, hkind⟩, fun _ => ⟨p₄, hpattern⟩, _, hlater, rfl⟩
  · obtain ⟨pattern, p₄, hpure, h⟩ := returns_bind_iff.mp h
    cases hpure
    obtain ⟨_, p₅, htrivia, h⟩ := returns_bind_iff.mp h
    replace hlater := IsTrans.trans _ _ _ hlater (leads_skipTrivia _ _ _ htrivia)
    obtain ⟨body, p₆, hbody, h⟩ := returns_bind_iff.mp h
    replace hlater := IsTrans.trans _ _ _ hlater (leads_parseBlock _ _ _ hbody)
    obtain ⟨_, _, hget, h⟩ := returns_bind_iff.mp h
    cases hget
    cases h
    exact ⟨⟨name, hkind⟩, fun h => absurd h hcolon, _, hlater, rfl⟩

end Handlers

end Pirc.Scripting
