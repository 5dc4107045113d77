import Mathlib.Data.List.DropRight
import Pirc.Scripting.Expressions

/-!
# Scripts: which blocks of the grammar are read

The grammar gives the arguments of a command as expressions, the parser reads primary expressions. A
line is followed token by token, and beside it the parser: both stop at an operator that stands
outside parentheses among the arguments of a command, and nowhere else.
-/

namespace Pirc.Scripting

open Protocol (Str)
open Parse (Returns Fails bind_eq returns_get returns_pure)
open Nonterminal (block statementOrNewline statement ifStmt whileStmt varDecl setStmt variable_
  returnStmt commandStmt comment expression)

variable {F : Type}

/-! ## Lines -/

def TokenKind.isOperator : TokenKind F → Bool
  | bang => Bool.true
  | kind => kind.infixOp.isSome

/-- The tokens that neither begin a line nor open or close a parenthesis. -/
def TokenKind.isInner : TokenKind F → Bool
  | newline | leftBrace | leftParen | rightParen => Bool.false
  | _ => Bool.true

/-- What a line of a block is, as far as it was read: nothing yet, a command, inside so many
parentheses, or something else. -/
inductive Line
  | start
  | command (depth : ℕ)
  | other
  deriving DecidableEq

namespace Line

/-- Go on with a token. Among the arguments of a command no operator may stand outside
parentheses. -/
def next (line : Line) : TokenKind F → Option Line
  | .newline | .leftBrace => some start
  | kind =>
    match line, kind with
    | start, .slash | start, .identifier _ => some (command 0)
    | start, _ | other, _ => some other
    | command depth, .leftParen => some (command (depth + 1))
    | command depth, .rightParen => some (command (depth - 1))
    | command depth, kind =>
      if depth = 0 && kind.isOperator then none else some (command depth)

/-- What the line is after some tokens. -/
def scan (line : Line) (kinds : List (TokenKind F)) : Option Line := kinds.foldlM next line

end Line

/-- **The arguments of commands are plain**: no operator stands outside parentheses among them. -/
def PlainArguments (kinds : List (TokenKind F)) : Prop := (Line.other.scan kinds).isSome

instance : DecidablePred (PlainArguments (F := F)) := fun kinds =>
  inferInstanceAs (Decidable ((Line.other.scan kinds).isSome = true))

namespace Line

variable {line line' : Line} {kind : TokenKind F} {kinds kinds' : List (TokenKind F)}

@[simp] theorem scan_nil : line.scan ([] : List (TokenKind F)) = some line := rfl

theorem scan_cons (h : line.next kind = some line') :
    line.scan (kind :: kinds) = line'.scan kinds := by
  rw [scan, List.foldlM_cons, h]
  rfl

theorem scan_cons_none (h : line.next kind = none) : line.scan (kind :: kinds) = none := by
  rw [scan, List.foldlM_cons, h]
  rfl

theorem scan_append (h : line.scan kinds = some line') :
    line.scan (kinds ++ kinds') = line'.scan kinds' := by
  rw [scan, List.foldlM_append, show kinds.foldlM next line = some line' from h]
  rfl

theorem scan_append_none (h : line.scan kinds = none) : line.scan (kinds ++ kinds') = none := by
  rw [scan, List.foldlM_append, show kinds.foldlM next line = none from h]
  rfl

/-! ### Expressions in a line -/

/-- A line in which operators may stand: not a command, or inside its parentheses. -/
def Deep : Line → Prop
  | start => False
  | command depth => 0 < depth
  | other => True


theorem Deep.next (h : line.Deep) (hkind : kind.isInner = true) : line.next kind = some line := by
  cases line with
  | start => exact h.elim
  | command depth =>
    have hdepth : ¬ depth = 0 := Nat.ne_of_gt h
    cases kind <;> simp_all [Line.next, TokenKind.isInner]
  | other => cases kind <;> simp_all [Line.next, TokenKind.isInner]

theorem next_command_zero (hkind : kind.isInner = true) (hoperator : kind.isOperator = false) :
    (command 0).next kind = some (command 0) := by
  cases kind <;> simp_all [Line.next, TokenKind.isInner]

theorem next_operator (hoperator : kind.isOperator = true) : (command 0).next kind = none := by
  cases kind <;> simp_all [Line.next, TokenKind.isOperator, TokenKind.infixOp]

theorem exists_parens (h : line ≠ start) :
    ∃ inner : Line, inner.Deep ∧ line.next (.leftParen : TokenKind F) = some inner ∧
      inner.next (.rightParen : TokenKind F) = some line := by
  cases line with
  | start => exact absurd rfl h
  | command depth => exact ⟨command (depth + 1), Nat.succ_pos depth, rfl, rfl⟩
  | other => exact ⟨other, trivial, rfl, rfl⟩

theorem Deep.ne_start (h : line.Deep) : line ≠ start := by
  rintro rfl
  exact h

/-- Tokens in parentheses keep a line that they would keep inside. -/
theorem scan_parens (hline : line ≠ start)
    (h : ∀ inner : Line, inner.Deep → inner.scan kinds = some inner) :
    line.scan (.leftParen :: (kinds ++ [.rightParen])) = some line := by
  obtain ⟨inner, hinner, hopen, hclose⟩ := exists_parens (F := F) hline
  rw [scan_cons hopen, scan_append (h inner hinner), scan_cons hclose, scan_nil]

theorem scan_singleton (h : line.next kind = some line') : line.scan [kind] = some line' := by
  rw [scan_cons h, scan_nil]

theorem scan_furtherTokens {args : List (Expression F)}
    (h : ∀ arg ∈ args, ∀ line : Line, line.Deep → line.scan arg.tokens = some line)
    (hline : line.Deep) : line.scan (Expression.furtherTokens args) = some line := by
  induction args with
  | nil => rw [Expression.furtherTokens, scan_nil]
  | cons arg args ih =>
    obtain ⟨harg, hrest⟩ := List.forall_mem_cons.mp h
    rw [Expression.furtherTokens, scan_cons (hline.next rfl), scan_append (harg line hline), ih hrest]

theorem scan_argumentTokens {args : List (Expression F)}
    (h : ∀ arg ∈ args, ∀ line : Line, line.Deep → line.scan arg.tokens = some line)
    (hline : line.Deep) : line.scan (Expression.argumentTokens args) = some line := by
  cases args with
  | nil => rw [Expression.argumentTokens, scan_nil]
  | cons arg args =>
    obtain ⟨harg, hrest⟩ := List.forall_mem_cons.mp h
    rw [Expression.argumentTokens, scan_append (harg line hline), scan_furtherTokens hrest hline]

end Line

section Trees

variable {S : Str → Prop} {e : Expression F} {line : Line}

theorem Bracketed.scan_tokens (hb : Bracketed S e) (hline : line.Deep) :
    line.scan e.tokens = some line := by
  induction hb generalizing line with
  | @binaryOp left op right span hleft hright bleft bright ihleft ihright =>
    have hop : (op.token : TokenKind F).isInner = true := by cases op <;> rfl
    rw [Expression.tokens, Line.scan_append (ihleft hline), Line.scan_cons (hline.next hop),
      ihright hline]
  | @unaryOp op operand span hoperand boperand ih =>
    have hop : (op.token : TokenKind F).isInner = true := by cases op <;> rfl
    rw [Expression.tokens, Line.scan_cons (hline.next hop), ih hline]
  | @functionCall name args span bargs ih =>
    rw [Expression.tokens, Line.scan_cons (hline.next rfl)]
    exact Line.scan_parens hline.ne_start fun inner hinner =>
      Line.scan_argumentTokens (fun arg harg _ hdeep => ih arg harg hdeep) hinner
  | @grouped expr span bexpr ih =>
    rw [Expression.tokens]
    exact Line.scan_parens hline.ne_start fun inner hinner => ih hinner
  | @boolLiteral value span =>
    cases value with
    | true => exact Line.scan_singleton (hline.next rfl)
    | false => exact Line.scan_singleton (hline.next rfl)
  | _ =>
    rw [Expression.tokens]
    exact Line.scan_singleton (hline.next rfl)

theorem Bracketed.scan_primary (hb : Bracketed S e) (hlevel : e.level = 8) :
    (Line.command 0).scan e.tokens = some (.command 0) := by
  have houter : Line.command 0 ≠ .start := by simp
  cases hb with
  | binaryOp => exact absurd hlevel (level_binaryOp_lt ..).ne
  | unaryOp => cases hlevel
  | @functionCall name args span bargs =>
    rw [Expression.tokens, Line.scan_cons (Line.next_command_zero rfl rfl)]
    exact Line.scan_parens houter fun inner hinner =>
      Line.scan_argumentTokens (fun arg harg _ hdeep => (bargs arg harg).scan_tokens hdeep) hinner
  | @grouped expr span bexpr =>
    rw [Expression.tokens]
    exact Line.scan_parens houter fun inner hinner => bexpr.scan_tokens hinner
  | @boolLiteral value span =>
    cases value with
    | true => exact Line.scan_singleton (Line.next_command_zero rfl rfl)
    | false => exact Line.scan_singleton (Line.next_command_zero rfl rfl)
  | _ =>
    rw [Expression.tokens]
    exact Line.scan_singleton (Line.next_command_zero rfl rfl)

/-- **Another tree than a primary one** begins with an operator, or with a primary tree before
one. -/
theorem Bracketed.exists_operator (hb : Bracketed S e) (hlevel : e.level ≠ 8) :
    ∃ op kinds, op.isOperator = true ∧ (e.tokens = op :: kinds ∨
      ∃ first : Expression F, Bracketed S first ∧ first.level = 8 ∧
        e.tokens = first.tokens ++ op :: kinds) := by
  induction hb with
  | @binaryOp left op right span hleft hright bleft bright ihleft _ =>
    rw [Expression.tokens]
    rcases eq_or_ne left.level 8 with hprimary | hcompound
    · have hop : (op.token : TokenKind F).isOperator = true := by cases op <;> rfl
      exact ⟨op.token, _, hop, .inr ⟨left, bleft, hprimary, rfl⟩⟩
    · obtain ⟨first, kinds, hfirst, htokens | ⟨inner, binner, hinner, htokens⟩⟩ := ihleft hcompound
      · exact ⟨first, kinds ++ op.token :: right.tokens, hfirst,
          .inl (by rw [htokens, List.cons_append])⟩
      · refine ⟨first, kinds ++ op.token :: right.tokens, hfirst,
          .inr ⟨inner, binner, hinner, ?_⟩⟩
        rw [htokens, List.append_assoc, List.cons_append]
  | @unaryOp op operand span =>
    have hop : (op.token : TokenKind F).isOperator = true := by cases op <;> rfl
    exact ⟨op.token, operand.tokens, hop, .inl (by rw [Expression.tokens])⟩
  | _ => exact absurd rfl hlevel

theorem Bracketed.exists_called (hb : Bracketed S e) (name : Str)
    (hparen : e.tokens.head? = some .leftParen) :
    ∃ e' : Expression F, Bracketed S e' ∧ e'.level = e.level ∧
      e'.tokens = .builtinIdentifier name :: e.tokens := by
  induction hb with
  | @binaryOp left op right span hleft hright bleft bright ihleft _ =>
    have hhead : left.tokens.head? = some .leftParen := by
      obtain ⟨t, rest, htokens, -⟩ := bleft.exists_tokens
      rw [Expression.tokens, htokens, List.cons_append, List.head?_cons] at hparen
      rw [htokens, List.head?_cons, hparen]
    obtain ⟨left', bleft', hlevel, htokens⟩ := ihleft hhead
    refine ⟨.binaryOp left' op right span, .binaryOp (hlevel ▸ hleft) hright bleft' bright, rfl, ?_⟩
    rw [Expression.tokens, Expression.tokens, htokens, List.cons_append]
  | @grouped expr span bexpr _ =>
    refine ⟨.functionCall name [expr] span, .functionCall fun arg harg => ?_, rfl, ?_⟩
    · rw [List.mem_singleton.mp harg]
      exact bexpr
    · rw [Expression.tokens, Expression.argumentTokens, Expression.furtherTokens, Expression.tokens,
        List.append_nil]
  | @unaryOp op operand span =>
    rw [Expression.tokens] at hparen
    cases op <;> cases hparen
  | @boolLiteral value span => cases value <;> cases hparen
  | _ =>
    rw [Expression.tokens] at hparen
    cases hparen

theorem Bracketed.eq_builtin (hb : Bracketed S e) (hlevel : e.level = 8) {name : Str}
    (hlast : e.tokens.getLast? = some (.builtinIdentifier name)) :
    ∃ span, e = .builtinId name span := by
  cases hb with
  | binaryOp => exact absurd hlevel (level_binaryOp_lt ..).ne
  | unaryOp => cases hlevel
  | @builtinId other span =>
    rw [Expression.tokens] at hlast
    cases hlast
    exact ⟨span, rfl⟩
  | @boolLiteral value span => cases value <;> cases hlast
  | @functionCall other args span bargs =>
    rw [Expression.tokens, ← List.cons_append, ← List.cons_append, List.getLast?_concat] at hlast
    cases hlast
  | @grouped expr span bexpr =>
    rw [Expression.tokens, ← List.cons_append, List.getLast?_concat] at hlast
    cases hlast
  | _ =>
    rw [Expression.tokens] at hlast
    cases hlast

end Trees

/-! ## Reading along a line -/

/-- **The parser and the line go together**: the parser returns where the line goes on, at an end in
`ends`, and it fails where the line does not. -/
def Reads {α : Type} (x : Parsing F α) (line : Line) (ts : List (Token F)) (q : Parser F)
    (line' : Line) (ends : Parser F → Prop) : Prop :=
  (line.scan (ts.map Token.kind) = some line' ∧ ∃ a r, Returns x (q.before ts) a r ∧ ends r) ∨
    (line.scan (ts.map Token.kind) = none ∧ ∃ e, Fails x (q.before ts) e)

section Reads

variable {α β : Type} {x : Parsing F α} {f : α → Parsing F β} {line line' line'' : Line}
  {t : Token F} {ts us : List (Token F)} {q : Parser F} {ends : Parser F → Prop}

theorem reads_of_returns {a : α} (hline : line.scan (ts.map Token.kind) = some line')
    (h : Returns x (q.before ts) a q) : Reads x line ts q line' (· = q) :=
  .inl ⟨hline, a, q, h, rfl⟩

theorem Reads.bind (hx : Reads x line ts (q.before us) line' (· = q.before us))
    (hf : ∀ a, Reads (f a) line' us q line'' ends) :
    Reads (x >>= f) line (ts ++ us) q line'' ends := by
  rw [Reads, List.map_append, Parser.before_append]
  obtain ⟨hline, a, _, hreturns, rfl⟩ | ⟨hline, e, hfails⟩ := hx
  · rw [Line.scan_append hline]
    obtain ⟨hline', b, r, hreturns', hr⟩ | ⟨hline', e, hfails⟩ := hf a
    · exact .inl ⟨hline', b, r, hreturns.bind hreturns', hr⟩
    · exact .inr ⟨hline', e, hreturns.bind_fails hfails⟩
  · exact .inr ⟨Line.scan_append_none hline, e, hfails.bind⟩

theorem Reads.andThen (hx : Reads x line ts q line' ends)
    (hf : ∀ a r, ∃ b, Returns (f a) r b r) : Reads (x >>= f) line ts q line' ends := by
  obtain ⟨hline, a, r, hreturns, hr⟩ | ⟨hline, e, hfails⟩ := hx
  · obtain ⟨b, hb⟩ := hf a r
    exact .inl ⟨hline, b, r, hreturns.bind hb, hr⟩
  · exact .inr ⟨hline, e, hfails.bind⟩

theorem Reads.of_eq {y : Parsing F α} (h : Reads y line ts q line' ends)
    (heq : x (q.before ts) = y (q.before ts)) : Reads x line ts q line' ends := by
  obtain ⟨hline, a, r, hreturns, hr⟩ | ⟨hline, e, hfails⟩ := h
  · exact .inl ⟨hline, a, r, heq.trans hreturns, hr⟩
  · exact .inr ⟨hline, e, heq.trans hfails⟩

theorem Reads.weaken {ends' : Parser F → Prop} (h : Reads x line ts q line' ends)
    (hends : ∀ r, ends r → ends' r) : Reads x line ts q line' ends' := by
  obtain ⟨hline, a, r, hreturns, hr⟩ | hfails := h
  · exact .inl ⟨hline, a, r, hreturns, hends r hr⟩
  · exact .inr hfails

theorem reads_advance (line' : Line) (hline : line.next t.kind = some line') :
    Reads advance line [t] q line' (· = q) :=
  reads_of_returns (Line.scan_singleton hline) (returns_advance _)

theorem reads_expect {kind : TokenKind F} (expected : String) (hkind : t.kind = kind)
    (heof : kind.ctorIdx ≠ (.eof : TokenKind F).ctorIdx) (hline : line.next kind = some line') :
    Reads (expect kind expected) line [t] q line' (· = q) :=
  reads_of_returns (Line.scan_singleton (by rw [hkind, hline])) (returns_expect expected hkind heof)

end Reads

/-! ## The arguments of a command -/

section Arguments

variable {S : Str → Prop} {e : Expression F} {ts : List (Token F)} {p q : Parser F}

theorem parsePrimary_eq (p : Parser F) :
    (parsePrimary : Parsing F (Expression F)) p = parsePrimaryExpression (parseExpressionBp p.fuel) p := by
  rw [parsePrimary, bind_eq (returns_get p)]

theorem fails_parsePrimary (h : p.peekKind.isOperator = true) :
    ∃ e, Fails (parsePrimary : Parsing F (Expression F)) p e := by
  refine ⟨.unexpectedToken "expression".toList p.peekKind.describe p.currentSpan
    (.fromOffset p.source p.currentSpan.offset), ?_⟩
  rw [Fails, parsePrimary_eq, parsePrimaryExpression, bind_eq (returns_get p)]
  generalize hkind : p.peekKind = kind at h
  have hunexpected : unexpectedToken "expression" p = some (.error (.unexpectedToken
      "expression".toList kind.describe p.currentSpan (.fromOffset p.source p.currentSpan.offset)) :
        Except ParseError (Expression F × Parser F)) := by
    rw [unexpectedToken, bind_eq (returns_get p), hkind]
    rfl
  cases kind <;> first | exact hunexpected | cases h

theorem endsLine_operator {kind : TokenKind F} (h : kind.isOperator = true) : kind.endsLine = false := by
  cases kind <;> first | rfl | cases h

theorem parseCommandArguments_stop {k : ℕ} {acc : List (Expression F)}
    (h : p.peekKind.endsLine = true) : Returns (parseCommandArguments (k + 1) acc) p acc p := by
  rw [Returns, parseCommandArguments, bind_eq (returns_get p), if_pos h]
  rfl

theorem parseCommandArguments_step {k : ℕ} {acc : List (Expression F)}
    (h : p.peekKind.endsLine = false) :
    parseCommandArguments (k + 1) acc p =
      (parsePrimary >>= fun arg => parseCommandArguments k (acc ++ [arg])) p := by
  rw [parseCommandArguments, bind_eq (returns_get p), if_neg (by rw [h]; exact Bool.false_ne_true)]

theorem endsLine_startsExpression {kind : TokenKind F} (h : kind.startsExpression = true) :
    kind.endsLine = false := by
  cases kind <;> first | rfl | cases h

theorem Bracketed.returns_parsePrimary (hb : Bracketed S e) (hlevel : e.level = 8)
    (hts : ts.map Token.kind = e.tokens) (hcall : Uncalled e.tokens q) :
    ∃ e', Returns parsePrimary (q.before ts) e' q := by
  have hlength : e.tokens.length ≤ (q.before ts).fuel := by
    rw [← hts, List.length_map, Parser.fuel, Parser.tokens_before, List.length_append]
    omega
  obtain ⟨e', -, hreturns⟩ := hb.parsedPrimary hlevel hts hlength hcall
  exact ⟨e', (parsePrimary_eq _).trans hreturns⟩

theorem Parser.peekKind_before_of_map {kind : TokenKind F} {kinds : List (TokenKind F)}
    (h : ts.map Token.kind = kind :: kinds) : (q.before ts).peekKind = kind := by
  obtain ⟨t, us, rfl, rfl, -⟩ := List.map_eq_cons_iff.mp h
  rfl

theorem Bracketed.reads_compound (hb : Bracketed S e) (hlevel : e.level ≠ 8) {us vs : List (Token F)}
    (hus : us.map Token.kind = e.tokens) (k : ℕ) (acc : List (Expression F)) {line' : Line}
    {ends : Parser F → Prop} :
    Reads (parseCommandArguments (k + 2) acc) (.command 0) (us ++ vs) q line' ends := by
  have hstart : ((q.before vs).before us).peekKind.endsLine = false := by
    obtain ⟨t, rest, htokens, ht⟩ := hb.exists_tokens
    rw [Parser.peekKind_before_of_map (hus.trans htokens)]
    exact endsLine_startsExpression ht
  have hstop {us : List (Token F)} {op : TokenKind F} (hop : op.isOperator = true)
      (hus : ∃ kinds, us.map Token.kind = op :: kinds) :
      ∃ e, Fails (parsePrimary : Parsing F (Expression F)) ((q.before vs).before us) e := by
    obtain ⟨kinds, hkinds⟩ := hus
    refine fails_parsePrimary ?_
    rw [Parser.peekKind_before_of_map hkinds]
    exact hop
  rw [Reads, List.map_append, Parser.before_append]
  refine .inr ?_
  obtain ⟨op, kinds, hop, htokens | ⟨first, bfirst, hfirst, htokens⟩⟩ := hb.exists_operator hlevel
  · refine ⟨Line.scan_append_none ?_, ?_⟩
    · rw [hus, htokens]
      exact Line.scan_cons_none (Line.next_operator hop)
    · obtain ⟨err, hfails⟩ := hstop hop ⟨kinds, hus.trans htokens⟩
      exact ⟨err, (parseCommandArguments_step hstart).trans hfails.bind⟩
  · refine ⟨Line.scan_append_none ?_, ?_⟩
    · rw [hus, htokens, Line.scan_append (bfirst.scan_primary hfirst)]
      exact Line.scan_cons_none (Line.next_operator hop)
    · obtain ⟨ws, ops, rfl, hws, hops⟩ := List.map_eq_append_iff.mp (hus.trans htokens)
      have hpeek : ((q.before vs).before ops).peekKind = op := Parser.peekKind_before_of_map hops
      have hcall : Uncalled first.tokens ((q.before vs).before ops) := by
        intro name _ hparen
        rw [hpeek] at hparen
        rw [hparen] at hop
        cases hop
      obtain ⟨first', hreturns⟩ := bfirst.returns_parsePrimary hfirst hws hcall
      obtain ⟨err, hfails⟩ := hstop hop ⟨kinds, hops⟩
      have hmore : Fails (parseCommandArguments (k + 1) (acc ++ [first']))
          ((q.before vs).before ops) err := by
        rw [Fails, parseCommandArguments_step (by rw [hpeek]; exact endsLine_operator hop)]
        exact hfails.bind
      rw [Parser.before_append]
      rw [Parser.before_append] at hstart
      exact ⟨err, (parseCommandArguments_step hstart).trans (hreturns.bind_fails hmore)⟩

/-- **The arguments of a command**, up to the end of its line. -/
theorem reads_parseCommandArguments (hend : q.peekKind = .newline) (es : List (Expression F))
    (hes : ∀ e ∈ es, Bracketed S e) (hts : ts.map Token.kind = es.flatMap Expression.tokens) {k : ℕ}
    (hk : es.length < k) (acc : List (Expression F)) :
    Reads (parseCommandArguments k acc) (.command 0) ts q (.command 0) (· = q) := by
  -- by the number of trees: a call takes the place of two of them
  induction hsize : es.length using Nat.strong_induction_on generalizing es ts k acc with
  | _ size ih =>
    subst hsize
    obtain ⟨k, rfl⟩ : ∃ k', k = k' + 1 := ⟨k - 1, by omega⟩
    cases es with
    | nil =>
      obtain rfl : ts = [] := List.map_eq_nil_iff.mp hts
      exact reads_of_returns rfl (parseCommandArguments_stop (by rw [Parser.before_nil, hend]; rfl))
    | cons e es =>
      rw [List.length_cons] at hk ih
      obtain ⟨hb, hrest⟩ := List.forall_mem_cons.mp hes
      rw [List.flatMap_cons] at hts
      by_cases hlevel : e.level = 8
      case neg =>
        obtain ⟨us, vs, rfl, hus, -⟩ := List.map_eq_append_iff.mp hts
        obtain ⟨k, rfl⟩ : ∃ k', k = k' + 1 := ⟨k - 1, by omega⟩
        exact hb.reads_compound hlevel hus k acc
      by_cases hcalled : ∃ name span second rest, e = .builtinId name span ∧ es = second :: rest ∧
          second.tokens.head? = some .leftParen
      case pos =>
        obtain ⟨name, span, second, rest, rfl, rfl, hparen⟩ := hcalled
        obtain ⟨bsecond, hrest⟩ := List.forall_mem_cons.mp hrest
        obtain ⟨called, bcalled, -, htokens⟩ := bsecond.exists_called name hparen
        refine ih (rest.length + 1) (by simp) (called :: rest)
          (List.forall_mem_cons.mpr ⟨bcalled, hrest⟩) ?_ (by simp at hk ⊢; omega) acc rfl
        rw [hts, List.flatMap_cons, List.flatMap_cons, htokens, Expression.tokens]
        rfl
      obtain ⟨us, vs, rfl, hus, hvs⟩ := List.map_eq_append_iff.mp hts
      have hcall : Uncalled e.tokens (q.before vs) := by
        intro name hlast hparen
        obtain ⟨span, rfl⟩ := hb.eq_builtin hlevel hlast
        cases es with
        | nil =>
          obtain rfl : vs = [] := List.map_eq_nil_iff.mp hvs
          rw [Parser.before_nil, hend] at hparen
          cases hparen
        | cons second rest =>
          obtain ⟨t, kinds, htokens, -⟩ := (hrest second List.mem_cons_self).exists_tokens
          rw [List.flatMap_cons, htokens, List.cons_append] at hvs
          rw [Parser.peekKind_before_of_map hvs] at hparen
          refine hcalled ⟨name, span, second, rest, rfl, rfl, ?_⟩
          rw [htokens, hparen, List.head?_cons]
      have hstart : (q.before (us ++ vs)).peekKind.endsLine = false := by
        obtain ⟨t, rest, htokens, ht⟩ := hb.exists_tokens
        rw [Parser.before_append, Parser.peekKind_before_of_map (hus.trans htokens)]
        exact endsLine_startsExpression ht
      obtain ⟨e', hreturns⟩ := hb.returns_parsePrimary hlevel hus hcall
      have hfirst : Reads parsePrimary (.command 0) us (q.before vs) (.command 0)
          (· = q.before vs) :=
        reads_of_returns (by rw [hus, hb.scan_primary hlevel]) hreturns
      refine Reads.of_eq (hfirst.bind fun arg => ?_) (parseCommandArguments_step hstart)
      exact ih es.length (Nat.lt_succ_self _) es hrest hvs (by omega) _ rfl

end Arguments

/-! ## Statements -/

section Statements

variable {k n : ℕ} {kinds : List (TokenKind F)} {ts : List (Token F)} {q : Parser F} {line : Line}

theorem exists_trees {words : List (List (TokenKind F))} (h : ∀ word ∈ words, Written 1 word) :
    ∃ es : List (Expression F), (∀ e ∈ es, Bracketed (fun _ => True) e) ∧
      es.flatMap Expression.tokens = words.flatten ∧ es.length ≤ words.flatten.length := by
  induction words with
  | nil => exact ⟨[], by simp, rfl, le_rfl⟩
  | cons word words ih =>
    obtain ⟨⟨e, hb, -, rfl⟩, hrest⟩ := List.forall_mem_cons.mp h
    obtain ⟨es, hes, htokens, hlength⟩ := ih hrest
    obtain ⟨t, ts, hfirst, -⟩ := hb.exists_tokens
    refine ⟨e :: es, List.forall_mem_cons.mpr ⟨hb, hes⟩, ?_, ?_⟩
    · rw [List.flatMap_cons, htokens, List.flatten_cons]
    · rw [List.flatten_cons, List.length_append, hfirst, List.length_cons, List.length_cons]
      omega

theorem reads_expectIdentifier {t : Token F} {name : Str} {line' : Line} (expected : String)
    (hkind : t.kind = .identifier name) (hline : line.next t.kind = some line') :
    Reads (expectIdentifier expected) line [t] q line' (· = q) := by
  refine reads_of_returns (a := name) (Line.scan_singleton hline) ?_
  have hpeek : (q.before [t]).peekKind = .identifier name := hkind
  rw [Returns, expectIdentifier, bind_eq (returns_get _), hpeek]
  rfl

theorem reads_named (hend : q.peekKind = .newline) {name : Token F} {args : List (Token F)}
    {word : Str} (hname : name.kind = .identifier word) {es : List (Expression F)}
    (hes : ∀ e ∈ es, Bracketed (fun _ => True) e) (hlength : es.length ≤ args.length)
    (hargs : args.map Token.kind = es.flatMap Expression.tokens)
    (hline : line.next name.kind = some (.command 0))
    (finish : Str → List (Expression F) → Statement F) :
    Reads (do
      let name ← expectIdentifier "command name"
      let args ← parseCommandArguments ((← get).tokens.length + 1) []
      pure (finish name args)) line ([name] ++ args) q (.command 0) (· = q) := by
  refine (reads_expectIdentifier "command name" hname hline).bind fun word => ?_
  refine Reads.of_eq ?_ (bind_eq (returns_get _))
  refine Reads.andThen ?_ fun _ _ => ⟨_, returns_pure _ _⟩
  refine reads_parseCommandArguments hend es hes hargs ?_ []
  rw [Parser.tokens_before, List.length_append]
  omega

theorem reads_parseCommandStatement (hend : q.peekKind = .newline)
    (h : Ebnf.DerivesIn grammar k (grammar commandStmt) (ts.map Token.kind)) :
    Reads parseCommandStatement .start ts q (.command 0) (· = q) := by
  simp only [grammar, Ebnf.derivesIn_seq, Ebnf.derivesIn_opt, Ebnf.derivesIn_token,
    Ebnf.derivesIn_terminal, Ebnf.derivesIn_rep] at h
  obtain ⟨_, _, ⟨front, _, hslash, ⟨_, ⟨word, rfl⟩, rfl⟩, rfl⟩, ⟨words, hwords, rfl⟩, htokens⟩ := h
  obtain ⟨es, hes, hflat, hlength⟩ := exists_trees fun word hword =>
    written_of_derivesIn (p := 1) rfl (hwords word hword)
  obtain ⟨us, args, rfl, hus, hargs⟩ := List.map_eq_append_iff.mp htokens
  obtain ⟨first, names, rfl, hfirst, hname⟩ := List.map_eq_append_iff.mp hus
  obtain ⟨name, rfl, hkind⟩ := List.map_eq_singleton_iff.mp hname
  rw [← hargs, List.length_map] at hlength
  rw [List.append_assoc]
  let finish (start : Span) (name : Str) (args : List (Expression F)) : Statement F :=
    .command ⟨name, args, start.merge ((args.getLast?.map Expression.span).getD
      ⟨start.offset, (name.flatMap String.utf8EncodeChar).length⟩)⟩
  rcases hslash with rfl | rfl
  · obtain rfl : first = [] := List.map_eq_nil_iff.mp hfirst
    have hcheck : ¬ (q.before ([] ++ ([name] ++ args))).check .slash = true := by
      have hpeek : (q.before ([] ++ ([name] ++ args))).peekKind = .identifier word := hkind
      rw [Parser.check, hpeek]
      exact of_decide_eq_false rfl
    refine Reads.of_eq (reads_named hend hkind hes hlength (hargs.trans hflat.symm)
      (show Line.start.next name.kind = some (.command 0) by rw [hkind]; rfl)
      (finish (q.before ([] ++ ([name] ++ args))).currentSpan)) ?_
    rw [parseCommandStatement, bind_eq (returns_get _)]
    dsimp only
    rw [bind_eq (returns_get _), if_neg hcheck]
  · obtain ⟨slash, rfl, hslash⟩ := List.map_eq_singleton_iff.mp hfirst
    have hcheck : (q.before ([slash] ++ ([name] ++ args))).check .slash = true :=
      Parser.check_of_peekKind hslash
    refine Reads.of_eq ((reads_advance (.command 0)
      (show Line.start.next slash.kind = some (.command 0) by rw [hslash]; rfl)).bind fun _ =>
        reads_named hend hkind hes hlength (hargs.trans hflat.symm) (by rw [hkind]; rfl)
          (finish (q.before ([slash] ++ ([name] ++ args))).currentSpan)) ?_
    rw [parseCommandStatement, bind_eq (returns_get _)]
    dsimp only
    rw [bind_eq (returns_get _), if_pos hcheck]

theorem reads_parseExpression (h : Ebnf.DerivesIn grammar k (.nonterminal expression) (ts.map Token.kind))
    (hoperator : q.peekKind.infixOp = none) (hparen : q.peekKind ≠ .leftParen) :
    Reads parseExpression .other ts q .other (· = q) := by
  obtain ⟨e, hb, -, htokens⟩ := written_of_derivesIn (p := 1) rfl h
  have hline : Line.other.scan (ts.map Token.kind) = some .other := by
    rw [← htokens]
    exact hb.scan_tokens trivial
  obtain ⟨e', -, hreturns⟩ :=
    hb.parsed.returns_parseExpression htokens.symm hoperator fun _ _ => hparen
  exact reads_of_returns hline hreturns

theorem reads_expectVariable (expected : String)
    (h : Ebnf.DerivesIn grammar k (.nonterminal variable_) (ts.map Token.kind)) :
    Reads (expectVariable expected) .other ts q .other (· = q) := by
  replace h := h.unfold
  simp only [grammar, Ebnf.derivesIn_alt, Ebnf.derivesIn_terminal] at h
  rcases h with ⟨_, ⟨name, rfl⟩, hts⟩ | ⟨_, ⟨name, rfl⟩, hts⟩
  · obtain ⟨t, rfl, hkind⟩ := List.map_eq_singleton_iff.mp hts
    refine reads_of_returns (a := (name, false)) (Line.scan_singleton (by rw [hkind]; rfl)) ?_
    have hpeek : (q.before [t]).peekKind = .variable_ name := hkind
    rw [Returns, expectVariable, bind_eq (returns_get _), hpeek]
    rfl
  · obtain ⟨t, rfl, hkind⟩ := List.map_eq_singleton_iff.mp hts
    refine reads_of_returns (a := (name, true)) (Line.scan_singleton (by rw [hkind]; rfl)) ?_
    have hpeek : (q.before [t]).peekKind = .globalVariable name := hkind
    rw [Returns, expectVariable, bind_eq (returns_get _), hpeek]
    rfl

theorem reads_parseVarStatement (hend : q.peekKind = .newline)
    (h : Ebnf.DerivesIn grammar k (grammar varDecl) (ts.map Token.kind)) :
    Reads parseVarStatement .start ts q .other (· = q) := by
  simp only [grammar, Ebnf.derivesIn_seq, Ebnf.derivesIn_token] at h
  obtain ⟨_, values, ⟨_, _, ⟨_, vars, rfl, hvariable, rfl⟩, rfl, rfl⟩, hvalue, htokens⟩ := h
  obtain ⟨us, value, rfl, hus, rfl⟩ := List.map_eq_append_iff.mp htokens
  obtain ⟨vs, equal, rfl, hvs, hequal⟩ := List.map_eq_append_iff.mp hus
  obtain ⟨ws, name, rfl, hws, rfl⟩ := List.map_eq_append_iff.mp hvs
  obtain ⟨var, rfl, hvar⟩ := List.map_eq_singleton_iff.mp hws
  obtain ⟨equal, rfl, hkind⟩ := List.map_eq_singleton_iff.mp hequal
  rw [List.append_assoc, List.append_assoc]
  refine Reads.of_eq ?_ (bind_eq (returns_get _))
  refine (reads_advance .other (by rw [hvar]; rfl)).bind fun _ => ?_
  refine (reads_expectVariable _ hvariable).bind fun _ => ?_
  refine (reads_expect _ hkind (by simp [TokenKind.ctorIdx]) rfl).bind fun _ => ?_
  refine Reads.andThen ?_ fun _ _ => ⟨_, returns_pure _ _⟩
  exact reads_parseExpression hvalue (by rw [hend]; rfl) (by rw [hend]; rintro ⟨⟩)

theorem reads_parseSetStatement (hend : q.peekKind = .newline)
    (h : Ebnf.DerivesIn grammar k (grammar setStmt) (ts.map Token.kind)) :
    Reads parseSetStatement .start ts q .other (· = q) := by
  simp only [grammar, Ebnf.derivesIn_seq, Ebnf.derivesIn_token] at h
  obtain ⟨_, values, ⟨_, vars, rfl, hvariable, rfl⟩, hvalue, htokens⟩ := h
  obtain ⟨us, value, rfl, hus, rfl⟩ := List.map_eq_append_iff.mp htokens
  obtain ⟨ws, name, rfl, hws, rfl⟩ := List.map_eq_append_iff.mp hus
  obtain ⟨set, rfl, hset⟩ := List.map_eq_singleton_iff.mp hws
  rw [List.append_assoc]
  refine Reads.of_eq ?_ (bind_eq (returns_get _))
  refine (reads_advance .other (by rw [hset]; rfl)).bind fun _ => ?_
  refine (reads_expectVariable _ hvariable).bind fun _ => ?_
  refine Reads.andThen ?_ fun _ _ => ⟨_, returns_pure _ _⟩
  exact reads_parseExpression hvalue (by rw [hend]; rfl) (by rw [hend]; rintro ⟨⟩)

theorem reads_parseReturnStatement (hend : q.peekKind = .newline)
    (h : Ebnf.DerivesIn grammar k (grammar returnStmt) (ts.map Token.kind)) :
    Reads parseReturnStatement .start ts q .other (· = q) := by
  simp only [grammar, Ebnf.derivesIn_seq, Ebnf.derivesIn_token, Ebnf.derivesIn_opt] at h
  obtain ⟨_, values, rfl, hvalue, htokens⟩ := h
  obtain ⟨us, value, rfl, hus, rfl⟩ := List.map_eq_append_iff.mp htokens
  obtain ⟨ret, rfl, hret⟩ := List.map_eq_singleton_iff.mp hus
  refine Reads.of_eq ?_ (bind_eq (returns_get _))
  refine (reads_advance .other (by rw [hret]; rfl)).bind fun _ => ?_
  rcases hvalue with hnone | hvalue
  · obtain rfl : value = [] := List.map_eq_nil_iff.mp hnone
    refine Reads.of_eq ?_ ((bind_eq (returns_get _)).trans (by
      rw [if_pos (by rw [Parser.before_nil, hend]; rfl)]))
    exact reads_of_returns rfl (returns_pure _ _)
  · obtain ⟨e, hb, -, hwritten⟩ := written_of_derivesIn (p := 1) rfl hvalue
    obtain ⟨t, rest, hfirst, hstart⟩ := hb.exists_tokens
    have hmore : (q.before value).peekKind.endsLine = false := by
      rw [Parser.peekKind_before_of_map (hwritten.symm.trans hfirst)]
      exact endsLine_startsExpression hstart
    refine Reads.of_eq ?_ ((bind_eq (returns_get _)).trans (by
      rw [if_neg (by rw [hmore]; exact Bool.false_ne_true)]))
    refine Reads.andThen ?_ fun _ _ => ⟨_, returns_pure _ _⟩
    exact reads_parseExpression hvalue (by rw [hend]; rfl) (by rw [hend]; rintro ⟨⟩)

end Statements

/-! ## Lines of a block -/

def TokenKind.startsStatement : TokenKind F → Bool
  | if_ | while_ | var | set | return_ | slash | identifier _ => Bool.true
  | _ => Bool.false

def Parser.skip (p : Parser F) : Parser F :=
  { p with tokens := p.tokens.dropWhile (·.kind.isTrivia) }

def Nonterminal.isStatement : Nonterminal → Bool
  | ifStmt | whileStmt | varDecl | setStmt | returnStmt | commandStmt => true
  | _ => false

def Nonterminal.opensWith : Nonterminal → TokenKind F → Prop
  | ifStmt, kind => kind = .if_
  | whileStmt, kind => kind = .while_
  | varDecl, kind => kind = .var
  | setStmt, kind => kind = .set
  | returnStmt, kind => kind = .return_
  | commandStmt, kind => kind = .slash ∨ ∃ name, kind = .identifier name
  | _, _ => False

section Lines

variable {k n : ℕ} {kinds : List (TokenKind F)} {t : Token F} {ts : List (Token F)} {p q : Parser F}

theorem returns_skipTrivia (p : Parser F) : Returns skipTrivia p ⟨⟩ p.skip := rfl

theorem Parser.skip_trivia (h : t.kind.isTrivia = true) :
    (q.before (t :: ts)).skip = (q.before ts).skip := by
  rw [skip, tokens_before, List.cons_append, List.dropWhile_cons, if_pos h]
  rfl

theorem Parser.skip_of_peekKind (h : p.peekKind.isTrivia = false) : p.skip = p := by
  obtain ⟨source, tokens, eof⟩ := p
  cases tokens with
  | nil => rfl
  | cons t ts =>
    have ht : ¬ t.kind.isTrivia = true := by
      rw [show t.kind.isTrivia = false from h]
      exact Bool.false_ne_true
    rw [skip, List.dropWhile_cons, if_neg ht]

theorem Parser.skip_skip (p : Parser F) : p.skip.skip = p.skip := by
  unfold skip
  rw [List.dropWhile_idempotent]

theorem line_cases (h : Ebnf.DerivesIn grammar k (.nonterminal statementOrNewline) kinds) :
    kinds = [.newline] ∨ (∃ text, kinds = [.comment text, .newline, .newline]) ∨
      ∃ n : Nonterminal, n.isStatement = true ∧
        ∃ us, Ebnf.DerivesIn grammar k (grammar n) us ∧ kinds = us ++ [.newline] := by
  have hline := h.unfold
  simp only [grammar, Ebnf.derivesIn_alt, Ebnf.derivesIn_seq, Ebnf.derivesIn_token] at hline
  rcases hline with ⟨us, _, hstatement, rfl, rfl⟩ | rfl
  · right
    have hcases := hstatement.unfold
    simp only [grammar, Ebnf.derivesIn_alt] at hcases
    rcases hcases with (((((h | h) | h) | h) | h) | h) | h
    · exact .inr ⟨ifStmt, rfl, us, h.unfold, rfl⟩
    · exact .inr ⟨whileStmt, rfl, us, h.unfold, rfl⟩
    · exact .inr ⟨varDecl, rfl, us, h.unfold, rfl⟩
    · exact .inr ⟨setStmt, rfl, us, h.unfold, rfl⟩
    · exact .inr ⟨returnStmt, rfl, us, h.unfold, rfl⟩
    · exact .inr ⟨commandStmt, rfl, us, h.unfold, rfl⟩
    · left
      replace h := h.unfold
      simp only [grammar, Ebnf.derivesIn_seq, Ebnf.derivesIn_token, Ebnf.derivesIn_terminal] at h
      obtain ⟨_, _, ⟨_, ⟨text, rfl⟩, rfl⟩, rfl, rfl⟩ := h
      exact ⟨text, rfl⟩
  · exact .inl rfl

theorem exists_startsStatement {m : Nonterminal} (hm : m.isStatement = true)
    (h : Ebnf.DerivesIn grammar k (grammar m) kinds) :
    ∃ t rest, kinds = t :: rest ∧ t.startsStatement = true ∧ m.opensWith t := by
  cases m with
  | ifStmt =>
    simp only [grammar, Ebnf.derivesIn_seq, Ebnf.derivesIn_token] at h
    obtain ⟨_, _, ⟨_, _, ⟨_, _, ⟨_, _, ⟨_, _, ⟨_, _, rfl, rfl, rfl⟩, -, rfl⟩, -, rfl⟩, -, rfl⟩, -,
      rfl⟩, -, rfl⟩ := h
    exact ⟨_, _, rfl, rfl, rfl⟩
  | whileStmt =>
    simp only [grammar, Ebnf.derivesIn_seq, Ebnf.derivesIn_token] at h
    obtain ⟨_, _, ⟨_, _, ⟨_, _, ⟨_, _, rfl, rfl, rfl⟩, -, rfl⟩, -, rfl⟩, -, rfl⟩ := h
    exact ⟨_, _, rfl, rfl, rfl⟩
  | varDecl =>
    simp only [grammar, Ebnf.derivesIn_seq, Ebnf.derivesIn_token] at h
    obtain ⟨_, _, ⟨_, _, ⟨_, _, rfl, -, rfl⟩, -, rfl⟩, -, rfl⟩ := h
    exact ⟨_, _, rfl, rfl, rfl⟩
  | setStmt =>
    simp only [grammar, Ebnf.derivesIn_seq, Ebnf.derivesIn_token] at h
    obtain ⟨_, _, ⟨_, _, rfl, -, rfl⟩, -, rfl⟩ := h
    exact ⟨_, _, rfl, rfl, rfl⟩
  | returnStmt =>
    simp only [grammar, Ebnf.derivesIn_seq, Ebnf.derivesIn_token] at h
    obtain ⟨_, _, rfl, -, rfl⟩ := h
    exact ⟨_, _, rfl, rfl, rfl⟩
  | commandStmt =>
    simp only [grammar, Ebnf.derivesIn_seq, Ebnf.derivesIn_opt, Ebnf.derivesIn_token,
      Ebnf.derivesIn_terminal] at h
    obtain ⟨_, _, ⟨front, _, rfl | rfl, ⟨_, ⟨name, rfl⟩, rfl⟩, rfl⟩, -, rfl⟩ := h
    · exact ⟨_, _, rfl, rfl, .inr ⟨name, rfl⟩⟩
    · exact ⟨_, _, rfl, rfl, .inl rfl⟩
  | _ => cases hm

end Lines

/-! ## Blocks -/

section Blocks

variable {k n : ℕ} {ts : List (Token F)} {p q : Parser F} {line : Line}

def Parser.endsIf (p : Parser F) : Prop := p.skip.check .elseIf = false ∧ p.skip.check .else_ = false

theorem Parser.endsIf_of_first {kind : TokenKind F} (hskip : p.skip.peekKind = kind)
    (hkind : kind.startsStatement = true ∨ kind = .rightBrace) : p.endsIf := by
  unfold endsIf check
  rw [hskip]
  rcases hkind with hkind | rfl
  · cases kind <;> first | exact ⟨rfl, rfl⟩ | cases hkind
  · exact ⟨rfl, rfl⟩

theorem endsIf_lines (hq : q.peekKind = .rightBrace) {words : List (List (TokenKind F))}
    (hwords : ∀ word ∈ words, Ebnf.DerivesIn grammar k (.nonterminal statementOrNewline) word)
    (hts : ts.map Token.kind = words.flatten) : (q.before ts).endsIf := by
  induction words generalizing ts with
  | nil =>
    obtain rfl : ts = [] := List.map_eq_nil_iff.mp hts
    have hskip : (q.before []).skip = q := Parser.skip_of_peekKind (by rw [Parser.before_nil, hq]; rfl)
    exact Parser.endsIf_of_first (by rw [hskip, hq]) (.inr rfl)
  | cons word words ih =>
    obtain ⟨hword, hrest⟩ := List.forall_mem_cons.mp hwords
    rw [List.flatten_cons] at hts
    obtain ⟨us, vs, rfl, hus, hvs⟩ := List.map_eq_append_iff.mp hts
    have hlater := ih hrest hvs
    unfold Parser.endsIf at hlater ⊢
    rcases line_cases hword with rfl | ⟨text, rfl⟩ | ⟨m, hm, kinds, hderives, rfl⟩
    · obtain ⟨newline, rfl, hnewline⟩ := List.map_eq_singleton_iff.mp hus
      rw [List.singleton_append, Parser.skip_trivia (by rw [hnewline]; rfl)]
      exact hlater
    · obtain ⟨t, more, rfl, ht, hmore⟩ := List.map_eq_cons_iff.mp hus
      obtain ⟨t', more', rfl, ht', hmore'⟩ := List.map_eq_cons_iff.mp hmore
      obtain ⟨t'', rfl, ht''⟩ := List.map_eq_singleton_iff.mp hmore'
      rw [List.cons_append, Parser.skip_trivia (by rw [ht]; rfl), List.cons_append,
        Parser.skip_trivia (by rw [ht']; rfl), List.singleton_append,
        Parser.skip_trivia (by rw [ht'']; rfl)]
      exact hlater
    · obtain ⟨t, rest, rfl, hstart, -⟩ := exists_startsStatement hm hderives
      obtain ⟨first, more, rfl, rfl, -⟩ := List.map_eq_cons_iff.mp hus
      have htrivia : first.kind.isTrivia = false := by
        cases hkind : first.kind <;> rw [hkind] at hstart <;> first | rfl | cases hstart
      have hskip : (q.before ((first :: more) ++ vs)).skip = q.before ((first :: more) ++ vs) :=
        Parser.skip_of_peekKind htrivia
      exact Parser.endsIf_of_first (by rw [hskip]; rfl) (.inl hstart)

theorem exists_guarded {keyword : TokenKind F} {kinds : List (TokenKind F)}
    (h : Ebnf.DerivesIn grammar k (Ebnf.token keyword ++ Ebnf.token .leftParen ++
      .nonterminal expression ++ Ebnf.token .rightParen ++ .nonterminal block) kinds)
    (hts : ts.map Token.kind = kinds) :
    ∃ (first lparen : Token F) (condition : List (Token F)) (rparen : Token F) (body : List (Token F)),
      ts = [first] ++ ([lparen] ++ (condition ++ ([rparen] ++ body))) ∧ first.kind = keyword ∧
      lparen.kind = .leftParen ∧
      Ebnf.DerivesIn grammar k (.nonterminal expression) (condition.map Token.kind) ∧
      rparen.kind = .rightParen ∧
      Ebnf.DerivesIn grammar k (.nonterminal block) (body.map Token.kind) := by
  subst hts
  simp only [Ebnf.derivesIn_seq, Ebnf.derivesIn_token] at h
  obtain ⟨_, _, ⟨_, _, ⟨_, _, ⟨_, _, rfl, rfl, rfl⟩, hcondition, rfl⟩, rfl, rfl⟩, hbody, htokens⟩ := h
  obtain ⟨us, body, rfl, hus, rfl⟩ := List.map_eq_append_iff.mp htokens
  obtain ⟨vs, close, rfl, hvs, hclose⟩ := List.map_eq_append_iff.mp hus
  obtain ⟨ws, condition, rfl, hws, rfl⟩ := List.map_eq_append_iff.mp hvs
  obtain ⟨first, lparen, rfl, hfirst, hlparen⟩ := List.map_eq_append_iff.mp hws
  obtain ⟨first, rfl, hkeyword⟩ := List.map_eq_singleton_iff.mp hfirst
  obtain ⟨lparen, rfl, hopen⟩ := List.map_eq_singleton_iff.mp hlparen
  obtain ⟨rparen, rfl, hrparen⟩ := List.map_eq_singleton_iff.mp hclose
  exact ⟨first, lparen, condition, rparen, body, by simp, hkeyword, hopen, hcondition, hrparen, hbody⟩

theorem exists_leftBrace {kinds : List (TokenKind F)}
    (h : Ebnf.DerivesIn grammar k (.nonterminal block) kinds) : ∃ rest, kinds = .leftBrace :: rest := by
  replace h := h.unfold
  simp only [grammar, Ebnf.derivesIn_seq, Ebnf.derivesIn_token] at h
  obtain ⟨_, _, ⟨_, _, rfl, -, rfl⟩, -, rfl⟩ := h
  exact ⟨_, rfl⟩

theorem Reads.skipTrivia_bind {α : Type} {f : PUnit → Parsing F α} {line' : Line} {ends : Parser F → Prop}
    (hfirst : (q.before ts).peekKind.isTrivia = false) (h : Reads (f ⟨⟩) line ts q line' ends) :
    Reads (skipTrivia >>= f) line ts q line' ends := by
  refine h.of_eq ?_
  rw [bind_eq (returns_skipTrivia _), Parser.skip_of_peekKind hfirst]

theorem Reads.skipTrivia_cons {α : Type} {f : PUnit → Parsing F α} {t : Token F} {line'' : Line}
    {ends : Parser F → Prop} (line' : Line) (ht : t.kind.isTrivia = true)
    (hline : line.next t.kind = some line')
    (h : Reads (skipTrivia >>= f) line' ts q line'' ends) :
    Reads (skipTrivia >>= f) line (t :: ts) q line'' ends := by
  have heq : (skipTrivia >>= f) (q.before (t :: ts)) = (skipTrivia >>= f) (q.before ts) := by
    rw [bind_eq (returns_skipTrivia _), bind_eq (returns_skipTrivia _), Parser.skip_trivia ht]
  unfold Reads Returns Fails at h ⊢
  rw [List.map_cons, Line.scan_cons hline, heq]
  exact h

theorem Reads.bind_skipTrivia {α β : Type} {x : Parsing F α} {f : α → PUnit → Parsing F β}
    {us : List (Token F)} {line' line'' : Line} {ends : Parser F → Prop}
    (hx : Reads x line ts (q.before us) line' (fun r => r.skip = (q.before us).skip))
    (hf : ∀ a, Reads (skipTrivia >>= f a) line' us q line'' ends) :
    Reads (x >>= fun a => skipTrivia >>= f a) line (ts ++ us) q line'' ends := by
  obtain ⟨hline, a, r, hreturns, hr⟩ | ⟨hline, e, hfails⟩ := hx
  · have heq : (skipTrivia >>= f a) r = (skipTrivia >>= f a) (q.before us) := by
      rw [bind_eq (returns_skipTrivia _), bind_eq (returns_skipTrivia _), hr]
    have hrest := hf a
    unfold Reads Returns Fails at hrest ⊢
    rw [List.map_append, Line.scan_append hline, Parser.before_append, bind_eq hreturns, heq]
    exact hrest
  · refine .inr ⟨?_, e, ?_⟩
    · rw [List.map_append, Line.scan_append_none hline]
    · rw [Parser.before_append]
      exact hfails.bind

/-- Blocks of fewer tokens are read along their lines. -/
def ReadsBlocks (k n : ℕ) : Prop :=
  ∀ ⦃ts : List (Token F)⦄ ⦃q : Parser F⦄,
    Ebnf.DerivesIn grammar k (.nonterminal block) (ts.map Token.kind) → ts.length ≤ n →
    Reads (parseBlockWith (parseStatementN n)) .other ts q .other (· = q)

theorem reads_parseGuarded {keyword : TokenKind F} (hblocks : ReadsBlocks (F := F) k n)
    (h : Ebnf.DerivesIn grammar k (Ebnf.token keyword ++ Ebnf.token .leftParen ++
      .nonterminal expression ++ Ebnf.token .rightParen ++ .nonterminal block) (ts.map Token.kind))
    (hn : ts.length ≤ n + 1) (hline : line.next keyword = some .other) :
    Reads (parseGuarded (parseStatementN n)) line ts q .other (· = q) := by
  obtain ⟨first, lparen, condition, rparen, body, rfl, rfl, hopen, hcondition, hclose, hbody⟩ :=
    exists_guarded h rfl
  obtain ⟨rest, hbrace⟩ := exists_leftBrace hbody
  simp only [List.length_append, List.length_singleton] at hn
  have hpeek : ((q.before body).before [rparen]).peekKind = .rightParen := hclose
  refine (reads_advance .other hline).bind fun _ => ?_
  refine (reads_expect _ hopen (by simp [TokenKind.ctorIdx]) rfl).bind fun _ => ?_
  have hread : Reads parseExpression .other condition (q.before ([rparen] ++ body)) .other
      (· = q.before ([rparen] ++ body)) := by
    rw [Parser.before_append]
    exact reads_parseExpression hcondition (by rw [hpeek]; rfl) (by rw [hpeek]; rintro ⟨⟩)
  refine hread.bind fun _ => ?_
  refine (reads_expect _ hclose (by simp [TokenKind.ctorIdx]) rfl).bind fun _ => ?_
  refine Reads.skipTrivia_bind (by rw [Parser.peekKind_before_of_map hbrace]; rfl) ?_
  refine Reads.andThen ?_ fun _ _ => ⟨_, returns_pure _ _⟩
  exact hblocks hbody (by omega)

theorem reads_parseBranches (hblocks : ReadsBlocks (F := F) k n) (hq : q.endsIf)
    {words : List (List (TokenKind F))} {tail : List (TokenKind F)}
    (hwords : ∀ word ∈ words, Ebnf.DerivesIn grammar k (Ebnf.token .elseIf ++ Ebnf.token .leftParen ++
      .nonterminal expression ++ Ebnf.token .rightParen ++ .nonterminal block) word)
    (htail : tail = [] ∨
      Ebnf.DerivesIn grammar k (Ebnf.token .else_ ++ .nonterminal block) tail)
    (hts : ts.map Token.kind = words.flatten ++ tail) (hn : ts.length ≤ n + 1) {m : ℕ}
    (hm : words.length < m) (branches : List (ElseIfBranch F (Statement F))) :
    Reads (parseBranches (parseStatementN n) m branches) .other ts q .other
      (fun r => r.skip = q.skip) := by
  induction words generalizing ts m branches with
  | nil =>
    obtain ⟨m, rfl⟩ : ∃ m', m = m' + 1 := ⟨m - 1, by omega⟩
    rw [List.flatten_nil, List.nil_append] at hts
    rcases htail with rfl | htail
    · obtain rfl : ts = [] := List.map_eq_nil_iff.mp hts
      refine .inl ⟨rfl, (branches, none), q.skip, ?_, q.skip_skip⟩
      rw [Returns, Parser.before_nil, parseBranches, bind_eq (returns_skipTrivia q),
        bind_eq (returns_get _), if_neg (by rw [hq.1]; exact Bool.false_ne_true),
        if_neg (by rw [hq.2]; exact Bool.false_ne_true)]
      rfl
    · rw [← hts] at htail
      simp only [Ebnf.derivesIn_seq, Ebnf.derivesIn_token] at htail
      obtain ⟨_, _, rfl, hbody, htokens⟩ := htail
      obtain ⟨first, body, rfl, hfirst, rfl⟩ := List.map_eq_append_iff.mp htokens
      obtain ⟨first, rfl, helse⟩ := List.map_eq_singleton_iff.mp hfirst
      obtain ⟨rest, hbrace⟩ := exists_leftBrace hbody
      have hpeek : (q.before ([first] ++ body)).peekKind = .else_ := helse
      have helseIf : ¬ (q.before ([first] ++ body)).check .elseIf = true := by
        rw [Parser.check, hpeek]
        exact of_decide_eq_false rfl
      rw [List.length_append, List.length_singleton] at hn
      refine Reads.skipTrivia_bind (by rw [hpeek]; rfl) ?_
      refine Reads.of_eq ?_ ((bind_eq (returns_get _)).trans (by
        rw [if_neg helseIf, if_pos (Parser.check_of_peekKind hpeek)]))
      refine (reads_advance .other (by rw [helse]; rfl)).bind fun _ => ?_
      refine Reads.skipTrivia_bind (by rw [Parser.peekKind_before_of_map hbrace]; rfl) ?_
      refine Reads.andThen ?_ fun _ _ => ⟨_, returns_pure _ _⟩
      exact (hblocks hbody (by omega)).weaken fun r hr => by rw [hr]
  | cons word words ih =>
    obtain ⟨hword, hrest⟩ := List.forall_mem_cons.mp hwords
    obtain ⟨m, rfl⟩ : ∃ m', m = m' + 1 := ⟨m - 1, by omega⟩
    rw [List.length_cons] at hm
    rw [List.flatten_cons, List.append_assoc] at hts
    obtain ⟨us, vs, rfl, hus, hvs⟩ := List.map_eq_append_iff.mp hts
    rw [List.length_append] at hn
    have hfirst : (q.before (us ++ vs)).peekKind = .elseIf := by
      obtain ⟨first, lparen, condition, rparen, body, rfl, helseIf, -⟩ := exists_guarded hword hus
      exact helseIf
    rw [← hus] at hword
    refine Reads.skipTrivia_bind (by rw [hfirst]; rfl) ?_
    refine Reads.of_eq ?_ ((bind_eq (returns_get _)).trans (by
      rw [if_pos (Parser.check_of_peekKind hfirst)]))
    refine Reads.bind (reads_parseGuarded hblocks hword (by omega) rfl) ?_
    rintro ⟨condition, body⟩
    refine Reads.of_eq ?_ (bind_eq (returns_get _))
    exact ih hrest hvs (by omega) (by omega) _

theorem length_le_flatten {α : Type} {words : List (List α)} (h : ∀ word ∈ words, word ≠ []) :
    words.length ≤ words.flatten.length := by
  induction words with
  | nil => exact le_rfl
  | cons word words ih =>
    obtain ⟨hword, hrest⟩ := List.forall_mem_cons.mp h
    have hpos := List.length_pos_of_ne_nil hword
    have hle := ih hrest
    rw [List.length_cons, List.flatten_cons, List.length_append]
    omega

theorem reads_parseIfStatement (hblocks : ReadsBlocks (F := F) k n) (hq : q.endsIf)
    (h : Ebnf.DerivesIn grammar k (grammar ifStmt) (ts.map Token.kind)) (hn : ts.length ≤ n + 1) :
    Reads (parseIfStatement (parseStatementN n)) .start ts q .other (fun r => r.skip = q.skip) := by
  rw [grammar, Ebnf.derivesIn_seq] at h
  obtain ⟨front, tail, hfront, htail, htokens⟩ := h
  rw [Ebnf.derivesIn_seq] at hfront
  obtain ⟨guarded, middle, hguarded, hmiddle, rfl⟩ := hfront
  obtain ⟨words, hwords, rfl⟩ := Ebnf.derivesIn_rep.mp hmiddle
  rw [List.append_assoc] at htokens
  obtain ⟨us, vs, rfl, rfl, hvs⟩ := List.map_eq_append_iff.mp htokens
  rw [List.length_append] at hn
  have hcount : words.length ≤ vs.length := by
    have hlength := length_le_flatten fun word hword => by
      rintro rfl
      have hempty : ([] : List (Token F)).map Token.kind = [] := rfl
      obtain ⟨_, _, _, _, _, htokens, -⟩ := exists_guarded (hwords [] hword) hempty
      cases htokens
    have hmap : (vs.map Token.kind).length = vs.length := List.length_map _
    rw [← hmap, hvs, List.length_append]
    omega
  refine Reads.of_eq ?_ (bind_eq (returns_get _))
  refine Reads.bind (reads_parseGuarded hblocks hguarded (by omega) rfl) ?_
  rintro ⟨condition, body⟩
  refine Reads.of_eq ?_ (bind_eq (returns_get _))
  refine Reads.andThen (reads_parseBranches hblocks hq hwords (Ebnf.derivesIn_opt.mp htail) hvs
    (by omega) (by rw [Parser.tokens_before, List.length_append]; omega) _) ?_
  rintro ⟨branches, otherwise⟩ r
  exact ⟨_, rfl⟩

theorem reads_parseWhileStatement (hblocks : ReadsBlocks (F := F) k n)
    (h : Ebnf.DerivesIn grammar k (grammar whileStmt) (ts.map Token.kind)) (hn : ts.length ≤ n + 1) :
    Reads (parseWhileStatement (parseStatementN n)) .start ts q .other (· = q) := by
  refine Reads.of_eq ?_ (bind_eq (returns_get _))
  refine Reads.andThen (reads_parseGuarded hblocks h hn rfl) ?_
  rintro ⟨condition, body⟩ r
  exact ⟨_, rfl⟩

/-- **A statement** is read along its line; newlines after it may be skipped. -/
theorem reads_parseStatement (hblocks : ReadsBlocks (F := F) k n) (hend : q.peekKind = .newline)
    (hq : q.endsIf) {m : Nonterminal} (hm : m.isStatement = true)
    (h : Ebnf.DerivesIn grammar k (grammar m) (ts.map Token.kind)) (hn : ts.length ≤ n + 1) :
    ∃ line', Reads (parseStatementN (n + 1)) .start ts q line' (fun r => r.skip = q.skip) := by
  have hexact {x : Parsing F (Statement F)} {line' : Line} (hx : Reads x .start ts q line' (· = q)) :
      Reads x .start ts q line' (fun r => r.skip = q.skip) := hx.weaken fun r hr => by rw [hr]
  obtain ⟨t, rest, hts, -, hopens⟩ := exists_startsStatement hm h
  have hpeek : (q.before ts).peekKind = t := Parser.peekKind_before_of_map hts
  have hstatement {x : Parsing F (Statement F)} {line' : Line}
      (hx : Reads x .start ts q line' (fun r => r.skip = q.skip))
      (heq : parseStatementN (n + 1) (q.before ts) = x (q.before ts)) :
      ∃ line', Reads (parseStatementN (n + 1)) .start ts q line' (fun r => r.skip = q.skip) :=
    ⟨line', hx.of_eq heq⟩
  cases m with
  | ifStmt =>
    refine hstatement (reads_parseIfStatement hblocks hq h hn) ?_
    rw [parseStatementN, bind_eq (returns_get _), hpeek, hopens]
  | whileStmt =>
    refine hstatement (hexact (reads_parseWhileStatement hblocks h hn)) ?_
    rw [parseStatementN, bind_eq (returns_get _), hpeek, hopens]
  | varDecl =>
    refine hstatement (hexact (reads_parseVarStatement hend h)) ?_
    rw [parseStatementN, bind_eq (returns_get _), hpeek, hopens]
  | setStmt =>
    refine hstatement (hexact (reads_parseSetStatement hend h)) ?_
    rw [parseStatementN, bind_eq (returns_get _), hpeek, hopens]
  | returnStmt =>
    refine hstatement (hexact (reads_parseReturnStatement hend h)) ?_
    rw [parseStatementN, bind_eq (returns_get _), hpeek, hopens]
  | commandStmt =>
    refine hstatement (hexact (reads_parseCommandStatement hend h)) ?_
    rw [parseStatementN, bind_eq (returns_get _), hpeek]
    obtain rfl | ⟨name, rfl⟩ := hopens
    · rfl
    · rfl
  | _ => cases hm

/-- **The lines of a block**, up to its right brace. -/
theorem reads_lines (hblocks : ReadsBlocks (F := F) k n) (hq : q.peekKind = .rightBrace)
    {words : List (List (TokenKind F))}
    (hwords : ∀ word ∈ words, Ebnf.DerivesIn grammar k (.nonterminal statementOrNewline) word)
    (hts : ts.map Token.kind = words.flatten) (hn : ts.length ≤ n + 1) {m : ℕ}
    (hm : (q.before ts).skip.tokens.length < m) (stmts : List (Statement F)) :
    Reads (skipTrivia >>= fun _ => parseStatements (parseStatementN (n + 1)) m stmts) .start ts q
      .start (· = q) := by
  induction words generalizing ts m stmts with
  | nil =>
    obtain rfl : ts = [] := List.map_eq_nil_iff.mp hts
    obtain ⟨m, rfl⟩ : ∃ m', m = m' + 1 := ⟨m - 1, by omega⟩
    have hclose : ¬ ((!q.check .rightBrace && !q.atEnd) = true) := by
      rw [Parser.check_of_peekKind hq]
      exact Bool.false_ne_true
    refine Reads.skipTrivia_bind (by rw [Parser.before_nil, hq]; rfl) ?_
    refine reads_of_returns (a := stmts) rfl ?_
    rw [Returns, Parser.before_nil, parseStatements, bind_eq (returns_get _), if_neg hclose]
    rfl
  | cons word words ih =>
    obtain ⟨hword, hrest⟩ := List.forall_mem_cons.mp hwords
    rw [List.flatten_cons] at hts
    obtain ⟨us, vs, rfl, hus, hvs⟩ := List.map_eq_append_iff.mp hts
    rw [List.length_append] at hn
    rcases line_cases hword with rfl | ⟨text, rfl⟩ | ⟨production, hproduction, kinds, hderives, rfl⟩
    · obtain ⟨newline, rfl, hnewline⟩ := List.map_eq_singleton_iff.mp hus
      refine Reads.skipTrivia_cons .start (by rw [hnewline]; rfl) (by rw [hnewline]; rfl) ?_
      rw [List.singleton_append, Parser.skip_trivia (by rw [hnewline]; rfl)] at hm
      exact ih hrest hvs (by omega) hm stmts
    · obtain ⟨t, more, rfl, ht, hmore⟩ := List.map_eq_cons_iff.mp hus
      obtain ⟨t', more', rfl, ht', hmore'⟩ := List.map_eq_cons_iff.mp hmore
      obtain ⟨t'', rfl, ht''⟩ := List.map_eq_singleton_iff.mp hmore'
      simp only [List.length_cons, List.length_nil] at hn
      rw [List.cons_append, Parser.skip_trivia (by rw [ht]; rfl), List.cons_append,
        Parser.skip_trivia (by rw [ht']; rfl), List.singleton_append,
        Parser.skip_trivia (by rw [ht'']; rfl)] at hm
      refine Reads.skipTrivia_cons .other (by rw [ht]; rfl) (by rw [ht]; rfl) ?_
      refine Reads.skipTrivia_cons .start (by rw [ht']; rfl) (by rw [ht']; rfl) ?_
      refine Reads.skipTrivia_cons .start (by rw [ht'']; rfl) (by rw [ht'']; rfl) ?_
      exact ih hrest hvs (by omega) hm stmts
    · obtain ⟨front, last, rfl, rfl, hlast⟩ := List.map_eq_append_iff.mp hus
      obtain ⟨newline, rfl, hnewline⟩ := List.map_eq_singleton_iff.mp hlast
      rw [List.length_append, List.length_singleton] at hn
      rw [List.append_assoc, List.singleton_append] at hm ⊢
      have hend : (q.before (newline :: vs)).peekKind = .newline := hnewline
      have hnext : (q.before (newline :: vs)).endsIf := by
        unfold Parser.endsIf
        rw [Parser.skip_trivia (by rw [hnewline]; rfl)]
        exact endsIf_lines hq hrest hvs
      obtain ⟨t, rest, hfirst, hstart, -⟩ := exists_startsStatement hproduction hderives
      have hpeek : (q.before (front ++ newline :: vs)).peekKind = t := by
        rw [Parser.before_append]
        exact Parser.peekKind_before_of_map hfirst
      have hopen : (!(q.before (front ++ newline :: vs)).check .rightBrace &&
          !(q.before (front ++ newline :: vs)).atEnd) = true := by
        unfold Parser.check Parser.atEnd
        rw [hpeek]
        cases t <;> first | rfl | cases hstart
      obtain ⟨m, rfl⟩ : ∃ m', m = m' + 1 := ⟨m - 1, by omega⟩
      obtain ⟨line', hstatement⟩ := reads_parseStatement hblocks hend hnext hproduction hderives
        (by omega)
      have htrivia : (q.before (front ++ newline :: vs)).peekKind.isTrivia = false := by
        rw [hpeek]
        cases t <;> first | rfl | cases hstart
      have hlater : (q.before vs).skip.tokens.length < m := by
        have hle := ((q.before vs).tokens.dropWhile_sublist (·.kind.isTrivia)).length_le
        rw [Parser.skip_of_peekKind htrivia] at hm
        simp only [Parser.tokens_before, List.length_append, List.length_cons] at hm hle
        unfold Parser.skip
        simp only [Parser.tokens_before]
        omega
      refine Reads.skipTrivia_bind htrivia ?_
      refine Reads.of_eq ?_ ((bind_eq (returns_get _)).trans (by rw [if_pos hopen]))
      refine hstatement.bind_skipTrivia fun stmt => ?_
      refine Reads.skipTrivia_cons .start (by rw [hnewline]; rfl) ?_ ?_
      · rw [hnewline]
        rfl
      · exact ih hrest hvs (by omega) hlater _

/-- **Blocks are read along their lines.** -/
theorem readsBlocks (k n : ℕ) : ReadsBlocks (F := F) k n := by
  induction k generalizing n with
  | zero =>
    intro ts q h _
    exact absurd h Ebnf.not_derivesIn_zero
  | succ k ih =>
    intro ts q h hn
    rw [Ebnf.derivesIn_nonterminal, grammar] at h
    simp only [Ebnf.derivesIn_seq, Ebnf.derivesIn_token, Ebnf.derivesIn_rep] at h
    obtain ⟨_, _, ⟨_, _, rfl, ⟨words, hwords, rfl⟩, rfl⟩, rfl, htokens⟩ := h
    obtain ⟨us, close, rfl, hus, hclose⟩ := List.map_eq_append_iff.mp htokens
    obtain ⟨opens, lines, rfl, hopen, hlines⟩ := List.map_eq_append_iff.mp hus
    obtain ⟨lbrace, rfl, hlbrace⟩ := List.map_eq_singleton_iff.mp hopen
    obtain ⟨rbrace, rfl, hrbrace⟩ := List.map_eq_singleton_iff.mp hclose
    simp only [List.length_append, List.length_singleton] at hn
    obtain ⟨n, rfl⟩ : ∃ n', n = n' + 1 := ⟨n - 1, by omega⟩
    rw [List.append_assoc]
    have hclosing : (q.before [rbrace]).peekKind = .rightBrace := hrbrace
    refine (reads_expect _ hlbrace (by simp [TokenKind.ctorIdx])
      (show Line.other.next .leftBrace = some .start from rfl)).bind fun _ => ?_
    let count := ((q.before [rbrace]).before lines).skip.tokens.length + 1
    have hlinesRead := reads_lines (ih n) hclosing hwords hlines (by omega) (m := count)
      (Nat.lt_succ_self _) []
    have hbody : Reads (skipTrivia >>= fun _ => parseStatements (parseStatementN (n + 1)) count [] >>=
        fun stmts => expect .rightBrace "'\x7d'" >>=
          fun _ => pure stmts) .start (lines ++ [rbrace]) q .other (· = q) := by
      have hclose (stmts : List (Statement F)) :
          Reads (expect .rightBrace "'\x7d'" >>= fun _ => pure stmts) .start [rbrace] q .other
            (· = q) :=
        (reads_expect "'\x7d'" hrbrace (by simp [TokenKind.ctorIdx]) rfl).andThen
          fun _ r => ⟨stmts, returns_pure stmts r⟩
      have hsplit := hlinesRead.bind hclose
      rw [bind_assoc] at hsplit
      exact hsplit
    refine hbody.of_eq ?_
    rw [bind_eq (returns_skipTrivia _), bind_eq (returns_get _), bind_eq (returns_skipTrivia _),
      Parser.before_append]

end Blocks

theorem reads_parseBlock {ts : List (Token F)} (q : Parser F)
    (h : Derives .block (ts.map Token.kind)) : Reads parseBlock .other ts q .other (· = q) := by
  obtain ⟨k, hk⟩ := h
  have hfuel : ts.length ≤ (q.before ts).fuel := by
    rw [Parser.fuel, Parser.tokens_before, List.length_append]
    omega
  refine (readsBlocks k _ hk hfuel).of_eq ?_
  rw [parseBlock, bind_eq (returns_get _)]

/-- **The blocks that are read**: a block of the grammar is read exactly if no operator stands
outside parentheses among the arguments of a command. The parser stops behind the block. -/
theorem parseBlock_accepts_iff {ts : List (Token F)} (q : Parser F)
    (h : Derives .block (ts.map Token.kind)) :
    ((∃ stmts r, Returns parseBlock (q.before ts) stmts r) ↔ PlainArguments (ts.map Token.kind)) ∧
      ∀ stmts r, Returns parseBlock (q.before ts) stmts r → r = q := by
  unfold PlainArguments
  obtain ⟨hline, stmts, r, hreturns, rfl⟩ | ⟨hline, e, hfails⟩ := reads_parseBlock q h
  · rw [hline]
    refine ⟨iff_of_true ⟨stmts, r, hreturns⟩ rfl, fun stmts' r' hreturns' => ?_⟩
    cases hreturns'.symm.trans hreturns
    rfl
  · rw [hline]
    refine ⟨iff_of_false ?_ Bool.false_ne_true, fun stmts r hreturns => ?_⟩
    · rintro ⟨stmts, r, hreturns⟩
      exact hreturns.not_fails hfails
    · exact absurd hfails hreturns.not_fails

section Examples

def echoBlock (args : List (TokenKind F)) : List (TokenKind F) :=
  [.leftBrace] ++ ([.identifier "echo".toList] ++ args ++ [.newline]) ++ [.rightBrace]

theorem derives_echoBlock (words : List (List (TokenKind F)))
    (h : ∀ word ∈ words, Derives .expression word) : Derives .block (echoBlock words.flatten) := by
  have hname : Ebnf.Derives grammar (.terminal (∃ name, · = .identifier name))
      [(.identifier "echo".toList : TokenKind F)] := .terminal ⟨_, rfl⟩
  have hslash : Ebnf.Derives grammar (.opt (Ebnf.token .slash)) ([] : List (TokenKind F)) := .optNone
  have hcommand : Derives .commandStmt ([.identifier "echo".toList] ++ words.flatten) :=
    .nonterminal ((hslash.seq hname).seq (.rep h))
  have hstatement : Derives .statement ([.identifier "echo".toList] ++ words.flatten) :=
    .nonterminal hcommand.altRight.altLeft
  have hline : Derives .statementOrNewline ([.identifier "echo".toList] ++ words.flatten ++ [.newline]) :=
    .nonterminal (hstatement.seq (.token .newline)).altLeft
  have hlines := Ebnf.Derives.rep (List.forall_mem_singleton.mpr hline)
  rw [List.flatten_singleton] at hlines
  have hbrace : Ebnf.Derives grammar (Ebnf.token .leftBrace) [(.leftBrace : TokenKind F)] := .token _
  exact .nonterminal ((hbrace.seq hlines).seq (.token TokenKind.rightBrace))

theorem derives_sum : Derives .expression [(.intLiteral 1 : TokenKind F), .plus, .intLiteral 2] := by
  have hplus : Ebnf.Derives grammar (Ebnf.token .plus ||| Ebnf.token .minus) [(.plus : TokenKind F)] :=
    (Ebnf.Derives.token TokenKind.plus).altLeft
  have hrest := Ebnf.Derives.rep (List.forall_mem_singleton.mpr (hplus.seq (derives_multiplication 2)))
  exact derives_of_addition (.nonterminal ((derives_multiplication 1).seq hrest))

def emptyParser : Parser Unit := { source := [], tokens := [], eof := default }

/-- The block before the end, its tokens without their positions. -/
def echoTokens (args : List (TokenKind Unit)) : List (Token Unit) :=
  (echoBlock args).map (Token.mk · default)

theorem derives_echoTokens (words : List (List (TokenKind Unit)))
    (h : ∀ word ∈ words, Derives .expression word) :
    Derives .block ((echoTokens words.flatten).map Token.kind) := by
  have hkinds : (echoTokens words.flatten).map Token.kind = echoBlock words.flatten := by
    rw [echoTokens, List.map_map]
    exact List.map_id _
  rw [hkinds]
  exact derives_echoBlock words h

/-- `echo 1 2` is read to its end. -/
theorem parseBlock_accepts_echo :
    ∃ stmts, Returns parseBlock (emptyParser.before (echoTokens [.intLiteral 1, .intLiteral 2]))
      stmts emptyParser := by
  obtain ⟨hiff, hstops⟩ := parseBlock_accepts_iff emptyParser
    (derives_echoTokens [[.intLiteral 1], [.intLiteral 2]] (List.forall_mem_cons.mpr
      ⟨derives_intLiteral 1, List.forall_mem_singleton.mpr (derives_intLiteral 2)⟩))
  obtain ⟨stmts, r, hreturns⟩ := hiff.mpr (by decide)
  obtain rfl := hstops stmts r hreturns
  exact ⟨stmts, hreturns⟩

/-- `echo 1 + 2`, which the grammar derives, is not read. -/
theorem operator_in_arguments :
    ¬ ∀ (ts : List (Token Unit)) (q : Parser Unit), Derives .block (ts.map Token.kind) →
      ∃ stmts r, Returns parseBlock (q.before ts) stmts r := by
  intro halways
  have hderives := derives_echoTokens [[.intLiteral 1, .plus, .intLiteral 2]]
    (List.forall_mem_singleton.mpr derives_sum)
  obtain ⟨stmts, r, hreturns⟩ := halways _ emptyParser hderives
  obtain ⟨hline, -⟩ | ⟨-, e, hfails⟩ := reads_parseBlock emptyParser hderives
  · exact absurd hline (by decide)
  · exact hreturns.not_fails hfails

end Examples

end Pirc.Scripting
