import Pirc.Scripting.Grammar

/-!
# Scripts: expressions are read as the grammar says

The parser climbs binding powers, the grammar is stratified.  A tree of the grammar is read back
from the tokens it is written with: before its tokens the parser is, after some calls, where it has
read the tree and goes on with the operators that follow.

## Main results

* `Bracketed.parsed`, `Bracketed.parsedPrimary`: trees are read back
* `parseExpression_grammar`: every bracketed tree is read back, and every text of the grammar
  accepted
-/

namespace Pirc.Scripting

open Protocol (Str)
open Parse (Returns Fails bind_eq returns_get returns_pure)

variable {F : Type}

/-! ## Positions before tokens -/

namespace Parser

/-- The position before some tokens. -/
def before (ts : List (Token F)) (q : Parser F) : Parser F := { q with tokens := ts ++ q.tokens }

variable (t : Token F) (ts us : List (Token F)) (q : Parser F)

@[simp] theorem before_nil : q.before [] = q := rfl

@[simp] theorem before_append : q.before (ts ++ us) = (q.before us).before ts := by
  simp [before]

@[simp] theorem peekKind_before_cons : (q.before (t :: ts)).peekKind = t.kind := rfl

@[simp] theorem next_before_cons : (q.before (t :: ts)).next = q.before ts := rfl

@[simp] theorem tokens_before : (q.before ts).tokens = ts ++ q.tokens := rfl

variable {q}

theorem check_of_peekKind {kind : TokenKind F} (h : q.peekKind = kind) : q.check kind = true := by
  simp [check, h]

theorem check_leftParen (h : q.peekKind ≠ .leftParen) : q.check .leftParen = false := by
  cases hkind : q.peekKind <;> simp_all [check, TokenKind.ctorIdx]

end Parser

section Primitives

variable {t : Token F} {ts : List (Token F)} {p q : Parser F} {kind : TokenKind F}

theorem returns_advance (p : Parser F) : Returns advance p ⟨⟩ p.next := rfl

theorem returns_expect (expected : String) (h : p.peekKind = kind)
    (heof : kind.ctorIdx ≠ (.eof : TokenKind F).ctorIdx) :
    Returns (expect kind expected) p p.currentSpan p.next := by
  have hcheck : (!p.atEnd && p.check kind) = true := by
    simp [Parser.atEnd, Parser.check, h, heof]
  rw [Returns, expect, bind_eq (returns_get p), if_pos hcheck]
  rfl

end Primitives

/-! ## Binding powers -/

theorem infixOp_token (op : BinaryOp) : (op.token : TokenKind F).infixOp = some op := by
  cases op <;> rfl

theorem infixBindingPower_eq (op : BinaryOp) :
    infixBindingPower op = (2 * op.precedence - 1, 2 * op.precedence) := by
  cases op <;> rfl

theorem precedence_pos (op : BinaryOp) : 0 < op.precedence := by
  cases op <;> decide

theorem precedence_le_six (op : BinaryOp) : op.precedence ≤ 6 := by
  cases op <;> decide

section Steps

variable {parseBp : ℕ → Parsing F (Expression F)} {minBp n k : ℕ} {e : Expression F} {p q : Parser F}

theorem parseInfix_stop
    (h : ∀ op, p.peekKind.infixOp = some op → (infixBindingPower op).1 < minBp) :
    parseInfix parseBp minBp (k + 1) e p = some (.ok (e, p)) := by
  rw [parseInfix, bind_eq (returns_get p)]
  cases hop : p.peekKind.infixOp with
  | none => rfl
  | some op =>
    dsimp only
    rw [if_pos (h op hop)]
    rfl

theorem parseInfix_step {op : BinaryOp} {rhs : Expression F} (hop : p.peekKind.infixOp = some op)
    (hbp : minBp ≤ (infixBindingPower op).1)
    (hrhs : Returns (parseBp (infixBindingPower op).2) p.next rhs q) :
    parseInfix parseBp minBp (k + 1) e p =
      parseInfix parseBp minBp k (.binaryOp e op rhs (e.span.merge rhs.span)) q := by
  rw [parseInfix, bind_eq (returns_get p), hop]
  dsimp only
  rw [if_neg (not_lt.mpr hbp), bind_eq (returns_advance p), bind_eq hrhs]

theorem parseExpressionBp_of_prefix (h : Returns (parsePrefix (parseExpressionBp n)) p e q) :
    parseExpressionBp (n + 1) minBp p =
      parseInfix (parseExpressionBp n) minBp (q.tokens.length + 1) e q := by
  rw [parseExpressionBp, bind_eq h]
  rfl

theorem parsePrefix_primary (hbang : p.peekKind ≠ .bang) (hminus : p.peekKind ≠ .minus) :
    parsePrefix parseBp p = parsePrimaryExpression parseBp p := by
  rw [parsePrefix, bind_eq (returns_get p)]
  generalize p.peekKind = kind at hbang hminus ⊢
  cases kind with
  | bang => exact absurd rfl hbang
  | minus => exact absurd rfl hminus
  | _ => rfl

theorem returns_parsePrimary_leftParen {inner : Expression F} {r : Parser F}
    (hpeek : p.peekKind = .leftParen) (hinner : Returns (parseBp 0) p.next inner r)
    (hclose : r.peekKind = .rightParen) :
    Returns (parsePrimaryExpression parseBp) p
      (.grouped inner (p.currentSpan.merge r.currentSpan)) r.next := by
  rw [Returns, parsePrimaryExpression, bind_eq (returns_get p), hpeek]
  have hexpect := returns_expect "')'" hclose (by simp [TokenKind.ctorIdx])
  exact (returns_advance p).bind (hinner.bind (hexpect.bind (returns_pure _ _)))

theorem parsePrimary_call {name : Str} (hpeek : p.peekKind = .builtinIdentifier name)
    (hnext : p.next.peekKind = .leftParen) :
    parsePrimaryExpression parseBp p = parseFunctionCall parseBp name p.currentSpan p.next := by
  rw [parsePrimaryExpression, bind_eq (returns_get p), hpeek]
  dsimp only
  rw [bind_eq (returns_advance p), bind_eq (returns_get p.next),
    if_pos (Parser.check_of_peekKind hnext)]

theorem returns_parsePrefix_unary {op : UnaryOp} {operand : Expression F}
    (hop : p.peekKind = op.token) (h : Returns (parseBp prefixBp) p.next operand q) :
    Returns (parsePrefix parseBp) p (.unaryOp op operand (p.currentSpan.merge operand.span)) q := by
  rw [Returns, parsePrefix, bind_eq (returns_get p), hop]
  cases op with
  | not => exact (returns_advance p).bind (h.bind (returns_pure _ _))
  | neg => exact (returns_advance p).bind (h.bind (returns_pure _ _))

end Steps

/-! ## Strings without references -/

def NoReferences (value : Str) : Prop :=
  ∀ (front : Str) (c : Char) (rest : Str), value = front ++ c :: rest → c = '$' ∨ c = '%' →
    rest.head?.any isInterpStart = false

theorem NoReferences.tail {c : Char} {rest : Str} (h : NoReferences (c :: rest)) : NoReferences rest := by
  rintro front d more rfl hd
  exact h (c :: front) d more rfl hd

theorem scanReferences_of_noReferences (span : Span) : ∀ {n : ℕ} {s : Str} (buf : Str)
    (parts : List (StringPart F)), NoReferences s → s.length ≤ n →
    scanReferences span n buf s parts = (parts, buf ++ s)
  | 0, [], buf, parts, _, _ => by simp [scanReferences]
  | 0, _ :: _, _, _, _, hlen => by simp at hlen
  | n + 1, [], buf, parts, _, _ => by simp [scanReferences]
  | n + 1, c :: rest, buf, parts, h, hlen => by
    have ih := scanReferences_of_noReferences span (buf ++ [c]) parts h.tail (Nat.le_of_succ_le_succ hlen)
    have hname : c = '$' ∨ c = '%' → rest.head?.any isInterpStart = false := h [] c rest rfl
    rw [scanReferences, if_neg, if_neg, ih, List.append_assoc, List.singleton_append]
    · intro hpercent
      rw [Bool.and_eq_true, decide_eq_true_eq] at hpercent
      rw [hname (.inr hpercent.1)] at hpercent
      exact Bool.noConfusion hpercent.2
    · intro hdollar
      rw [Bool.and_eq_true, decide_eq_true_eq] at hdollar
      rw [hname (.inl hdollar.1)] at hdollar
      exact Bool.noConfusion hdollar.2

theorem parseStringInterpolation_of_noReferences {value : Str} (h : NoReferences value) (span : Span) :
    (parseStringInterpolation value span : Expression F) = .stringLiteral value span := by
  rw [parseStringInterpolation, scanReferences_of_noReferences span [] [] h le_rfl]

/-! ## Trees are read back -/

/-- The same tree up to positions, when its strings have no references. -/
def SameTree (S : Str → Prop) (e e' : Expression F) : Prop :=
  (∀ value, S value → NoReferences value) → e'.unspanned = e.unspanned

/-- No parenthesis follows a builtin that the tokens end with. -/
def Uncalled (ts : List (TokenKind F)) (q : Parser F) : Prop :=
  ∀ name, ts.getLast? = some (.builtinIdentifier name) → q.peekKind ≠ .leftParen

/-- **The tree is read**: before its tokens the parser is, after some calls, where it has read the
tree and goes on with the operators that follow. An operator that follows binds no more strongly
than the tree's own. -/
def Parsed (S : Str → Prop) (e : Expression F) : Prop :=
  ∀ ⦃n minBp : ℕ⦄ ⦃ts : List (Token F)⦄ ⦃q : Parser F⦄, ts.map Token.kind = e.tokens →
    e.tokens.length ≤ n → minBp < 2 * e.level →
    (∀ op, q.peekKind.infixOp = some op → op.precedence ≤ e.level) → Uncalled e.tokens q →
    ∃ (e' : Expression F) (k : ℕ), SameTree S e e' ∧ q.tokens.length < k ∧
      parseExpressionBp (n + 1) minBp (q.before ts) =
        parseInfix (parseExpressionBp n) minBp k e' q

/-- **The primary tree is read.** -/
def ParsedPrimary (S : Str → Prop) (e : Expression F) : Prop :=
  ∀ ⦃n : ℕ⦄ ⦃ts : List (Token F)⦄ ⦃q : Parser F⦄, ts.map Token.kind = e.tokens →
    e.tokens.length ≤ n → Uncalled e.tokens q →
    ∃ e' : Expression F, SameTree S e e' ∧
      Returns (parsePrimaryExpression (parseExpressionBp n)) (q.before ts) e' q

variable {S : Str → Prop} {e : Expression F}

theorem level_binaryOp_lt (left : Expression F) (op : BinaryOp) (right : Expression F)
    (span : Span) : (Expression.binaryOp left op right span).level < 8 :=
  Nat.lt_of_le_of_lt (precedence_le_six op) (by decide)

theorem level_pos (e : Expression F) : 0 < e.level := by
  cases e <;> simp [Expression.level, precedence_pos]

def TokenKind.startsPrimary : TokenKind F → Bool
  | intLiteral _ | numberLiteral _ | stringLiteral _ | .true | .false | variable_ _ | globalVariable _
  | builtinIdentifier _ | leftParen => Bool.true
  | _ => Bool.false

def TokenKind.startsExpression (t : TokenKind F) : Bool :=
  match t with
  | bang | minus => Bool.true
  | t => t.startsPrimary

theorem Bracketed.exists_primary (hb : Bracketed S e) (hlevel : e.level = 8) :
    ∃ t ts, e.tokens = t :: ts ∧ t.startsPrimary = true := by
  cases hb with
  | binaryOp => exact absurd hlevel (level_binaryOp_lt ..).ne
  | unaryOp => cases hlevel
  | @boolLiteral value span =>
    cases value with
    | true => exact ⟨_, _, rfl, rfl⟩
    | false => exact ⟨_, _, rfl, rfl⟩
  | _ => exact ⟨_, _, by rw [Expression.tokens], rfl⟩

theorem length_le_furtherTokens {arg : Expression F} : ∀ {args : List (Expression F)}, arg ∈ args →
    arg.tokens.length ≤ (Expression.furtherTokens args).length
  | _ :: args, h => by
    rw [Expression.furtherTokens, List.length_cons, List.length_append]
    rcases List.mem_cons.mp h with rfl | h
    · omega
    · have hlength := length_le_furtherTokens h
      omega

theorem length_le_argumentTokens {arg : Expression F} {args : List (Expression F)}
    (h : arg ∈ args) : arg.tokens.length ≤ (Expression.argumentTokens args).length := by
  cases args with
  | nil => cases h
  | cons first args =>
    rw [Expression.argumentTokens, List.length_append]
    rcases List.mem_cons.mp h with rfl | h
    · omega
    · have hlength := length_le_furtherTokens h
      omega

theorem Bracketed.exists_tokens (hb : Bracketed S e) :
    ∃ t ts, e.tokens = t :: ts ∧ t.startsExpression = true := by
  induction hb with
  | binaryOp hleft hright bleft bright ihleft ihright =>
    obtain ⟨t, ts, hts, ht⟩ := ihleft
    exact ⟨t, _, by rw [Expression.tokens, hts, List.cons_append], ht⟩
  | @unaryOp op operand span =>
    cases op with
    | not => exact ⟨_, _, by rw [Expression.tokens], rfl⟩
    | neg => exact ⟨_, _, by rw [Expression.tokens], rfl⟩
  | @boolLiteral value span =>
    cases value with
    | true => exact ⟨_, _, rfl, rfl⟩
    | false => exact ⟨_, _, rfl, rfl⟩
  | _ => exact ⟨_, _, by rw [Expression.tokens], rfl⟩

section Returning

variable {n minBp : ℕ} {ts : List (Token F)} {q : Parser F}

theorem Parsed.returns (h : Parsed S e) (hts : ts.map Token.kind = e.tokens)
    (hn : e.tokens.length ≤ n) (hbp : minBp < 2 * e.level)
    (hfollow : ∀ op, q.peekKind.infixOp = some op →
      op.precedence ≤ e.level ∧ (infixBindingPower op).1 < minBp)
    (hcall : Uncalled e.tokens q) :
    ∃ e' : Expression F, SameTree S e e' ∧
      Returns (parseExpressionBp (n + 1) minBp) (q.before ts) e' q := by
  obtain ⟨e', k, hsame, hk, heq⟩ := h hts hn hbp (fun op hop => (hfollow op hop).1) hcall
  obtain ⟨k, rfl⟩ : ∃ k', k = k' + 1 := ⟨k - 1, by omega⟩
  refine ⟨e', hsame, ?_⟩
  rw [Returns, heq]
  exact parseInfix_stop fun op hop => (hfollow op hop).2

theorem Parsed.returns_whole (h : Parsed S e) (hts : ts.map Token.kind = e.tokens)
    (hn : e.tokens.length ≤ n) (hfollow : q.peekKind.infixOp = none) (hcall : Uncalled e.tokens q) :
    ∃ e' : Expression F, SameTree S e e' ∧ Returns (parseExpressionBp (n + 1) 0) (q.before ts) e' q := by
  have hlevel := level_pos e
  refine h.returns hts hn (by omega) (fun op hop => ?_) hcall
  rw [hfollow] at hop
  cases hop

theorem ParsedPrimary.parsed (h : ParsedPrimary S e) (hb : Bracketed S e) (hlevel : e.level = 8) :
    Parsed S e := by
  intro n minBp ts q hts hn _ _ hcall
  obtain ⟨e', hsame, hreturns⟩ := h hts hn hcall
  obtain ⟨t, rest, htokens, hstart⟩ := hb.exists_primary hlevel
  obtain ⟨token, more, rfl, rfl, -⟩ := List.map_eq_cons_iff.mp (hts.trans htokens)
  have hfirst : Returns (parsePrefix (parseExpressionBp n)) (q.before (token :: more)) e' q := by
    rw [Returns, parsePrefix_primary]
    · exact hreturns
    · rintro hbang
      rw [Parser.peekKind_before_cons] at hbang
      rw [hbang] at hstart
      cases hstart
    · rintro hminus
      rw [Parser.peekKind_before_cons] at hminus
      rw [hminus] at hstart
      cases hstart
  exact ⟨e', _, hsame, Nat.lt_succ_self _, parseExpressionBp_of_prefix hfirst⟩

/-! ### Primary trees -/

theorem parsedPrimary_leaf {kind : TokenKind F} (leaf : Span → Expression F)
    (htokens : e.tokens = [kind]) (hsame : ∀ span, SameTree S e (leaf span))
    (h : ∀ (parseBp : ℕ → Parsing F (Expression F)) (p : Parser F), p.peekKind = kind →
      Uncalled [kind] p.next → parsePrimaryExpression parseBp p =
        some (.ok (leaf p.currentSpan, p.next))) :
    ParsedPrimary S e := by
  intro n ts q hts _ hcall
  rw [htokens] at hts hcall
  obtain ⟨t, rfl, rfl⟩ := List.map_eq_singleton_iff.mp hts
  exact ⟨leaf t.span, hsame t.span, h _ (q.before [t]) rfl hcall⟩

theorem parsedPrimary_grouped {span : Span} (h : Parsed S e) :
    ParsedPrimary S (.grouped e span) := by
  intro n ts q hts hn _
  rw [Expression.tokens] at hts hn
  obtain ⟨lparen, more, rfl, hlparen, hmore⟩ := List.map_eq_cons_iff.mp hts
  obtain ⟨us, last, rfl, hus, hlast⟩ := List.map_eq_append_iff.mp hmore
  obtain ⟨rparen, rfl, hrparen⟩ := List.map_eq_singleton_iff.mp hlast
  obtain ⟨n, rfl⟩ : ∃ n', n = n' + 1 := ⟨n - 1, by simp at hn; omega⟩
  have hn' : e.tokens.length ≤ n := by
    simp only [List.length_cons, List.length_append, List.length_nil] at hn
    omega
  have hpeek : (q.before [rparen]).peekKind = .rightParen := hrparen
  obtain ⟨e', hsame, hreturns⟩ := h.returns_whole hus hn'
    (by rw [hpeek]; rfl) (fun name _ hparen => by rw [hpeek] at hparen; cases hparen)
  refine ⟨.grouped e' (lparen.span.merge rparen.span), fun hS => ?_, ?_⟩
  · simp only [Expression.unspanned, hsame hS]
  · have hopen : (q.before (lparen :: (us ++ [rparen]))).peekKind = .leftParen := hlparen
    exact returns_parsePrimary_leftParen hopen (by simpa using hreturns) hpeek

theorem ends_before_furtherTokens {args : List (Expression F)}
    (hts : ts.map Token.kind = Expression.furtherTokens args) (hclose : q.peekKind = .rightParen) :
    (q.before ts).peekKind.infixOp = none ∧ ∀ us, Uncalled us (q.before ts) := by
  have hfollow : (q.before ts).peekKind = .comma ∨ (q.before ts).peekKind = .rightParen := by
    cases args with
    | nil =>
      obtain rfl : ts = [] := List.map_eq_nil_iff.mp hts
      exact .inr hclose
    | cons next args =>
      rw [Expression.furtherTokens] at hts
      obtain ⟨comma, more, rfl, hcomma, -⟩ := List.map_eq_cons_iff.mp hts
      exact .inl hcomma
  constructor
  · rcases hfollow with h | h
    · rw [h]; rfl
    · rw [h]; rfl
  · intro us name _ hparen
    rcases hfollow with h | h
    · rw [h] at hparen; cases hparen
    · rw [h] at hparen; cases hparen

theorem returns_parseArguments {args : List (Expression F)} (hargs : ∀ arg ∈ args, Parsed S arg)
    (hts : ts.map Token.kind = Expression.furtherTokens args) (hn : ts.length ≤ n) {k : ℕ}
    (hk : ts.length < k) (hclose : q.peekKind = .rightParen) (acc : List (Expression F)) :
    ∃ args' : List (Expression F),
      ((∀ value, S value → NoReferences value) →
        Expression.unspannedAll args' = Expression.unspannedAll args) ∧
      Returns (parseArguments (parseExpressionBp n) k acc) (q.before ts) (acc ++ args') q := by
  induction args generalizing ts k acc with
  | nil =>
    obtain rfl : ts = [] := List.map_eq_nil_iff.mp hts
    obtain ⟨k, rfl⟩ : ∃ k', k = k' + 1 := ⟨k - 1, by omega⟩
    refine ⟨[], fun _ => rfl, ?_⟩
    have hcomma : ¬ q.check .comma = true := by simp [Parser.check, hclose, TokenKind.ctorIdx]
    rw [Returns, parseArguments, Parser.before_nil, bind_eq (returns_get q), if_neg hcomma,
      List.append_nil]
    rfl
  | cons arg args ih =>
    obtain ⟨harg, hrest⟩ := List.forall_mem_cons.mp hargs
    rw [Expression.furtherTokens] at hts
    obtain ⟨comma, more, rfl, hcomma, hmore⟩ := List.map_eq_cons_iff.mp hts
    obtain ⟨us, vs, rfl, hus, hvs⟩ := List.map_eq_append_iff.mp hmore
    simp only [List.length_cons, List.length_append] at hn hk
    obtain ⟨k, rfl⟩ : ∃ k', k = k' + 1 := ⟨k - 1, by omega⟩
    obtain ⟨n, rfl⟩ : ∃ n', n = n' + 1 := ⟨n - 1, by omega⟩
    obtain ⟨hoperator, hcall⟩ := ends_before_furtherTokens hvs hclose
    have hlength : arg.tokens.length = us.length := by rw [← hus, List.length_map]
    obtain ⟨arg', hsame, hreturns⟩ := harg.returns_whole (n := n) hus (by omega) hoperator (hcall _)
    obtain ⟨args', hsames, hall⟩ := ih hrest hvs (by omega) (k := k) (by omega) (acc ++ [arg'])
    refine ⟨arg' :: args', fun hS => ?_, ?_⟩
    · rw [Expression.unspannedAll, Expression.unspannedAll, hsame hS, hsames hS]
    · have hcheck : (q.before (comma :: (us ++ vs))).check .comma = true :=
        Parser.check_of_peekKind hcomma
      rw [Returns, parseArguments, bind_eq (returns_get _), if_pos hcheck,
        bind_eq (returns_advance _), Parser.next_before_cons, Parser.before_append, bind_eq hreturns]
      rw [List.append_assoc] at hall
      exact hall

theorem parsedPrimary_functionCall {name : Str} {span : Span} {args : List (Expression F)}
    (hb : ∀ arg ∈ args, Bracketed S arg) (h : ∀ arg ∈ args, Parsed S arg) :
    ParsedPrimary S (.functionCall name args span) := by
  intro n ts q hts hn _
  rw [Expression.tokens] at hts hn
  obtain ⟨builtin, more, rfl, hbuiltin, hmore⟩ := List.map_eq_cons_iff.mp hts
  obtain ⟨lparen, more, rfl, hlparen, hmore⟩ := List.map_eq_cons_iff.mp hmore
  obtain ⟨us, last, rfl, hus, hlast⟩ := List.map_eq_append_iff.mp hmore
  obtain ⟨rparen, rfl, hrparen⟩ := List.map_eq_singleton_iff.mp hlast
  have hpeek : (q.before [rparen]).peekKind = .rightParen := hrparen
  have hlength : (Expression.argumentTokens args).length = us.length := by rw [← hus, List.length_map]
  simp only [List.length_cons, List.length_append, List.length_nil, hlength] at hn
  have hexpect := returns_expect "')'" hpeek (by simp [TokenKind.ctorIdx])
  -- the arguments between the parentheses
  obtain ⟨args', hsames, hreturns⟩ : ∃ args' : List (Expression F),
      ((∀ value, S value → NoReferences value) →
        Expression.unspannedAll args' = Expression.unspannedAll args) ∧
      Returns (parseCallArguments (parseExpressionBp n)) (q.before (us ++ [rparen])) args'
        (q.before [rparen]) := by
    cases args with
    | nil =>
      obtain rfl : us = [] := List.map_eq_nil_iff.mp hus
      refine ⟨[], fun _ => rfl, ?_⟩
      rw [Returns, List.nil_append, parseCallArguments, bind_eq (returns_get _),
        if_pos (Parser.check_of_peekKind hpeek)]
      rfl
    | cons arg args =>
      obtain ⟨harg, hrest⟩ := List.forall_mem_cons.mp h
      obtain ⟨vs, ws, rfl, hvs, hws⟩ := List.map_eq_append_iff.mp hus
      obtain ⟨hoperator, hcall⟩ := ends_before_furtherTokens hws hpeek
      have hlengths : arg.tokens.length = vs.length := by rw [← hvs, List.length_map]
      rw [List.length_append] at hn
      obtain ⟨n, rfl⟩ : ∃ n', n = n' + 1 := ⟨n - 1, by omega⟩
      obtain ⟨arg', hsame, hreturns⟩ := harg.returns_whole (n := n) hvs (by omega) hoperator (hcall _)
      obtain ⟨args', hsames, hall⟩ := returns_parseArguments hrest hws
        (n := n + 1) (k := ((q.before [rparen]).before ws).tokens.length + 1) (by omega)
        (by simp) hpeek [arg']
      -- the first argument does not begin with the closing parenthesis
      have hopen : ¬ (q.before ((vs ++ ws) ++ [rparen])).check .rightParen = true := by
        obtain ⟨t, rest, htokens, hstart⟩ := (hb arg List.mem_cons_self).exists_tokens
        obtain ⟨first, more, rfl, rfl, -⟩ := List.map_eq_cons_iff.mp (hvs.trans htokens)
        intro hcheck
        have hkind : first.kind.ctorIdx = (.rightParen : TokenKind F).ctorIdx := by
          simpa [Parser.check] using hcheck
        cases hfirst : first.kind <;> simp_all [TokenKind.ctorIdx, TokenKind.startsExpression,
          TokenKind.startsPrimary]
      refine ⟨arg' :: args', fun hS => ?_, ?_⟩
      · rw [Expression.unspannedAll, Expression.unspannedAll, hsame hS, hsames hS]
      · rw [Returns, parseCallArguments, bind_eq (returns_get _), if_neg hopen]
        simp only [Parser.before_append]
        rw [bind_eq hreturns, bind_eq (returns_get _)]
        exact hall
  refine ⟨.functionCall name args' (builtin.span.merge rparen.span), fun hS => ?_, ?_⟩
  · rw [Expression.unspanned, Expression.unspanned, hsames hS]
  · have hname : (q.before (builtin :: lparen :: (us ++ [rparen]))).peekKind =
        .builtinIdentifier name := hbuiltin
    rw [Returns, parsePrimary_call hname hlparen, parseFunctionCall]
    exact (returns_advance _).bind (hreturns.bind (hexpect.bind (returns_pure _ _)))

/-- **Primary trees are read back** when the smaller trees are. -/
theorem Bracketed.parsedPrimary_of (hb : Bracketed S e) (hlevel : e.level = 8)
    (hsmaller : ∀ sub : Expression F, sub.tokens.length < e.tokens.length → Bracketed S sub →
      Parsed S sub) :
    ParsedPrimary S e := by
  cases hb with
  | binaryOp => exact absurd hlevel (level_binaryOp_lt ..).ne
  | unaryOp => cases hlevel
  | @stringLiteral value span h =>
    refine parsedPrimary_leaf (parseStringInterpolation value) (by rw [Expression.tokens])
      (fun span hS => ?_) fun parseBp p hp _ => ?_
    · rw [parseStringInterpolation_of_noReferences (hS value h)]
      rfl
    · rw [parsePrimaryExpression, bind_eq (returns_get p), hp]
      rfl
  | @numberLiteral value span =>
    refine parsedPrimary_leaf (.numberLiteral value) (by rw [Expression.tokens])
      (fun _ _ => rfl) fun parseBp p hp _ => ?_
    rw [parsePrimaryExpression, bind_eq (returns_get p), hp]
    rfl
  | @intLiteral value span =>
    refine parsedPrimary_leaf (.intLiteral value) (by rw [Expression.tokens])
      (fun _ _ => rfl) fun parseBp p hp _ => ?_
    rw [parsePrimaryExpression, bind_eq (returns_get p), hp]
    rfl
  | @boolLiteral value span =>
    cases value with
    | true =>
      refine parsedPrimary_leaf (.boolLiteral true) (by rw [Expression.tokens])
        (fun _ _ => rfl) fun parseBp p hp _ => ?_
      rw [parsePrimaryExpression, bind_eq (returns_get p), hp]
      rfl
    | false =>
      refine parsedPrimary_leaf (.boolLiteral false) (by rw [Expression.tokens])
        (fun _ _ => rfl) fun parseBp p hp _ => ?_
      rw [parsePrimaryExpression, bind_eq (returns_get p), hp]
      rfl
  | @variable_ name span =>
    refine parsedPrimary_leaf (.variable_ name) (by rw [Expression.tokens])
      (fun _ _ => rfl) fun parseBp p hp _ => ?_
    rw [parsePrimaryExpression, bind_eq (returns_get p), hp]
    rfl
  | @globalVariable name span =>
    refine parsedPrimary_leaf (.globalVariable name) (by rw [Expression.tokens])
      (fun _ _ => rfl) fun parseBp p hp _ => ?_
    rw [parsePrimaryExpression, bind_eq (returns_get p), hp]
    rfl
  | @builtinId name span =>
    refine parsedPrimary_leaf (.builtinId name) (by rw [Expression.tokens])
      (fun _ _ => rfl) fun parseBp p hp hcall => ?_
    have hparen := Parser.check_leftParen (hcall name rfl)
    rw [parsePrimaryExpression, bind_eq (returns_get p), hp]
    dsimp only
    rw [bind_eq (returns_advance p), bind_eq (returns_get p.next), hparen]
    rfl
  | @functionCall name args span hargs =>
    refine parsedPrimary_functionCall hargs fun arg harg => hsmaller arg ?_ (hargs arg harg)
    have hlength := length_le_argumentTokens harg
    simp only [Expression.tokens, List.length_cons, List.length_append]
    omega
  | @grouped expr span hexpr =>
    refine parsedPrimary_grouped (hsmaller expr ?_ hexpr)
    simp only [Expression.tokens, List.length_cons, List.length_append]
    omega

/-- **Bracketed trees are read back.** -/
theorem Bracketed.parsed (hb : Bracketed S e) : Parsed S e := by
  -- by the number of tokens: an operand or argument has fewer than the tree
  induction hsize : e.tokens.length using Nat.strong_induction_on generalizing e with
  | _ size ih =>
    subst hsize
    replace ih : ∀ sub : Expression F, sub.tokens.length < e.tokens.length → Bracketed S sub →
        Parsed S sub := fun sub hsub hbsub => ih _ hsub hbsub rfl
    rcases eq_or_ne e.level 8 with hlevel | hlevel
    · exact (hb.parsedPrimary_of hlevel ih).parsed hb hlevel
    cases hb with
    | @binaryOp left op right span hleft hright bleft bright =>
      intro n minBp ts q hts hn hbp hfollow hcall
      rw [Expression.tokens] at hts hn hcall
      obtain ⟨ls, more, rfl, hls, hmore⟩ := List.map_eq_append_iff.mp hts
      obtain ⟨opToken, rs, rfl, hop, hrs⟩ := List.map_eq_cons_iff.mp hmore
      simp only [Expression.tokens, Expression.level, List.length_append, List.length_cons]
        at hn hbp hfollow ih
      have hpeek : (q.before (opToken :: rs)).peekKind = op.token := hop
      have hoperator : (q.before (opToken :: rs)).peekKind.infixOp = some op := by
        rw [hpeek, infixOp_token]
      -- the left operand, after which the operator follows
      have hleftBp : minBp < 2 * left.level := by omega
      obtain ⟨left', k, hsame, hk, heq⟩ := ih left (by omega) bleft (n := n)
        (q := q.before (opToken :: rs)) hls (by omega) hleftBp
        (fun op' hop' => by
          rw [hoperator] at hop'
          cases hop'
          exact hleft)
        (fun name _ hparen => by
          rw [hpeek] at hparen
          cases op <;> cases hparen)
      -- the right operand, which no operator continues
      obtain ⟨n, rfl⟩ : ∃ n', n = n' + 1 := ⟨n - 1, by omega⟩
      have hrightBp : 2 * op.precedence < 2 * right.level := by omega
      obtain ⟨right', hsame', hreturns⟩ := (ih right (by omega) bright).returns (n := n) (q := q)
        hrs (by omega) hrightBp
        (fun op' hop' => by
          have hle := hfollow op' hop'
          have hpos := precedence_pos op'
          rw [infixBindingPower_eq]
          exact ⟨by omega, by dsimp only; omega⟩)
        (fun name hlast => hcall name (by
          rw [List.getLast?_append, List.getLast?_cons, hlast]
          rfl))
      rw [Parser.tokens_before, List.length_append, List.length_cons] at hk
      obtain ⟨k, rfl⟩ : ∃ k', k = k' + 1 := ⟨k - 1, by omega⟩
      refine ⟨.binaryOp left' op right' (left'.span.merge right'.span), k, fun hS => ?_, by omega, ?_⟩
      · rw [Expression.unspanned, Expression.unspanned, hsame hS, hsame' hS]
      · rw [Parser.before_append, heq]
        refine parseInfix_step hoperator ?_ ?_
        · rw [infixBindingPower_eq]
          dsimp only
          omega
        · rw [infixBindingPower_eq]
          exact hreturns
    | @unaryOp op operand span hoperand boperand =>
      intro n minBp ts q hts hn hbp hfollow hcall
      rw [Expression.tokens] at hts hn hcall
      obtain ⟨opToken, us, rfl, hop, hus⟩ := List.map_eq_cons_iff.mp hts
      simp only [Expression.tokens, List.length_cons] at hn ih
      obtain ⟨n, rfl⟩ : ∃ n', n = n' + 1 := ⟨n - 1, by omega⟩
      -- no binary operator binds as strongly as a unary one
      have hprefixBp : prefixBp < 2 * operand.level := by
        rw [prefixBp]
        omega
      obtain ⟨operand', hsame, hreturns⟩ := (ih operand (by omega) boperand).returns (n := n) (q := q)
        hus (by omega) hprefixBp
        (fun op' _ => by
          have hle := precedence_le_six op'
          rw [infixBindingPower_eq, prefixBp]
          exact ⟨by omega, by dsimp only; omega⟩)
        (fun name hlast => hcall name (by
          rw [List.getLast?_cons, hlast]
          rfl))
      have hpeek : (q.before (opToken :: us)).peekKind = op.token := hop
      refine ⟨_, _, fun hS => ?_, Nat.lt_succ_self _,
        parseExpressionBp_of_prefix (returns_parsePrefix_unary hpeek hreturns)⟩
      rw [Expression.unspanned, Expression.unspanned, hsame hS]
    | _ => exact absurd rfl hlevel

theorem Bracketed.parsedPrimary (hb : Bracketed S e) (hlevel : e.level = 8) : ParsedPrimary S e :=
  hb.parsedPrimary_of hlevel fun _ _ hsub => hsub.parsed

theorem Parsed.returns_parseExpression (h : Parsed S e) (hts : ts.map Token.kind = e.tokens)
    (hfollow : q.peekKind.infixOp = none) (hcall : Uncalled e.tokens q) :
    ∃ e' : Expression F, SameTree S e e' ∧ Returns parseExpression (q.before ts) e' q := by
  have hlength : e.tokens.length = ts.length := by rw [← hts, List.length_map]
  obtain ⟨e', hsame, hreturns⟩ := h.returns_whole (n := (q.before ts).tokens.length) hts
    (by rw [hlength, Parser.tokens_before, List.length_append]; omega) hfollow hcall
  refine ⟨e', hsame, ?_⟩
  rw [Returns, parseExpression, bind_eq (returns_get _), Parser.fuel]
  exact hreturns

end Returning

/-- **The expression parser implements the documented grammar.** A bracketed tree is read back from
its tokens, up to positions, when its strings have no references; and every text that the grammar
derives is accepted. No operator follows, and no parenthesis a builtin at the end. -/
theorem parseExpression_grammar :
    (∀ (e : Expression F) (ts : List (Token F)) (q : Parser F), Bracketed NoReferences e →
      ts.map Token.kind = e.tokens → q.peekKind.infixOp = none → Uncalled e.tokens q →
      ∃ e', Returns parseExpression (q.before ts) e' q ∧ e'.unspanned = e.unspanned) ∧
    ∀ (ts : List (Token F)) (q : Parser F), Derives .expression (ts.map Token.kind) →
      q.peekKind.infixOp = none → Uncalled (ts.map Token.kind) q →
      ∃ e', Returns parseExpression (q.before ts) e' q := by
  constructor
  · intro e ts q hb hts hfollow hcall
    obtain ⟨e', hsame, hreturns⟩ := hb.parsed.returns_parseExpression hts hfollow hcall
    exact ⟨e', hreturns, hsame fun _ => id⟩
  · rintro ts q ⟨k, hderives⟩ hfollow hcall
    obtain ⟨e, hb, -, htokens⟩ := written_of_derivesIn (p := 1) rfl hderives
    rw [← htokens] at hcall
    obtain ⟨e', -, hreturns⟩ := hb.parsed.returns_parseExpression htokens.symm hfollow hcall
    exact ⟨e', hreturns⟩

section Examples

def difference : Expression Unit :=
  .binaryOp (.intLiteral 1 default) .sub
    (.binaryOp (.intLiteral 2 default) .mul (.unaryOp .neg (.intLiteral 3 default) default) default)
    default

theorem derives_operators {operand : Nonterminal} {ops : Ebnf (TokenKind F) Nonterminal}
    {ts : List (TokenKind F)} (h : Derives operand ts) :
    Ebnf.Derives grammar (operators operand ops) ts := by
  have hrest : Ebnf.Derives grammar (.rep (ops ++ .nonterminal operand)) [] := ⟨0, .repNil⟩
  have hseq := h.seq hrest
  rw [List.append_nil] at hseq
  exact hseq

theorem derives_multiplication (value : Int64) :
    Derives .multiplication [(.intLiteral value : TokenKind F)] := by
  have hleaf : Ebnf.Derives grammar
      (.terminal (∃ v, · = .intLiteral v)) [(.intLiteral value : TokenKind F)] :=
    .terminal ⟨value, rfl⟩
  have hprimary : Derives .primary [(.intLiteral value : TokenKind F)] :=
    .nonterminal hleaf.altLeft.altLeft.altLeft.altLeft.altLeft.altLeft.altLeft
  exact .nonterminal (derives_operators (.nonterminal hprimary.altRight))

theorem derives_of_addition {ts : List (TokenKind F)} (h : Derives .addition ts) :
    Derives .expression ts := by
  have hcomparison : Derives .comparison ts := .nonterminal (derives_operators h)
  have hequality : Derives .equality ts := .nonterminal (derives_operators hcomparison)
  have hand : Derives .logicalAnd ts := .nonterminal (derives_operators hequality)
  exact .nonterminal (.nonterminal (derives_operators hand))

theorem derives_intLiteral (value : Int64) : Derives .expression [(.intLiteral value : TokenKind F)] :=
  derives_of_addition (.nonterminal (derives_operators (derives_multiplication value)))

/-- `1 - 2 * -3` is read as it is grouped by the table, and `7` is accepted. -/
theorem parseExpression_difference :
    (∃ e', Returns parseExpression
        (({ source := [], tokens := [], eof := default } : Parser Unit).before
          (difference.tokens.map (Token.mk · default))) e'
        { source := [], tokens := [], eof := default } ∧ e'.unspanned = difference.unspanned) ∧
      ∃ e', Returns parseExpression
        (({ source := [], tokens := [], eof := default } : Parser Unit).before
          [⟨.intLiteral 7, default⟩]) e' { source := [], tokens := [], eof := default } := by
  have hb : Bracketed NoReferences difference :=
    .binaryOp (by decide) (by decide) .intLiteral
      (.binaryOp (by decide) (by decide) .intLiteral (.unaryOp (by decide) .intLiteral))
  have hcall : ∀ ts : List (TokenKind Unit),
      Uncalled ts { source := [], tokens := [], eof := default } := fun _ _ _ h => by cases h
  exact ⟨parseExpression_grammar.1 difference _ _ hb rfl rfl (hcall _),
    parseExpression_grammar.2 _ _ (derives_intLiteral 7) rfl (hcall _)⟩

end Examples

end Pirc.Scripting
