import Pirc.Scripting.Termination

/-!
# Scripts: checks that follow blocks

A check of statements goes through them block by block: what is declared in a block is forgotten
behind it, and a loop is known inside its body. A relation between executions that holds of what
statements are made of, wherever the check accepts them, holds of all that the check accepts. So
there is one induction over the syntax for all that is proved of executions in this way.
-/

namespace Pirc.Scripting

open Protocol (Str)

variable {F : Type}

/-! ## Local variables of expressions -/

mutual

def Expression.locals : Expression F → List Str
  | .variable_ name _ => [name]
  | .functionCall _ args _ => localsOfAll args
  | .interpolated parts _ => localsOfParts parts
  | .grouped e _ => e.locals
  | .binaryOp left _ right _ => left.locals ++ right.locals
  | .unaryOp _ operand _ => operand.locals
  | .stringLiteral _ _ | .numberLiteral _ _ | .intLiteral _ _ | .boolLiteral _ _ | .globalVariable _ _
  | .builtinId _ _ | .identifier _ _ => []

def localsOfAll : List (Expression F) → List Str
  | [] => []
  | e :: es => e.locals ++ localsOfAll es

def localsOfParts : List (StringPart F) → List Str
  | [] => []
  | .literal _ :: parts => localsOfParts parts
  | .expr e :: parts => e.locals ++ localsOfParts parts

end

/-! ## Checks -/

/-- Where a statement stands: the local variables declared there, and whether a loop is around
it. -/
structure Place where
  declared : List Str := []
  inLoop : Bool := false

namespace Place

def declare (place : Place) (names : List Str) : Place :=
  { place with declared := names ++ place.declared }

def loop (place : Place) : Place := { place with inLoop := true }

end Place

/-- A check: which expressions and which statements without blocks it accepts at a place, and what
statements declare. -/
structure BlockCheck (F : Type) where
  expr : Place → Expression F → Prop
  leaf : Place → Statement F → Prop
  declares : Statement F → List Str

namespace BlockCheck

variable (check : BlockCheck F)

mutual

def stmt (place : Place) : Statement F → Prop
  | .if_ ⟨condition, thenBody, branches, otherwise, _⟩ =>
    check.expr place condition ∧ stmts place thenBody ∧ elseIfs place branches ∧ orElse place otherwise
  | .while_ ⟨condition, body, _⟩ => check.expr place condition ∧ stmts place.loop body
  | .command s => check.leaf place (.command s)
  | .varDecl s => check.leaf place (.varDecl s)
  | .set s => check.leaf place (.set s)
  | .return_ s => check.leaf place (.return_ s)
  | .break_ span => check.leaf place (.break_ span)
  | .continue_ span => check.leaf place (.continue_ span)
  | .exprStatement s => check.leaf place (.exprStatement s)

def elseIfs (place : Place) : List (ElseIfBranch F (Statement F)) → Prop
  | [] => True
  | ⟨condition, body, _⟩ :: branches =>
    check.expr place condition ∧ stmts place body ∧ elseIfs place branches

def orElse (place : Place) : Option (List (Statement F)) → Prop
  | some body => stmts place body
  | none => True

def stmts (place : Place) : List (Statement F) → Prop
  | [] => True
  | s :: ss => stmt place s ∧ stmts (place.declare (check.declares s)) ss

end

structure Implies (check' : BlockCheck F) : Prop where
  expr : ∀ place e, check.expr place e → check'.expr place e
  leaf : ∀ place s, check.leaf place s → check'.leaf place s
  declares : ∀ s, check'.declares s = check.declares s

section Implies

variable {check} {check' : BlockCheck F}

mutual

theorem Implies.stmt (himp : check.Implies check') {place : Place} :
    ∀ s : Statement F, check.stmt place s → check'.stmt place s
  | .if_ ⟨condition, thenBody, branches, otherwise, _⟩, h =>
    ⟨himp.expr place condition h.1, himp.stmts thenBody h.2.1, himp.elseIfs branches h.2.2.1,
      himp.orElse otherwise h.2.2.2⟩
  | .while_ ⟨condition, body, _⟩, h => ⟨himp.expr place condition h.1, himp.stmts body h.2⟩
  | .command s, h => himp.leaf place (.command s) h
  | .varDecl s, h => himp.leaf place (.varDecl s) h
  | .set s, h => himp.leaf place (.set s) h
  | .return_ s, h => himp.leaf place (.return_ s) h
  | .break_ span, h => himp.leaf place (.break_ span) h
  | .continue_ span, h => himp.leaf place (.continue_ span) h
  | .exprStatement s, h => himp.leaf place (.exprStatement s) h

theorem Implies.elseIfs (himp : check.Implies check') {place : Place} :
    ∀ branches : List (ElseIfBranch F (Statement F)),
      check.elseIfs place branches → check'.elseIfs place branches
  | [], _ => trivial
  | ⟨condition, body, _⟩ :: branches, h =>
    ⟨himp.expr place condition h.1, himp.stmts body h.2.1, himp.elseIfs branches h.2.2⟩

theorem Implies.orElse (himp : check.Implies check') {place : Place} :
    ∀ otherwise : Option (List (Statement F)), check.orElse place otherwise → check'.orElse place otherwise
  | some body, h => himp.stmts body h
  | none, _ => trivial

/-- **A check that accepts more where it is asked** accepts more statements. -/
theorem Implies.stmts (himp : check.Implies check') {place : Place} :
    ∀ ss : List (Statement F), check.stmts place ss → check'.stmts place ss
  | [], _ => trivial
  | s :: ss, h => ⟨himp.stmt s h.1, (himp.declares s).symm ▸ himp.stmts ss h.2⟩

end

end Implies

end BlockCheck

namespace Interpreter

variable [Platform F] {R H : Type}

/-! ## Expressions -/

/-- **The relation holds of what expressions are made of**, when they read local variables of these
names only. -/
structure ExprRules (host host' : Host F R H) (names : Str → Prop)
    (J : ∀ {α : Type}, Exec F R H α → Exec F R H α → Prop) : Prop where
  returns : ∀ {α : Type} (a : α), J (pure a) (pure a)
  sequence : ∀ {α β : Type} {x y : Exec F R H α} {f g : α → Exec F R H β}, J x y →
    (∀ a, J (f a) (g a)) → J (x >>= f) (y >>= g)
  variable_ : ∀ name span, names name →
    J (evalExpr host (.variable_ name span)) (evalExpr host' (.variable_ name span))
  globalVariable : ∀ name span,
    J (evalExpr host (.globalVariable name span)) (evalExpr host' (.globalVariable name span))
  builtinId : ∀ name span,
    J (evalExpr host (.builtinId name span)) (evalExpr host' (.builtinId name span))
  callFunction : ∀ name args, J (callFunction host name args) (callFunction host' name args)
  binary : ∀ op v w, J (record (.binary op v w) >>= fun _ => give (Value.binary op v w))
    (record (.binary op v w) >>= fun _ => give (Value.binary op v w))
  unary : ∀ op v, J (record (.unary op v) >>= fun _ => give (Value.unary op v))
    (record (.unary op v) >>= fun _ => give (Value.unary op v))

section Expressions

variable {host host' : Host F R H} {names : Str → Prop}
  {J : ∀ {α : Type}, Exec F R H α → Exec F R H α → Prop}

theorem ExprRules.evalBinaryOp (rules : ExprRules host host' names J) (op : BinaryOp)
    {left left' right right' : Exec F R H (Value F)} (hleft : J left left') (hright : J right right') :
    J (evalBinaryOp op left right) (evalBinaryOp op left' right') := by
  have hshort (c : Value F → Bool) (short : Value F) (value : Value F → Value F) : J
      (left >>= fun lv => if c lv then pure short else right >>= fun rv => pure (value rv))
      (left' >>= fun lv => if c lv then pure short else right' >>= fun rv => pure (value rv)) := by
    refine rules.sequence hleft fun lv => ?_
    split_ifs
    · exact rules.returns _
    · exact rules.sequence hright fun rv => rules.returns _
  have hoperator : J
      (left >>= fun lv => right >>= fun rv =>
        record (.binary op lv rv) >>= fun _ => give (Value.binary op lv rv))
      (left' >>= fun lv => right' >>= fun rv =>
        record (.binary op lv rv) >>= fun _ => give (Value.binary op lv rv)) :=
    rules.sequence hleft fun lv => rules.sequence hright fun rv => rules.binary op lv rv
  cases op with
  | and => exact hshort (fun lv => !lv.isTruthy) (.bool false) fun rv => .bool rv.isTruthy
  | or => exact hshort (fun lv => lv.isTruthy) (.bool true) fun rv => .bool rv.isTruthy
  | _ => exact hoperator

mutual

/-- **Then the relation holds of expressions.** -/
theorem ExprRules.evalExpr (rules : ExprRules host host' names J) :
    ∀ e : Expression F, (∀ name ∈ e.locals, names name) → J (evalExpr host e) (evalExpr host' e)
  | .stringLiteral _ _, _ | .intLiteral _ _, _ | .numberLiteral _ _, _ | .boolLiteral _ _, _
  | .identifier _ _, _ => rules.returns _
  | .variable_ name span, h => rules.variable_ name span (h name List.mem_cons_self)
  | .globalVariable name span, _ => rules.globalVariable name span
  | .builtinId name span, _ => rules.builtinId name span
  | .functionCall name args _, h =>
    rules.sequence (rules.evalAll args h) fun evaluated => rules.callFunction name evaluated
  | .interpolated parts _, h => rules.sequence (rules.evalParts parts h) fun _ => rules.returns _
  | .grouped e _, h => rules.evalExpr e h
  | .binaryOp left op right _, h =>
    rules.evalBinaryOp op (rules.evalExpr left fun name hname => h name (List.mem_append_left _ hname))
      (rules.evalExpr right fun name hname => h name (List.mem_append_right _ hname))
  | .unaryOp op operand _, h => rules.sequence (rules.evalExpr operand h) fun val => rules.unary op val

theorem ExprRules.evalAll (rules : ExprRules host host' names J) :
    ∀ es : List (Expression F), (∀ name ∈ localsOfAll es, names name) →
      J (evalAll host es) (evalAll host' es)
  | [], _ => rules.returns _
  | e :: es, h =>
    rules.sequence (rules.evalExpr e fun name hname => h name (List.mem_append_left _ hname)) fun _ =>
      rules.sequence (rules.evalAll es fun name hname => h name (List.mem_append_right _ hname)) fun _ =>
        rules.returns _

theorem ExprRules.evalParts (rules : ExprRules host host' names J) :
    ∀ parts : List (StringPart F), (∀ name ∈ localsOfParts parts, names name) →
      J (evalParts host parts) (evalParts host' parts)
  | [], _ => rules.returns _
  | .literal _ :: parts, h => rules.sequence (rules.evalParts parts h) fun _ => rules.returns _
  | .expr e :: parts, h =>
    rules.sequence (rules.evalExpr e fun name hname => h name (List.mem_append_left _ hname)) fun _ =>
      rules.sequence (rules.evalParts parts
        fun name hname => h name (List.mem_append_right _ hname)) fun _ => rules.returns _

end

end Expressions

/-! ## Commands -/

section Commands

variable {host : Host F R H} {runBody : List (Statement F) → Exec F R H (Value F)}

inductive Target (F R H : Type) [Platform F]
  | external
  | builtin (x : Exec F R H (Value F))
  | alias_ (body : List (Statement F))

def target (name : Str) (args : List (Value F)) (aliases : Option (AliasRegistry F)) : Target F R H :=
  match aliases with
  | none => .external
  | some aliases =>
    match tryBuiltinCommand name args with
    | some x => .builtin x
    | none =>
      match aliases.get name with
      | some body => .alias_ body
      | none => .external

def execTarget (host : Host F R H) (runBody : List (Statement F) → Exec F R H (Value F))
    (name : Str) (args : List (Value F)) : Target F R H → Exec F R H (Value F)
  | .external => handleCommand host name args
  | .builtin x => x
  | .alias_ body => execAliasCall runBody body args

/-- **A command** is chosen by the aliases when its arguments are there. -/
theorem execCommand_eq (s : CommandStatement F) :
    execCommand host runBody s =
      evalAll host s.args >>= fun args => get >>= fun it =>
        execTarget host runBody s.name args (target s.name args it.aliases) := by
  unfold execCommand
  congr 1
  funext args
  congr 1
  funext it
  unfold target
  cases it.aliases with
  | none => rfl
  | some aliases =>
    dsimp only
    cases tryBuiltinCommand s.name args with
    | some x => rfl
    | none =>
      dsimp only
      cases aliases.get s.name with
      | some body => rfl
      | none => rfl

theorem builtin_of_target {name : Str} {args : List (Value F)} {aliases : Option (AliasRegistry F)}
    {x : Exec F R H (Value F)} (h : target name args aliases = .builtin x) :
    tryBuiltinCommand name args = some x := by
  unfold target at h
  split at h
  · cases h
  · split at h
    · next x hx =>
      cases h
      exact hx
    · split at h <;> cases h

theorem get_of_target {name : Str} {args : List (Value F)} {aliases : Option (AliasRegistry F)}
    {body : List (Statement F)} (h : (target name args aliases : Target F R H) = .alias_ body) :
    ∃ registry, aliases = some registry ∧ registry.get name = some body := by
  unfold target at h
  split at h
  · cases h
  · next registry =>
    split at h
    · cases h
    · split at h
      · next body hbody =>
        cases h
        exact ⟨registry, rfl, hbody⟩
      · cases h

def withOutput (change : Option (List Str) × Option (TimerManager F) →
    Option (List Str) × Option (TimerManager F)) (it : Interpreter F R H) : Interpreter F R H :=
  { it with
    echoOutput := (change (it.echoOutput, it.timerManager)).1
    timerManager := (change (it.echoOutput, it.timerManager)).2 }

theorem foldl_pushEcho (lines : List Str) (it : Interpreter F R H) :
    lines.foldl (fun it line => it.pushEcho line) it =
      { it with echoOutput := it.echoOutput.map (· ++ lines) } := by
  induction lines generalizing it with
  | nil =>
    have hsame : it.echoOutput.map (· ++ []) = it.echoOutput := by cases it.echoOutput <;> simp
    rw [hsame]
    rfl
  | cons line lines ih =>
    rw [List.foldl_cons, ih]
    unfold pushEcho
    cases it.echoOutput <;> simp

def timerLines (timers : Option (TimerManager F)) : List Str :=
  match timers with
  | none => []
  | some timers =>
    match timers.timerInfo with
    | [] => ["No active timers".toList]
    | info => info

theorem listTimers_eq_withOutput (it : Interpreter F R H) :
    it.listTimers =
      it.withOutput fun (output, timers) => (output.map (· ++ timerLines timers), timers) := by
  obtain ⟨env, client, ctx, captures, aliases, output, timers, depth, override, steps⟩ := it
  cases timers with
  | none =>
    have hsame : output.map (· ++ []) = output := by cases output <;> simp
    simp only [listTimers, withOutput, timerLines, hsame]
  | some timers =>
    cases hinfo : timers.timerInfo with
    | nil => simp only [listTimers, withOutput, timerLines, hinfo, pushEcho]
    | cons line info => simp only [listTimers, withOutput, timerLines, hinfo, foldl_pushEcho]

/-- **A command of the language** does nothing, halts, or changes output and timers. -/
theorem tryBuiltinCommand_cases {name : Str} {args : List (Value F)} {x : Exec F R H (Value F)}
    (h : tryBuiltinCommand name args = some x) :
    x = pure .null ∨ x = raise .halt ∨
      ∃ change, x = (modify (withOutput change) >>= fun _ => pure .null : Exec F R H (Value F)) := by
  have hecho (text : Str) : (pushEcho text : Interpreter F R H → Interpreter F R H) =
      withOutput fun (output, timers) => (output.map (· ++ [text]), timers) := rfl
  have hremove (timer : Str) : (removeTimer timer : Interpreter F R H → Interpreter F R H) =
      withOutput fun (output, timers) => (output, timers.map (·.remove timer)) := rfl
  unfold tryBuiltinCommand at h
  dsimp only at h
  split_ifs at h
  · cases h
    exact .inr (.inr ⟨_, by rw [hecho]⟩)
  · cases h
    exact .inl rfl
  · cases h
    exact .inr (.inl rfl)
  · split at h
    · split_ifs at h
      cases h
      exact .inr (.inr ⟨_, by rw [hremove]⟩)
    · cases h
  · split at h
    · cases h
      exact .inr (.inr ⟨_, by rw [hremove]⟩)
    · cases h
      exact .inl rfl
  · cases h
    exact .inr (.inr ⟨_, by rw [funext listTimers_eq_withOutput]⟩)

end Commands

/-! ## Statements -/

def roundOf (body again : Exec F R H (Value F)) : Exec F R H (Value F) := do
  match ← inScope body with
  | .ok _ | .error .continue_ => again
  | .error .break_ => pure .null
  | .error e => raise e

def blockOf (body : Exec F R H (Value F)) : Exec F R H (Value F) := do
  let result ← inScope body
  resume result

/-- **The relation holds of what statements are made of**, where the check accepts them. -/
structure StmtRules (check : BlockCheck F) (host host' : Host F R H)
    (runBody runBody' : List (Statement F) → Exec F R H (Value F)) (rounds : ℕ)
    (J : Place → ∀ {α : Type}, Exec F R H α → Exec F R H α → Prop) : Prop where
  returns : ∀ place {α : Type} (a : α), J place (pure a) (pure a)
  sequence : ∀ place {α β : Type} {x y : Exec F R H α} {f g : α → Exec F R H β}, J place x y →
    (∀ a, J place (f a) (g a)) → J place (x >>= f) (y >>= g)
  cutOff : ∀ place, J place (cutOff : Exec F R H (Value F)) cutOff
  loopLimit : ∀ place, J place (raise .loopLimit : Exec F R H (Value F)) (raise .loopLimit)
  expr : ∀ place e, check.expr place e → J place (evalExpr host e) (evalExpr host' e)
  leaf : ∀ place s, check.leaf place s →
    J place (execStmt host runBody rounds s) (execStmt host' runBody' rounds s)
  next : ∀ place s {f g : Value F → Exec F R H (Value F)},
    J place (execStmt host runBody rounds s) (execStmt host' runBody' rounds s) →
      (∀ v, J (place.declare (check.declares s)) (f v) (g v)) →
        J place (execStmt host runBody rounds s >>= f) (execStmt host' runBody' rounds s >>= g)
  block : ∀ place {body body' : Exec F R H (Value F)}, J place body body' →
    J place (blockOf body) (blockOf body')
  round : ∀ place {body body' again again' : Exec F R H (Value F)}, J place.loop body body' →
    J place again again' → J place (roundOf body again) (roundOf body' again')

section Statements

variable {check : BlockCheck F} {host host' : Host F R H}
  {runBody runBody' : List (Statement F) → Exec F R H (Value F)} {rounds : ℕ}
  {J : Place → ∀ {α : Type}, Exec F R H α → Exec F R H α → Prop}

theorem StmtRules.execLoop (rules : StmtRules check host host' runBody runBody' rounds J) {place : Place}
    {condition condition' body body' : Exec F R H (Value F)} (hcondition : J place condition condition')
    (hbody : J place.loop body body') (n iterations : ℕ) :
    J place (execLoop condition body n iterations) (execLoop condition' body' n iterations) := by
  induction n generalizing iterations with
  | zero => exact rules.cutOff place
  | succ n ih =>
    unfold Interpreter.execLoop
    refine rules.sequence place hcondition fun cond => ?_
    split_ifs
    · exact rules.returns place _
    · exact rules.loopLimit place
    · exact rules.round place hbody (ih (iterations + 1))

mutual

theorem StmtRules.execStmt (rules : StmtRules check host host' runBody runBody' rounds J) :
    ∀ (s : Statement F) {place : Place}, check.stmt place s →
      J place (execStmt host runBody rounds s) (execStmt host' runBody' rounds s)
  | .command s, place, h => rules.leaf place (.command s) h
  | .varDecl s, place, h => rules.leaf place (.varDecl s) h
  | .set s, place, h => rules.leaf place (.set s) h
  | .return_ s, place, h => rules.leaf place (.return_ s) h
  | .break_ span, place, h => rules.leaf place (.break_ span) h
  | .continue_ span, place, h => rules.leaf place (.continue_ span) h
  | .exprStatement s, place, h => rules.leaf place (.exprStatement s) h
  | .while_ ⟨condition, body, _⟩, place, h =>
    rules.execLoop (rules.expr place condition h.1) (rules.execStmts body h.2) rounds 0
  | .if_ ⟨condition, thenBody, branches, otherwise, _⟩, place, h => by
    unfold Interpreter.execStmt
    refine rules.sequence place (rules.expr place condition h.1) fun cond => ?_
    split_ifs
    · exact rules.block place (rules.execStmts thenBody h.2.1)
    · exact rules.execBranches branches (rules.execElse otherwise h.2.2.2) h.2.2.1

theorem StmtRules.execBranches (rules : StmtRules check host host' runBody runBody' rounds J) :
    ∀ (branches : List (ElseIfBranch F (Statement F))) {place : Place}
      {otherwise otherwise' : Exec F R H (Value F)}, J place otherwise otherwise' →
      check.elseIfs place branches →
        J place (execBranches host runBody rounds branches otherwise)
          (execBranches host' runBody' rounds branches otherwise')
  | [], _, _, _, helse, _ => helse
  | ⟨condition, body, _⟩ :: branches, place, _, _, helse, h => by
    unfold Interpreter.execBranches
    refine rules.sequence place (rules.expr place condition h.1) fun cond => ?_
    split_ifs
    · exact rules.block place (rules.execStmts body h.2.1)
    · exact rules.execBranches branches helse h.2.2

theorem StmtRules.execElse (rules : StmtRules check host host' runBody runBody' rounds J) :
    ∀ (otherwise : Option (List (Statement F))) {place : Place}, check.orElse place otherwise →
      J place (execElse host runBody rounds otherwise) (execElse host' runBody' rounds otherwise)
  | some body, place, h => rules.block place (rules.execStmts body h)
  | none, place, _ => rules.returns place _

/-- **Then the relation holds of the statements that the check accepts.** -/
theorem StmtRules.execStmts (rules : StmtRules check host host' runBody runBody' rounds J) :
    ∀ (ss : List (Statement F)) {place : Place} {result : Value F}, check.stmts place ss →
      J place (execStmts host runBody rounds result ss) (execStmts host' runBody' rounds result ss)
  | [], place, _, _ => rules.returns place _
  | s :: ss, place, _, h =>
    rules.next place s (rules.execStmt s h.1) fun _ => rules.execStmts ss h.2

end

end Statements

end Interpreter

end Pirc.Scripting
