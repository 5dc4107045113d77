import Pirc.Network.Chunks
import Pirc.Scripting.Value
import Pirc.Server.Channel

/-!
# Scripts: the interpreter

`interpreter/mod.rs`, `environment.rs`, `builtins.rs`, `command.rs` and `timer.rs`, as far as
statements use them. An execution goes on from one state of the interpreter to the next; it returns,
or stops with an error or a panic, and keeps what it changed. Loops and bodies of aliases are
counted: an execution that is cut off by its count has no outcome. What the functions of the library
and the commands of the client do is a parameter.
-/

namespace Pirc.Scripting

open Protocol (Str decimal)

variable {F : Type} [Platform F]

/-! ## The environment -/

abbrev Variables (F : Type) := Str → Option (Value F)

/-- Scopes, of which there is at least one, and the global variables. -/
structure Environment (F : Type) where
  scope : Variables F := fun _ => none
  outer : List (Variables F) := []
  globals : Variables F := fun _ => none

namespace Environment

variable (env : Environment F)

def pushScope : Environment F := { env with scope := fun _ => none, outer := env.scope :: env.outer }

def popScope : Option (Environment F) :=
  match env.outer with
  | [] => none
  | scope :: outer => some { env with scope := scope, outer := outer }

def scopes : List (Variables F) := env.scope :: env.outer

def getLocal (name : Str) : Option (Value F) := env.scopes.findSome? (· name)

def setLocal (name : Str) (value : Value F) : Environment F :=
  { env with scope := Function.update env.scope name (some value) }

def updateScopes (name : Str) (value : Value F) : List (Variables F) → List (Variables F)
  | [] => []
  | scope :: scopes =>
    if (scope name).isSome then Function.update scope name (some value) :: scopes
    else scope :: updateScopes name value scopes

/-- Set the variable where it was defined, or else in the innermost scope. -/
def updateLocal (name : Str) (value : Value F) : Environment F :=
  if (env.scope name).isSome then env.setLocal name value
  else if env.outer.any fun scope => (scope name).isSome then
    { env with outer := updateScopes name value env.outer }
  else env.setLocal name value

def setGlobal (name : Str) (value : Value F) : Environment F :=
  { env with globals := Function.update env.globals name (some value) }

end Environment

/-! ## Builtin identifiers -/

/-- The values of the identifiers `$name`. -/
structure BuiltinContext (F : Type) where
  identifiers : Variables F := fun _ => none
  eventText : Option Str := none

namespace BuiltinContext

variable (ctx : BuiltinContext F)

def setEventText (text : Str) : BuiltinContext F where
  identifiers := Function.update ctx.identifiers "text".toList (some (.string text))
  eventText := some text

def resolveStatic (name : Str) : Option (Value F) :=
  if name = "null".toList then some .null
  else if name = "true".toList then some (.bool true)
  else if name = "false".toList then some (.bool false)
  else if name = "cr".toList then some (.string ['\r'])
  else if name = "lf".toList then some (.string ['\n'])
  else if name = "crlf".toList then some (.string ['\r', '\n'])
  else if name = "tab".toList then some (.string ['\t'])
  else none

def splitWhitespace (text : Str) : List Str := text.splitOnP Server.isWhitespace |>.filter (· ≠ [])

def resolveNumericParam (name : Str) : Option (Value F) :=
  match Network.parseUsize name with
  | none => none
  | some n =>
    if 9 < n then none
    else
      let text := ctx.eventText.getD []
      if n = 0 then some (.string text)
      else
        match (splitWhitespace text)[n - 1]? with
        | some word => some (.string word)
        | none => some .null

def resolve (name : Str) : Value F :=
  match resolveStatic name with
  | some value => value
  | none =>
    match ctx.resolveNumericParam name with
    | some value => value
    | none => (ctx.identifiers name).getD .null

end BuiltinContext

/-! ## Aliases and timers -/

/-- The bodies of aliases by their names, in lower case. -/
abbrev AliasRegistry (F : Type) [Platform F] :=
  FoldMap (Platform.toLowercase F) (List (Statement F))

structure Timer (F : Type) where
  interval : ℕ
  remaining : Option ℕ
  body : List (Statement F)
  nextFire : ℕ

/-- The timers by name. -/
abbrev TimerManager (F : Type) [Platform F] := FoldMap (Platform.toLowercase F) (Timer F)

def TimerManager.timerInfo (timers : TimerManager F) : List Str :=
  let line : Str × Timer F → Str := fun (name, timer) =>
    Platform.toLowercase F name ++ ": interval=".toList ++ Platform.displaySeconds F timer.interval ++
      "s, repetitions=".toList ++ (timer.remaining.map decimal).getD "infinite".toList
  (timers.entries.map line).mergeSort fun a b => compare a b != .gt

/-! ## Executions -/

def maxLoopIterations : ℕ := 100000

def maxAliasDepth : ℕ := 100

/-- What the functions of the library do, whose last captures are `R`, and the commands of the
client of state `H`. -/
structure Host (F R H : Type) where
  call : Str → List (Value F) → R → Except (RuntimeError F) (Value F) × R
  handleCommand : Str → List (Value F) → H → Except (RuntimeError F) PUnit × H

/-- The state of the interpreter, with what was done so far, the oldest first. -/
structure Interpreter (F R H : Type) [Platform F] where
  env : Environment F
  cmdHandler : H
  builtinCtx : BuiltinContext F
  regexState : R
  aliases : Option (AliasRegistry F) := none
  echoOutput : Option (List Str) := none
  timerManager : Option (TimerManager F) := none
  aliasDepth : ℕ := 0
  ctxOverride : Option (BuiltinContext F) := none
  steps : List (Step F) := []

/-- **Executions**: from a state to an outcome in another state, or cut off. -/
abbrev Exec (F R H : Type) [Platform F] := ExceptT (Stop F) (StateT (Interpreter F R H) Option)

namespace Interpreter

variable {R H : Type}

def effectiveCtx (it : Interpreter F R H) : BuiltinContext F := it.ctxOverride.getD it.builtinCtx

def cutOff {α : Type} : Exec F R H α := fun _ => none

def raise {α : Type} (e : RuntimeError F) : Exec F R H α := throw (.error e)

def record (step : Step F) : Exec F R H PUnit := modify fun it => { it with steps := it.steps ++ [step] }

def give {α : Type} (r : Except (Stop F) α) : Exec F R H α :=
  match r with
  | .ok a => pure a
  | .error stop => throw stop

/-- Go on with the error of an execution; a panic is not caught. -/
def attempt {α : Type} (x : Exec F R H α) : Exec F R H (Except (RuntimeError F) α) := fun it =>
  match x it with
  | some (.ok a, it') => some (.ok (.ok a), it')
  | some (.error (.error e), it') => some (.ok (.error e), it')
  | some (.error .panic, it') => some (.error .panic, it')
  | none => none

def pushScope : Exec F R H PUnit := modify fun it => { it with env := it.env.pushScope }

/-- Leave a scope; the outermost one may not be left. -/
def popScope : Exec F R H PUnit := do
  match (← get).env.popScope with
  | some env => modify fun it => { it with env := env }
  | none => throw .panic

/-- Run a body in a scope of its own, and go on with its result. -/
def inScope {α : Type} (x : Exec F R H α) : Exec F R H (Except (RuntimeError F) α) := do
  pushScope
  let result ← attempt x
  popScope
  pure result

def resume {α : Type} (result : Except (RuntimeError F) α) : Exec F R H α :=
  match result with
  | .ok a => pure a
  | .error e => raise e

/-! ### Expressions -/

variable (host : Host F R H)

def callFunction (name : Str) (args : List (Value F)) : Exec F R H (Value F) := do
  let (result, regexState) := host.call name args (← get).regexState
  modify fun it => { it with regexState := regexState }
  resume result

/-- An operator between two expressions. -/
def evalBinaryOp (op : BinaryOp) (left right : Exec F R H (Value F)) : Exec F R H (Value F) := do
  match op with
  | .and =>
    let lv ← left
    if !lv.isTruthy then pure (.bool false)
    else
      let rv ← right
      pure (.bool rv.isTruthy)
  | .or =>
    let lv ← left
    if lv.isTruthy then pure (.bool true)
    else
      let rv ← right
      pure (.bool rv.isTruthy)
  | op =>
    let lv ← left
    let rv ← right
    record (.binary op lv rv)
    give (Value.binary op lv rv)

def evalUnaryOp (op : UnaryOp) (operand : Exec F R H (Value F)) : Exec F R H (Value F) := do
  let val ← operand
  record (.unary op val)
  give (Value.unary op val)

mutual

/-- **Expressions**. -/
def evalExpr : Expression F → Exec F R H (Value F)
  | .stringLiteral value _ => pure (.string value)
  | .intLiteral value _ => pure (.int value)
  | .numberLiteral value _ => pure (.number value)
  | .boolLiteral value _ => pure (.bool value)
  | .variable_ name _ => do
    match (← get).env.getLocal name with
    | some value => pure value
    | none =>
      record (.unbound name)
      raise (.undefinedVariable ('%' :: name))
  | .globalVariable name _ => do pure (((← get).env.globals name).getD .null)
  | .builtinId name _ => do pure ((← get).effectiveCtx.resolve name)
  | .identifier name _ => pure (.string name)
  | .functionCall name args _ => do
    let evaluated ← evalAll args
    callFunction host name evaluated
  | .interpolated parts _ => do
    let text ← evalParts parts
    pure (.string text)
  | .grouped expr _ => evalExpr expr
  | .binaryOp left op right _ => evalBinaryOp op (evalExpr left) (evalExpr right)
  | .unaryOp op operand _ => evalUnaryOp op (evalExpr operand)

def evalAll : List (Expression F) → Exec F R H (List (Value F))
  | [] => pure []
  | e :: es => do
    let value ← evalExpr e
    let values ← evalAll es
    pure (value :: values)

def evalParts : List (StringPart F) → Exec F R H Str
  | [] => pure []
  | .literal text :: parts => do
    let rest ← evalParts parts
    pure (text ++ rest)
  | .expr e :: parts => do
    let value ← evalExpr e
    let rest ← evalParts parts
    pure (value.toStr ++ rest)

end

/-! ### Commands -/

/-- The words of the arguments, with spaces between them. -/
def joined (args : List (Value F)) : Str := [' '].intercalate (args.map Value.toStr)

def pushEcho (text : Str) (it : Interpreter F R H) : Interpreter F R H :=
  { it with echoOutput := it.echoOutput.map (· ++ [text]) }

def removeTimer (name : Str) (it : Interpreter F R H) : Interpreter F R H :=
  { it with timerManager := it.timerManager.map (·.remove name) }

def listTimers (it : Interpreter F R H) : Interpreter F R H :=
  match it.timerManager with
  | none => it
  | some timers =>
    match timers.timerInfo with
    | [] => it.pushEcho "No active timers".toList
    | info => info.foldl (fun it line => it.pushEcho line) it

def tryBuiltinCommand (name : Str) (args : List (Value F)) : Option (Exec F R H (Value F)) :=
  let done (change : Interpreter F R H → Interpreter F R H) : Exec F R H (Value F) := do
    modify change
    pure .null
  let name := Platform.toLowercase F name
  if name = "echo".toList then some (done (pushEcho (joined args)))
  else if name = "noop".toList then some (pure .null)
  else if name = "halt".toList then some (raise .halt)
  else if name = "timer".toList then
    match args with
    | flag :: timer :: _ =>
      if flag.toStr = "-r".toList then some (done (removeTimer timer.toStr)) else none
    | _ => none
  else if name = "timeoff".toList then
    match args.head? with
    | some timer => some (done (removeTimer timer.toStr))
    | none => some (pure .null)
  else if name = "timers".toList then some (done listTimers)
  else none

def handleCommand (name : Str) (args : List (Value F)) : Exec F R H (Value F) := do
  let (result, cmdHandler) := host.handleCommand name args (← get).cmdHandler
  modify fun it => { it with cmdHandler := cmdHandler }
  match result with
  | .ok _ => pure .null
  | .error e => raise e

section Bodies

variable (runBody : List (Statement F) → Exec F R H (Value F))

def execAliasCall (body : List (Statement F)) (args : List (Value F)) : Exec F R H (Value F) := do
  let it ← get
  if maxAliasDepth ≤ it.aliasDepth then raise .aliasRecursionLimit
  else
    let aliasCtx := it.effectiveCtx.setEventText (joined args)
    set { it with ctxOverride := some aliasCtx, aliasDepth := it.aliasDepth + 1 }
    record (.alias_ (it.aliasDepth + 1))
    let result ← inScope (runBody body)
    modify fun after => { after with ctxOverride := it.ctxOverride, aliasDepth := it.aliasDepth }
    match result with
    | .ok _ | .error (.return_ _) => pure .null
    | .error e => raise e

def execCommand (s : CommandStatement F) : Exec F R H (Value F) := do
  let args ← evalAll host s.args
  match (← get).aliases with
  | none => handleCommand host s.name args
  | some aliases =>
    match tryBuiltinCommand s.name args with
    | some result => result
    | none =>
      match aliases.get s.name with
      | some body => execAliasCall runBody body args
      | none => handleCommand host s.name args

/-! ### Statements -/

def execVarDecl (s : SetStatement F) : Exec F R H (Value F) := do
  let val ← evalExpr host s.value
  modify fun it => { it with
    env := if s.global then it.env.setGlobal s.name val else it.env.setLocal s.name val }
  pure .null

/-- Set the variable; a local one that no scope binds is bound in the innermost scope. -/
def assign (s : SetStatement F) (val : Value F) (it : Interpreter F R H) : Interpreter F R H :=
  if s.global then { it with env := it.env.setGlobal s.name val }
  else if (it.env.getLocal s.name).isSome then { it with env := it.env.updateLocal s.name val }
  else { it with env := it.env.setLocal s.name val, steps := it.steps ++ [.unbound s.name] }

def execSet (s : SetStatement F) : Exec F R H (Value F) := do
  let val ← evalExpr host s.value
  modify (assign s val)
  pure .null

def execReturn (s : ReturnStatement F) : Exec F R H (Value F) := do
  let val ←
    match s.value with
    | some e => evalExpr host e
    | none => pure .null
  raise (.return_ val)

/-- The rounds of a loop, so many at most; the loop counts those that it has begun. -/
def execLoop (condition body : Exec F R H (Value F)) : ℕ → ℕ → Exec F R H (Value F)
  | 0, _ => cutOff
  | n + 1, iterations => do
    let cond ← condition
    if !cond.isTruthy then pure .null
    else if maxLoopIterations < iterations + 1 then raise .loopLimit
    else
      match ← inScope body with
      | .ok _ | .error .continue_ => execLoop condition body n (iterations + 1)
      | .error .break_ => pure .null
      | .error e => raise e

variable (rounds : ℕ)

mutual

/-- **Statements**, where a loop makes so many rounds at most. -/
def execStmt : Statement F → Exec F R H (Value F)
  | .varDecl s => execVarDecl host s
  | .set s => execSet host s
  | .if_ ⟨condition, thenBody, elseifBranches, elseBody, _⟩ => do
    let cond ← evalExpr host condition
    if cond.isTruthy then
      let result ← inScope (execStmts .null thenBody)
      resume result
    else execBranches elseifBranches (execElse elseBody)
  | .while_ ⟨condition, body, _⟩ =>
    execLoop (evalExpr host condition) (execStmts .null body) rounds 0
  | .return_ s => execReturn host s
  | .break_ _ => raise .break_
  | .continue_ _ => raise .continue_
  | .exprStatement s => do
    let _ ← evalExpr host s.expr
    pure .null
  | .command s => execCommand host runBody s

def execBranches : List (ElseIfBranch F (Statement F)) → Exec F R H (Value F) → Exec F R H (Value F)
  | [], otherwise => otherwise
  | ⟨condition, body, _⟩ :: branches, otherwise => do
    let cond ← evalExpr host condition
    if cond.isTruthy then
      let result ← inScope (execStmts .null body)
      resume result
    else execBranches branches otherwise

def execElse : Option (List (Statement F)) → Exec F R H (Value F)
  | some body => do
    let result ← inScope (execStmts .null body)
    resume result
  | none => pure .null

def execStmts (result : Value F) : List (Statement F) → Exec F R H (Value F)
  | [] => pure result
  | stmt :: stmts => do
    let result ← execStmt stmt
    execStmts result stmts

end

end Bodies

/-- **Executions of statements**, with so many rounds of a loop and nested bodies of aliases at
most. -/
def exec : ℕ → List (Statement F) → Exec F R H (Value F)
  | 0, _ => cutOff
  | n + 1, stmts => execStmts host (exec n) n .null stmts

end Interpreter

end Pirc.Scripting
