import Pirc.Scripting.Confinement

/-!
# Scripts: the analyser

`semantic.rs`. A script is walked once: loops are left only inside loops, which is an error else,
and there are warnings of local variables that are not declared before, of names that are not built
in, and of definitions that occur twice. The interpreter leaves bodies and loops by errors; in
scripts without errors of the analyser, none of these gets out of a body.
-/

namespace Pirc.Scripting

open Protocol (Str)

variable {F : Type}

/-! ## Findings -/

/-- Errors of the analyser, which finds only those of the last kind. -/
inductive SemanticError
  | undefinedVariable (name : Str) (span : Span) (location : SourceLocation)
  | duplicateDefinition (name : Str) (span : Span) (location : SourceLocation)
  | breakOutsideLoop (keyword : Str) (span : Span) (location : SourceLocation)
  deriving DecidableEq

/-- What is warned of. -/
inductive SemanticWarning
  | undeclaredLocal (name : Str) (span : Span) (location : SourceLocation)
  | unknownBuiltin (name : Str) (span : Span) (location : SourceLocation)
  | duplicateDefinition (name : Str) (span : Span) (location : SourceLocation)
  | unrecognizedEventType (name : Str) (span : Span) (location : SourceLocation)
  deriving DecidableEq

/-- The errors and the warnings that are found. -/
structure SemanticResult where
  errors : List SemanticError := []
  warnings : List SemanticWarning := []

instance : Append SemanticResult :=
  ⟨fun result found => ⟨result.errors ++ found.errors, result.warnings ++ found.warnings⟩⟩

@[simp] theorem SemanticResult.errors_append (result found : SemanticResult) :
    (result ++ found).errors = result.errors ++ found.errors := rfl

@[simp] theorem SemanticResult.warnings_append (result found : SemanticResult) :
    (result ++ found).warnings = result.warnings ++ found.warnings := rfl

/-! ## The walk -/

def knownBuiltins : List Str :=
  ["nick", "chan", "me", "server", "time", "date", "address", "target", "text", "host", "site",
    "fulladdress", "network", "port", "ip", "version", "os", "idle", "online", "away", "null",
    "true", "false", "cr", "lf", "crlf", "tab", "1", "2", "3", "4", "5", "6", "7", "8", "9",
    "0"].map String.toList

section Analyze

variable (source : Str)

def undeclared (declared : List Str) (name : Str) (span : Span) : List SemanticWarning :=
  if name ∈ declared then [] else [.undeclaredLocal name span (.fromOffset source span.offset)]

def unknown (name : Str) (span : Span) : List SemanticWarning :=
  if name ∈ knownBuiltins then [] else [.unknownBuiltin name span (.fromOffset source span.offset)]

mutual

/-- What is warned of in an expression. -/
def analyzeExpression (declared : List Str) : Expression F → List SemanticWarning
  | .variable_ name span => undeclared source declared name span
  | .builtinId name span => unknown source name span
  | .functionCall name args span => unknown source name span ++ analyzeArgs declared args
  | .binaryOp left _ right _ => analyzeExpression declared left ++ analyzeExpression declared right
  | .unaryOp _ operand _ => analyzeExpression declared operand
  | .grouped e _ => analyzeExpression declared e
  | .interpolated parts _ => analyzeParts declared parts
  | .globalVariable _ _ | .stringLiteral _ _ | .numberLiteral _ _ | .intLiteral _ _ | .boolLiteral _ _
  | .identifier _ _ => []

def analyzeArgs (declared : List Str) : List (Expression F) → List SemanticWarning
  | [] => []
  | e :: es => analyzeExpression declared e ++ analyzeArgs declared es

def analyzeParts (declared : List Str) : List (StringPart F) → List SemanticWarning
  | [] => []
  | .literal _ :: parts => analyzeParts declared parts
  | .expr e :: parts => analyzeExpression declared e ++ analyzeParts declared parts

end

def outsideLoop (inLoop : Bool) (keyword : String) (span : Span) : List SemanticError :=
  if inLoop then []
  else [.breakOutsideLoop keyword.toList span (.fromOffset source span.offset)]

mutual

/-- What is declared after a statement, and what is found in it. Declarations in a block are kept
behind it. -/
def analyzeStatement (inLoop : Bool) (declared : List Str) : Statement F → List Str × SemanticResult
  | .varDecl s =>
    (if s.global then declared else s.name :: declared, ⟨[], analyzeExpression source declared s.value⟩)
  | .set s =>
    -- an assignment declares the variable
    (if s.global then declared else s.name :: declared, ⟨[], analyzeExpression source declared s.value⟩)
  | .if_ ⟨condition, thenBody, branches, otherwise, _⟩ =>
    let afterThen := analyzeBody inLoop declared thenBody
    let afterBranches := analyzeBranches inLoop afterThen.1 branches
    let afterElse := analyzeElse inLoop afterBranches.1 otherwise
    (afterElse.1, ⟨[], analyzeExpression source declared condition⟩ ++ afterThen.2 ++
      afterBranches.2 ++ afterElse.2)
  | .while_ ⟨condition, body, _⟩ =>
    let after := analyzeBody true declared body
    (after.1, ⟨[], analyzeExpression source declared condition⟩ ++ after.2)
  | .break_ span => (declared, ⟨outsideLoop source inLoop "break" span, []⟩)
  | .continue_ span => (declared, ⟨outsideLoop source inLoop "continue" span, []⟩)
  | .return_ s =>
    (declared, ⟨[], match s.value with
      | some value => analyzeExpression source declared value
      | none => []⟩)
  | .command s => (declared, ⟨[], analyzeArgs source declared s.args⟩)
  | .exprStatement s => (declared, ⟨[], analyzeExpression source declared s.expr⟩)

def analyzeBranches (inLoop : Bool) (declared : List Str) :
    List (ElseIfBranch F (Statement F)) → List Str × SemanticResult
  | [] => (declared, {})
  | ⟨condition, body, _⟩ :: branches =>
    let afterBody := analyzeBody inLoop declared body
    let after := analyzeBranches inLoop afterBody.1 branches
    (after.1, ⟨[], analyzeExpression source declared condition⟩ ++ afterBody.2 ++ after.2)

def analyzeElse (inLoop : Bool) (declared : List Str) :
    Option (List (Statement F)) → List Str × SemanticResult
  | some body => analyzeBody inLoop declared body
  | none => (declared, {})

def analyzeBody (inLoop : Bool) (declared : List Str) : List (Statement F) → List Str × SemanticResult
  | [] => (declared, {})
  | s :: ss =>
    let afterFirst := analyzeStatement inLoop declared s
    let after := analyzeBody inLoop afterFirst.1 ss
    (after.1, afterFirst.2 ++ after.2)

end

/-! ### Scripts -/

def EventType.debug : EventType → Str
  | text => "Text".toList
  | join => "Join".toList
  | part => "Part".toList
  | kick => "Kick".toList
  | quit => "Quit".toList
  | connect => "Connect".toList
  | disconnect => "Disconnect".toList
  | invite => "Invite".toList
  | notice => "Notice".toList
  | nick => "Nick".toList
  | topic => "Topic".toList
  | mode => "Mode".toList
  | ctcp => "Ctcp".toList
  | action => "Action".toList
  | numeric => "Numeric".toList

/-- The warnings of aliases and handlers that are defined again, behind these aliases and
handlers. -/
def checkDuplicates : List Str → List Str → List (TopLevelItem F) → List SemanticWarning
  | _, _, [] => []
  | aliasNames, eventKeys, .alias_ a :: items =>
    if a.name ∈ aliasNames then
      .duplicateDefinition a.name a.span (.fromOffset source a.span.offset) ::
        checkDuplicates aliasNames eventKeys items
    else checkDuplicates (a.name :: aliasNames) eventKeys items
  | aliasNames, eventKeys, .event e :: items =>
    let key := e.eventType.debug ++ ':' :: e.pattern
    if key ∈ eventKeys then
      .duplicateDefinition key e.span (.fromOffset source e.span.offset) ::
        checkDuplicates aliasNames eventKeys items
    else checkDuplicates aliasNames (key :: eventKeys) items
  | aliasNames, eventKeys, .timer _ :: items => checkDuplicates aliasNames eventKeys items

def analyzeItem : TopLevelItem F → SemanticResult
  | .alias_ a => (analyzeBody source false [] a.body).2
  | .event e => (analyzeBody source false [] e.body).2
  | .timer t =>
    ⟨[], analyzeExpression source [] t.interval ++ analyzeExpression source [] t.repetitions⟩ ++
      (analyzeBody source false [] t.body).2

/-- **What is found in a script.** -/
def SemanticAnalyzer.analyze (script : Script F) : SemanticResult :=
  script.items.foldl (fun result item => result ++ analyzeItem source item)
    ⟨[], checkDuplicates source [] [] script.items⟩

end Analyze

/-! ## Errors -/

/-- Loops are left inside loops only. -/
def breaksInLoops : BlockCheck F where
  expr _ _ := True
  leaf place
    | .break_ _ | .continue_ _ => place.inLoop
    | .if_ _ | .while_ _ => False
    | _ => True
  declares := declarations true

variable {source : Str}

theorem outsideLoop_eq_nil {inLoop : Bool} {keyword : String} {span : Span} :
    outsideLoop source inLoop keyword span = [] ↔ inLoop = true := by
  cases inLoop with
  | true => exact iff_of_true rfl rfl
  | false => exact iff_of_false (List.cons_ne_nil _ _) (by simp)

mutual

theorem errors_analyzeStatement {place : Place} : ∀ (s : Statement F) (declared : List Str),
    (analyzeStatement source place.inLoop declared s).2.errors = [] ↔ breaksInLoops.stmt place s
  | .varDecl _, _ | .set _, _ | .return_ _, _ | .command _, _ | .exprStatement _, _ =>
    iff_of_true rfl trivial
  | .break_ _, _ => outsideLoop_eq_nil
  | .continue_ _, _ => outsideLoop_eq_nil
  | .while_ ⟨_, body, _⟩, declared => by
    simp only [analyzeStatement, BlockCheck.stmt, SemanticResult.errors_append, List.nil_append]
    exact (@errors_analyzeBody place.loop body declared).trans (and_iff_right trivial).symm
  | .if_ ⟨_, thenBody, branches, otherwise, _⟩, declared => by
    simp only [analyzeStatement, BlockCheck.stmt, SemanticResult.errors_append, List.append_eq_nil_iff,
      errors_analyzeBody thenBody, errors_analyzeBranches branches, errors_analyzeElse otherwise]
    exact ⟨fun ⟨⟨⟨_, hthen⟩, hbranches⟩, helse⟩ => ⟨trivial, hthen, hbranches, helse⟩,
      fun ⟨_, hthen, hbranches, helse⟩ => ⟨⟨⟨trivial, hthen⟩, hbranches⟩, helse⟩⟩

theorem errors_analyzeBranches {place : Place} :
    ∀ (branches : List (ElseIfBranch F (Statement F))) (declared : List Str),
    (analyzeBranches source place.inLoop declared branches).2.errors = [] ↔
      breaksInLoops.elseIfs place branches
  | [], _ => iff_of_true rfl trivial
  | ⟨_, body, _⟩ :: branches, declared => by
    simp only [analyzeBranches, BlockCheck.elseIfs, SemanticResult.errors_append,
      List.append_eq_nil_iff, errors_analyzeBody body, errors_analyzeBranches branches]
    exact ⟨fun ⟨⟨_, hbody⟩, hbranches⟩ => ⟨trivial, hbody, hbranches⟩,
      fun ⟨_, hbody, hbranches⟩ => ⟨⟨trivial, hbody⟩, hbranches⟩⟩

theorem errors_analyzeElse {place : Place} :
    ∀ (otherwise : Option (List (Statement F))) (declared : List Str),
    (analyzeElse source place.inLoop declared otherwise).2.errors = [] ↔
      breaksInLoops.orElse place otherwise
  | some body, declared => errors_analyzeBody body declared
  | none, _ => iff_of_true rfl trivial

/-- **No errors are found exactly if loops are left inside loops.** -/
theorem errors_analyzeBody {place : Place} : ∀ (ss : List (Statement F)) (declared : List Str),
    (analyzeBody source place.inLoop declared ss).2.errors = [] ↔ breaksInLoops.stmts place ss
  | [], _ => iff_of_true rfl trivial
  | s :: ss, declared => by
    have hrest := @errors_analyzeBody (place.declare (breaksInLoops.declares s)) ss
      (analyzeStatement source place.inLoop declared s).1
    simp only [analyzeBody, BlockCheck.stmts, SemanticResult.errors_append, List.append_eq_nil_iff,
      errors_analyzeStatement s]
    exact and_congr_right fun _ => hrest

end

/-! ## Scripts without errors -/

theorem errors_foldl (found : SemanticResult) (items : List (TopLevelItem F)) :
    (items.foldl (fun result item => result ++ analyzeItem source item) found).errors =
      found.errors ++ items.flatMap fun item => (analyzeItem source item).errors := by
  induction items generalizing found with
  | nil => simp
  | cons item items ih => simp [ih]

def TopLevelItem.body : TopLevelItem F → List (Statement F)
  | alias_ a => a.body
  | event e => e.body
  | timer t => t.body

theorem breaksInLoops_body {script : Script F}
    (haccepted : (SemanticAnalyzer.analyze source script).errors = [])
    {item : TopLevelItem F} (hitem : item ∈ script.items) : breaksInLoops.stmts {} item.body := by
  rw [SemanticAnalyzer.analyze, errors_foldl, List.nil_append, List.flatMap_eq_nil_iff] at haccepted
  have hnone := haccepted item hitem
  cases item with
  | alias_ a => exact (@errors_analyzeBody F source {} a.body []).mp hnone
  | event e => exact (@errors_analyzeBody F source {} e.body []).mp hnone
  | timer t =>
    rw [analyzeItem, SemanticResult.errors_append, List.nil_append] at hnone
    exact (@errors_analyzeBody F source {} t.body []).mp hnone

theorem not_stray_of_values {e : RuntimeError F} (h : e.OfValues) : ¬ (Stop.error e).Stray := by
  cases e with
  | break_ => exact h.elim
  | continue_ => exact h.elim
  | _ => exact id

def NotStray (inLoop : Bool) (stop : Stop F) : Prop := stop.Stray → inLoop = true

theorem lets_notStray : Lets (NotStray : Bool → Stop F → Prop) where
  values _ _ he hstray := absurd hstray (not_stray_of_values he)
  panic _ := False.elim
  halt _ := False.elim
  return_ _ _ := False.elim
  loopLimit _ := False.elim
  aliasRecursionLimit _ := False.elim
  loop _ stop _ := by
    by_cases hstray : stop.Stray
    · exact .inl hstray
    · exact .inr fun h => absurd h hstray
  body _ _ h hstray := absurd (h hstray) Bool.false_ne_true

theorem breaksInLoops_implies : (breaksInLoops : BlockCheck F).Implies (letsOut NotStray) where
  expr _ _ _ _ _ := .inr False.elim
  leaf place s h := by
    cases s with
    | command s => exact fun _ _ => .inr False.elim
    | varDecl s => exact fun _ _ => .inr False.elim
    | set s => exact fun _ _ => .inr False.elim
    | return_ s => exact fun _ _ _ _ => .inr False.elim
    | exprStatement s => exact fun _ _ => .inr False.elim
    | break_ span => exact fun _ => h
    | continue_ span => exact fun _ => h
    | if_ s => exact h
    | while_ s => exact h
  declares _ := rfl

namespace Interpreter

variable [Platform F] [Library F] {H : Type} {aliases : Option (AliasRegistry F)}
  {handle : Str → List (Value F) → H → Except (RuntimeError F) PUnit × H}

/-- Bodies that leave loops inside loops let out neither `break` nor `continue`. -/
theorem confines_exec
    (hhandle : ∀ name args client e, (handle name args client).1 = .error e → ¬ (Stop.error e).Stray)
    (hregistry : ∀ registry name body, aliases = some registry → registry.get name = some body →
      breaksInLoops.stmts {} body)
    {ss : List (Statement F)} (hss : breaksInLoops.stmts {} ss) (n : ℕ) :
    Confines NotStray aliases {} (exec (libraryHost handle) n ss) := by
  induction n generalizing ss with
  | zero => exact ⟨by rintro it r it' ⟨⟩, by rintro it e it' - ⟨⟩⟩
  | succ n ih =>
    have hrules : StmtRules (letsOut NotStray) (libraryHost handle) (libraryHost handle) _ _ n
        (fun place _ x _ => Confines NotStray aliases place x) :=
      stmtRules_confines lets_notStray n (fun _ _ _ _ => FunctionRegistry.call_error)
        (fun _ name args client e he hstray => absurd hstray (hhandle name args client e he))
        fun registry name body hregistered hget => ih (hregistry registry name body hregistered hget)
    exact hrules.execStmts ss (breaksInLoops_implies.stmts ss hss)

/-- **No stray break or continue.** When the analyser finds no errors in scripts, and aliases have
bodies of these scripts, no execution of a body of them ends with `break` or `continue`. -/
theorem exec_not_stray {scripts : List (Str × Script F)}
    (haccepted : ∀ entry ∈ scripts, (SemanticAnalyzer.analyze entry.1 entry.2).errors = [])
    (hhandle : ∀ name args client e, (handle name args client).1 = .error e → ¬ (Stop.error e).Stray)
    {it it' : Interpreter F RegexState H}
    (hregistry : ∀ registry name body, it.aliases = some registry → registry.get name = some body →
      ∃ entry ∈ scripts, ∃ a, .alias_ a ∈ entry.2.items ∧ a.body = body)
    {entry : Str × Script F} (hentry : entry ∈ scripts) {item : TopLevelItem F}
    (hitem : item ∈ entry.2.items) {n : ℕ} {r : Except (Stop F) (Value F)}
    (hrun : exec (libraryHost handle) n item.body it = some (r, it')) :
    r ≠ .error (.error .break_) ∧ r ≠ .error (.error .continue_) := by
  have hbodies (registry : AliasRegistry F) (name : Str) (body : List (Statement F))
      (hregistered : it.aliases = some registry) (hget : registry.get name = some body) :
      breaksInLoops.stmts {} body := by
    obtain ⟨entry, hentry, a, ha, rfl⟩ := hregistry registry name body hregistered hget
    exact breaksInLoops_body (haccepted entry hentry) ha
  have hconfines := confines_exec hhandle hbodies (breaksInLoops_body (haccepted entry hentry) hitem) n
  have hknows : Knows it.aliases [] it := ⟨rfl, by simp⟩
  constructor
  · rintro rfl
    exact Bool.false_ne_true (hconfines.fails it _ it' hknows hrun trivial)
  · rintro rfl
    exact Bool.false_ne_true (hconfines.fails it _ it' hknows hrun trivial)

section Examples

local instance analyzedPlatform : Platform Unit := integersOnly

/-- A library without floating-point numbers and regular expressions. -/
@[reducible] def plainLibrary : Library Unit where
  toUppercase s := s.map Char.toUpper
  toInt _ := 0
  regex _ := .error []

local instance analyzedLibrary : Library Unit := plainLibrary

def leaveLoop : List (Statement Unit) :=
  [.while_ ⟨.boolLiteral true default, [.command ⟨"leave".toList, [], default⟩, .break_ default], default⟩]

/-- `alias leave { while (true) { break } }  alias twice { while (true) { leave  break } }` -/
def leaveScript : Script Unit where
  items :=
    [.alias_ ⟨"leave".toList, [.while_ ⟨.boolLiteral true default, [.break_ default], default⟩],
      default⟩, .alias_ ⟨"twice".toList, leaveLoop, default⟩]
  span := default

def knowsLeave : Interpreter Unit RegexState Unit where
  env := {}
  cmdHandler := ()
  builtinCtx := {}
  regexState := {}
  aliases := some (FoldMap.empty.insert "leave".toList
    [.while_ ⟨.boolLiteral true default, [.break_ default], default⟩])

/-- A loop that calls an alias with a loop of its own is left once. -/
theorem leaveLoop_not_stray :
    ∃ r it', exec (libraryHost silentHost.handleCommand) 3 leaveLoop knowsLeave = some (r, it') ∧
      r ≠ .error (.error .break_) ∧ r ≠ .error (.error .continue_) := by
  have hrun : ∃ r it', exec (libraryHost silentHost.handleCommand) 3 leaveLoop knowsLeave =
      some (r, it') := ⟨_, _, rfl⟩
  obtain ⟨r, it', hrun⟩ := hrun
  have hentry : (([], leaveScript) : Str × Script Unit) ∈ [([], leaveScript)] := List.mem_cons_self
  refine ⟨r, it', hrun, exec_not_stray ?_ ?_ ?_ hentry
    (List.mem_cons_of_mem _ List.mem_cons_self : _ ∈ leaveScript.items) hrun⟩
  · simp only [List.mem_singleton, forall_eq]
    decide
  · rintro name args client e ⟨⟩
  · rintro registry name body ⟨⟩ hget
    rw [FoldMap.get_insert] at hget
    split_ifs at hget
    · cases hget
      exact ⟨_, hentry, _, List.mem_cons_self, rfl⟩
    · cases hget

end Examples

end Interpreter

end Pirc.Scripting
