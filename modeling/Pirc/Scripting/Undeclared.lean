import Pirc.Scripting.Semantic

/-!
# Scripts: undeclared variables

The analyser keeps what is declared in a block behind it, while the interpreter drops the scope of
the block. So the warnings of undeclared variables are missing where a variable is declared in a
block only, and there it may be undefined. Where each variable is declared in the block or around
it, there are no warnings, and none of the variables that a body reads is undefined.
-/

namespace Pirc.Scripting

open Protocol (Str)

variable {F : Type}

/-! ## Warnings -/

/-- The variables that warnings name. -/
def undeclaredNames (warnings : List SemanticWarning) : List Str :=
  warnings.filterMap fun
    | .undeclaredLocal name _ _ => some name
    | _ => none

section Warnings

variable {source : Str}

@[simp] theorem undeclaredNames_append (found more : List SemanticWarning) :
    undeclaredNames (found ++ more) = undeclaredNames found ++ undeclaredNames more :=
  List.filterMap_append

@[simp] theorem undeclaredNames_undeclared (declared : List Str) (name : Str) (span : Span) :
    undeclaredNames (undeclared source declared name span) = [name].filter (· ∉ declared) := by
  unfold undeclared
  by_cases h : name ∈ declared
  · rw [if_pos h, List.filter_cons_of_neg (by simp [h])]
    rfl
  · rw [if_neg h, List.filter_cons_of_pos (by simp [h])]
    rfl

@[simp] theorem undeclaredNames_unknown (name : Str) (span : Span) :
    undeclaredNames (unknown source name span) = [] := by
  unfold unknown
  split_ifs <;> rfl

mutual

theorem undeclaredNames_analyzeExpression (declared : List Str) : ∀ e : Expression F,
    undeclaredNames (analyzeExpression source declared e) = e.locals.filter (· ∉ declared)
  | .variable_ name span => undeclaredNames_undeclared declared name span
  | .builtinId name span => undeclaredNames_unknown name span
  | .functionCall name args span => by
    simp only [analyzeExpression, undeclaredNames_append, undeclaredNames_unknown, List.nil_append,
      undeclaredNames_analyzeArgs declared args, Expression.locals]
  | .binaryOp left _ right _ => by
    simp only [analyzeExpression, undeclaredNames_append, List.filter_append, Expression.locals,
      undeclaredNames_analyzeExpression declared left, undeclaredNames_analyzeExpression declared right]
  | .unaryOp _ operand _ => undeclaredNames_analyzeExpression declared operand
  | .grouped e _ => undeclaredNames_analyzeExpression declared e
  | .interpolated parts _ => undeclaredNames_analyzeParts declared parts
  | .globalVariable _ _ | .stringLiteral _ _ | .numberLiteral _ _ | .intLiteral _ _ | .boolLiteral _ _
  | .identifier _ _ => rfl

theorem undeclaredNames_analyzeArgs (declared : List Str) : ∀ es : List (Expression F),
    undeclaredNames (analyzeArgs source declared es) = (localsOfAll es).filter (· ∉ declared)
  | [] => rfl
  | e :: es => by
    simp only [analyzeArgs, undeclaredNames_append, List.filter_append, localsOfAll,
      undeclaredNames_analyzeExpression declared e, undeclaredNames_analyzeArgs declared es]

theorem undeclaredNames_analyzeParts (declared : List Str) : ∀ parts : List (StringPart F),
    undeclaredNames (analyzeParts source declared parts) = (localsOfParts parts).filter (· ∉ declared)
  | [] => rfl
  | .literal _ :: parts => undeclaredNames_analyzeParts declared parts
  | .expr e :: parts => by
    simp only [analyzeParts, undeclaredNames_append, List.filter_append, localsOfParts,
      undeclaredNames_analyzeExpression declared e, undeclaredNames_analyzeParts declared parts]

end

/-! ### Statements -/

theorem filter_eq_nil_of_subset {names place declared : List Str} (hnames : ∀ name ∈ names, name ∈ place)
    (hplace : place ⊆ declared) : names.filter (· ∉ declared) = [] := by
  refine List.filter_eq_nil_iff.mpr fun name hname => ?_
  simp only [decide_not, Bool.not_eq_true', decide_eq_false_iff_not, not_not]
  exact hplace (hnames name hname)

mutual

theorem declared_analyzeStatement {inLoop : Bool} : ∀ (s : Statement F) (declared : List Str),
    declared ⊆ (analyzeStatement source inLoop declared s).1
  | .varDecl s, declared => by
    rw [analyzeStatement]
    dsimp only
    split_ifs
    · exact List.Subset.refl _
    · exact List.subset_cons_self _ _
  | .set s, declared => by
    rw [analyzeStatement]
    dsimp only
    split_ifs
    · exact List.Subset.refl _
    · exact List.subset_cons_self _ _
  | .if_ ⟨_, thenBody, branches, otherwise, _⟩, declared =>
    List.Subset.trans (declared_analyzeBody thenBody declared)
      (List.Subset.trans (declared_analyzeBranches branches _) (declared_analyzeElse otherwise _))
  | .while_ ⟨_, body, _⟩, declared => declared_analyzeBody body declared
  | .break_ _, _ | .continue_ _, _ | .return_ _, _ | .command _, _ | .exprStatement _, _ =>
    List.Subset.refl _

theorem declared_analyzeBranches {inLoop : Bool} :
    ∀ (branches : List (ElseIfBranch F (Statement F))) (declared : List Str),
      declared ⊆ (analyzeBranches source inLoop declared branches).1
  | [], _ => List.Subset.refl _
  | ⟨_, body, _⟩ :: branches, declared =>
    List.Subset.trans (declared_analyzeBody body declared) (declared_analyzeBranches branches _)

theorem declared_analyzeElse {inLoop : Bool} :
    ∀ (otherwise : Option (List (Statement F))) (declared : List Str),
      declared ⊆ (analyzeElse source inLoop declared otherwise).1
  | some body, declared => declared_analyzeBody body declared
  | none, _ => List.Subset.refl _

theorem declared_analyzeBody {inLoop : Bool} : ∀ (ss : List (Statement F)) (declared : List Str),
    declared ⊆ (analyzeBody source inLoop declared ss).1
  | [], _ => List.Subset.refl _
  | s :: ss, declared =>
    List.Subset.trans (declared_analyzeStatement s declared) (declared_analyzeBody ss _)

end

theorem declarations_subset {inLoop : Bool} (s : Statement F) (declared : List Str) :
    declarations true s ⊆ (analyzeStatement source inLoop declared s).1 := by
  cases s with
  | varDecl s =>
    rw [declarations, analyzeStatement]
    dsimp only
    split_ifs
    · exact List.nil_subset _
    · exact List.cons_subset_cons _ (List.nil_subset _)
  | set s =>
    rw [declarations, analyzeStatement]
    cases s.global with
    | true => exact List.nil_subset _
    | false => exact List.cons_subset_cons _ (List.nil_subset _)
  | _ => exact List.nil_subset _

theorem undeclaredNames_of_declared {place declared : List Str} {e : Expression F}
    (hlocals : ∀ name ∈ e.locals, name ∈ place) (hplace : place ⊆ declared) :
    undeclaredNames (analyzeExpression source declared e) = [] := by
  rw [undeclaredNames_analyzeExpression]
  exact filter_eq_nil_of_subset hlocals hplace

mutual

theorem undeclaredNames_analyzeStatement {calls : Str → Prop} {place : Place} {inLoop : Bool} :
    ∀ (s : Statement F) {declared : List Str}, place.declared ⊆ declared →
      (declaredFirst true calls).stmt place s →
        undeclaredNames (analyzeStatement source inLoop declared s).2.warnings = []
  | .varDecl s, declared, hplace, h => by
    rw [analyzeStatement]
    exact undeclaredNames_of_declared h hplace
  | .set s, declared, hplace, h => by
    rw [analyzeStatement]
    exact undeclaredNames_of_declared h.1 hplace
  | .command s, declared, hplace, h => by
    rw [analyzeStatement, undeclaredNames_analyzeArgs]
    exact filter_eq_nil_of_subset h.2 hplace
  | .exprStatement s, declared, hplace, h => by
    rw [analyzeStatement]
    exact undeclaredNames_of_declared h hplace
  | .return_ ⟨none, _⟩, _, _, _ => rfl
  | .return_ ⟨some e, _⟩, declared, hplace, h => by
    rw [analyzeStatement]
    exact undeclaredNames_of_declared (h e rfl) hplace
  | .break_ _, _, _, _ | .continue_ _, _, _, _ => rfl
  | .while_ ⟨condition, body, _⟩, declared, hplace, h => by
    simp only [analyzeStatement, SemanticResult.warnings_append, undeclaredNames_append,
      undeclaredNames_of_declared h.1 hplace,
      List.nil_append]
    exact @undeclaredNames_analyzeBody calls place.loop true body declared hplace h.2
  | .if_ ⟨condition, thenBody, branches, otherwise, _⟩, declared, hplace, h => by
    have hthen : place.declared ⊆ (analyzeBody source inLoop declared thenBody).1 :=
      List.Subset.trans hplace (declared_analyzeBody thenBody declared)
    have hbranches : place.declared ⊆
        (analyzeBranches source inLoop (analyzeBody source inLoop declared thenBody).1 branches).1 :=
      List.Subset.trans hthen (declared_analyzeBranches branches _)
    simp only [analyzeStatement, SemanticResult.warnings_append, undeclaredNames_append,
      undeclaredNames_of_declared h.1 hplace,
      undeclaredNames_analyzeBody thenBody hplace h.2.1,
      undeclaredNames_analyzeBranches branches hthen h.2.2.1, List.nil_append]
    exact undeclaredNames_analyzeElse otherwise hbranches h.2.2.2

theorem undeclaredNames_analyzeBranches {calls : Str → Prop} {place : Place} {inLoop : Bool} :
    ∀ (branches : List (ElseIfBranch F (Statement F))) {declared : List Str},
      place.declared ⊆ declared → (declaredFirst true calls).elseIfs place branches →
        undeclaredNames (analyzeBranches source inLoop declared branches).2.warnings = []
  | [], _, _, _ => rfl
  | ⟨condition, body, _⟩ :: branches, declared, hplace, h => by
    have hbody : place.declared ⊆ (analyzeBody source inLoop declared body).1 :=
      List.Subset.trans hplace (declared_analyzeBody body declared)
    simp only [analyzeBranches, SemanticResult.warnings_append, undeclaredNames_append,
      undeclaredNames_of_declared h.1 hplace,
      undeclaredNames_analyzeBody body hplace h.2.1, List.nil_append]
    exact undeclaredNames_analyzeBranches branches hbody h.2.2

theorem undeclaredNames_analyzeElse {calls : Str → Prop} {place : Place} {inLoop : Bool} :
    ∀ (otherwise : Option (List (Statement F))) {declared : List Str}, place.declared ⊆ declared →
      (declaredFirst true calls).orElse place otherwise →
        undeclaredNames (analyzeElse source inLoop declared otherwise).2.warnings = []
  | some body, _, hplace, h => undeclaredNames_analyzeBody body hplace h
  | none, _, _, _ => rfl

/-- **No variable is undeclared** where each is declared first. -/
theorem undeclaredNames_analyzeBody {calls : Str → Prop} {place : Place} {inLoop : Bool} :
    ∀ (ss : List (Statement F)) {declared : List Str}, place.declared ⊆ declared →
      (declaredFirst true calls).stmts place ss →
        undeclaredNames (analyzeBody source inLoop declared ss).2.warnings = []
  | [], _, _, _ => rfl
  | s :: ss, declared, hplace, h => by
    have hdeclared : (place.declare (declarations true s)).declared ⊆
        (analyzeStatement source inLoop declared s).1 :=
      List.append_subset.mpr ⟨declarations_subset s declared,
        List.Subset.trans hplace (declared_analyzeStatement s declared)⟩
    simp only [analyzeBody, SemanticResult.warnings_append, undeclaredNames_append,
      undeclaredNames_analyzeStatement s hplace h.1, List.nil_append]
    exact undeclaredNames_analyzeBody ss hdeclared h.2

end

end Warnings

/-! ## Commands that hide their undefined variables -/

def RuntimeError.hidden : RuntimeError F → RuntimeError F
  | .undefinedVariable _ => .halt
  | e => e

def Hides (e e' : RuntimeError F) : Prop := e' = e ∨ ∃ name, e = .undefinedVariable name ∧ e' = .halt

theorem hides_hidden (e : RuntimeError F) : Hides e e.hidden := by
  cases e with
  | undefinedVariable name => exact .inr ⟨name, rfl, rfl⟩
  | _ => exact .inl rfl

theorem hidden_ne {e : RuntimeError F} (name : Str) : e.hidden ≠ .undefinedVariable name := by
  cases e <;> rintro ⟨⟩

inductive Stop.Hides : Stop F → Stop F → Prop
  | error {e e' : RuntimeError F} (h : Scripting.Hides e e') : Hides (.error e) (.error e')
  | panic : Hides .panic .panic

instance : Std.Refl (Stop.Hides : Stop F → Stop F → Prop) where
  refl stop := by
    cases stop with
    | error e => exact .error (.inl rfl)
    | panic => exact .panic

def Host.hideCommands {R H : Type} (host : Host F R H) : Host F R H where
  call := host.call
  handleCommand name args client :=
    ((host.handleCommand name args client).1.mapError RuntimeError.hidden,
      (host.handleCommand name args client).2)

namespace Interpreter

variable [Platform F] {R H : Type}

/-- The execution, with undefined variables hidden. -/
def hide {α : Type} (x : Exec F R H α) : Exec F R H α := fun it =>
  (x it).map fun (r, it') =>
    (match r with
      | .error (.error e) => .error (.error e.hidden)
      | r => r, it')

/-- **The execution of a body in which commands hide their undefined variables**: those of the
client, and the bodies of aliases. -/
def execOwn (host : Host F R H) (n : ℕ) (ss : List (Statement F)) : Exec F R H (Value F) :=
  execStmts host.hideCommands (fun body => hide (exec host n body)) n .null ss

section Tracks

open Partial (Tracks Alike tracks_pure tracks_throw tracks_modify tracks_get_bind tracks_refl)

variable {host : Host F R H} {α β : Type}

theorem tracks_hide (x : Exec F R H α) : Tracks Eq Stop.Hides x (hide x) := by
  intro it
  unfold hide
  rcases x it with - | ⟨(e | -) | a, it'⟩
  · exact .none
  · exact .some ⟨.error (.error (hides_hidden e)), rfl⟩
  · exact .some ⟨.error .panic, rfl⟩
  · exact .some ⟨.ok rfl, rfl⟩

theorem tracks_attempt {x y : Exec F R H α} (h : Tracks Eq Stop.Hides x y) :
    Tracks (Alike Eq Hides) Stop.Hides (attempt x) (attempt y) := by
  intro it
  have hrun := h it
  unfold attempt
  generalize x it = o at hrun
  generalize y it = o' at hrun
  cases hrun with
  | none => exact .none
  | @some o o' h =>
    obtain ⟨r, it'⟩ := o
    obtain ⟨r', after⟩ := o'
    obtain ⟨halike, rfl⟩ : Alike Eq Stop.Hides r r' ∧ after = it' := h
    cases halike with
    | ok ha => exact .some ⟨.ok (.ok ha), rfl⟩
    | error hstop =>
      cases hstop with
      | error he => exact .some ⟨.ok (.error he), rfl⟩
      | panic => exact .some ⟨.error .panic, rfl⟩

theorem tracks_inScope {x y : Exec F R H α} (h : Tracks Eq Stop.Hides x y) :
    Tracks (Alike Eq Hides) Stop.Hides (inScope x) (inScope y) := by
  refine (tracks_refl pushScope).bind fun _ _ _ => ?_
  refine (tracks_attempt h).bind fun result result' hresult => ?_
  exact (tracks_refl popScope).bind fun _ _ _ => tracks_pure hresult

theorem tracks_resume {result result' : Except (RuntimeError F) α} (h : Alike Eq Hides result result') :
    Tracks Eq Stop.Hides (resume result : Exec F R H α) (resume result') := by
  cases h with
  | ok ha => exact tracks_pure ha
  | error he => exact tracks_throw (.error he)

theorem exprRules_tracks : ExprRules host host.hideCommands (fun _ => True)
    (Tracks Eq Stop.Hides : ∀ {α : Type}, Exec F R H α → Exec F R H α → Prop) where
  returns _ := tracks_pure rfl
  sequence hx hf := hx.bind fun a _ ha => ha ▸ hf a
  variable_ _ _ _ := tracks_refl _
  globalVariable _ _ := tracks_refl _
  builtinId _ _ := tracks_refl _
  callFunction _ _ := tracks_refl _
  binary _ _ _ := tracks_refl _
  unary _ _ := tracks_refl _

variable {runBody : List (Statement F) → Exec F R H (Value F)}

theorem tracks_execAliasCall (body : List (Statement F)) (args : List (Value F)) :
    Tracks Eq Stop.Hides (execAliasCall runBody body args)
      (execAliasCall (fun body => hide (runBody body)) body args) := by
  refine tracks_get_bind fun it => ?_
  split_ifs
  · exact tracks_refl _
  refine (tracks_refl (set _)).bind fun _ _ _ => (tracks_refl (record _)).bind fun _ _ _ => ?_
  refine (tracks_inScope (tracks_hide (runBody body))).bind fun result result' hresult => ?_
  refine (tracks_modify _).bind fun _ _ _ => ?_
  cases hresult with
  | ok ha => exact tracks_pure rfl
  | error he =>
    rcases he with rfl | ⟨name, rfl, rfl⟩
    · exact tracks_refl _
    · exact tracks_throw (.error (.inr ⟨name, rfl, rfl⟩))

theorem tracks_handleCommand (name : Str) (args : List (Value F)) :
    Tracks Eq Stop.Hides (handleCommand host name args) (handleCommand host.hideCommands name args) := by
  refine tracks_get_bind fun it => (tracks_modify _).bind fun _ _ _ => ?_
  have hresult : (host.hideCommands.handleCommand name args it.cmdHandler).1 =
      (host.handleCommand name args it.cmdHandler).1.mapError RuntimeError.hidden := rfl
  rw [hresult]
  cases (host.handleCommand name args it.cmdHandler).1 with
  | ok _ => exact tracks_pure rfl
  | error e => exact tracks_throw (.error (hides_hidden e))

theorem tracks_execCommand (s : CommandStatement F) :
    Tracks Eq Stop.Hides (execCommand host runBody s)
      (execCommand host.hideCommands (fun body => hide (runBody body)) s) := by
  rw [execCommand_eq, execCommand_eq]
  refine (exprRules_tracks.evalAll s.args fun _ _ => trivial).bind fun args _ hargs => hargs ▸ ?_
  refine tracks_get_bind fun it => ?_
  cases (target s.name args it.aliases : Target F R H) with
  | external => exact tracks_handleCommand s.name args
  | builtin x => exact tracks_refl x
  | alias_ body => exact tracks_execAliasCall body args

/-- **Statements** do the same when commands hide their undefined variables. -/
theorem stmtRules_tracks (rounds : ℕ) :
    StmtRules (setsOnly fun _ => True) host host.hideCommands runBody
      (fun body => hide (runBody body)) rounds (fun _ => Tracks Eq Stop.Hides) where
  returns _ _ _ := tracks_pure rfl
  sequence _ _ _ _ _ _ _ hx hf := hx.bind fun a _ ha => ha ▸ hf a
  cutOff _ := fun _ => .none
  loopLimit _ := tracks_refl _
  expr _ e _ := exprRules_tracks.evalExpr e fun _ _ => trivial
  leaf place s hs := by
    have hvalue (e : Expression F) :
        Tracks Eq Stop.Hides (evalExpr host e) (evalExpr host.hideCommands e) :=
      exprRules_tracks.evalExpr e fun _ _ => trivial
    cases s with
    | command s => exact tracks_execCommand s
    | varDecl s => exact (hvalue s.value).bind fun val _ hval => hval ▸ tracks_refl _
    | set s => exact (hvalue s.value).bind fun val _ hval => hval ▸ tracks_refl _
    | return_ s =>
      unfold Interpreter.execStmt execReturn
      dsimp only
      split
      · exact (hvalue _).bind fun val _ hval => hval ▸ tracks_refl _
      · exact tracks_refl _
    | break_ span => exact tracks_refl _
    | continue_ span => exact tracks_refl _
    | exprStatement s => exact (hvalue s.expr).bind fun _ _ _ => tracks_pure rfl
    | if_ s => exact hs.elim
    | while_ s => exact hs.elim
  next _ _ _ _ hs hf := hs.bind fun v _ hv => hv ▸ hf v
  block _ _ _ hbody := (tracks_inScope hbody).bind fun _ _ hresult => tracks_resume hresult
  round _ _ _ _ _ hbody hagain := by
    refine (tracks_inScope hbody).bind fun result result' hresult => ?_
    cases hresult with
    | ok ha => exact hagain
    | @error e e' he =>
      rcases he with rfl | ⟨name, rfl, rfl⟩
      · cases e' with
        | break_ => exact tracks_pure rfl
        | continue_ => exact hagain
        | _ => exact tracks_refl _
      · exact tracks_throw (.error (.inr ⟨name, rfl, rfl⟩))

/-- **What commands hide changes nothing else**: an execution goes through the same states, and its
outcome differs at most by an undefined variable of a command. -/
theorem tracks_execOwn (n : ℕ) (ss : List (Statement F)) :
    Tracks Eq Stop.Hides (exec host (n + 1) ss) (execOwn host n ss) :=
  (stmtRules_tracks n).execStmts ss ((@setsOnly_stmts F (fun _ => True) {}) ss fun _ _ => trivial)

end Tracks

/-! ## Undefined variables -/

/-- **Where an execution ends with an undefined variable, it is one of a command**: when commands
hide theirs, none is left. -/
def OwnReadsDefined (host : Host F R H) (ss : List (Statement F)) (it : Interpreter F R H) : Prop :=
  ∀ n name it', exec host (n + 1) ss it = some (.error (.error (.undefinedVariable name)), it') →
    execOwn host n ss it = some (.error (.error .halt), it')

def NotUndefined (_ : Bool) (stop : Stop F) : Prop := ∀ name, stop ≠ .error (.undefinedVariable name)

omit [Platform F] in
theorem lets_notUndefined : Lets (NotUndefined : Bool → Stop F → Prop) where
  values _ e he := by
    rintro name ⟨⟩
    exact he
  panic _ := by rintro name ⟨⟩
  halt _ := by rintro name ⟨⟩
  return_ _ _ := by rintro name ⟨⟩
  loopLimit _ := by rintro name ⟨⟩
  aliasRecursionLimit _ := by rintro name ⟨⟩
  loop _ _ h := .inr h
  body _ _ h := h

omit [Platform F] in
theorem declaredFirst_implies :
    (declaredFirst true fun _ => True : BlockCheck F).Implies (letsOut NotUndefined) where
  expr _ _ h name hname := .inl (h name hname)
  leaf place s h := by
    cases s with
    | command s => exact fun name hname => .inl (h.2 name hname)
    | varDecl s => exact fun name hname => .inl (h name hname)
    | set s => exact fun name hname => .inl (h.1 name hname)
    | return_ s => exact fun e he name hname => .inl (h e he name hname)
    | exprStatement s => exact fun name hname => .inl (h name hname)
    | break_ span => rintro name ⟨⟩
    | continue_ span => rintro name ⟨⟩
    | if_ s => exact h
    | while_ s => exact h
  declares _ := rfl

section Confines

variable {aliases : Option (AliasRegistry F)} {host : Host F R H}

theorem confines_hide {α : Type} {place : Place} {x : Exec F R H α}
    (hx : Balances (fun _ => True) aliases x) : Confines NotUndefined aliases place (hide x) where
  balances it r it' hrun hr := by
    obtain ⟨⟨r', after⟩, hbody, heq⟩ := Option.map_eq_some_iff.mp hrun
    obtain ⟨rfl, rfl⟩ := Prod.mk.inj heq
    refine hx it r' after hbody ?_
    rintro rfl
    exact hr rfl
  fails it stop it' _ hrun name := by
    rintro rfl
    obtain ⟨⟨r', after⟩, -, heq⟩ := Option.map_eq_some_iff.mp hrun
    rcases r' with (e | -) | v
    · exact hidden_ne name (Stop.error.inj (Except.error.inj (Prod.mk.inj heq).1))
    · cases heq
    · cases heq

/-- **None of the variables that a body reads is undefined** where each is declared first. -/
theorem confines_execOwn
    (hcall : ∀ name args captures e, (host.call name args captures).1 = .error e → e.OfValues)
    {ss : List (Statement F)} (hss : (declaredFirst true fun _ => True).stmts {} ss) (n : ℕ) :
    Confines NotUndefined aliases {} (execOwn host n ss) := by
  have hhandle (name : Str) (args : List (Value F)) (client : H) (missing : Str) :
      (host.hideCommands.handleCommand name args client).1 ≠ .error (.undefinedVariable missing) := by
    change (host.handleCommand name args client).1.mapError RuntimeError.hidden ≠ _
    cases (host.handleCommand name args client).1 with
    | ok _ => rintro ⟨⟩
    | error e => exact fun heq => hidden_ne missing (Except.error.inj heq)
  let runBody : List (Statement F) → Exec F R H (Value F) := fun body => hide (exec host n body)
  have hrules : StmtRules (letsOut NotUndefined) host.hideCommands host.hideCommands runBody runBody
      n (fun place _ x _ => Confines NotUndefined aliases place x) := by
    refine stmtRules_confines lets_notUndefined n hcall ?_ fun registry name body _ _ => ?_
    · rintro _ name args client e he missing heq
      exact hhandle name args client missing (he.trans (congrArg Except.error (Stop.error.inj heq)))
    · exact confines_hide (balances_exec (fun _ _ _ _ _ _ _ => trivial) (fun _ _ => trivial) n)
  exact hrules.execStmts ss (declaredFirst_implies.stmts ss hss)

end Confines

/-- **The check of undeclared variables is sound** where each variable is read only behind a
declaration in its block or around it: there are no warnings, and no execution ends with an
undefined variable that the body reads itself. -/
theorem own_reads_defined [Library F] {source : Str} {ss : List (Statement F)}
    (hss : (declaredFirst true fun _ => True).stmts {} ss)
    (handle : Str → List (Value F) → H → Except (RuntimeError F) PUnit × H)
    (it : Interpreter F RegexState H) :
    undeclaredNames (analyzeBody source false [] ss).2.warnings = [] ∧
      OwnReadsDefined (libraryHost handle) ss it := by
  refine ⟨undeclaredNames_analyzeBody ss (List.Subset.refl _) hss, fun n name it' hrun => ?_⟩
  have htracks : Option.Rel _ (exec (libraryHost handle) (n + 1) ss it)
      (execOwn (libraryHost handle) n ss it) :=
    tracks_execOwn n ss it
  have hown : Confines NotUndefined it.aliases {} (execOwn (libraryHost handle) n ss) :=
    confines_execOwn (fun _ _ _ _ => FunctionRegistry.call_error) hss n
  have hfails := hown.fails it
  rw [hrun] at htracks
  generalize execOwn (libraryHost handle) n ss it = o at htracks hfails
  cases htracks with
  | @some _ o h =>
    obtain ⟨r, after⟩ := o
    obtain ⟨halike, rfl⟩ := h
    cases halike with
    | error hstop =>
      cases hstop with
      | error he =>
        rcases he with rfl | ⟨_, -, rfl⟩
        · exact absurd rfl (hfails _ after ⟨rfl, by simp⟩ rfl name)
        · rfl

section Examples

local instance undeclaredPlatform : Platform Unit := integersOnly

local instance undeclaredLibrary : Library Unit := plainLibrary

/-- `var %x = 1  echo %x` -/
def declaredBefore : List (Statement Unit) :=
  [.varDecl ⟨"x".toList, false, .intLiteral 1 default, default⟩,
    .command ⟨"echo".toList, [.variable_ "x".toList default], default⟩]

def noVariables : Interpreter Unit RegexState Unit where
  env := {}
  cmdHandler := ()
  builtinCtx := {}
  regexState := {}

theorem declaredBefore_defined :
    undeclaredNames (analyzeBody [] false [] declaredBefore).2.warnings = [] ∧
      OwnReadsDefined (libraryHost silentHost.handleCommand) declaredBefore noVariables := by
  refine own_reads_defined ?_ silentHost.handleCommand noVariables
  simp [declaredFirst, declarations, declaredBefore, BlockCheck.stmts, BlockCheck.stmt,
    Place.declare, Expression.locals, localsOfAll]

/-- `if (false) { var %x = 1 }  echo %x` -/
def declaredInBlock : List (Statement Unit) :=
  [.if_ ⟨.boolLiteral false default,
      [.varDecl ⟨"x".toList, false, .intLiteral 1 default, default⟩], [], none, default⟩,
    .command ⟨"echo".toList, [.variable_ "x".toList default], default⟩]

/-- Nobody warns of the variable, and it is undefined. -/
theorem declaredInBlock_undefined :
    ¬ ∀ (ss : List (Statement Unit)) (it : Interpreter Unit RegexState Unit),
      undeclaredNames (analyzeBody [] false [] ss).2.warnings = [] → (∀ name, it.env.getLocal name = none) →
        OwnReadsDefined (libraryHost silentHost.handleCommand) ss it := by
  intro halways
  have hhalt := halways declaredInBlock noVariables (by decide) (fun _ => rfl) 1 _ _ rfl
  cases hhalt

end Examples

end Interpreter

end Pirc.Scripting
