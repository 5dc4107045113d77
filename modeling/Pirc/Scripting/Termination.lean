import Pirc.Lib.Partial
import Pirc.Scripting.Interpreter

/-!
# Scripts: every execution ends

An execution is cut off by a count of rounds and nested bodies. A larger count changes nothing where
the execution was not cut off, and a count above the limits of the interpreter never cuts it off:
loops stop at their limit, and bodies of aliases nest at most to their depth. Then the execution
ends, and with a panic only where the result of an operator has no place.
-/

namespace Pirc.Scripting

open Protocol (Str)

namespace Interpreter

variable {F : Type} [Platform F] {R H α β : Type}

theorem bind_apply (x : Exec F R H α) (f : α → Exec F R H β) (it : Interpreter F R H) :
    (x >>= f) it =
      match x it with
      | some (.ok a, it') => f a it'
      | some (.error e, it') => some (.error e, it')
      | none => none := by
  refine (Partial.bind_run x f it).trans ?_
  rcases x it with - | ⟨e | a, it'⟩
  · rfl
  · rfl
  · rfl

/-! ## The count does not matter -/

/-- What is not cut off is done alike. -/
def Refines (x y : Exec F R H α) : Prop := ∀ it r, x it = some r → y it = some r

theorem Refines.refl (x : Exec F R H α) : Refines x x := fun _ _ h => h

theorem Refines.bind {x y : Exec F R H α} {f g : α → Exec F R H β} (hx : Refines x y)
    (hf : ∀ a, Refines (f a) (g a)) : Refines (x >>= f) (y >>= g) := by
  intro it r h
  rw [bind_apply] at h ⊢
  cases hrun : x it with
  | none =>
    rw [hrun] at h
    cases h
  | some result =>
    rw [hrun] at h
    rw [hx it result hrun]
    obtain ⟨e | a, it'⟩ := result
    · exact h
    · exact hf a it' r h

theorem Refines.attempt {x y : Exec F R H α} (hx : Refines x y) :
    Refines (attempt x) (attempt y) := by
  intro it r h
  unfold Interpreter.attempt at h ⊢
  cases hrun : x it with
  | none =>
    rw [hrun] at h
    cases h
  | some result =>
    rw [hrun] at h
    rw [hx it result hrun]
    exact h

theorem Refines.inScope {x y : Exec F R H α} (hx : Refines x y) :
    Refines (inScope x) (inScope y) :=
  (Refines.refl _).bind fun _ => hx.attempt.bind fun _ => Refines.refl _

theorem refines_cutOff (x : Exec F R H α) : Refines cutOff x := by
  rintro it r ⟨⟩

theorem Refines.ite {c : Prop} [Decidable c] {x y x' y' : Exec F R H α} (hx : Refines x x')
    (hy : Refines y y') : Refines (if c then x else y) (if c then x' else y') := by
  split_ifs
  · exact hx
  · exact hy

theorem refines_execLoop {condition body body' : Exec F R H (Value F)} (hbody : Refines body body')
    {n m : ℕ} (hnm : n ≤ m) (iterations : ℕ) :
    Refines (execLoop condition body n iterations) (execLoop condition body' m iterations) := by
  induction n generalizing m iterations with
  | zero => exact refines_cutOff _
  | succ n ih =>
    obtain ⟨m, rfl⟩ : ∃ m', m = m' + 1 := ⟨m - 1, by omega⟩
    unfold execLoop
    refine (Refines.refl _).bind fun cond => ?_
    refine Refines.ite (Refines.refl _) (Refines.ite (Refines.refl _) ?_)
    refine hbody.inScope.bind fun result => ?_
    split
    · exact ih (by omega) _
    · exact ih (by omega) _
    · exact Refines.refl _
    · exact Refines.refl _

variable {host : Host F R H} {runBody runBody' : List (Statement F) → Exec F R H (Value F)}

theorem refines_execAliasCall (hrun : ∀ body, Refines (runBody body) (runBody' body))
    (body : List (Statement F)) (args : List (Value F)) :
    Refines (execAliasCall runBody body args) (execAliasCall runBody' body args) := by
  unfold execAliasCall
  refine (Refines.refl _).bind fun it => Refines.ite (Refines.refl _) ?_
  refine (Refines.refl _).bind fun _ => (Refines.refl _).bind fun _ => ?_
  exact (hrun body).inScope.bind fun _ => Refines.refl _

theorem refines_execCommand (hrun : ∀ body, Refines (runBody body) (runBody' body))
    (s : CommandStatement F) :
    Refines (execCommand host runBody s) (execCommand host runBody' s) := by
  unfold execCommand
  refine (Refines.refl _).bind fun args => (Refines.refl _).bind fun it => ?_
  split
  · exact Refines.refl _
  · split
    · exact Refines.refl _
    · split
      · exact refines_execAliasCall hrun _ args
      · exact Refines.refl _

mutual

theorem refines_execStmt (hrun : ∀ body, Refines (runBody body) (runBody' body)) {n m : ℕ}
    (hnm : n ≤ m) : ∀ stmt : Statement F,
      Refines (execStmt host runBody n stmt) (execStmt host runBody' m stmt)
  | .varDecl _ | .set _ | .return_ _ | .break_ _ | .continue_ _ | .exprStatement _ => Refines.refl _
  | .command s => refines_execCommand hrun s
  | .while_ ⟨_, body, _⟩ => refines_execLoop (refines_execStmts hrun hnm .null body) hnm 0
  | .if_ ⟨_, thenBody, branches, otherwise, _⟩ => by
    unfold execStmt
    refine (Refines.refl _).bind fun cond => Refines.ite ?_ ?_
    · exact (refines_execStmts hrun hnm .null thenBody).inScope.bind fun _ => Refines.refl _
    · exact refines_execBranches hrun hnm branches (refines_execElse hrun hnm otherwise)

theorem refines_execBranches (hrun : ∀ body, Refines (runBody body) (runBody' body)) {n m : ℕ}
    (hnm : n ≤ m) : ∀ (branches : List (ElseIfBranch F (Statement F)))
      {otherwise otherwise' : Exec F R H (Value F)}, Refines otherwise otherwise' →
      Refines (execBranches host runBody n branches otherwise)
        (execBranches host runBody' m branches otherwise')
  | [], _, _, h => h
  | ⟨_, body, _⟩ :: branches, _, _, h => by
    unfold execBranches
    refine (Refines.refl _).bind fun cond => Refines.ite ?_ ?_
    · exact (refines_execStmts hrun hnm .null body).inScope.bind fun _ => Refines.refl _
    · exact refines_execBranches hrun hnm branches h

theorem refines_execElse (hrun : ∀ body, Refines (runBody body) (runBody' body)) {n m : ℕ}
    (hnm : n ≤ m) : ∀ otherwise : Option (List (Statement F)),
      Refines (execElse host runBody n otherwise) (execElse host runBody' m otherwise)
  | some body => (refines_execStmts hrun hnm .null body).inScope.bind fun _ => Refines.refl _
  | none => Refines.refl _

theorem refines_execStmts (hrun : ∀ body, Refines (runBody body) (runBody' body)) {n m : ℕ}
    (hnm : n ≤ m) : ∀ (result : Value F) (stmts : List (Statement F)),
      Refines (execStmts host runBody n result stmts) (execStmts host runBody' m result stmts)
  | _, [] => Refines.refl _
  | _, stmt :: stmts => by
    unfold execStmts
    exact (refines_execStmt hrun hnm stmt).bind fun result => refines_execStmts hrun hnm result stmts

end

/-- **The count does not matter** where an execution is not cut off. -/
theorem exec_mono {n m : ℕ} (hnm : n ≤ m) (stmts : List (Statement F)) :
    Refines (exec host n stmts) (exec host m stmts) := by
  induction n generalizing m stmts with
  | zero => exact refines_cutOff _
  | succ n ih =>
    obtain ⟨m, rfl⟩ : ∃ m', m = m' + 1 := ⟨m - 1, by omega⟩
    exact refines_execStmts (fun body => ih (by omega) body) (by omega) .null stmts

theorem exec_unique {n m : ℕ} {stmts : List (Statement F)} {it : Interpreter F R H}
    {r r' : Except (Stop F) (Value F) × Interpreter F R H} (h : exec host n stmts it = some r)
    (h' : exec host m stmts it = some r') : r = r' := by
  have hleft := exec_mono (le_max_left n m) stmts it r h
  have hright := exec_mono (le_max_right n m) stmts it r' h'
  exact Option.some.inj (hleft.symm.trans hright)

/-! ## What an execution leaves behind -/

/-- **What an execution leaves behind**: unless it panics, the depth of aliases and the number of
scopes are what they were. It panics exactly if it carried out a step whose result has no place, and
no body of an alias began beyond the limit. -/
structure Ran (it : Interpreter F R H) (panics : Prop) (it' : Interpreter F R H) : Prop where
  depth : ¬ panics → it'.aliasDepth = it.aliasDepth
  scopes : ¬ panics → it'.env.outer.length = it.env.outer.length
  steps : ∃ new, it'.steps = it.steps ++ new ∧ (panics ↔ ∃ step ∈ new, step.Overflows) ∧
    ∀ depth, .alias_ depth ∈ new → depth ≤ maxAliasDepth

section Ran

variable {it it' it'' : Interpreter F R H} {panics panics' : Prop}

theorem ran_refl (it : Interpreter F R H) : Ran it False it where
  depth _ := rfl
  scopes _ := rfl
  steps := ⟨[], by simp, by simp, by simp⟩

theorem ran_of_eq (hdepth : it'.aliasDepth = it.aliasDepth)
    (henv : it'.env.outer.length = it.env.outer.length)
    (hsteps : it'.steps = it.steps) : Ran it False it' where
  depth _ := hdepth
  scopes _ := henv
  steps := ⟨[], by simp [hsteps], by simp, by simp⟩

theorem Ran.congr (h : Ran it panics it') (hiff : panics ↔ panics') : Ran it panics' it' := by
  rwa [propext hiff] at h

theorem Ran.trans (h : Ran it False it') (h' : Ran it' panics it'') : Ran it panics it'' := by
  obtain ⟨new, hnew, hpanics, hdepths⟩ := h.steps
  obtain ⟨new', hnew', hpanics', hdepths'⟩ := h'.steps
  refine ⟨fun hp => ?_, fun hp => ?_, new ++ new', ?_, ?_, ?_⟩
  · rw [h'.depth hp, h.depth id]
  · rw [h'.scopes hp, h.scopes id]
  · rw [hnew', hnew, List.append_assoc]
  · rw [hpanics']
    constructor
    · rintro ⟨step, hstep, hoverflow⟩
      exact ⟨step, List.mem_append_right _ hstep, hoverflow⟩
    · rintro ⟨step, hstep, hoverflow⟩
      rcases List.mem_append.mp hstep with hleft | hright
      · exact (hpanics.mpr ⟨step, hleft, hoverflow⟩).elim
      · exact ⟨step, hright, hoverflow⟩
  · intro depth hdepth
    rcases List.mem_append.mp hdepth with hleft | hright
    · exact hdepths depth hleft
    · exact hdepths' depth hright

end Ran

/-- **The execution ends**, where at most so many bodies of aliases may still nest. -/
def Ends (d : ℕ) (x : Exec F R H α) : Prop :=
  ∀ it : Interpreter F R H, maxAliasDepth ≤ it.aliasDepth + d →
    ∃ r it', x it = some (r, it') ∧ Ran it (r = .error .panic) it'

variable {d : ℕ}

omit [Platform F] in
theorem ok_iff {a : α} : False ↔ (Except.ok a : Except (Stop F) α) = .error .panic :=
  ⟨False.elim, by rintro ⟨⟩⟩

omit [Platform F] in
theorem error_iff {e : RuntimeError F} :
    False ↔ (Except.error (.error e) : Except (Stop F) α) = .error .panic :=
  ⟨False.elim, by rintro ⟨⟩⟩

theorem ends_pure (a : α) : Ends d (pure a : Exec F R H α) :=
  fun it _ => ⟨.ok a, it, rfl, (ran_refl it).congr ok_iff⟩

theorem ends_raise (e : RuntimeError F) : Ends d (raise e : Exec F R H α) :=
  fun it _ => ⟨.error (.error e), it, rfl, (ran_refl it).congr error_iff⟩

theorem Ends.bind {x : Exec F R H α} {f : α → Exec F R H β} (hx : Ends d x)
    (hf : ∀ a, Ends d (f a)) : Ends d (x >>= f) := by
  intro it hit
  obtain ⟨r, it', hrun, hran⟩ := hx it hit
  rw [bind_apply, hrun]
  cases r with
  | ok a =>
    have hran' := hran.congr ok_iff.symm
    obtain ⟨r', it'', hrun', hran''⟩ := hf a it' (by rw [hran'.depth id]; exact hit)
    exact ⟨r', it'', hrun', hran'.trans hran''⟩
  | error e =>
    refine ⟨.error e, it', rfl, hran.congr ?_⟩
    rw [Except.error.injEq, Except.error.injEq]

theorem ends_get_bind {f : Interpreter F R H → Exec F R H α} (hf : ∀ it, Ends d (f it)) :
    Ends d (get >>= f) := by
  intro it hit
  rw [bind_apply]
  exact hf it it hit

/-- What changes neither depth nor scopes nor the steps that were carried out. -/
theorem ends_modify {f : Interpreter F R H → Interpreter F R H}
    (hdepth : ∀ it, (f it).aliasDepth = it.aliasDepth)
    (henv : ∀ it, (f it).env.outer.length = it.env.outer.length)
    (hsteps : ∀ it, (f it).steps = it.steps) : Ends d (modify f : Exec F R H PUnit) :=
  fun it _ => ⟨.ok ⟨⟩, f it, rfl,
    (ran_of_eq (hdepth it) (henv it) (hsteps it)).congr ok_iff⟩

theorem ends_resume (result : Except (RuntimeError F) α) : Ends d (resume result : Exec F R H α) := by
  cases result with
  | ok a => exact ends_pure a
  | error e => exact ends_raise e

theorem Ends.ite {c : Prop} [Decidable c] {x y : Exec F R H α} (hx : Ends d x) (hy : Ends d y) :
    Ends d (if c then x else y) := by
  split_ifs
  · exact hx
  · exact hy

theorem ends_operator {step : Step F} {result : Except (Stop F) α}
    (halias : ∀ depth, step ≠ .alias_ depth) (h : result = .error .panic ↔ step.Overflows) :
    Ends d (record step >>= fun _ => give result : Exec F R H α) := by
  intro it _
  have hgive : (record step >>= fun _ => give result : Exec F R H α) it =
      some (result, { it with steps := it.steps ++ [step] }) := by
    rw [bind_apply]
    cases result with
    | ok a => rfl
    | error e => rfl
  refine ⟨result, _, hgive, fun _ => rfl, fun _ => rfl, [step], rfl, by simp [h], ?_⟩
  intro depth hdepth
  exact absurd (List.mem_singleton.mp hdepth).symm (halias depth)

theorem inScope_apply (x : Exec F R H α) (it : Interpreter F R H) :
    inScope x it =
      match attempt x { it with env := it.env.pushScope } with
      | some (.ok result, it') =>
        (popScope >>= fun _ => pure result : Exec F R H (Except (RuntimeError F) α)) it'
      | some (.error e, it') => some (.error e, it')
      | none => none := by
  have hpush : (pushScope : Exec F R H PUnit) it =
      some (.ok ⟨⟩, { it with env := it.env.pushScope }) := rfl
  unfold inScope
  rw [bind_apply, hpush]
  dsimp only
  rw [bind_apply]
  rcases attempt x { it with env := it.env.pushScope } with - | ⟨e | result, it'⟩
  · rfl
  · rfl
  · rfl

theorem popScope_apply {it : Interpreter F R H} {scope : Variables F} {outer : List (Variables F)}
    (h : it.env.outer = scope :: outer) :
    popScope it = some (.ok ⟨⟩, { it with env := { it.env with scope := scope, outer := outer } }) := by
  have henv : it.env.popScope = some { it.env with scope := scope, outer := outer } := by
    unfold Environment.popScope
    rw [h]
  have hget : (get : Exec F R H (Interpreter F R H)) it = some (.ok it, it) := rfl
  unfold popScope
  rw [bind_apply, hget]
  dsimp only
  rw [henv]
  rfl

theorem eq_panic_of_attempt {x : Exec F R H α} {it it' : Interpreter F R H} {stop : Stop F}
    (h : attempt x it = some (.error stop, it')) : stop = .panic := by
  unfold attempt at h
  split at h
  · cases h
  · cases h
  · cases h
    rfl
  · cases h

theorem eq_panic_of_inScope {x : Exec F R H α} {it it' : Interpreter F R H} {stop : Stop F}
    (h : inScope x it = some (.error stop, it')) : stop = .panic := by
  rw [inScope_apply] at h
  rcases hcaught : attempt x { it with env := it.env.pushScope } with - | ⟨e | result, after⟩
  · rw [hcaught] at h
    cases h
  · rw [hcaught] at h
    cases h
    exact eq_panic_of_attempt hcaught
  · rw [hcaught] at h
    dsimp only at h
    cases houter : after.env.outer with
    | nil =>
      have hpop : (popScope : Exec F R H PUnit) after = some (.error .panic, after) := by
        have henv : after.env.popScope = none := by
          unfold Environment.popScope
          rw [houter]
        have hget : (get : Exec F R H (Interpreter F R H)) after = some (.ok after, after) := rfl
        unfold popScope
        rw [bind_apply, hget]
        dsimp only
        rw [henv]
        rfl
      rw [bind_apply, hpop] at h
      cases h
      rfl
    | cons scope outer =>
      rw [bind_apply, popScope_apply houter] at h
      cases h

theorem Ends.inScope {x : Exec F R H α} (hx : Ends d x) : Ends d (inScope x) := by
  intro it hit
  obtain ⟨r, it', hrun, hran⟩ := hx { it with env := it.env.pushScope } hit
  obtain ⟨new, hnew, hpanics, hdepths⟩ := hran.steps
  rw [inScope_apply]
  by_cases hpanic : r = .error .panic
  · subst hpanic
    have hstop : Interpreter.attempt x { it with env := it.env.pushScope } =
        some (.error .panic, it') := by
      unfold Interpreter.attempt
      rw [hrun]
    rw [hstop]
    exact ⟨_, it', rfl, fun h => absurd rfl h, fun h => absurd rfl h, new, hnew,
      (iff_of_true rfl (hpanics.mp rfl)), hdepths⟩
  · -- the body left as many scopes as there were, so that its own can be left
    have hscopes := hran.scopes hpanic
    obtain ⟨result, hcaught⟩ : ∃ result, Interpreter.attempt x { it with env := it.env.pushScope } =
        some (.ok result, it') := by
      unfold Interpreter.attempt
      rw [hrun]
      obtain (e | -) | a := r
      · exact ⟨.error e, rfl⟩
      · exact absurd rfl hpanic
      · exact ⟨.ok a, rfl⟩
    obtain ⟨scope, outer, houter⟩ : ∃ scope outer, it'.env.outer = scope :: outer := by
      cases houter : it'.env.outer with
      | nil =>
        rw [houter] at hscopes
        cases hscopes
      | cons scope outer => exact ⟨scope, outer, rfl⟩
    rw [hcaught]
    dsimp only
    rw [bind_apply, popScope_apply houter]
    refine ⟨.ok result, _, rfl, fun _ => hran.depth hpanic, fun _ => ?_, new, hnew, ?_, hdepths⟩
    · rw [houter] at hscopes
      exact Nat.succ.inj hscopes
    · rw [← ok_iff, ← hpanics]
      exact ⟨False.elim, hpanic⟩

/-! ## Expressions and commands -/

theorem ends_callFunction (name : Str) (args : List (Value F)) :
    Ends d (callFunction host name args) := by
  unfold callFunction
  refine ends_get_bind fun it => ?_
  refine Ends.bind (ends_modify (fun _ => rfl) (fun _ => rfl) (fun _ => rfl)) fun _ => ?_
  exact ends_resume _

theorem ends_evalBinaryOp (op : BinaryOp) {left right : Exec F R H (Value F)} (hleft : Ends d left)
    (hright : Ends d right) : Ends d (evalBinaryOp op left right) := by
  have hoperator (hand : op ≠ .and) (hor : op ≠ .or) : Ends d (do
      let lv ← left
      let rv ← right
      record (.binary op lv rv)
      give (Value.binary op lv rv)) := by
    refine hleft.bind fun lv => hright.bind fun rv => ?_
    exact ends_operator (by rintro depth ⟨⟩) (Value.binary_panics hand hor lv rv)
  cases op with
  | and => exact hleft.bind fun lv => Ends.ite (ends_pure _) (hright.bind fun rv => ends_pure _)
  | or => exact hleft.bind fun lv => Ends.ite (ends_pure _) (hright.bind fun rv => ends_pure _)
  | _ => exact hoperator (by rintro ⟨⟩) (by rintro ⟨⟩)

theorem ends_evalUnaryOp (op : UnaryOp) {operand : Exec F R H (Value F)} (h : Ends d operand) :
    Ends d (evalUnaryOp op operand) :=
  h.bind fun val => ends_operator (by rintro depth ⟨⟩) (Value.unary_panics op val)

mutual

theorem ends_evalExpr : ∀ e : Expression F, Ends d (evalExpr host e)
  | .stringLiteral _ _ | .intLiteral _ _ | .numberLiteral _ _ | .boolLiteral _ _
  | .identifier _ _ => ends_pure _
  | .variable_ name _ => by
    unfold evalExpr
    refine ends_get_bind fun it => ?_
    split
    · exact ends_pure _
    · exact @ends_operator _ _ _ _ _ _ (.unbound name) (.error (.error _)) (by rintro _ ⟨⟩)
        (by simp [Step.Overflows])
  | .globalVariable _ _ | .builtinId _ _ => ends_get_bind fun _ => ends_pure _
  | .functionCall name args _ => by
    unfold evalExpr
    exact (ends_evalAll args).bind fun evaluated => ends_callFunction name evaluated
  | .interpolated parts _ => by
    unfold evalExpr
    exact (ends_evalParts parts).bind fun text => ends_pure _
  | .grouped e _ => by
    unfold evalExpr
    exact ends_evalExpr e
  | .binaryOp left op right _ => by
    unfold evalExpr
    exact ends_evalBinaryOp op (ends_evalExpr left) (ends_evalExpr right)
  | .unaryOp op operand _ => by
    unfold evalExpr
    exact ends_evalUnaryOp op (ends_evalExpr operand)

theorem ends_evalAll : ∀ es : List (Expression F), Ends d (evalAll host es)
  | [] => ends_pure _
  | e :: es => by
    unfold evalAll
    exact (ends_evalExpr e).bind fun _ => (ends_evalAll es).bind fun _ => ends_pure _

theorem ends_evalParts : ∀ parts : List (StringPart F), Ends d (evalParts host parts)
  | [] => ends_pure _
  | .literal _ :: parts => by
    unfold evalParts
    exact (ends_evalParts parts).bind fun _ => ends_pure _
  | .expr e :: parts => by
    unfold evalParts
    exact (ends_evalExpr e).bind fun _ => (ends_evalParts parts).bind fun _ => ends_pure _

end

theorem ends_handleCommand (name : Str) (args : List (Value F)) :
    Ends d (handleCommand host name args) := by
  unfold handleCommand
  refine ends_get_bind fun it => ?_
  refine Ends.bind (ends_modify (fun _ => rfl) (fun _ => rfl) (fun _ => rfl)) fun _ => ?_
  split
  · exact ends_pure _
  · exact ends_raise _

theorem listTimers_eq (it : Interpreter F R H) :
    ∃ output, it.listTimers = { it with echoOutput := output } := by
  have hlines (lines : List Str) : ∀ it : Interpreter F R H,
      ∃ output, lines.foldl (fun it line => it.pushEcho line) it = { it with echoOutput := output } := by
    induction lines with
    | nil => exact fun it => ⟨it.echoOutput, rfl⟩
    | cons line lines ih =>
      intro it
      obtain ⟨output, houtput⟩ := ih (it.pushEcho line)
      exact ⟨output, houtput⟩
  unfold listTimers
  split
  · exact ⟨it.echoOutput, rfl⟩
  · split
    · exact ⟨_, rfl⟩
    · exact hlines _ it

theorem ends_tryBuiltinCommand {name : Str} {args : List (Value F)} {x : Exec F R H (Value F)}
    (h : tryBuiltinCommand name args = some x) : Ends d x := by
  have hdone {change : Interpreter F R H → Interpreter F R H}
      (hdepth : ∀ it, (change it).aliasDepth = it.aliasDepth)
      (henv : ∀ it, (change it).env.outer.length = it.env.outer.length)
      (hsteps : ∀ it, (change it).steps = it.steps) :
      Ends d (do modify change; pure .null : Exec F R H (Value F)) :=
    (ends_modify hdepth henv hsteps).bind fun _ => ends_pure _
  unfold tryBuiltinCommand at h
  dsimp only at h
  split_ifs at h
  · cases h
    exact hdone (fun _ => rfl) (fun _ => rfl) (fun _ => rfl)
  · cases h
    exact ends_pure _
  · cases h
    exact ends_raise _
  · split at h
    · split_ifs at h
      cases h
      exact hdone (fun _ => rfl) (fun _ => rfl) (fun _ => rfl)
    · cases h
  · split at h
    · cases h
      exact hdone (fun _ => rfl) (fun _ => rfl) (fun _ => rfl)
    · cases h
      exact ends_pure _
  · cases h
    refine hdone (fun it => ?_) (fun it => ?_) (fun it => ?_)
    all_goals
      obtain ⟨output, houtput⟩ := listTimers_eq it
      rw [houtput]

/-! ## Bodies, loops and statements -/

theorem bind_of_eq {x : Exec F R H α} {f : α → Exec F R H β} {a : α} {it it' : Interpreter F R H}
    (h : x it = some (.ok a, it')) : (x >>= f) it = f a it' := by
  rw [bind_apply, h]

theorem execAliasCall_limit {body : List (Statement F)} {args : List (Value F)}
    {it : Interpreter F R H} (h : maxAliasDepth ≤ it.aliasDepth) :
    execAliasCall runBody body args it = some (.error (.error .aliasRecursionLimit), it) := by
  refine (bind_of_eq rfl).trans ?_
  rw [if_pos h]
  rfl

def enterAlias (args : List (Value F)) (it : Interpreter F R H) : Interpreter F R H :=
  { it with
    ctxOverride := some (it.effectiveCtx.setEventText (joined args))
    aliasDepth := it.aliasDepth + 1
    steps := it.steps ++ [.alias_ (it.aliasDepth + 1)] }

theorem execAliasCall_body {body : List (Statement F)} {args : List (Value F)}
    {it : Interpreter F R H} (h : ¬ maxAliasDepth ≤ it.aliasDepth) :
    execAliasCall runBody body args it =
      (do
        let result ← inScope (runBody body)
        modify fun after => { after with ctxOverride := it.ctxOverride, aliasDepth := it.aliasDepth }
        match result with
        | .ok _ | .error (.return_ _) => pure .null
        | .error e => raise e : Exec F R H (Value F)) (it.enterAlias args) := by
  refine (bind_of_eq rfl).trans ?_
  rw [if_neg h]
  exact (bind_of_eq rfl).trans (bind_of_eq rfl)

/-- **The body of an alias**: at the limit it does not begin, and else one less may nest in it. -/
theorem ends_execAliasCall (hrun : ∀ e, d = e + 1 → ∀ body, Ends e (runBody body))
    (body : List (Statement F)) (args : List (Value F)) : Ends d (execAliasCall runBody body args) := by
  intro it hit
  by_cases hlimit : maxAliasDepth ≤ it.aliasDepth
  · rw [execAliasCall_limit hlimit]
    exact ⟨_, it, rfl, (ran_refl it).congr error_iff⟩
  rw [execAliasCall_body hlimit]
  obtain ⟨e, rfl⟩ : ∃ e, d = e + 1 := ⟨d - 1, by omega⟩
  have hdeeper : maxAliasDepth ≤ (it.enterAlias args).aliasDepth + e := by
    change maxAliasDepth ≤ it.aliasDepth + 1 + e
    omega
  obtain ⟨r, it', hbody, hran⟩ := (hrun e rfl body).inScope (it.enterAlias args) hdeeper
  -- what the body did, after the step into it
  obtain ⟨new, hnew, hpanics, hdepths⟩ := hran.steps
  have hsteps : it'.steps = it.steps ++ (.alias_ (it.aliasDepth + 1) :: new) := by
    rw [hnew]
    change it.steps ++ [_] ++ new = _
    rw [List.append_assoc, List.singleton_append]
  have hoverflows : r = .error .panic ↔
      ∃ step ∈ (.alias_ (it.aliasDepth + 1) :: new : List (Step F)), step.Overflows := by
    rw [hpanics, List.exists_mem_cons_iff]
    exact ⟨.inr, fun h => h.resolve_left id⟩
  have hentered : ∀ depth, .alias_ depth ∈ (.alias_ (it.aliasDepth + 1) :: new : List (Step F)) →
      depth ≤ maxAliasDepth := by
    intro depth hdepth
    rcases List.mem_cons.mp hdepth with heq | hmem
    · cases heq
      omega
    · exact hdepths depth hmem
  have hrest (result : Except (RuntimeError F) (Value F)) : Ends (e + 1) (match result with
      | .ok _ | .error (.return_ _) => pure .null
      | .error e => raise e : Exec F R H (Value F)) := by
    split
    · exact ends_pure _
    · exact ends_pure _
    · exact ends_raise _
  cases r with
  | error stop =>
    obtain rfl := eq_panic_of_inScope hbody
    exact ⟨.error .panic, it', by rw [bind_apply, hbody], fun hp => absurd rfl hp,
      fun hp => absurd rfl hp, _, hsteps, iff_of_true rfl (hoverflows.mp rfl), hentered⟩
  | ok result =>
    let left : Interpreter F R H :=
      { it' with ctxOverride := it.ctxOverride, aliasDepth := it.aliasDepth }
    have hleft : Ran it False left :=
      ⟨fun _ => rfl, fun _ => hran.scopes (by rintro ⟨⟩), _, hsteps, ok_iff.trans hoverflows, hentered⟩
    rw [bind_of_eq hbody]
    obtain ⟨r, it'', hrun', hran'⟩ := hrest result left hit
    exact ⟨r, it'', (bind_of_eq rfl).trans hrun', hleft.trans hran'⟩

theorem ends_execCommand (hrun : ∀ e, d = e + 1 → ∀ body, Ends e (runBody body))
    (s : CommandStatement F) : Ends d (execCommand host runBody s) := by
  unfold execCommand
  refine (ends_evalAll s.args).bind fun args => ends_get_bind fun it => ?_
  split
  · exact ends_handleCommand s.name args
  · split
    case h_1 x hbuiltin => exact ends_tryBuiltinCommand hbuiltin
    case h_2 =>
      split
      · exact ends_execAliasCall hrun _ args
      · exact ends_handleCommand s.name args

/-- **A loop** ends when enough rounds are left for its limit. -/
theorem ends_execLoop {condition body : Exec F R H (Value F)} (hcondition : Ends d condition)
    (hbody : Ends d body) {n iterations : ℕ} (hlimit : iterations ≤ maxLoopIterations)
    (hn : maxLoopIterations < n + iterations) : Ends d (execLoop condition body n iterations) := by
  induction n generalizing iterations with
  | zero => omega
  | succ n ih =>
    unfold execLoop
    refine hcondition.bind fun cond => Ends.ite (ends_pure _) ?_
    by_cases hmore : maxLoopIterations < iterations + 1
    · rw [if_pos hmore]
      exact ends_raise _
    · rw [if_neg hmore]
      have hagain : Ends d (execLoop condition body n (iterations + 1)) := ih (by omega) (by omega)
      refine hbody.inScope.bind fun result => ?_
      split
      · exact hagain
      · exact hagain
      · exact ends_pure _
      · exact ends_raise _

omit [Platform F] in
theorem length_updateScopes (name : Str) (value : Value F) (scopes : List (Variables F)) :
    (Environment.updateScopes name value scopes).length = scopes.length := by
  induction scopes with
  | nil => rfl
  | cons scope scopes ih =>
    unfold Environment.updateScopes
    split_ifs
    · rfl
    · rw [List.length_cons, List.length_cons, ih]

omit [Platform F] in
theorem length_outer_updateLocal (env : Environment F) (name : Str) (value : Value F) :
    (env.updateLocal name value).outer.length = env.outer.length := by
  unfold Environment.updateLocal
  split_ifs
  · rfl
  · exact length_updateScopes name value env.outer
  · rfl

theorem ends_execVarDecl (s : SetStatement F) : Ends d (execVarDecl host s) := by
  unfold execVarDecl
  refine (ends_evalExpr s.value).bind fun val => Ends.bind (ends_modify ?_ ?_ ?_) fun _ => ends_pure _
  · exact fun it => rfl
  · intro it
    dsimp only
    split_ifs <;> rfl
  · exact fun it => rfl

theorem ran_assign (s : SetStatement F) (val : Value F) (it : Interpreter F R H) :
    Ran it False (it.assign s val) := by
  unfold assign
  split_ifs
  · exact ran_of_eq rfl rfl rfl
  · exact ran_of_eq rfl (length_outer_updateLocal it.env s.name val) rfl
  · exact ⟨fun _ => rfl, fun _ => rfl, [.unbound s.name], rfl, by simp [Step.Overflows], by simp⟩

theorem ends_execSet (s : SetStatement F) : Ends d (execSet host s) := by
  unfold execSet
  refine (ends_evalExpr s.value).bind fun val => Ends.bind (fun it _ => ?_) fun _ => ends_pure _
  exact ⟨.ok ⟨⟩, it.assign s val, rfl, (ran_assign s val it).congr ok_iff⟩

theorem ends_execReturn (s : ReturnStatement F) : Ends d (execReturn host s) := by
  unfold execReturn
  dsimp only
  split
  · exact (ends_evalExpr _).bind fun val => ends_raise _
  · exact (ends_pure _).bind fun val => ends_raise _

theorem ends_resume_inScope {x : Exec F R H (Value F)} (hx : Ends d x) :
    Ends d (do
      let result ← inScope x
      resume result : Exec F R H (Value F)) :=
  hx.inScope.bind fun result => ends_resume result

mutual

/-- **Statements** end where loops have rounds enough and the bodies that may still nest end. -/
theorem ends_execStmt {rounds : ℕ} (hrounds : maxLoopIterations < rounds)
    (hrun : ∀ e, d = e + 1 → ∀ body, Ends e (runBody body)) :
    ∀ stmt : Statement F, Ends d (execStmt host runBody rounds stmt)
  | .varDecl s => ends_execVarDecl s
  | .set s => ends_execSet s
  | .return_ s => ends_execReturn s
  | .break_ _ | .continue_ _ => ends_raise _
  | .exprStatement s => by
    unfold execStmt
    exact (ends_evalExpr s.expr).bind fun _ => ends_pure _
  | .command s => ends_execCommand hrun s
  | .while_ ⟨condition, body, _⟩ => by
    unfold execStmt
    exact ends_execLoop (ends_evalExpr condition) (ends_execStmts hrounds hrun .null body)
      (Nat.zero_le _) hrounds
  | .if_ ⟨condition, thenBody, branches, otherwise, _⟩ => by
    unfold execStmt
    refine (ends_evalExpr condition).bind fun cond => Ends.ite ?_ ?_
    · exact ends_resume_inScope (ends_execStmts hrounds hrun .null thenBody)
    · exact ends_execBranches hrounds hrun branches (ends_execElse hrounds hrun otherwise)

theorem ends_execBranches {rounds : ℕ} (hrounds : maxLoopIterations < rounds)
    (hrun : ∀ e, d = e + 1 → ∀ body, Ends e (runBody body)) :
    ∀ (branches : List (ElseIfBranch F (Statement F))) {otherwise : Exec F R H (Value F)},
      Ends d otherwise → Ends d (execBranches host runBody rounds branches otherwise)
  | [], _, h => h
  | ⟨condition, body, _⟩ :: branches, _, h => by
    unfold execBranches
    refine (ends_evalExpr condition).bind fun cond => Ends.ite ?_ ?_
    · exact ends_resume_inScope (ends_execStmts hrounds hrun .null body)
    · exact ends_execBranches hrounds hrun branches h

theorem ends_execElse {rounds : ℕ} (hrounds : maxLoopIterations < rounds)
    (hrun : ∀ e, d = e + 1 → ∀ body, Ends e (runBody body)) :
    ∀ otherwise : Option (List (Statement F)), Ends d (execElse host runBody rounds otherwise)
  | some body => by
    unfold execElse
    exact ends_resume_inScope (ends_execStmts hrounds hrun .null body)
  | none => ends_pure _

theorem ends_execStmts {rounds : ℕ} (hrounds : maxLoopIterations < rounds)
    (hrun : ∀ e, d = e + 1 → ∀ body, Ends e (runBody body)) (result : Value F) :
    ∀ stmts : List (Statement F), Ends d (execStmts host runBody rounds result stmts)
  | [] => ends_pure _
  | stmt :: stmts => by
    unfold execStmts
    exact (ends_execStmt hrounds hrun stmt).bind fun result => ends_execStmts hrounds hrun result stmts

end

/-- **Every execution ends**, when the count is above the limit of loops and the bodies that may
still nest together. -/
theorem ends_exec {n : ℕ} (hn : maxLoopIterations + d + 1 < n) (stmts : List (Statement F)) :
    Ends d (exec host n stmts) := by
  induction n generalizing d stmts with
  | zero => omega
  | succ n ih =>
    refine ends_execStmts (by omega) (fun e he body => ?_) .null stmts
    exact ih (by omega) body

/-! ## Executions from the start -/

def start (it : Interpreter F R H) : Interpreter F R H := { it with steps := [] }

/-- **The execution returns**: with a value or an error, and as deep in aliases as it began. No body
of an alias began beyond the limit. -/
def Returns (host : Host F R H) (stmts : List (Statement F)) (it : Interpreter F R H) : Prop :=
  ∃ n r it', exec host n stmts it.start = some (r, it') ∧ r ≠ .error .panic ∧
    it'.aliasDepth = it.aliasDepth ∧ ∀ depth, .alias_ depth ∈ it'.steps → depth ≤ maxAliasDepth

/-- **Every script execution ends**, with a value or an error exactly if it carries out no operator
whose result has no place. -/
theorem exec_returns_iff (host : Host F R H) (stmts : List (Statement F)) (it : Interpreter F R H) :
    Returns host stmts it ↔
      ∀ n r it', exec host n stmts it.start = some (r, it') → ∀ step ∈ it'.steps, ¬ step.Overflows := by
  have hends : Ends maxAliasDepth (exec host (maxLoopIterations + maxAliasDepth + 2) stmts) :=
    ends_exec (Nat.lt_succ_self _) stmts
  obtain ⟨r, it', hrun, hran⟩ := hends it.start (Nat.le_add_left _ _)
  obtain ⟨new, hnew, hpanics, hdepths⟩ := hran.steps
  replace hnew : it'.steps = new := hnew
  constructor
  · rintro ⟨n, r', it'', hrun', hreturns, -⟩ m r'' after hrun'' step hstep hoverflow
    cases exec_unique hrun hrun'
    cases exec_unique hrun hrun''
    exact hreturns (hpanics.mpr ⟨step, hnew ▸ hstep, hoverflow⟩)
  · intro hno
    have hreturns : r ≠ .error .panic := by
      intro hpanic
      obtain ⟨step, hstep, hoverflow⟩ := hpanics.mp hpanic
      exact hno _ r it' hrun step (hnew ▸ hstep) hoverflow
    exact ⟨_, r, it', hrun, hreturns, hran.depth hreturns, fun depth h => hdepths depth (hnew ▸ h)⟩

section Examples

/-- A platform without floating-point numbers. -/
@[reducible] def integersOnly : Platform Unit where
  ofInt _ := ()
  add _ _ := ()
  sub _ _ := ()
  mul _ _ := ()
  div _ _ := ()
  rem _ _ := ()
  neg _ := ()
  isZero _ := true
  eq _ _ := true
  partialCmp _ _ := some .eq
  display _ := ['0']
  displaySeconds _ := []
  toLowercase s := s.map Char.toLower
  overflowChecks := false

local instance : Platform Unit := integersOnly

def silentHost : Host Unit Unit Unit where
  call name _ captures := (.error (.unknownFunction name), captures)
  handleCommand _ _ client := (.ok ⟨⟩, client)

def smallestQuotient : List (Statement Unit) :=
  let int (n : Int64) : Expression Unit := .intLiteral n default
  let sub (e f : Expression Unit) : Expression Unit := .binaryOp e .sub f default
  let smallest := sub (sub (int 0) (int 9223372036854775807)) (int 1)
  [.varDecl ⟨"x".toList, false,
    .binaryOp (.grouped smallest default) .div (.grouped (sub (int 0) (int 1)) default) default,
    default⟩]

/-- The smallest integer divided by `-1` is a panic. -/
theorem smallestQuotient_panics :
    ¬ ∀ (stmts : List (Statement Unit)) (it : Interpreter Unit Unit Unit),
      Returns silentHost stmts it := by
  intro halways
  let it : Interpreter Unit Unit Unit :=
    { env := {}, cmdHandler := (), builtinCtx := {}, regexState := () }
  obtain ⟨n, r, it', hrun, hreturns, -⟩ := halways smallestQuotient it
  have hpanic : ∃ after, exec silentHost 1 smallestQuotient it.start =
      some (.error .panic, after) := ⟨_, rfl⟩
  obtain ⟨after, hpanic⟩ := hpanic
  cases exec_unique hrun hpanic
  exact hreturns rfl

end Examples

end Interpreter

end Pirc.Scripting
