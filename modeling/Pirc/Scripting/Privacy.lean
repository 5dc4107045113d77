import Pirc.Scripting.Declarations

/-!
# Scripts: private variables

`grammar.rs` says that local variables are scoped to the enclosing alias, event or timer. Lookup and
assignment go through all scopes, those of the caller among them, so that it is true only where a
body finds what it reads and sets in scopes of its own: then the caller's variables make no
difference.
-/

namespace Pirc.Scripting

open Protocol (Str)

variable {F : Type}

/-! ## Scopes below -/

namespace Environment

def graft (env : Environment F) (below : List (Variables F)) : Environment F :=
  { env with outer := env.outer ++ below }

section Graft

variable {env : Environment F} {name : Str} (below : List (Variables F))

theorem getLocal_graft (h : (env.getLocal name).isSome) :
    (env.graft below).getLocal name = env.getLocal name := by
  have hscopes : (env.graft below).scopes = env.scopes ++ below := rfl
  rw [getLocal, hscopes, List.findSome?_append]
  exact Option.or_of_isSome h

theorem updateScopes_append {scopes : List (Variables F)} (value : Value F)
    (h : scopes.any fun scope => (scope name).isSome) :
    updateScopes name value (scopes ++ below) = updateScopes name value scopes ++ below := by
  induction scopes with
  | nil => cases h
  | cons scope scopes ih =>
    rw [List.cons_append, updateScopes, updateScopes]
    split_ifs with hscope
    · rfl
    · rw [List.any_cons, Bool.eq_false_iff.mpr hscope, Bool.false_or] at h
      rw [ih h]
      rfl

theorem updateLocal_graft (value : Value F) (h : (env.getLocal name).isSome) :
    (env.graft below).updateLocal name value = (env.updateLocal name value).graft below := by
  by_cases hscope : (env.scope name).isSome = true
  · rw [updateLocal, updateLocal, if_pos hscope]
    exact if_pos hscope
  · have hany : env.outer.any fun scope => (scope name).isSome := by
      rw [isSome_getLocal_iff] at h
      obtain ⟨scope, hmem, hbound⟩ := h.resolve_left hscope
      exact List.any_eq_true.mpr ⟨scope, hmem, hbound⟩
    have hany' : (env.outer ++ below).any fun scope => (scope name).isSome := by
      rw [List.any_append, hany, Bool.true_or]
    rw [updateLocal, updateLocal, if_neg hscope, if_pos hany]
    refine (if_neg hscope).trans ((if_pos hany').trans ?_)
    rw [graft, graft, updateScopes_append below value hany]

end Graft

end Environment

namespace Interpreter

variable [Platform F] {R H : Type}

/-- No local variable was sought in vain. -/
def Bound (it : Interpreter F R H) : Prop := ∀ name, .unbound name ∉ it.steps

theorem Bound.of_prefix {it it' : Interpreter F R H} (h : it'.Bound)
    (hsteps : it.steps <+: it'.steps) : it.Bound := fun name hmem => h name (hsteps.subset hmem)

/-- The state with further scopes below. -/
def graft (below : List (Variables F)) (before : List (Step F)) (it : Interpreter F R H) :
    Interpreter F R H :=
  { it with env := it.env.graft below, steps := before ++ it.steps }

section Graft

variable {aliases : Option (AliasRegistry F)} {below : List (Variables F)} {before : List (Step F)}
  {α β : Type} {host : Host F R H}

/-- Nothing that is done tells the states with further scopes from those without them, unless a
variable is sought in vain without them; and what was sought in vain stays noted. -/
structure Closed (aliases : Option (AliasRegistry F)) (x : Exec F R H α) : Prop where
  balances : Balances (fun _ => True) aliases x
  bound : ∀ it r it', it.aliases = aliases → x it = some (r, it') → it'.Bound → it.Bound
  carries : ∀ below before it r it', it.aliases = aliases → x it = some (r, it') → it'.Bound →
    x (it.graft below before) = some (r, it'.graft below before)

theorem leave_graft {it : Interpreter F R H} (h : it.env.outer ≠ []) :
    (it.graft below before).leave = it.leave.graft below before := by
  obtain ⟨scope, outer, houter⟩ := List.exists_cons_of_ne_nil h
  rw [leave, leave, Environment.popScope, Environment.popScope, houter]
  change Interpreter.mk _ _ _ _ _ _ _ _ _ _ = Interpreter.mk _ _ _ _ _ _ _ _ _ _
  simp only [graft, Environment.graft, houter, List.cons_append, Option.getD_some]

theorem closed_cutOff : Closed aliases (cutOff : Exec F R H α) where
  balances := by rintro it r it' ⟨⟩
  bound := by rintro it r it' - ⟨⟩
  carries := by rintro below before it r it' - ⟨⟩

theorem closed_pure (a : α) : Closed aliases (pure a : Exec F R H α) where
  balances := Partial.keeps_pure a
  bound := by
    rintro it r it' - ⟨⟩
    exact id
  carries := by
    rintro below before it r it' - ⟨⟩ -
    rfl

theorem closed_throw (stop : Stop F) : Closed aliases (throw stop : Exec F R H α) where
  balances := Partial.keeps_throw stop
  bound := by
    rintro it r it' - ⟨⟩
    exact id
  carries := by
    rintro below before it r it' - ⟨⟩ -
    rfl

theorem Closed.bind {x : Exec F R H α} {f : α → Exec F R H β} (hx : Closed aliases x)
    (hf : ∀ a, Closed aliases (f a)) : Closed aliases (x >>= f) where
  balances := hx.balances.bind fun a => (hf a).balances
  bound it r it' haliases hrun hbound := by
    rcases Partial.of_bind_run hrun with ⟨e, hfirst, -⟩ | ⟨a, mid, hfirst, hrest⟩
    · exact hx.bound it _ it' haliases hfirst hbound
    · have hmid : mid.aliases = aliases := (hx.balances.ok hfirst haliases).aliases.trans haliases
      exact hx.bound it _ mid haliases hfirst ((hf a).bound mid r it' hmid hrest hbound)
  carries below before it r it' haliases hrun hbound := by
    rw [Partial.bind_run]
    rcases Partial.of_bind_run hrun with ⟨e, hfirst, rfl⟩ | ⟨a, mid, hfirst, hrest⟩
    · rw [hx.carries below before it _ it' haliases hfirst hbound]
    · have hmid : mid.aliases = aliases := (hx.balances.ok hfirst haliases).aliases.trans haliases
      rw [hx.carries below before it _ mid haliases hfirst ((hf a).bound mid r it' hmid hrest hbound)]
      exact (hf a).carries below before mid r it' hmid hrest hbound

theorem run_get_bind (f : Interpreter F R H → Exec F R H α) (it : Interpreter F R H) :
    ((get >>= f : Exec F R H α) it) = f it it := rfl

theorem closed_get_bind {f : Interpreter F R H → Exec F R H α}
    (hgraft : ∀ it below before, f (it.graft below before) = f it)
    (hf : ∀ it, it.aliases = aliases → Closed aliases (f it)) : Closed aliases (get >>= f) where
  balances it r it' hrun hr haliases := (hf it haliases).balances it r it' hrun hr haliases
  bound it r it' haliases hrun := (hf it haliases).bound it r it' haliases hrun
  carries below before it r it' haliases hrun hbound := by
    rw [run_get_bind, hgraft]
    exact (hf it haliases).carries below before it r it' haliases hrun hbound

theorem closed_modify {change : Interpreter F R H → Interpreter F R H}
    (hkept : ∀ it, Kept (fun _ => True) it (change it)) (hbound : ∀ it, (change it).Bound → it.Bound)
    (hgraft : ∀ it below before, (change it).Bound →
      change (it.graft below before) = (change it).graft below before) :
    Closed aliases (modify change : Exec F R H PUnit) where
  balances := Partial.keeps_modify fun it _ => hkept it
  bound := by
    rintro it r it' - ⟨⟩
    exact hbound it
  carries := by
    rintro below before it r it' - ⟨⟩ hmet
    exact congrArg (fun it => some (_, it)) (hgraft it below before hmet)

theorem closed_resume (result : Except (RuntimeError F) α) :
    Closed aliases (resume result : Exec F R H α) := by
  cases result with
  | ok a => exact closed_pure a
  | error e => exact closed_throw (.error e)

theorem closed_modify_of_eq {change : Interpreter F R H → Interpreter F R H}
    (hkept : ∀ it, Kept (fun _ => True) it (change it))
    (hsteps : ∀ it, it.steps <+: (change it).steps)
    (hgraft : ∀ it below before, change (it.graft below before) = (change it).graft below before) :
    Closed aliases (modify change : Exec F R H PUnit) :=
  closed_modify hkept (fun it hbound => hbound.of_prefix (hsteps it))
    fun it below before _ => hgraft it below before

/-! ### Expressions -/

theorem closed_variable (name : Str) (span : Span) :
    Closed aliases (evalExpr host (.variable_ name span) : Exec F R H (Value F)) := by
  have hsome {it : Interpreter F R H} {value} (hlocal : it.env.getLocal name = some value) :
      evalExpr host (.variable_ name span) it = some (.ok value, it) := by
    rw [evalExpr, run_get_bind, hlocal]
    rfl
  -- where the variable is sought in vain, that is noted
  have hfound {it it' : Interpreter F R H} {r}
      (hrun : evalExpr host (.variable_ name span) it = some (r, it'))
      (hbound : it'.Bound) : ∃ value, it.env.getLocal name = some value ∧ r = .ok value ∧ it' = it := by
    cases hlocal : it.env.getLocal name with
    | some value =>
      rw [hsome hlocal] at hrun
      cases hrun
      exact ⟨value, rfl, rfl, rfl⟩
    | none =>
      rw [evalExpr, run_get_bind, hlocal] at hrun
      cases hrun
      exact (hbound name (List.mem_append_right _ (List.mem_singleton_self _))).elim
  refine ⟨balances_evalExpr _, fun it r it' _ hrun hbound => ?_,
    fun below before it r it' _ hrun hbound => ?_⟩
  · obtain ⟨value, -, -, rfl⟩ := hfound hrun hbound
    exact hbound
  · obtain ⟨value, hlocal, rfl, rfl⟩ := hfound hrun hbound
    have hgraft : (it'.graft below before).env.getLocal name = some value :=
      (Environment.getLocal_graft below (by rw [hlocal]; rfl)).trans hlocal
    exact hsome hgraft

theorem exprRules_closed : ExprRules host host (fun _ => True) (fun x _ => Closed aliases x) := by
  have hoperator (step : Step F) (result : Except (Stop F) (Value F)) :
      Closed aliases (record step >>= fun _ => give result : Exec F R H (Value F)) := by
    refine Closed.bind ?_ fun _ => ?_
    · refine closed_modify_of_eq (fun it => kept_of_eq rfl rfl rfl rfl rfl)
        (fun _ => List.prefix_append _ _) ?_
      intro it below before
      simp only [graft, List.append_assoc]
    · cases result with
      | ok v => exact closed_pure v
      | error stop => exact closed_throw stop
  refine
    { returns := fun a => closed_pure a
      sequence := fun hx hf => hx.bind hf
      variable_ := fun name span _ => closed_variable name span
      globalVariable := fun _ _ => closed_get_bind (fun _ _ _ => rfl) fun _ _ => closed_pure _
      builtinId := fun _ _ => closed_get_bind (fun _ _ _ => rfl) fun _ _ => closed_pure _
      callFunction := fun name args => ?_
      binary := fun _ _ _ => hoperator _ _
      unary := fun _ _ => hoperator _ _ }
  refine closed_get_bind (fun _ _ _ => rfl) fun it _ => Closed.bind ?_ fun _ => closed_resume _
  exact closed_modify_of_eq (fun it => kept_of_eq rfl rfl rfl rfl rfl)
    (fun _ => List.prefix_rfl) fun _ _ _ => rfl

theorem closed_evalExpr (e : Expression F) : Closed aliases (evalExpr host e) :=
  exprRules_closed.evalExpr e fun _ _ => trivial

/-! ### Blocks and bodies -/

theorem Closed.inScope {x : Exec F R H α} (hx : Closed aliases x) : Closed aliases (inScope x) := by
  -- what the block hands on was noted by its body
  have hbody {it it' : Interpreter F R H} {r} (haliases : it.aliases = aliases)
      (hrun : Interpreter.inScope x it = some (r, it')) (hbound : it'.Bound) :
      ∃ r' after, x it.inner = some (r', after) ∧ after.Bound ∧ caught (r', after) = (r, it') := by
    rw [hx.balances.inScope_run haliases] at hrun
    obtain ⟨⟨r', after⟩, hinner, hcaught⟩ := Option.map_eq_some_iff.mp hrun
    refine ⟨r', after, hinner, ?_, hcaught⟩
    rcases r' with (e | -) | a
    all_goals
      cases hcaught
      exact hbound
  refine ⟨hx.balances.inScope, fun it r it' haliases hrun hbound => ?_,
    fun below before it r it' haliases hrun hbound => ?_⟩
  · obtain ⟨r', after, hinner, hafter, -⟩ := hbody haliases hrun hbound
    exact hx.bound it.inner r' after haliases hinner hafter
  · obtain ⟨r', after, hinner, hafter, hcaught⟩ := hbody haliases hrun hbound
    have hgraft : x (it.graft below before).inner = some (r', after.graft below before) :=
      hx.carries below before it.inner r' after haliases hinner hafter
    have houter (hr : r' ≠ .error .panic) : after.env.outer ≠ [] :=
      (hx.balances it.inner r' after hinner hr haliases).leave.2
    rw [hx.balances.inScope_run (show (it.graft below before).aliases = aliases from haliases), hgraft]
    rcases r' with (e | -) | a
    all_goals cases hcaught
    · exact congrArg (fun it => some (_, it)) (leave_graft (houter (by rintro ⟨⟩)))
    · rfl
    · exact congrArg (fun it => some (_, it)) (leave_graft (houter (by rintro ⟨⟩)))

variable {runBody : List (Statement F) → Exec F R H (Value F)}

/-- **The body of an alias** begins in a scope of its own. -/
theorem closed_execAliasCall {body : List (Statement F)} (hbody : Closed aliases (runBody body))
    (args : List (Value F)) : Closed aliases (execAliasCall runBody body args) := by
  have houter {it after : Interpreter F R H} {r} (haliases : it.aliases = aliases)
      (hafter : runBody body (it.enterAlias args).inner = some (r, after)) (hr : r ≠ .error .panic) :
      after.env.outer ≠ [] :=
    (hbody.balances _ r after hafter hr haliases).leave.2
  have hinner {it it' : Interpreter F R H} {r} (haliases : it.aliases = aliases)
      (hlimit : ¬ maxAliasDepth ≤ it.aliasDepth)
      (hrun : execAliasCall runBody body args it = some (r, it')) (hbound : it'.Bound) :
      ∃ r' after, runBody body (it.enterAlias args).inner = some (r', after) ∧ after.Bound ∧
        it.returned (r', after) = (r, it') := by
    rw [execAliasCall_run hlimit fun r after => houter haliases] at hrun
    obtain ⟨⟨r', after⟩, hafter, hreturned⟩ := Option.map_eq_some_iff.mp hrun
    refine ⟨r', after, hafter, ?_, hreturned⟩
    rcases r' with (e | -) | v
    all_goals
      cases hreturned
      exact hbound
  refine ⟨hbody.balances.execAliasCall args, fun it r it' haliases hrun hbound => ?_,
    fun below before it r it' haliases hrun hbound => ?_⟩
  · by_cases hlimit : maxAliasDepth ≤ it.aliasDepth
    · rw [execAliasCall_limit hlimit] at hrun
      cases hrun
      exact hbound
    · obtain ⟨r', after, hafter, hnone, -⟩ := hinner haliases hlimit hrun hbound
      have hentered : ((it.enterAlias args).inner).Bound := hbody.bound _ r' after haliases hafter hnone
      exact hentered.of_prefix (List.prefix_append _ _)
  · by_cases hlimit : maxAliasDepth ≤ it.aliasDepth
    · rw [execAliasCall_limit hlimit] at hrun
      cases hrun
      exact execAliasCall_limit hlimit
    · obtain ⟨r', after, hafter, hnone, hreturned⟩ := hinner haliases hlimit hrun hbound
      have henter : ((it.graft below before).enterAlias args).inner =
          (it.enterAlias args).inner.graft below before := by
        simp only [enterAlias, inner, graft, List.append_assoc]
        rfl
      have hgraft : runBody body ((it.graft below before).enterAlias args).inner =
          some (r', after.graft below before) :=
        henter ▸ hbody.carries below before _ r' after haliases hafter hnone
      have hlimit' : ¬ maxAliasDepth ≤ (it.graft below before).aliasDepth := hlimit
      rw [execAliasCall_run hlimit' fun r after => houter haliases, hgraft]
      rcases r' with (e | -) | v
      all_goals cases hreturned
      · exact congrArg (fun after => some (_, it.backFrom after))
          (leave_graft (houter haliases hafter (by rintro ⟨⟩)))
      · rfl
      · exact congrArg (fun after => some (_, it.backFrom after))
          (leave_graft (houter haliases hafter (by rintro ⟨⟩)))

/-! ### Statements -/

theorem closed_handleCommand (name : Str) (args : List (Value F)) :
    Closed aliases (handleCommand host name args) := by
  refine closed_get_bind (fun _ _ _ => rfl) fun it _ => Closed.bind ?_ fun _ => ?_
  · exact closed_modify_of_eq (fun it => kept_of_eq rfl rfl rfl rfl rfl)
      (fun _ => List.prefix_rfl) fun _ _ _ => rfl
  · split
    · exact closed_pure _
    · exact closed_throw _

theorem closed_execCommand (s : CommandStatement F)
    (hrun : ∀ registry name body, aliases = some registry → registry.get name = some body →
      Closed aliases (runBody body)) : Closed aliases (execCommand host runBody s) := by
  rw [execCommand_eq]
  refine (exprRules_closed.evalAll s.args fun _ _ => trivial).bind fun args => ?_
  refine closed_get_bind (fun _ _ _ => rfl) fun it haliases => ?_
  cases htarget : (target s.name args it.aliases : Target F R H) with
  | external => exact closed_handleCommand s.name args
  | builtin x =>
    rcases tryBuiltinCommand_cases (builtin_of_target htarget) with rfl | rfl | ⟨change, rfl⟩
    · exact closed_pure _
    · exact closed_throw _
    · refine Closed.bind ?_ fun _ => closed_pure _
      exact closed_modify_of_eq (fun it => kept_of_eq rfl rfl rfl rfl rfl)
        (fun _ => List.prefix_rfl) fun _ _ _ => rfl
  | alias_ body =>
    obtain ⟨registry, hregistry, hget⟩ := get_of_target htarget
    exact closed_execAliasCall (hrun registry s.name body (haliases ▸ hregistry) hget) args

theorem closed_execVarDecl (s : SetStatement F) : Closed aliases (execVarDecl host s) := by
  refine (closed_evalExpr s.value).bind fun val => Closed.bind ?_ fun _ => closed_pure _
  refine closed_modify (kept_varDecl s val) (fun it hbound => hbound) fun it below before _ => ?_
  by_cases hglobal : s.global = true
  · rw [if_pos hglobal, if_pos hglobal]
    rfl
  · rw [if_neg hglobal, if_neg hglobal]
    rfl

theorem closed_execSet (s : SetStatement F) : Closed aliases (execSet host s) := by
  refine (closed_evalExpr s.value).bind fun val => Closed.bind ?_ fun _ => closed_pure _
  refine closed_modify (kept_set s (fun _ => trivial) val) (fun it hbound => ?_)
    fun it below before hbound => ?_
  · unfold assign at hbound
    split_ifs at hbound
    · exact hbound
    · exact hbound
    · exact hbound.of_prefix (List.prefix_append _ _)
  · unfold assign at hbound ⊢
    by_cases hglobal : s.global = true
    · rw [if_pos hglobal, if_pos hglobal]
      rfl
    rw [if_neg hglobal] at hbound ⊢
    rw [if_neg hglobal]
    by_cases hlocal : (it.env.getLocal s.name).isSome = true
    · have hgraft : ((it.graft below before).env.getLocal s.name).isSome = true :=
        (congrArg Option.isSome (Environment.getLocal_graft below hlocal)).trans hlocal
      rw [if_pos hlocal, if_pos hgraft]
      exact congrArg (fun env => { it with env := env, steps := before ++ it.steps })
        (Environment.updateLocal_graft below val hlocal)
    · rw [if_neg hlocal] at hbound
      exact (hbound s.name (List.mem_append_right _ (List.mem_singleton_self _))).elim

theorem closed_execReturn (s : ReturnStatement F) : Closed aliases (execReturn host s) := by
  unfold execReturn
  dsimp only
  split
  · exact (closed_evalExpr _).bind fun val => closed_throw _
  · exact (closed_pure _).bind fun val => closed_throw _

theorem stmtRules_closed (rounds : ℕ)
    (hrun : ∀ registry name body, aliases = some registry → registry.get name = some body →
      Closed aliases (runBody body)) :
    StmtRules (setsOnly fun _ => True) host host runBody runBody rounds
      (fun _ _ x _ => Closed aliases x) where
  returns _ _ a := closed_pure a
  sequence _ _ _ _ _ _ _ hx hf := hx.bind hf
  cutOff _ := closed_cutOff
  loopLimit _ := closed_throw _
  expr _ e _ := closed_evalExpr e
  leaf place s hs := by
    cases s with
    | command s => exact closed_execCommand s hrun
    | varDecl s => exact closed_execVarDecl s
    | set s => exact closed_execSet s
    | return_ s => exact closed_execReturn s
    | break_ span => exact closed_throw _
    | continue_ span => exact closed_throw _
    | exprStatement s => exact (closed_evalExpr s.expr).bind fun _ => closed_pure _
    | if_ s => exact hs.elim
    | while_ s => exact hs.elim
  next _ _ _ _ hs hf := hs.bind hf
  block _ _ _ hbody := hbody.inScope.bind fun result => closed_resume result
  round _ _ _ _ _ hbody hagain := by
    refine hbody.inScope.bind fun result => ?_
    split
    · exact hagain
    · exact hagain
    · exact closed_pure _
    · exact closed_throw _

/-- **Executions** do not tell the scopes below, unless a variable is sought in vain without
them. -/
theorem closed_exec (ss : List (Statement F)) (n : ℕ) : Closed aliases (exec host n ss) := by
  induction n generalizing ss with
  | zero => exact closed_cutOff
  | succ n ih =>
    have hrun : ∀ registry name body, aliases = some registry → registry.get name = some body →
        Closed aliases (exec host n body) := fun _ _ body _ _ => ih body
    exact (stmtRules_closed n hrun).execStmts ss ((@setsOnly_stmts F (fun _ => True) {}) ss
      fun _ _ => trivial)

end Graft

/-! ## Calls of aliases -/

/-- The state with these scopes in place of its own. -/
def withLocals (scope : Variables F) (outer : List (Variables F)) (it : Interpreter F R H) :
    Interpreter F R H :=
  { it with env := { it.env with scope := scope, outer := outer } }

/-- What is not local of a state: all but the scopes, and the steps noted. -/
def shared (it : Interpreter F R H) : Interpreter F R H :=
  { it.withLocals (fun _ => none) [] with steps := [] }

section Calls

variable {host : Host F R H} {aliases : Option (AliasRegistry F)}
  {runBody : List (Statement F) → Exec F R H (Value F)} {body : List (Statement F)}
  {args : List (Value F)} {it it₁ it₂ : Interpreter F R H}

/-- What of the outcome of a closed body is handed on by the call. -/
def resumed (it : Interpreter F R H) :
    Except (Stop F) (Value F) × Interpreter F R H → Except (Stop F) (Value F) × Interpreter F R H
  | (.error .panic, it') => (.error .panic, it'.graft it.env.scopes it.steps)
  | (r, it') => (answer r,
      it.backFrom { it'.withLocals it.env.scope it.env.outer with steps := it.steps ++ it'.steps })

theorem leave_graft_scopes {it' : Interpreter F R H} (h : it'.env.outer = []) :
    (it'.graft it.env.scopes it.steps).leave =
      { it'.withLocals it.env.scope it.env.outer with steps := it.steps ++ it'.steps } := by
  rw [leave, graft, Environment.graft, h]
  rfl

/-- **The call of an alias** is the body's own run, put over the scopes of the caller. -/
theorem execAliasCall_own (hbody : Closed it.aliases (runBody body)) {r} {own : Interpreter F R H}
    (hlimit : ¬ maxAliasDepth ≤ it.aliasDepth)
    (hown : runBody body (it.shared.enterAlias args) = some (r, own)) (hbound : own.Bound) :
    execAliasCall runBody body args it = some (it.resumed (r, own)) := by
  have hinner : runBody body (it.enterAlias args).inner = some (r, own.graft it.env.scopes it.steps) :=
    hbody.carries it.env.scopes it.steps (it.shared.enterAlias args) r own rfl hown hbound
  -- a body leaves no scope of its own
  have houter (hr : r ≠ .error .panic) : own.env.outer = [] :=
    List.forall₂_nil_left_iff.mp (hbody.balances _ r own hown hr rfl).outer
  rw [execAliasCall_run hlimit, hinner]
  · rcases r with (e | -) | v
    · exact congrArg (fun after => some (_, it.backFrom after))
        (leave_graft_scopes (houter (by rintro ⟨⟩)))
    · rfl
    · exact congrArg (fun after => some (_, it.backFrom after))
        (leave_graft_scopes (houter (by rintro ⟨⟩)))
  · intro r' after hafter hr
    cases hinner.symm.trans hafter
    exact List.append_ne_nil_of_right_ne_nil _ (List.cons_ne_nil _ _)

theorem shared_resumed (outcome : Except (Stop F) (Value F) × Interpreter F R H) :
    Prod.map id shared (it.resumed outcome) = Prod.map id shared (it.shared.resumed outcome) := by
  obtain ⟨(e | -) | v, it'⟩ := outcome
  · cases e <;> rfl
  · rfl
  · rfl

theorem shared_execAliasCall (hbody : Closed it₁.aliases (runBody body)) (hshared : it₁.shared = it₂.shared)
    {r} {own : Interpreter F R H} (hown : runBody body (it₁.shared.enterAlias args) = some (r, own))
    (hbound : own.Bound) :
    (execAliasCall runBody body args it₁).map (Prod.map id shared) =
      (execAliasCall runBody body args it₂).map (Prod.map id shared) := by
  have haliases : it₁.aliases = it₂.aliases := (congrArg Interpreter.aliases hshared :)
  have hdepth : it₁.aliasDepth = it₂.aliasDepth := (congrArg Interpreter.aliasDepth hshared :)
  by_cases hlimit : maxAliasDepth ≤ it₁.aliasDepth
  · rw [execAliasCall_limit hlimit, execAliasCall_limit (hdepth ▸ hlimit)]
    exact congrArg (fun it => some (_, it)) hshared
  · rw [execAliasCall_own hbody hlimit hown hbound,
      execAliasCall_own (haliases ▸ hbody) (hdepth ▸ hlimit) (hshared ▸ hown) hbound]
    exact congrArg some ((shared_resumed _).trans (hshared ▸ (shared_resumed _).symm))

theorem locals_execAliasCall (hbody : Closed it.aliases (runBody body)) {r r'} {own it' : Interpreter F R H}
    (hown : runBody body (it.shared.enterAlias args) = some (r', own)) (hbound : own.Bound)
    (hrun : execAliasCall runBody body args it = some (r, it')) (hr : r ≠ .error .panic) :
    it'.env.scope = it.env.scope ∧ it'.env.outer = it.env.outer := by
  by_cases hlimit : maxAliasDepth ≤ it.aliasDepth
  · rw [execAliasCall_limit hlimit] at hrun
    cases hrun
    exact ⟨rfl, rfl⟩
  · rw [execAliasCall_own hbody hlimit hown hbound] at hrun
    rcases r' with (e | -) | v
    all_goals cases hrun
    · exact ⟨rfl, rfl⟩
    · exact absurd rfl hr
    · exact ⟨rfl, rfl⟩

/-- An expression changes the captures, and notes its steps. -/
def Evaluated (it it' : Interpreter F R H) : Prop :=
  it' = { it with regexState := it'.regexState, steps := it'.steps }

instance : Std.Refl (Evaluated : Interpreter F R H → Interpreter F R H → Prop) := ⟨fun _ => rfl⟩

instance : IsTrans (Interpreter F R H) Evaluated where
  trans it it' it'' h h' := by
    rw [Evaluated] at h h' ⊢
    rw [h', h]

theorem evaluated_evalAll {es : List (Expression F)} {vs : List (Value F)}
    (hrun : evalAll host es it = some (.ok vs, it')) : Evaluated it it' := by
  have hrules : ExprRules host host (fun _ => True)
      (fun x _ => Partial.Keeps .panic (Evaluated : Interpreter F R H → _ → Prop) x) :=
    exprRules_keeps (fun _ _ => rfl) fun _ _ => rfl
  exact (hrules.evalAll es fun _ _ => trivial).ok hrun

/-- **The call by the statement is private.** For each two local environments of the caller in which
its arguments have these values and leave these captures, the calls end alike, with the same output
and the same commands of the client, and the caller's variables are as before. -/
def PrivateCall (host : Host F R H) (s : CommandStatement F) (it : Interpreter F R H) (n : ℕ)
    (args : List (Value F)) (captures : R) : Prop :=
  ∀ (scope₁ scope₂ : Variables F) (outer₁ outer₂ : List (Variables F)) (it₁ it₂ : Interpreter F R H),
    evalAll host s.args (it.withLocals scope₁ outer₁) = some (.ok args, it₁) →
    evalAll host s.args (it.withLocals scope₂ outer₂) = some (.ok args, it₂) →
    it₁.regexState = captures → it₂.regexState = captures →
      (execCommand host (exec host n) s (it.withLocals scope₁ outer₁)).map (Prod.map id shared) =
        (execCommand host (exec host n) s (it.withLocals scope₂ outer₂)).map (Prod.map id shared) ∧
      (∀ r it', execCommand host (exec host n) s (it.withLocals scope₁ outer₁) = some (r, it') →
        r ≠ .error .panic → it'.env.scope = scope₁ ∧ it'.env.outer = outer₁) ∧
      ∀ r it', execCommand host (exec host n) s (it.withLocals scope₂ outer₂) = some (r, it') →
        r ≠ .error .panic → it'.env.scope = scope₂ ∧ it'.env.outer = outer₂

/-- **The body by itself**, begun where nothing is local, ends and seeks no variable in vain. -/
def OwnRun (host : Host F R H) (it : Interpreter F R H) (n : ℕ) (args : List (Value F))
    (captures : R) (body : List (Statement F)) : Prop :=
  ∃ r own, exec host n body (({ it with regexState := captures }.shared).enterAlias args) =
    some (r, own) ∧ own.Bound

/-- **Calls of aliases are private** when the body by itself, and what it calls, seeks no local
variable in vain, to read it or to set it. -/
theorem private_of_ownRun {s : CommandStatement F} {n : ℕ} {captures : R}
    (htarget : (target s.name args it.aliases : Target F R H) = .alias_ body)
    (hrun : OwnRun host it n args captures body) : PrivateCall host s it n args captures := by
  intro scope₁ scope₂ outer₁ outer₂ it₁ it₂ hargs₁ hargs₂ hcaptures₁ hcaptures₂
  obtain ⟨r, own, hown, hbound⟩ := hrun
  -- the arguments change captures only, and then the alias is called
  have hcall {scope : Variables F} {outer : List (Variables F)} {after : Interpreter F R H}
      (hargs : evalAll host s.args (it.withLocals scope outer) = some (.ok args, after))
      (hcaptures : after.regexState = captures) :
      after.shared = { it with regexState := captures }.shared ∧
        after.env = (it.withLocals scope outer).env ∧
        execCommand host (exec host n) s (it.withLocals scope outer) =
          execAliasCall (exec host n) body args after := by
    have hevaluated := evaluated_evalAll hargs
    have haliases : after.aliases = it.aliases := (congrArg aliases hevaluated :)
    refine ⟨(congrArg shared hevaluated).trans (hcaptures ▸ rfl), (congrArg env hevaluated :), ?_⟩
    rw [execCommand_eq, bind_of_eq hargs]
    change execTarget host (exec host n) s.name args (target s.name args after.aliases) after = _
    rw [haliases, htarget]
    rfl
  obtain ⟨hshared₁, henv₁, hcall₁⟩ := hcall hargs₁ hcaptures₁
  obtain ⟨hshared₂, henv₂, hcall₂⟩ := hcall hargs₂ hcaptures₂
  have hown₁ : exec host n body (it₁.shared.enterAlias args) = some (r, own) := hshared₁ ▸ hown
  have hown₂ : exec host n body (it₂.shared.enterAlias args) = some (r, own) := hshared₂ ▸ hown
  rw [hcall₁, hcall₂]
  refine ⟨shared_execAliasCall (closed_exec body n) (hshared₁.trans hshared₂.symm) hown₁ hbound,
    fun r' it' hends hr => ?_, fun r' it' hends hr => ?_⟩
  · obtain ⟨hscope, houter⟩ := locals_execAliasCall (closed_exec body n) hown₁ hbound hends hr
    rw [hscope, houter, henv₁]
    exact ⟨rfl, rfl⟩
  · obtain ⟨hscope, houter⟩ := locals_execAliasCall (closed_exec body n) hown₂ hbound hends hr
    rw [hscope, houter, henv₂]
    exact ⟨rfl, rfl⟩

end Calls

section Examples

local instance privacyPlatform : Platform Unit := integersOnly

def callShow : CommandStatement Unit := ⟨"show".toList, [], default⟩

def knowsShow (body : List (Statement Unit)) : Interpreter Unit Unit Unit where
  env := {}
  cmdHandler := ()
  builtinCtx := {}
  regexState := ()
  aliases := some (FoldMap.empty.insert "show".toList body)
  echoOutput := some []

/-- `var %x = 1  if (false) { echo %y }  echo %x  set %x 2` -/
def declareAndShow : List (Statement Unit) :=
  [.varDecl ⟨"x".toList, false, .intLiteral 1 default, default⟩,
    .if_ ⟨.boolLiteral false default,
      [.command ⟨"echo".toList, [.variable_ "y".toList default], default⟩], [], none, default⟩,
    .command ⟨"echo".toList, [.variable_ "x".toList default], default⟩,
    .set ⟨"x".toList, false, .intLiteral 2 default, default⟩]

/-- An alias that declares its variable is private, also where another one is read in a branch that
is not taken. -/
theorem declareAndShow_private : PrivateCall silentHost callShow (knowsShow declareAndShow) 1 [] () := by
  refine private_of_ownRun rfl ⟨_, _, rfl, fun name hmem => ?_⟩
  cases List.mem_singleton.mp hmem

/-- `alias show { echo %x  set %x 2 }` -/
def showAndSet : List (Statement Unit) :=
  [.command ⟨"echo".toList, [.variable_ "x".toList default], default⟩,
    .set ⟨"x".toList, false, .intLiteral 2 default, default⟩]

/-- An alias that does not shows the variable of its caller, and sets it. -/
theorem showAndSet_not_private :
    ¬ ∀ (n : ℕ) (args : List (Value Unit)) (body : List (Statement Unit)),
      (target callShow.name args (knowsShow showAndSet).aliases : Target Unit Unit Unit) =
        .alias_ body → PrivateCall silentHost callShow (knowsShow showAndSet) n args () := by
  intro h
  let bound (value : Bool) : Variables Unit :=
    Function.update (fun _ => none) "x".toList (some (.bool value))
  have hshown := (h 1 [] showAndSet rfl (bound true) (bound false) [] [] _ _ rfl rfl rfl rfl).1
  have houtput : some (some ["true".toList]) = some (some ["false".toList]) :=
    congrArg (Option.map fun outcome : Except (Stop Unit) (Value Unit) × Interpreter Unit Unit Unit =>
      outcome.2.echoOutput) hshown
  exact absurd houtput (by decide)

end Examples

end Interpreter

end Pirc.Scripting
