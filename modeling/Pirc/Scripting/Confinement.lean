import Pirc.Scripting.Declarations
import Pirc.Scripting.Functions

/-!
# Scripts: what gets out of a body

Errors get out of blocks as they are, while loops stop `break` and `continue`, and calls of aliases
stop `return`. Which errors may get out is a parameter: when it suits loops and calls, a body lets
out only what its own statements may.
-/

namespace Pirc.Scripting

open Protocol (Str)

variable {F : Type}

def Stop.Stray : Stop F → Prop
  | .error .break_ | .error .continue_ => True
  | _ => False

/-- **What is let out** inside and outside loops: all that does not depend on it, and what a loop
does not stop. -/
structure Lets (E : Bool → Stop F → Prop) : Prop where
  values : ∀ inLoop e, RuntimeError.OfValues e → E inLoop (.error e)
  panic : ∀ inLoop, E inLoop .panic
  halt : ∀ inLoop, E inLoop (.error .halt)
  return_ : ∀ inLoop v, E inLoop (.error (.return_ v))
  loopLimit : ∀ inLoop, E inLoop (.error .loopLimit)
  aliasRecursionLimit : ∀ inLoop, E inLoop (.error .aliasRecursionLimit)
  loop : ∀ inLoop stop, E true stop → stop.Stray ∨ E inLoop stop
  body : ∀ inLoop stop, E false stop → E inLoop stop

/-- The check that expressions and statements fail by what is let out only, if they fail by a
variable that is not declared, or leave a loop. -/
def letsOut (E : Bool → Stop F → Prop) : BlockCheck F where
  expr place e := ∀ name ∈ e.locals, Visible place name
  leaf place
    | .command s => ∀ name ∈ localsOfAll s.args, Visible place name
    | .varDecl s | .set s => ∀ name ∈ s.value.locals, Visible place name
    | .return_ s => ∀ e, s.value = some e → ∀ name ∈ e.locals, Visible place name
    | .exprStatement s => ∀ name ∈ s.expr.locals, Visible place name
    | .break_ _ => E place.inLoop (.error .break_)
    | .continue_ _ => E place.inLoop (.error .continue_)
    | .if_ _ | .while_ _ => False
  declares := declarations true
where
  /-- The variable is declared, or may be missing. -/
  Visible (place : Place) (name : Str) : Prop :=
    name ∈ place.declared ∨ E place.inLoop (.error (.undefinedVariable ('%' :: name)))

namespace Interpreter

variable [Platform F] {R H : Type}

/-- The execution keeps the scopes, and fails at the place by what is let out only. -/
structure Confines (E : Bool → Stop F → Prop) (aliases : Option (AliasRegistry F)) (place : Place)
    {α : Type} (x : Exec F R H α) : Prop where
  balances : Balances (fun _ => True) aliases x
  fails : Partial.Fails (Knows aliases place.declared) (E place.inLoop) x

section Confines

variable {E : Bool → Stop F → Prop} {aliases : Option (AliasRegistry F)} {place : Place}
  {α β : Type} {host : Host F R H} {runBody : List (Statement F) → Exec F R H (Value F)}

theorem confines_pure (a : α) : Confines E aliases place (pure a : Exec F R H α) :=
  ⟨Partial.keeps_pure a, Partial.fails_pure a⟩

theorem confines_throw {stop : Stop F} (h : E place.inLoop stop) :
    Confines E aliases place (throw stop : Exec F R H α) :=
  ⟨Partial.keeps_throw stop, Partial.fails_throw h⟩

theorem Confines.bind {x : Exec F R H α} {f : α → Exec F R H β} (hx : Confines E aliases place x)
    (hf : ∀ a, Confines E aliases place (f a)) : Confines E aliases place (x >>= f) where
  balances := Partial.Keeps.bind hx.balances fun a => (hf a).balances
  fails := hx.fails.bind (fun _ _ _ hit hrun => hx.balances.knows hit hrun) fun a => (hf a).fails

theorem confines_get_bind {f : Interpreter F R H → Exec F R H α}
    (hf : ∀ it, it.aliases = aliases → Confines E aliases place (f it)) :
    Confines E aliases place (get >>= f) where
  balances it r it' hrun hr haliases := (hf it haliases).balances it r it' hrun hr haliases
  fails := fun it stop it' hit hrun => (hf it hit.1).fails it stop it' hit hrun

theorem confines_modify {change : Interpreter F R H → Interpreter F R H}
    (hkept : ∀ it, Kept (fun _ => True) it (change it)) :
    Confines E aliases place (modify change : Exec F R H PUnit) :=
  ⟨Partial.keeps_modify fun it _ => hkept it, Partial.fails_modify change⟩

/-! ### Expressions -/

/-- **An expression** fails by its variables, or by its values. -/
theorem exprRules_confines (hE : Lets E)
    (hcall : ∀ name args captures e, (host.call name args captures).1 = .error e → e.OfValues) :
    ExprRules host host (letsOut.Visible E place) (fun x _ => Confines E aliases place x) := by
  have hoperator (step : Step F) (result : Except (Stop F) (Value F))
      (herror : ∀ e, result = .error (.error e) → e.OfValues) :
      Confines E aliases place (record step >>= fun _ => give result : Exec F R H (Value F)) := by
    refine Confines.bind (confines_modify fun it => kept_of_eq rfl rfl rfl rfl rfl) fun _ => ?_
    rcases result with (e | -) | v
    · exact confines_throw (hE.values _ e (herror e rfl))
    · exact confines_throw (hE.panic _)
    · exact confines_pure v
  refine
    { returns := fun a => confines_pure a
      sequence := fun hx hf => hx.bind hf
      variable_ := fun name span hname => ⟨balances_evalExpr _, fun it stop it' hit hrun => ?_⟩
      globalVariable := fun _ _ => confines_get_bind fun _ _ => confines_pure _
      builtinId := fun _ _ => confines_get_bind fun _ _ => confines_pure _
      callFunction := fun name args => confines_get_bind fun it _ => Confines.bind ?_ fun _ => ?_
      binary := fun op v w => hoperator _ _ fun e he => Value.binary_error he
      unary := fun op v => hoperator _ _ fun e he => Value.unary_error he }
  · rw [Interpreter.evalExpr, bind_apply, show (get : Exec F R H _) it = some (.ok it, it) from rfl] at hrun
    dsimp only at hrun
    cases hlocal : it.env.getLocal name with
    | some value =>
      rw [hlocal] at hrun
      cases hrun
    | none =>
      rw [hlocal] at hrun
      cases hrun
      rcases hname with hdeclared | hmissing
      · have hsome := hit.2 name hdeclared
        rw [hlocal] at hsome
        cases hsome
      · exact hmissing
  · exact confines_modify fun it => kept_of_eq rfl rfl rfl rfl rfl
  · cases hresult : (host.call name args it.regexState).1 with
    | ok v => exact confines_pure v
    | error e => exact confines_throw (hE.values _ e (hcall _ _ _ e hresult))

/-! ### Blocks and bodies -/

theorem Confines.blockOf {body : Exec F R H (Value F)} (hbody : Confines E aliases place body) :
    Confines E aliases place (blockOf body) where
  balances := hbody.balances.inScope.bind fun result => keeps_resume result
  fails := by
    intro it stop it' hit hrun
    rw [Interpreter.blockOf, Partial.bind_run, hbody.balances.inScope_run hit.1] at hrun
    rcases hinner : body it.inner with - | ⟨(e | -) | v, after⟩
    all_goals rw [hinner] at hrun; cases hrun
    · exact hbody.fails it.inner _ after hit.inner hinner
    · exact hbody.fails it.inner _ _ hit.inner hinner

/-- **A round of a loop** stops control that leaves the loop. -/
theorem confines_roundOf (hE : Lets E) {body again : Exec F R H (Value F)}
    (hbody : Confines E aliases place.loop body) (hagain : Confines E aliases place again) :
    Confines E aliases place (roundOf body again) where
  balances := by
    refine hbody.balances.inScope.bind fun result => ?_
    split
    · exact hagain.balances
    · exact hagain.balances
    · exact Partial.keeps_pure _
    · exact Partial.keeps_throw _
  fails := by
    intro it stop it' hit hrun
    rw [roundOf, Partial.bind_run, hbody.balances.inScope_run hit.1] at hrun
    have hleave (r) (after : Interpreter F R H) (hinner : body it.inner = some (r, after))
        (hr : r ≠ .error .panic) : Knows aliases place.declared after.leave :=
      hit.of_kept (hbody.balances it.inner r after hinner hr hit.1).leave.1
    rcases hinner : body it.inner with - | ⟨(e | -) | v, after⟩
    · rw [hinner] at hrun
      cases hrun
    · have hstop := hbody.fails it.inner _ after hit.inner hinner
      rw [hinner] at hrun
      cases e with
      | continue_ => exact hagain.fails _ stop it' (hleave _ after hinner (by rintro ⟨⟩)) hrun
      | break_ => cases hrun
      | _ =>
        cases hrun
        exact (hE.loop _ _ hstop).resolve_left id
    · have hstop := hbody.fails it.inner _ after hit.inner hinner
      rw [hinner] at hrun
      cases hrun
      exact hE.panic _
    · rw [hinner] at hrun
      exact hagain.fails _ stop it' (hleave _ after hinner (by rintro ⟨⟩)) hrun

/-- **The call of an alias** lets out what the body does, but for its return. -/
theorem confines_execAliasCall (hE : Lets E) {body : List (Statement F)}
    (hbody : Confines E aliases {} (runBody body)) (args : List (Value F)) :
    Confines E aliases place (execAliasCall runBody body args) where
  balances := hbody.balances.execAliasCall args
  fails := by
    intro it stop it' hit hrun
    by_cases hlimit : maxAliasDepth ≤ it.aliasDepth
    · rw [execAliasCall_limit hlimit] at hrun
      cases hrun
      exact hE.aliasRecursionLimit _
    have hknows : Knows aliases [] (it.enterAlias args).inner := ⟨hit.1, by simp⟩
    have hkept (r) (after : Interpreter F R H)
        (hafter : runBody body (it.enterAlias args).inner = some (r, after)) (hr : r ≠ .error .panic) :
        after.env.outer ≠ [] :=
      (hbody.balances _ r after hafter hr hknows.1).leave.2
    rw [execAliasCall_run hlimit hkept] at hrun
    rcases hinner : runBody body (it.enterAlias args).inner with - | ⟨(e | -) | v, after⟩
    · rw [hinner] at hrun
      cases hrun
    · have hstop := hbody.fails _ _ after hknows hinner
      rw [hinner] at hrun
      cases e with
      | return_ v => cases hrun
      | _ =>
        cases hrun
        exact hE.body _ _ hstop
    · rw [hinner] at hrun
      cases hrun
      exact hE.panic _
    · rw [hinner] at hrun
      cases hrun

/-! ### Statements -/

theorem confines_execCommand (hE : Lets E)
    (hcall : ∀ name args captures e, (host.call name args captures).1 = .error e → e.OfValues)
    (hhandle : ∀ name args client e, (host.handleCommand name args client).1 = .error e →
      E place.inLoop (.error e))
    (hrun : ∀ registry name body, aliases = some registry → registry.get name = some body →
      Confines E aliases {} (runBody body))
    {s : CommandStatement F} (hargs : ∀ name ∈ localsOfAll s.args, letsOut.Visible E place name) :
    Confines E aliases place (execCommand host runBody s) := by
  rw [execCommand_eq]
  refine ((exprRules_confines hE hcall).evalAll s.args hargs).bind fun args => ?_
  refine confines_get_bind fun it haliases => ?_
  cases htarget : (target s.name args it.aliases : Target F R H) with
  | external =>
    refine confines_get_bind fun it _ => Confines.bind ?_ fun _ => ?_
    · exact confines_modify fun it => kept_of_eq rfl rfl rfl rfl rfl
    · cases hresult : (host.handleCommand s.name args it.cmdHandler).1 with
      | ok _ => exact confines_pure _
      | error e => exact confines_throw (hhandle _ _ _ e hresult)
  | builtin x =>
    rcases tryBuiltinCommand_cases (builtin_of_target htarget) with rfl | rfl | ⟨change, rfl⟩
    · exact confines_pure _
    · exact confines_throw (hE.halt _)
    · refine Confines.bind ?_ fun _ => confines_pure _
      exact confines_modify fun it => kept_of_eq rfl rfl rfl rfl rfl
  | alias_ body =>
    obtain ⟨registry, hregistry, hget⟩ := get_of_target htarget
    exact confines_execAliasCall hE (hrun registry s.name body (haliases ▸ hregistry) hget) args

/-- **Statements let out only what the check accepts.** -/
theorem stmtRules_confines (hE : Lets E) (rounds : ℕ)
    (hcall : ∀ name args captures e, (host.call name args captures).1 = .error e → e.OfValues)
    (hhandle : ∀ inLoop name args client e, (host.handleCommand name args client).1 = .error e →
      E inLoop (.error e))
    (hrun : ∀ registry name body, aliases = some registry → registry.get name = some body →
      Confines E aliases {} (runBody body)) :
    StmtRules (letsOut E) host host runBody runBody rounds
      (fun place _ x _ => Confines E aliases place x) where
  returns _ _ a := confines_pure a
  sequence _ _ _ _ _ _ _ hx hf := hx.bind hf
  cutOff _ := ⟨by rintro it r it' ⟨⟩, by rintro it e it' - ⟨⟩⟩
  loopLimit _ := confines_throw (hE.loopLimit _)
  expr _ e he := (exprRules_confines hE hcall).evalExpr e he
  leaf place s hs := by
    have hvalue (e : Expression F) (he : ∀ name ∈ e.locals, letsOut.Visible E place name) :
        Confines E aliases place (evalExpr host e) := (exprRules_confines hE hcall).evalExpr e he
    cases s with
    | command s => exact confines_execCommand hE hcall (hhandle _) hrun hs
    | varDecl s =>
      refine (hvalue s.value hs).bind fun val => Confines.bind ?_ fun _ => confines_pure _
      exact confines_modify (kept_varDecl s val)
    | set s =>
      refine (hvalue s.value hs).bind fun val => Confines.bind ?_ fun _ => confines_pure _
      exact confines_modify (kept_set s (fun _ => trivial) val)
    | return_ s =>
      unfold Interpreter.execStmt execReturn
      dsimp only
      split
      · next e he => exact (hvalue e (hs e he)).bind fun val => confines_throw (hE.return_ _ val)
      · exact (confines_pure _).bind fun val => confines_throw (hE.return_ _ val)
    | break_ span => exact confines_throw hs
    | continue_ span => exact confines_throw hs
    | exprStatement s => exact (hvalue s.expr hs).bind fun _ => confines_pure _
    | if_ s => exact hs.elim
    | while_ s => exact hs.elim
  next place s f g hs hf :=
    { balances := Partial.Keeps.bind hs.balances fun v => (hf v).balances
      fails := by
        refine hs.fails.bind (fun it v it' hit hok => ?_) fun v => (hf v).fails
        have hknows := hs.balances.knows hit hok
        refine ⟨hknows.1, fun name hname => ?_⟩
        rcases List.mem_append.mp hname with hdeclared | hbefore
        · exact isSome_of_execStmt hok name hdeclared
        · exact hknows.2 name hbefore }
  block _ _ _ hbody := hbody.blockOf
  round _ _ _ _ _ hbody hagain := confines_roundOf hE hbody hagain

end Confines

end Interpreter

end Pirc.Scripting
