import Pirc.Scripting.Blocks

/-!
# Scripts: scopes are balanced

Blocks and bodies of aliases push a scope and pop it again around what may fail, and control leaves
loops and bodies by errors. However an execution ends, the scopes below the innermost one are those
that were there, with the same names, and only values of variables that are set differ.
-/

namespace Pirc.Scripting

open Protocol (Str)

variable {F : Type}

/-! ## Names that are set -/

mutual

/-- The local variables that a statement sets. -/
def Statement.setNames : Statement F → List Str
  | .set s => if s.global then [] else [s.name]
  | .if_ ⟨_, thenBody, branches, otherwise, _⟩ =>
    setNames thenBody ++ (setNamesOfElseIfs branches ++ setNamesOfElse otherwise)
  | .while_ ⟨_, body, _⟩ => setNames body
  | .command _ | .varDecl _ | .return_ _ | .break_ _ | .continue_ _ | .exprStatement _ => []

def setNamesOfElseIfs : List (ElseIfBranch F (Statement F)) → List Str
  | [] => []
  | ⟨_, body, _⟩ :: branches => setNames body ++ setNamesOfElseIfs branches

def setNamesOfElse : Option (List (Statement F)) → List Str
  | some body => setNames body
  | none => []

def setNames : List (Statement F) → List Str
  | [] => []
  | s :: ss => s.setNames ++ setNames ss

end

def setsOnly (S : Str → Prop) : BlockCheck F where
  expr _ _ := True
  leaf _
    | .set s => s.global = false → S s.name
    | .if_ _ | .while_ _ => False
    | _ => True
  declares _ := []

mutual

theorem setsOnly_stmt {S : Str → Prop} {place : Place} :
    ∀ s : Statement F, (∀ name ∈ s.setNames, S name) → (setsOnly S).stmt place s
  | .set s, h => by
    intro hlocal
    refine h s.name ?_
    rw [Statement.setNames, hlocal]
    exact List.mem_singleton_self _
  | .if_ ⟨_, thenBody, branches, otherwise, _⟩, h => by
    refine ⟨trivial, setsOnly_stmts thenBody fun name hname => h name (List.mem_append_left _ hname),
      setsOnly_elseIfs branches fun name hname => h name ?_,
      setsOnly_orElse otherwise fun name hname => h name ?_⟩
    · exact List.mem_append_right _ (List.mem_append_left _ hname)
    · exact List.mem_append_right _ (List.mem_append_right _ hname)
  | .while_ ⟨_, body, _⟩, h => ⟨trivial, setsOnly_stmts body h⟩
  | .command _, _ | .varDecl _, _ | .return_ _, _ | .break_ _, _ | .continue_ _, _
  | .exprStatement _, _ => trivial

theorem setsOnly_elseIfs {S : Str → Prop} {place : Place} :
    ∀ branches : List (ElseIfBranch F (Statement F)),
      (∀ name ∈ setNamesOfElseIfs branches, S name) → (setsOnly S).elseIfs place branches
  | [], _ => trivial
  | ⟨_, body, _⟩ :: branches, h =>
    ⟨trivial, setsOnly_stmts body fun name hname => h name (List.mem_append_left _ hname),
      setsOnly_elseIfs branches fun name hname => h name (List.mem_append_right _ hname)⟩

theorem setsOnly_orElse {S : Str → Prop} {place : Place} :
    ∀ otherwise : Option (List (Statement F)), (∀ name ∈ setNamesOfElse otherwise, S name) →
      (setsOnly S).orElse place otherwise
  | some body, h => setsOnly_stmts body h
  | none, _ => trivial

theorem setsOnly_stmts {S : Str → Prop} {place : Place} :
    ∀ ss : List (Statement F), (∀ name ∈ setNames ss, S name) → (setsOnly S).stmts place ss
  | [], _ => trivial
  | s :: ss, h =>
    ⟨setsOnly_stmt s fun name hname => h name (List.mem_append_left _ hname),
      setsOnly_stmts ss fun name hname => h name (List.mem_append_right _ hname)⟩

end

/-! ## What scopes may become -/

/-- The scope binds the same names as before, and only the values of names in `S` differ. -/
structure Rebound (S : Str → Prop) (scope scope' : Variables F) : Prop where
  bound : ∀ name, (scope' name).isSome = (scope name).isSome
  value : ∀ name, ¬ S name → scope' name = scope name

section Rebound

variable {S : Str → Prop} {scope scope' scope'' : Variables F}

theorem rebound_refl (scope : Variables F) : Rebound S scope scope := ⟨fun _ => rfl, fun _ _ => rfl⟩

theorem Rebound.trans (h : Rebound S scope scope') (h' : Rebound S scope' scope'') :
    Rebound S scope scope'' where
  bound name := (h'.bound name).trans (h.bound name)
  value name hname := (h'.value name hname).trans (h.value name hname)

theorem rebound_update {name : Str} (value : Value F) (hbound : (scope name).isSome)
    (hname : S name) : Rebound S scope (Function.update scope name (some value)) where
  bound other := by
    by_cases heq : other = name
    · subst heq
      rw [Function.update_self, hbound]
      rfl
    · rw [Function.update_of_ne heq]
  value other hother := by
    have hne : other ≠ name := fun heq => hother (heq ▸ hname)
    exact Function.update_of_ne hne _ _

theorem isSome_update_of_isSome {name other : Str} {value : Value F} (h : (scope other).isSome) :
    (Function.update scope name (some value) other).isSome := by
  by_cases heq : other = name
  · subst heq
    rw [Function.update_self]
    rfl
  · rwa [Function.update_of_ne heq]

theorem forall₂_rebound_refl (scopes : List (Variables F)) : List.Forall₂ (Rebound S) scopes scopes :=
  List.forall₂_same.mpr fun scope _ => rebound_refl scope

theorem forall₂_rebound_trans {xs ys zs : List (Variables F)} (h : List.Forall₂ (Rebound S) xs ys)
    (h' : List.Forall₂ (Rebound S) ys zs) : List.Forall₂ (Rebound S) xs zs := by
  induction h generalizing zs with
  | nil => exact h'
  | cons hfirst _ ih =>
    cases h' with
    | cons hnext hrest => exact .cons (hfirst.trans hnext) (ih hrest)

theorem exists_rebound_of_mem {xs ys : List (Variables F)} (h : List.Forall₂ (Rebound S) xs ys)
    (hmem : scope ∈ xs) : ∃ scope' ∈ ys, Rebound S scope scope' := by
  induction h with
  | nil => cases hmem
  | cons hfirst _ ih =>
    rcases List.mem_cons.mp hmem with rfl | hrest
    · exact ⟨_, List.mem_cons_self, hfirst⟩
    · obtain ⟨scope', hscope', hrebound⟩ := ih hrest
      exact ⟨scope', List.mem_cons_of_mem _ hscope', hrebound⟩

theorem forall₂_updateScopes {name : Str} (value : Value F) (hname : S name)
    (scopes : List (Variables F)) :
    List.Forall₂ (Rebound S) scopes (Environment.updateScopes name value scopes) := by
  induction scopes with
  | nil => exact .nil
  | cons scope scopes ih =>
    unfold Environment.updateScopes
    split_ifs with hbound
    · exact .cons (rebound_update value hbound hname) (forall₂_rebound_refl scopes)
    · exact .cons (rebound_refl scope) ih

theorem forall₂_outer_updateLocal {name : Str} (value : Value F) (hname : S name) (env : Environment F) :
    List.Forall₂ (Rebound S) env.outer (env.updateLocal name value).outer := by
  unfold Environment.updateLocal
  split_ifs
  · exact forall₂_rebound_refl _
  · exact forall₂_updateScopes value hname _
  · exact forall₂_rebound_refl _

theorem isSome_scope_updateLocal {env : Environment F} {name other : Str} {value : Value F}
    (h : (env.scope other).isSome) : ((env.updateLocal name value).scope other).isSome := by
  unfold Environment.updateLocal
  split_ifs
  · exact isSome_update_of_isSome h
  · exact h
  · exact isSome_update_of_isSome h

end Rebound

namespace Interpreter

variable [Platform F] {R H : Type}

/-- **What is kept**: the scopes below the innermost one, up to the values of names in `S`, and what
the innermost one binds. -/
structure Kept (S : Str → Prop) (it it' : Interpreter F R H) : Prop where
  outer : List.Forall₂ (Rebound S) it.env.outer it'.env.outer
  scope : ∀ name, (it.env.scope name).isSome → (it'.env.scope name).isSome
  aliases : it'.aliases = it.aliases
  builtinCtx : it'.builtinCtx = it.builtinCtx
  ctxOverride : it'.ctxOverride = it.ctxOverride
  aliasDepth : it'.aliasDepth = it.aliasDepth

section Kept

variable {S : Str → Prop} {it it' it'' : Interpreter F R H}

theorem kept_of_eq (henv : it'.env = it.env) (haliases : it'.aliases = it.aliases)
    (hbuiltin : it'.builtinCtx = it.builtinCtx) (hctx : it'.ctxOverride = it.ctxOverride)
    (hdepth : it'.aliasDepth = it.aliasDepth) :
    Kept S it it' where
  outer := henv ▸ forall₂_rebound_refl _
  scope name := by
    rw [henv]
    exact id
  aliases := haliases
  builtinCtx := hbuiltin
  ctxOverride := hctx
  aliasDepth := hdepth

theorem kept_refl (it : Interpreter F R H) : Kept S it it := kept_of_eq rfl rfl rfl rfl rfl

theorem Kept.trans (h : Kept S it it') (h' : Kept S it' it'') : Kept S it it'' where
  outer := forall₂_rebound_trans h.outer h'.outer
  scope name hname := h'.scope name (h.scope name hname)
  aliases := h'.aliases.trans h.aliases
  builtinCtx := h'.builtinCtx.trans h.builtinCtx
  ctxOverride := h'.ctxOverride.trans h.ctxOverride
  aliasDepth := h'.aliasDepth.trans h.aliasDepth

end Kept

/-! ## Expressions -/

section Expressions

variable {K : Interpreter F R H → Interpreter F R H → Prop} [Std.Refl K]
  [IsTrans (Interpreter F R H) K] {host : Host F R H} {α : Type}

omit [IsTrans (Interpreter F R H) K] in
theorem keeps_resume (result : Except (RuntimeError F) α) :
    Partial.Keeps .panic K (resume result : Exec F R H α) := by
  cases result with
  | ok a => exact Partial.keeps_pure a
  | error e => exact Partial.keeps_throw (Stop.error e)

theorem exprRules_keeps (hcaptures : ∀ it captures, K it { it with regexState := captures })
    (hsteps : ∀ it step, K it { it with steps := it.steps ++ [step] }) :
    ExprRules host host (fun _ => True) (fun x _ => Partial.Keeps .panic K x) := by
  have hoperator (step : Step F) (result : Except (Stop F) (Value F)) :
      Partial.Keeps .panic K (record step >>= fun _ => give result : Exec F R H (Value F)) := by
    refine Partial.Keeps.bind (Partial.keeps_modify fun it => hsteps it step) fun _ => ?_
    cases result with
    | ok v => exact Partial.keeps_pure v
    | error stop => exact Partial.keeps_throw stop
  refine
    { returns := fun a => Partial.keeps_pure a
      sequence := fun hx hf => Partial.Keeps.bind hx hf
      variable_ := fun name span _ => ?_
      globalVariable := fun _ _ => Partial.keeps_get_bind fun _ => Partial.keeps_pure _
      builtinId := fun _ _ => Partial.keeps_get_bind fun _ => Partial.keeps_pure _
      callFunction := fun name args => ?_
      binary := fun _ _ _ => hoperator _ _
      unary := fun _ _ => hoperator _ _ }
  · unfold Interpreter.evalExpr
    refine Partial.keeps_get_bind fun it => ?_
    split
    · exact Partial.keeps_pure _
    · exact Partial.Keeps.bind (Partial.keeps_modify fun it => hsteps it _) fun _ => Partial.keeps_throw _
  · refine Partial.keeps_get_bind fun it => Partial.Keeps.bind ?_ fun _ => keeps_resume _
    exact Partial.keeps_modify fun it => hcaptures it _

end Expressions

/-! ## Blocks -/

/-- The state in which a block begins. -/
def inner (it : Interpreter F R H) : Interpreter F R H := { it with env := it.env.pushScope }

/-- The state after a block. -/
def leave (it : Interpreter F R H) : Interpreter F R H :=
  { it with env := it.env.popScope.getD it.env }

def caught {α : Type} :
    Except (Stop F) α × Interpreter F R H →
      Except (Stop F) (Except (RuntimeError F) α) × Interpreter F R H
  | (.ok a, it) => (.ok (.ok a), it.leave)
  | (.error (.error e), it) => (.ok (.error e), it.leave)
  | (.error .panic, it) => (.error .panic, it)

theorem popScope_run {it : Interpreter F R H} (h : it.env.outer ≠ []) :
    popScope it = some (.ok ⟨⟩, it.leave) := by
  obtain ⟨scope, outer, houter⟩ := List.exists_cons_of_ne_nil h
  rw [popScope_apply houter, leave, Environment.popScope, houter]
  rfl

/-- **A block is left as it was entered**: its scope can be popped, unless its body panics. -/
theorem inScope_run {α : Type} {x : Exec F R H α} {it : Interpreter F R H}
    (h : ∀ r it', x it.inner = some (r, it') → r ≠ .error .panic → it'.env.outer ≠ []) :
    inScope x it = (x it.inner).map caught := by
  rw [inScope_apply, show ({ it with env := it.env.pushScope } : Interpreter F R H) = it.inner from rfl]
  unfold attempt
  rcases hrun : x it.inner with - | ⟨(e | -) | a, it'⟩
  · rfl
  · have hpop := popScope_run (h _ it' hrun (by rintro ⟨⟩))
    exact (bind_of_eq hpop).trans rfl
  · rfl
  · have hpop := popScope_run (h _ it' hrun (by rintro ⟨⟩))
    exact (bind_of_eq hpop).trans rfl

section Kept

variable {S : Str → Prop} {it it' : Interpreter F R H}

theorem Kept.leave (h : Kept S it.inner it') : Kept S it it'.leave ∧ it'.env.outer ≠ [] := by
  have houter : List.Forall₂ (Rebound S) (it.env.scope :: it.env.outer) it'.env.outer := h.outer
  cases hscopes : it'.env.outer with
  | nil =>
    rw [hscopes] at houter
    cases houter
  | cons scope outer =>
    rw [hscopes] at houter
    cases houter with
    | cons hscope hrest =>
      have hleave : it'.leave = { it' with env := { it'.env with scope := scope, outer := outer } } := by
        rw [Interpreter.leave, Environment.popScope, hscopes]
        rfl
      rw [hleave]
      refine ⟨⟨hrest, fun name hname => ?_, h.aliases, h.builtinCtx, h.ctxOverride, h.aliasDepth⟩,
        by simp⟩
      exact (hscope.bound name).trans hname

end Kept

/-! ## Bodies of aliases -/

/-- The outcome of an alias whose body ends so: a return is an end as any other. -/
def answer : Except (Stop F) (Value F) → Except (Stop F) (Value F)
  | .ok _ | .error (.error (.return_ _)) => .ok .null
  | r => r

/-- The state after an alias that was called here. -/
def backFrom (it after : Interpreter F R H) : Interpreter F R H :=
  { after with ctxOverride := it.ctxOverride, aliasDepth := it.aliasDepth }

/-- What of the outcome of a body is handed on by the call. -/
def returned (it : Interpreter F R H) :
    Except (Stop F) (Value F) × Interpreter F R H → Except (Stop F) (Value F) × Interpreter F R H
  | (.error .panic, it') => (.error .panic, it')
  | (r, it') => (answer r, it.backFrom it'.leave)

/-- **The call of an alias**, when scopes are balanced in its body. -/
theorem execAliasCall_run {runBody : List (Statement F) → Exec F R H (Value F)}
    {body : List (Statement F)} {args : List (Value F)} {it : Interpreter F R H}
    (hlimit : ¬ maxAliasDepth ≤ it.aliasDepth)
    (h : ∀ r it', runBody body (it.enterAlias args).inner = some (r, it') → r ≠ .error .panic →
      it'.env.outer ≠ []) :
    execAliasCall runBody body args it =
      (runBody body (it.enterAlias args).inner).map it.returned := by
  rw [execAliasCall_body hlimit, Partial.bind_run, inScope_run h]
  rcases hrun : runBody body (it.enterAlias args).inner with - | ⟨(e | -) | v, it'⟩
  · rfl
  · cases e <;> rfl
  · rfl
  · rfl

/-! ## Executions keep the scopes -/

def Frames (S : Str → Prop) (aliases : Option (AliasRegistry F)) (it it' : Interpreter F R H) : Prop :=
  it.aliases = aliases → Kept S it it'

section Keeps

variable {S : Str → Prop} {aliases : Option (AliasRegistry F)} {α : Type}

instance : Std.Refl (Frames S aliases : Interpreter F R H → Interpreter F R H → Prop) :=
  ⟨fun it _ => kept_refl it⟩

instance : IsTrans (Interpreter F R H) (Frames S aliases) :=
  ⟨fun _ _ _ h h' haliases => (h haliases).trans (h' ((h haliases).aliases.trans haliases))⟩

/-- The scopes are kept unless the execution panics. -/
def Balances (S : Str → Prop) (aliases : Option (AliasRegistry F)) (x : Exec F R H α) : Prop :=
  Partial.Keeps .panic (Frames S aliases) x

theorem balances_modify {change : Interpreter F R H → Interpreter F R H}
    (hkept : ∀ it, Kept S it (change it)) : Balances S aliases (modify change : Exec F R H PUnit) :=
  Partial.keeps_modify fun it _ => hkept it

variable {host : Host F R H} {runBody : List (Statement F) → Exec F R H (Value F)}

theorem balances_handleCommand (name : Str) (args : List (Value F)) :
    Balances S aliases (handleCommand host name args) := by
  refine Partial.keeps_get_bind fun it => Partial.Keeps.bind ?_ fun _ => ?_
  · exact balances_modify fun it => kept_of_eq rfl rfl rfl rfl rfl
  · split
    · exact Partial.keeps_pure _
    · exact Partial.keeps_throw _

theorem exprRules_balances :
    ExprRules host host (fun _ => True) (fun x _ => Balances S aliases x) := by
  refine exprRules_keeps (fun it captures _ => ?_) fun it step _ => ?_
  · exact kept_of_eq rfl rfl rfl rfl rfl
  · exact kept_of_eq rfl rfl rfl rfl rfl

theorem balances_evalExpr (e : Expression F) : Balances S aliases (evalExpr host e) :=
  exprRules_balances.evalExpr e fun _ _ => trivial

theorem balances_evalAll (es : List (Expression F)) : Balances S aliases (evalAll host es) :=
  exprRules_balances.evalAll es fun _ _ => trivial

/-! ### Bodies -/

theorem Balances.inScope_run {x : Exec F R H α} (hx : Balances S aliases x) {it : Interpreter F R H}
    (haliases : it.aliases = aliases) : inScope x it = (x it.inner).map caught :=
  Interpreter.inScope_run fun r it' hrun hr => (hx it.inner r it' hrun hr haliases).leave.2

theorem Balances.inScope {x : Exec F R H α} (hx : Balances S aliases x) :
    Balances S aliases (inScope x) := by
  intro it r it' hrun hr haliases
  rw [hx.inScope_run haliases] at hrun
  rcases hbody : x it.inner with - | ⟨(e | -) | a, after⟩
  all_goals rw [hbody] at hrun; cases hrun
  · exact (hx it.inner _ after hbody (by rintro ⟨⟩) haliases).leave.1
  · exact absurd rfl hr
  · exact (hx it.inner _ after hbody (by rintro ⟨⟩) haliases).leave.1

/-- **The body of an alias** leaves the caller's scopes, and the context and the depth are
restored. -/
theorem Balances.execAliasCall {body : List (Statement F)} (hbody : Balances S aliases (runBody body))
    (args : List (Value F)) : Balances S aliases (execAliasCall runBody body args) := by
  intro it r it' hrun hr haliases
  by_cases hlimit : maxAliasDepth ≤ it.aliasDepth
  · rw [execAliasCall_limit hlimit] at hrun
    cases hrun
    exact kept_refl it
  have hkept (r) (after : Interpreter F R H)
      (hafter : runBody body (it.enterAlias args).inner = some (r, after)) (hr : r ≠ .error .panic) :
      Kept S it (it.backFrom after.leave) ∧ after.env.outer ≠ [] := by
    have hinner : Kept S (it.enterAlias args).inner after := hbody _ r after hafter hr haliases
    obtain ⟨hleave, houter⟩ := hinner.leave
    exact ⟨⟨hleave.outer, hleave.scope, hleave.aliases, hleave.builtinCtx, rfl, rfl⟩, houter⟩
  rw [execAliasCall_run hlimit fun r after hafter hr => (hkept r after hafter hr).2] at hrun
  rcases hafter : runBody body (it.enterAlias args).inner with - | ⟨(e | -) | v, after⟩
  all_goals rw [hafter] at hrun; cases hrun
  · exact (hkept _ after hafter (by rintro ⟨⟩)).1
  · exact absurd rfl hr
  · exact (hkept _ after hafter (by rintro ⟨⟩)).1

theorem balances_execCommand (s : CommandStatement F)
    (hrun : ∀ registry name body, aliases = some registry → registry.get name = some body →
      Balances S aliases (runBody body)) :
    Balances S aliases (execCommand host runBody s) := by
  rw [execCommand_eq]
  refine (balances_evalAll s.args).bind fun args => ?_
  intro it r it' hrest hr haliases
  change execTarget host runBody s.name args (target s.name args it.aliases) it = some (r, it') at hrest
  cases htarget : (target s.name args it.aliases : Target F R H) with
  | external =>
    rw [htarget] at hrest
    exact balances_handleCommand s.name args it r it' hrest hr haliases
  | builtin x =>
    rw [htarget] at hrest
    have hx : Balances S aliases x := by
      rcases tryBuiltinCommand_cases (builtin_of_target htarget) with rfl | rfl | ⟨change, rfl⟩
      · exact Partial.keeps_pure _
      · exact Partial.keeps_throw _
      · refine Partial.Keeps.bind ?_ fun _ => Partial.keeps_pure _
        exact balances_modify fun it => kept_of_eq rfl rfl rfl rfl rfl
    exact hx it r it' hrest hr haliases
  | alias_ body =>
    rw [htarget] at hrest
    obtain ⟨registry, hregistry, hget⟩ := get_of_target htarget
    exact (hrun registry s.name body (haliases ▸ hregistry) hget).execAliasCall args it r it' hrest
      hr haliases

/-! ### Statements -/

theorem kept_varDecl (s : SetStatement F) (val : Value F) (it : Interpreter F R H) :
    Kept S it { it with
      env := if s.global then it.env.setGlobal s.name val else it.env.setLocal s.name val } := by
  by_cases hglobal : s.global = true
  · rw [if_pos hglobal]
    exact ⟨forall₂_rebound_refl _, fun _ => id, rfl, rfl, rfl, rfl⟩
  · rw [if_neg hglobal]
    exact ⟨forall₂_rebound_refl _, fun name => isSome_update_of_isSome, rfl, rfl, rfl, rfl⟩

theorem balances_execVarDecl (s : SetStatement F) : Balances S aliases (execVarDecl host s) := by
  refine (balances_evalExpr s.value).bind fun val => Partial.Keeps.bind ?_ fun _ => Partial.keeps_pure _
  exact Partial.keeps_modify fun it _ => kept_varDecl s val it

theorem kept_set (s : SetStatement F) (hset : s.global = false → S s.name) (val : Value F)
    (it : Interpreter F R H) : Kept S it (it.assign s val) := by
  unfold assign
  split_ifs with hglobal
  · exact ⟨forall₂_rebound_refl _, fun _ => id, rfl, rfl, rfl, rfl⟩
  · have hname := hset (Bool.eq_false_iff.mpr hglobal)
    exact ⟨forall₂_outer_updateLocal val hname it.env, fun name => isSome_scope_updateLocal, rfl,
      rfl, rfl, rfl⟩
  · exact ⟨forall₂_rebound_refl _, fun name => isSome_update_of_isSome, rfl, rfl, rfl, rfl⟩

theorem balances_execSet (s : SetStatement F) (hset : s.global = false → S s.name) :
    Balances S aliases (execSet host s) := by
  refine (balances_evalExpr s.value).bind fun val => Partial.Keeps.bind ?_ fun _ => Partial.keeps_pure _
  exact Partial.keeps_modify fun it _ => kept_set s hset val it

theorem balances_execReturn (s : ReturnStatement F) : Balances S aliases (execReturn host s) := by
  unfold execReturn
  dsimp only
  split
  · exact (balances_evalExpr _).bind fun val => Partial.keeps_throw _
  · exact Partial.Keeps.bind (Partial.keeps_pure _) fun val => Partial.keeps_throw _

/-- **Statements keep the scopes** when the bodies of aliases do. -/
theorem stmtRules_balances (rounds : ℕ)
    (hrun : ∀ registry name body, aliases = some registry → registry.get name = some body →
      Balances S aliases (runBody body)) :
    StmtRules (setsOnly S) host host runBody runBody rounds (fun _ _ x _ => Balances S aliases x) where
  returns _ _ a := Partial.keeps_pure a
  sequence _ _ _ _ _ _ _ hx hf := Partial.Keeps.bind hx hf
  cutOff _ := by rintro it r it' ⟨⟩
  loopLimit _ := Partial.keeps_throw _
  expr _ e _ := balances_evalExpr e
  leaf place s hs := by
    cases s with
    | command s => exact balances_execCommand s hrun
    | varDecl s => exact balances_execVarDecl s
    | set s => exact balances_execSet s hs
    | return_ s => exact balances_execReturn s
    | break_ span => exact Partial.keeps_throw _
    | continue_ span => exact Partial.keeps_throw _
    | exprStatement s => exact (balances_evalExpr s.expr).bind fun _ => Partial.keeps_pure _
    | if_ s => exact hs.elim
    | while_ s => exact hs.elim
  next _ _ _ _ hs hf := Partial.Keeps.bind hs hf
  block _ _ _ hbody := hbody.inScope.bind fun result => keeps_resume result
  round _ _ _ _ _ hbody hagain := by
    refine hbody.inScope.bind fun result => ?_
    split
    · exact hagain
    · exact hagain
    · exact Partial.keeps_pure _
    · exact Partial.keeps_throw _

/-- **Executions keep the scopes**, up to the values of names that are set in the statements or in
the body of an alias. -/
theorem balances_exec
    (hregistry : ∀ registry name body, aliases = some registry → registry.get name = some body →
      ∀ x ∈ setNames body, S x)
    {ss : List (Statement F)} (hss : ∀ x ∈ setNames ss, S x) (n : ℕ) :
    Balances S aliases (exec host n ss) := by
  induction n generalizing ss with
  | zero => rintro it r it' ⟨⟩
  | succ n ih =>
    have hrun : ∀ registry name body, aliases = some registry → registry.get name = some body →
        Balances S aliases (exec host n body) :=
      fun registry name body hregistered hget => ih (hregistry registry name body hregistered hget)
    exact (stmtRules_balances n hrun).execStmts ss ((@setsOnly_stmts F S {}) ss hss)

end Keeps

/-! ## Outcomes -/

def Assigned (it : Interpreter F R H) (ss : List (Statement F)) (name : Str) : Prop :=
  name ∈ setNames ss ∨ ∃ registry called body,
    it.aliases = some registry ∧ registry.get called = some body ∧ name ∈ setNames body

theorem exec_panic {host : Host F R H} {n : ℕ} {ss : List (Statement F)}
    {it it' : Interpreter F R H} (h : exec host n ss it = some (.error .panic, it')) :
    ∃ new, it'.steps = it.steps ++ new ∧ ∃ step ∈ new, step.Overflows := by
  have hends : Ends maxAliasDepth (exec host (maxLoopIterations + maxAliasDepth + 2) ss) :=
    ends_exec (Nat.lt_succ_self _) ss
  obtain ⟨r, after, hrun, hran⟩ := hends it (Nat.le_add_left _ _)
  cases exec_unique hrun h
  obtain ⟨new, hnew, hpanics, -⟩ := hran.steps
  exact ⟨new, hnew, hpanics.mp rfl⟩

/-- **Scopes are balanced on every outcome.** There are as many as before; those below the innermost
one bind the same names, and only values of names that are set differ; the context and the depth of
aliases are as before. The outermost scope is never popped, which would be a panic: there is none
but by an operator whose result has no place. -/
theorem exec_balanced {host : Host F R H} {n : ℕ} {ss : List (Statement F)} {it it' : Interpreter F R H}
    {r : Except (Stop F) (Value F)} (h : exec host n ss it = some (r, it')) :
    (r ≠ .error .panic →
      it'.env.scopes.length = it.env.scopes.length ∧ Kept (Assigned it ss) it it') ∧
    (r = .error .panic → ∃ new, it'.steps = it.steps ++ new ∧ ∃ step ∈ new, step.Overflows) := by
  constructor
  · intro hr
    have hbalances : Balances (Assigned it ss) it.aliases (exec host n ss) :=
      balances_exec (fun registry called body hregistered hget name hname =>
        .inr ⟨registry, called, body, hregistered, hget, hname⟩) (fun name hname => .inl hname) n
    have hkept := hbalances it r it' h hr rfl
    exact ⟨congrArg (· + 1) hkept.outer.length_eq.symm, hkept⟩
  · rintro rfl
    exact exec_panic h

section Examples

local instance loopPlatform : Platform Unit := integersOnly

def insideBlock : Interpreter Unit Unit Unit where
  env := { outer := [Function.update (fun _ => none) "x".toList (some (.int 1))] }
  cmdHandler := ()
  builtinCtx := {}
  regexState := ()

def setAndBreak : List (Statement Unit) :=
  [.while_ ⟨.boolLiteral true default,
    [.set ⟨"x".toList, false, .intLiteral 2 default, default⟩, .break_ default], default⟩]

/-- The loop is left, and only `%x` is another. -/
theorem setAndBreak_balanced :
    ∃ it', exec silentHost 2 setAndBreak insideBlock = some (.ok .null, it') ∧
      Kept (Assigned insideBlock setAndBreak) insideBlock it' := by
  have hrun : ∃ it', exec silentHost 2 setAndBreak insideBlock = some (.ok .null, it') := ⟨_, rfl⟩
  obtain ⟨it', hrun⟩ := hrun
  exact ⟨it', hrun, ((exec_balanced hrun).1 (by rintro ⟨⟩)).2⟩

end Examples

end Interpreter

end Pirc.Scripting
