import Pirc.Scripting.Events
import Pirc.Scripting.Scopes

/-!
# Scripts: what an event runs

Handlers are registered and taken away again by the script they come from. An event runs the bodies
of those that stand and match it, one after the other: what a body leaves is where the next one
begins, but for the scope that it had to itself, and the first error that is no return ends the
dispatch.
-/

namespace Pirc.Scripting

open Protocol (Str)

variable {F : Type} [Platform F]

/-! ## Handlers that stand -/

/-- The calls that change which handlers there are. -/
inductive HandlerCall (F : Type) where
  | registerWithSource (handler : EventHandler F) (source : Option Str)
  | removeBySource (source : Str)

/-- The handler that the call registers for events of the type. -/
def HandlerCall.entry (eventType : EventType) : HandlerCall F → Option (HandlerEntry F)
  | .registerWithSource handler source =>
    if handler.eventType = eventType then
      some ⟨Platform.toLowercase F handler.pattern, handler.body, source⟩
    else none
  | .removeBySource _ => none

/-- The call leaves the handler where it is. -/
def HandlerCall.spares (entry : HandlerEntry F) : HandlerCall F → Bool
  | .registerWithSource _ _ => true
  | .removeBySource source => entry.source ≠ some source

/-- **The handlers that stand**: those registered for events of the type, in the order of the calls,
less those that a later call has taken away. -/
def standing (eventType : EventType) : List (HandlerCall F) → List (HandlerEntry F)
  | [] => []
  | call :: calls =>
    ((call.entry eventType).filter fun entry => calls.all (·.spares entry)).toList ++
      standing eventType calls

namespace EventDispatcher

def call (dispatcher : EventDispatcher F) : HandlerCall F → EventDispatcher F
  | .registerWithSource handler source => dispatcher.registerWithSource handler source
  | .removeBySource source => dispatcher.removeBySource source

def run (calls : List (HandlerCall F)) : EventDispatcher F := calls.foldl call {}

/-- One call takes away what it does not spare, and registers its own handler behind the others. -/
theorem handlers_call (dispatcher : EventDispatcher F) (c : HandlerCall F) (eventType : EventType) :
    (dispatcher.call c).handlers eventType =
      (dispatcher.handlers eventType).filter c.spares ++ (c.entry eventType).toList := by
  cases c with
  | registerWithSource handler source =>
    have hall : (dispatcher.handlers eventType).filter
        (HandlerCall.registerWithSource handler source).spares = dispatcher.handlers eventType :=
      List.filter_eq_self.mpr fun _ _ => rfl
    rw [hall]
    by_cases heq : handler.eventType = eventType
    · subst heq
      simp [call, registerWithSource, HandlerCall.entry]
    · simp [call, registerWithSource, HandlerCall.entry, heq, Ne.symm heq]
  | removeBySource source => exact (List.append_nil _).symm

/-- **A dispatcher holds the handlers that stand.** -/
theorem handlers_run (calls : List (HandlerCall F)) (eventType : EventType) :
    (run calls).handlers eventType = standing eventType calls := by
  suffices hall : ∀ dispatcher : EventDispatcher F,
      (calls.foldl call dispatcher).handlers eventType =
        ((dispatcher.handlers eventType).filter fun entry => calls.all (·.spares entry)) ++
          standing eventType calls from hall {}
  induction calls with
  | nil => simp [standing]
  | cons c calls ih =>
    intro dispatcher
    have hentry : ((c.entry eventType).toList.filter fun entry => calls.all (·.spares entry)) =
        ((c.entry eventType).filter fun entry => calls.all (·.spares entry)).toList := by
      cases c.entry eventType with
      | none => rfl
      | some entry => simp [Option.filter, List.filter_cons]; split <;> rfl
    rw [List.foldl_cons, ih, handlers_call, List.filter_append, List.filter_filter, hentry,
      standing, List.append_assoc]
    congr 2
    funext entry
    rw [List.all_cons, Bool.and_comm]

end EventDispatcher

/-! ## Bodies of handlers -/

namespace Interpreter

variable {R H : Type}

theorem Kept.scopes_leave {S : Str → Prop} {it it' : Interpreter F R H} (h : Kept S it.inner it') :
    List.Forall₂ (Rebound S) it.env.scopes it'.leave.env.scopes := by
  have houter : List.Forall₂ (Rebound S) it.env.scopes it'.env.outer := h.outer
  obtain ⟨scope, outer, hscopes⟩ := List.exists_cons_of_ne_nil h.leave.2
  have hleave : it'.leave.env.scopes = scope :: outer := by
    rw [Interpreter.leave, Environment.popScope, hscopes]
    rfl
  rwa [hleave, ← hscopes]

/-- Where the body of a handler begins: in a scope of its own, with what the event sets and in no
alias. -/
def enterHandler (ctx : BuiltinContext F) (it : Interpreter F R H) : Interpreter F R H :=
  Interpreter.inner { it with builtinCtx := ctx, ctxOverride := none, aliasDepth := 0 }

/-- What of the outcome of a body is handed on by the dispatch. -/
def handled :
    Except (Stop F) (Value F) × Interpreter F R H → Except (Stop F) PUnit × Interpreter F R H
  | (.error .panic, after) => (.error .panic, after)
  | (r, after) => ((answer r).map fun _ => ⟨⟩, after.leave)

theorem handled_of_ne {r : Except (Stop F) (Value F)} (hr : r ≠ .error .panic)
    (after : Interpreter F R H) : handled (r, after) = ((answer r).map fun _ => ⟨⟩, after.leave) := by
  rcases r with (e | -) | v
  · rfl
  · exact absurd rfl hr
  · rfl

omit [Platform F] in
theorem answer_cases (r : Except (Stop F) (Value F)) :
    r = .error .panic ∨ answer r = .ok .null ∨ ∃ e, answer r = .error (.error e) := by
  rcases r with (e | -) | v
  · cases e with
    | return_ v => exact .inr (.inl rfl)
    | _ => exact .inr (.inr ⟨_, rfl⟩)
  · exact .inl rfl
  · exact .inr (.inl rfl)

theorem balances_body (host : Host F R H) (n : ℕ) (body : List (Statement F))
    (aliases : Option (AliasRegistry F)) : Balances (fun _ => True) aliases (exec host n body) :=
  balances_exec (fun _ _ _ _ _ _ _ => trivial) (fun _ _ => trivial) n

end Interpreter

open Interpreter

section Dispatched

variable {R H : Type} (host : Host F R H) (rounds : ℕ) (ctx : BuiltinContext F)

/-- **Bodies run one after the other.** Each begins where the one before has left, and its own scope
goes with it. A return is an end as any other; the first other error ends the dispatch. -/
inductive Dispatched : List (List (Statement F)) → Interpreter F R H →
    Except (Stop F) PUnit → Interpreter F R H → Prop
  | done (it : Interpreter F R H) : Dispatched [] it (.ok ⟨⟩) it
  | next {body bodies it r after result it'}
      (hbody : exec host rounds body (it.enterHandler ctx) = some (r, after))
      (hr : answer r = .ok .null) (hrest : Dispatched bodies after.leave result it') :
      Dispatched (body :: bodies) it result it'
  | stop {body bodies it r e after}
      (hbody : exec host rounds body (it.enterHandler ctx) = some (r, after))
      (hr : answer r = .error (.error e)) :
      Dispatched (body :: bodies) it (.error (.error e)) after.leave
  | panic {body bodies it after}
      (hbody : exec host rounds body (it.enterHandler ctx) = some (.error .panic, after)) :
      Dispatched (body :: bodies) it (.error .panic) after

end Dispatched

/-- The bodies of the handlers that stand and match the event. -/
def answering (eventType : EventType) (context : EventContext) (calls : List (HandlerCall F)) :
    List (List (Statement F)) :=
  ((standing eventType calls).filter fun handler =>
    globMatch handler.pattern (Platform.toLowercase F (matchTextFor eventType context))).map (·.body)

namespace EventDispatcher

variable {R H : Type} {host : Host F R H}

theorem runHandler_run (rounds : ℕ) (body : List (Statement F)) (it : Interpreter F R H) :
    runHandler host rounds body it =
      (exec host rounds body (it.enterHandler it.builtinCtx)).map handled := by
  let entered : Interpreter F R H := { it with ctxOverride := none, aliasDepth := 0 }
  have hscope : inScope (exec host rounds body) entered =
      (exec host rounds body (it.enterHandler it.builtinCtx)).map caught :=
    (balances_body host rounds body it.aliases).inScope_run rfl
  change (inScope (exec host rounds body) >>= _) entered = _
  rw [Partial.bind_run, hscope]
  rcases exec host rounds body (it.enterHandler it.builtinCtx) with - | ⟨(e | -) | v, after⟩
  · rfl
  · cases e <;> rfl
  · rfl
  · rfl

/-- **A dispatch over handlers**: every body returns, and leaves the scopes that were there. -/
theorem runMatching_run (matchText : Str) (handlers : List (HandlerEntry F)) (n : ℕ)
    {ctx : BuiltinContext F} {it : Interpreter F R H} (hctx : it.builtinCtx = ctx) :
    ∃ r it', runMatching host (maxLoopIterations + maxAliasDepth + 2 + n) matchText handlers it =
        some (r, it') ∧
      Dispatched host (maxLoopIterations + maxAliasDepth + 2 + n) ctx
        ((handlers.filter fun handler =>
          globMatch handler.pattern (Platform.toLowercase F matchText)).map (·.body)) it r it' ∧
      (r ≠ .error .panic → List.Forall₂ (Rebound fun _ => True) it.env.scopes it'.env.scopes) := by
  induction handlers generalizing it with
  | nil => exact ⟨.ok ⟨⟩, it, rfl, .done it, fun _ => forall₂_rebound_refl _⟩
  | cons handler handlers ih =>
    by_cases hmatch : globMatch handler.pattern (Platform.toLowercase F matchText) = true
    · have hends : Ends maxAliasDepth
          (exec host (maxLoopIterations + maxAliasDepth + 2 + n) handler.body) :=
        ends_exec (by omega) handler.body
      obtain ⟨r, after, hbody, -⟩ := hends (it.enterHandler ctx) (Nat.le_add_left _ _)
      have hrun : runHandler host (maxLoopIterations + maxAliasDepth + 2 + n) handler.body it =
          some (handled (r, after)) := by
        rw [runHandler_run, hctx, hbody]
        rfl
      rw [List.filter_cons, if_pos hmatch, List.map_cons, runMatching, if_pos hmatch,
        Partial.bind_run, hrun]
      by_cases hpanic : r = .error .panic
      · subst hpanic
        exact ⟨_, _, rfl, .panic hbody, fun hr => absurd rfl hr⟩
      have hkept : Kept (fun _ => True) (it.enterHandler ctx) after :=
        balances_body host _ handler.body it.aliases _ r after hbody hpanic rfl
      have hscopes : List.Forall₂ (Rebound fun _ => True) it.env.scopes after.leave.env.scopes :=
        hkept.scopes_leave
      rw [handled_of_ne hpanic]
      rcases answer_cases r with hr | hr | ⟨e, hr⟩
      · exact absurd hr hpanic
      · obtain ⟨result, it', hrest, hdispatched, hleft⟩ := ih hkept.leave.1.builtinCtx
        rw [hr]
        exact ⟨result, it', hrest, .next hbody hr hdispatched,
          fun hresult => forall₂_rebound_trans hscopes (hleft hresult)⟩
      · rw [hr]
        exact ⟨_, _, rfl, .stop hbody hr, fun _ => hscopes⟩
    · rw [List.filter_cons, if_neg hmatch, runMatching, if_neg hmatch]
      exact ih hctx

/-- **What an event runs**, after any calls: the bodies of exactly the handlers that stand and
match, in the order in which they were registered, each with what the event sets over the base
context. The dispatch returns, and scopes that were there bind the same names as before. -/
theorem dispatchFull_run (calls : List (HandlerCall F)) (eventType : EventType) (context : EventContext)
    (baseCtx : Option (BuiltinContext F)) (it : Interpreter F R H) (n : ℕ) :
    ∃ r it', (run calls).dispatchFull host
        (maxLoopIterations + maxAliasDepth + 2 + n) eventType context baseCtx it = some (r, it') ∧
      Dispatched host (maxLoopIterations + maxAliasDepth + 2 + n)
        (context.applyToContext (baseCtx.getD {})) (answering eventType context calls)
        { it with builtinCtx := context.applyToContext (baseCtx.getD {}) } r it' ∧
      (r ≠ .error .panic → List.Forall₂ (Rebound fun _ => True) it.env.scopes it'.env.scopes) := by
  have hrun : (run calls).dispatchFull host (maxLoopIterations + maxAliasDepth + 2 + n) eventType
      context baseCtx it = runMatching host (maxLoopIterations + maxAliasDepth + 2 + n)
        (matchTextFor eventType context) ((run calls).handlers eventType)
        { it with builtinCtx := context.applyToContext (baseCtx.getD {}) } := by
    cases baseCtx <;> rfl
  rw [hrun, handlers_run]
  exact runMatching_run (matchTextFor eventType context) (standing eventType calls) n rfl

end EventDispatcher

end Pirc.Scripting
