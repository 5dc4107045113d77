import Pirc.Scripting.Events
import Pirc.Scripting.Lexer
import Pirc.Scripting.Script
import Pirc.Scripting.Semantic
import Pirc.Scripting.Timers

/-!
# Scripts: the engine

`engine/mod.rs`: scripts are loaded, reloaded and unloaded by their filenames. To load one is to
unload what the file defined before, and to register the aliases, handlers and timers of the new
text if it has no errors. The variables, identifiers and functions of the engine are left alone by
that, and not modelled.
-/

namespace Pirc.Scripting

open Protocol (Str)

variable {F : Type} [Platform F]

/-! ## Loading -/

structure LoadedScript where
  source : Str
  aliases : List Str := []
  timers : List Str := []

/-- The scripts that are loaded, and what runs them. -/
structure ScriptEngine (F : Type) [Platform F] where
  events : EventDispatcher F := {}
  aliases : AliasRegistry F := .empty
  timers : TimerManager F := .empty
  scripts : Str → Option LoadedScript := fun _ => none

inductive ScriptError
  | lex (error : LexError)
  | parse (error : ParseError)

/-- Why a script is not loaded, with its semantic errors instead of their texts. -/
inductive LoadError
  | script (filename : Str) (error : ScriptError)
  | semantic (filename : Str) (errors : List SemanticError)
  | io (filename : Str) (message : String)

def evalConstExpr : Expression F → F
  | .intLiteral value _ => Platform.ofInt value
  | .numberLiteral value _ => value
  | _ => Platform.ofInt 0

/-- The phases before anything is registered; nothing comes of a panic. -/
def compile [Numerals F] (source filename : Str) :
    Option (Except LoadError (Script F × List SemanticWarning)) :=
  match tokenize source with
  | .error (.error e) => some (.error (.script filename (.lex e)))
  | .error _ => none
  | .ok tokens =>
    match parse (Parser.new tokens source) with
    | none => none
    | some (.error e) => some (.error (.script filename (.parse e)))
    | some (.ok (script, _)) =>
      let result := SemanticAnalyzer.analyze source script
      if result.errors.isEmpty then some (.ok (script, result.warnings))
      else some (.error (.semantic filename result.errors))

namespace ScriptEngine

-- `duration` gives so many seconds, and a tenth of one at least, where there is such a duration;
-- `count` is a cast that gives zero to what is not positive.
variable (duration : F → Option ℕ) (count : F → ℕ) (lastInstant : ℕ)

def registerItem (filename : Str) (now : ℕ) :
    ScriptEngine F × LoadedScript → TopLevelItem F → Option (ScriptEngine F × LoadedScript)
  | (engine, loaded), .alias_ a =>
    some ({ engine with aliases := engine.aliases.insert a.name a.body },
      { loaded with aliases := loaded.aliases ++ [Platform.toLowercase F a.name] })
  | (engine, loaded), .event e =>
    some ({ engine with events := engine.events.registerWithSource e (some filename) }, loaded)
  | (engine, loaded), .timer t => do
    let interval ← duration (evalConstExpr t.interval)
    let timers ← (TimerManager.register lastInstant engine.timers t.name interval
      (count (evalConstExpr t.repetitions)) t.body now).toOption
    some ({ engine with timers := timers },
      { loaded with timers := loaded.timers ++ [Platform.toLowercase F t.name] })

def unloadScript (engine : ScriptEngine F) (filename : Str) : ScriptEngine F :=
  match engine.scripts filename with
  | none => engine
  | some loaded =>
    { events := engine.events.removeBySource filename
      aliases := loaded.aliases.foldl FoldMap.remove engine.aliases
      timers := loaded.timers.foldl FoldMap.remove engine.timers
      scripts := Function.update engine.scripts filename none }

variable [Numerals F]

/-- **Load a script**, or panic. -/
def loadScript (engine : ScriptEngine F) (source filename : Str) (now : ℕ) :
    Option (Except LoadError (List SemanticWarning) × ScriptEngine F) := do
  let engine := engine.unloadScript filename
  match ← compile source filename with
  | .error e => some (.error e, engine)
  | .ok (script, warnings) =>
    let (engine, loaded) ← script.items.foldlM
      (registerItem duration count lastInstant filename now) (engine, { source })
    some (.ok warnings, { engine with scripts := Function.update engine.scripts filename (some loaded) })

def reloadScript (engine : ScriptEngine F) (filename : Str) (now : ℕ) :
    Option (Except LoadError (List SemanticWarning) × ScriptEngine F) :=
  match engine.scripts filename with
  | none => some (.error (.io filename "script not loaded"), engine)
  | some loaded => engine.loadScript duration count lastInstant loaded.source filename now

end ScriptEngine

/-! ## Registering -/

section Registering

variable {duration : F → Option ℕ} {count : F → ℕ} {lastInstant : ℕ}

def scriptHandlers (filename : Str) (eventType : EventType) (items : List (TopLevelItem F)) :
    List (HandlerEntry F) :=
  items.filterMap fun
    | .event e =>
      if e.eventType = eventType then
        some ⟨Platform.toLowercase F e.pattern, e.body, some filename⟩
      else none
    | _ => none

theorem handlers_registerWithSource (events : EventDispatcher F) (e : EventHandler F) (filename : Str)
    (eventType : EventType) : (events.registerWithSource e (some filename)).handlers eventType =
      events.handlers eventType ++ scriptHandlers filename eventType [.event e] := by
  simp only [EventDispatcher.registerWithSource, scriptHandlers, List.filterMap_cons, List.filterMap_nil]
  by_cases htype : e.eventType = eventType
  · subst htype
    simp
  · simp [htype, Function.update_of_ne (Ne.symm htype)]

theorem handlers_registerItems {filename : Str} {now : ℕ} {items : List (TopLevelItem F)}
    {engine engine' : ScriptEngine F} {loaded loaded' : LoadedScript}
    (h : items.foldlM (ScriptEngine.registerItem duration count lastInstant filename now) (engine,
      loaded) = some (engine', loaded')) :
    (∀ eventType, engine'.events.handlers eventType =
        engine.events.handlers eventType ++ scriptHandlers filename eventType items) ∧
      engine'.scripts = engine.scripts ∧ loaded'.source = loaded.source := by
  induction items generalizing engine loaded with
  | nil =>
    cases h
    exact ⟨fun _ => (List.append_nil _).symm, rfl, rfl⟩
  | cons item items ih =>
    rw [List.foldlM_cons] at h
    obtain ⟨⟨engine₁, loaded₁⟩, hitem, hrest⟩ := Option.bind_eq_some_iff.mp h
    obtain ⟨hhandlers, hscripts, hsource⟩ := ih hrest
    cases item with
    | alias_ a =>
      cases hitem
      exact ⟨hhandlers, hscripts, hsource⟩
    | event e =>
      cases hitem
      refine ⟨fun eventType => ?_, hscripts, hsource⟩
      rw [hhandlers, handlers_registerWithSource, List.append_assoc]
      exact congrArg _ List.filterMap_append.symm
    | timer t =>
      obtain ⟨interval, -, hitem⟩ := Option.bind_eq_some_iff.mp hitem
      obtain ⟨timers, -, hitem⟩ := Option.bind_eq_some_iff.mp hitem
      cases hitem
      exact ⟨hhandlers, hscripts, hsource⟩

theorem source_of_mem_scriptHandlers {filename : Str} {eventType : EventType}
    {items : List (TopLevelItem F)} {entry : HandlerEntry F}
    (h : entry ∈ scriptHandlers filename eventType items) : entry.source = some filename := by
  obtain ⟨item, -, hitem⟩ := List.mem_filterMap.mp h
  cases item with
  | event e =>
    dsimp only at hitem
    split_ifs at hitem
    cases hitem
    rfl
  | _ => cases hitem

end Registering

/-! ## Runs -/

inductive ScriptCall
  | load (source filename : Str) (now : ℕ)
  | reload (filename : Str) (now : ℕ)
  | unload (filename : Str)

section Runs

open ScriptEngine

variable [Numerals F] (duration : F → Option ℕ) (count : F → ℕ) (lastInstant : ℕ)

def ScriptCall.run (engine : ScriptEngine F) : ScriptCall → Option (ScriptEngine F)
  | load source filename now =>
    (engine.loadScript duration count lastInstant source filename now).map Prod.snd
  | reload filename now => (engine.reloadScript duration count lastInstant filename now).map Prod.snd
  | unload filename => some (engine.unloadScript filename)

/-- Calls in any order, none of which panics. -/
def scripting : System (ScriptEngine F) ScriptCall where
  enabled engine call := (call.run duration count lastInstant engine).isSome
  step engine call := (call.run duration count lastInstant engine).getD engine

/-! ## Handlers of the loaded scripts -/

/-- The handlers that a source text defines. -/
def definedHandlers (filename source : Str) (eventType : EventType) : List (HandlerEntry F) :=
  match compile (F := F) source filename with
  | some (.ok (script, _)) => scriptHandlers filename eventType script.items
  | _ => []

/-- The handlers with the name of a file are those that its script defines, and there are no
others. -/
structure ScriptEngine.Mirrors (engine : ScriptEngine F) : Prop where
  ofFile : ∀ eventType filename,
    (engine.events.handlers eventType).filter (·.source = some filename) =
      ((engine.scripts filename).map fun loaded =>
        definedHandlers filename loaded.source eventType).getD []
  sourced : ∀ eventType, ∀ entry ∈ engine.events.handlers eventType, entry.source.isSome

variable {duration count lastInstant}

namespace ScriptEngine.Mirrors

variable {engine : ScriptEngine F} (h : engine.Mirrors) (filename : Str)
include h

theorem unloadScript : (engine.unloadScript filename).Mirrors ∧
    (engine.unloadScript filename).scripts filename = none := by
  unfold ScriptEngine.unloadScript
  cases hloaded : engine.scripts filename with
  | none => exact ⟨h, hloaded⟩
  | some loaded =>
    refine ⟨⟨fun eventType name => ?_, fun eventType entry hentry => ?_⟩, Function.update_self ..⟩
    · simp only [EventDispatcher.removeBySource, List.filter_filter]
      by_cases hname : name = filename
      · subst hname
        simp
      · rw [Function.update_of_ne hname, ← h.ofFile]
        refine List.filter_congr fun entry _ => ?_
        by_cases hsource : entry.source = some name
        · simp [hsource, hname]
        · simp [hsource]
    · exact h.sourced eventType entry (List.mem_of_mem_filter hentry)

theorem loadScript {source : Str} {now : ℕ} {result : Except LoadError (List SemanticWarning)}
    {engine' : ScriptEngine F}
    (hload : engine.loadScript duration count lastInstant source filename now = some (result, engine')) :
    engine'.Mirrors := by
  obtain ⟨hunloaded, hnone⟩ := h.unloadScript filename
  obtain ⟨compiled, hcompile, hload⟩ := Option.bind_eq_some_iff.mp hload
  cases compiled with
  | error e =>
    cases hload
    exact hunloaded
  | ok compiled =>
    obtain ⟨⟨registered, loaded⟩, hitems, hload⟩ := Option.bind_eq_some_iff.mp hload
    cases hload
    obtain ⟨hhandlers, hscripts, hsource⟩ := handlers_registerItems hitems
    refine ⟨fun eventType name => ?_, fun eventType entry hentry => ?_⟩
    · rw [hhandlers, List.filter_append, hunloaded.ofFile]
      by_cases hname : name = filename
      · subst hname
        have hdefined : definedHandlers name loaded.source eventType =
            scriptHandlers name eventType compiled.1.items := by
          rw [hsource, definedHandlers, hcompile]
        dsimp only
        rw [hnone, Function.update_self, Option.map_some, Option.getD_some, hdefined]
        exact List.filter_eq_self.mpr fun entry hentry =>
          decide_eq_true (source_of_mem_scriptHandlers hentry)
      · have hothers : (scriptHandlers filename eventType compiled.1.items).filter
            (·.source = some name) = [] := by
          refine List.filter_eq_nil_iff.mpr fun entry hentry => ?_
          rw [source_of_mem_scriptHandlers hentry]
          simpa using Ne.symm hname
        dsimp only
        rw [hothers, List.append_nil, Function.update_of_ne hname, hscripts]
    · rw [hhandlers] at hentry
      rcases List.mem_append.mp hentry with hold | hnew
      · exact hunloaded.sourced eventType entry hold
      · rw [source_of_mem_scriptHandlers hnew]
        rfl

omit h in
/-- **Step lemma.** -/
theorem run (h : engine.Mirrors) {call : ScriptCall} {engine' : ScriptEngine F}
    (hrun : call.run duration count lastInstant engine = some engine') : engine'.Mirrors := by
  cases call with
  | load source filename now =>
    obtain ⟨⟨result, _⟩, hload, rfl⟩ := Option.map_eq_some_iff.mp hrun
    exact h.loadScript filename hload
  | reload filename now =>
    obtain ⟨⟨result, _⟩, hreload, rfl⟩ := Option.map_eq_some_iff.mp hrun
    unfold reloadScript at hreload
    cases hloaded : engine.scripts filename with
    | none =>
      rw [hloaded] at hreload
      cases hreload
      exact h
    | some loaded =>
      rw [hloaded] at hreload
      exact h.loadScript filename hreload
  | unload filename =>
    cases hrun
    exact (h.unloadScript filename).1

end ScriptEngine.Mirrors

/-- **The handlers mirror the scripts**: after scripts were loaded, reloaded and unloaded in any
order, whether the loads succeeded or failed, the handlers with the name of a file are those that
its loaded text defines, in their order, and every handler has the name of a file that is loaded. -/
theorem handlers_mirror_scripts {engine : ScriptEngine F}
    (hrun : (scripting duration count lastInstant).Steps System.Free {} engine) (eventType : EventType) :
    (∀ filename, (engine.events.handlers eventType).filter (·.source = some filename) =
      ((engine.scripts filename).map fun loaded =>
        definedHandlers filename loaded.source eventType).getD []) ∧
    ∀ entry ∈ engine.events.handlers eventType, ∃ filename loaded,
      entry.source = some filename ∧ engine.scripts filename = some loaded ∧
        entry ∈ definedHandlers filename loaded.source eventType := by
  have h : engine.Mirrors := by
    refine hrun.invariant (fun engine call henabled _ h => ?_) ⟨fun _ _ => rfl, fun _ _ hentry => ?_⟩
    · obtain ⟨engine', hcall⟩ := Option.isSome_iff_exists.mp henabled
      have hstep : (scripting duration count lastInstant).step engine call = engine' :=
        congrArg (Option.getD · engine) hcall
      rw [hstep]
      exact h.run hcall
    · cases hentry
  refine ⟨h.ofFile eventType, fun entry hentry => ?_⟩
  obtain ⟨filename, hsource⟩ := Option.isSome_iff_exists.mp (h.sourced eventType entry hentry)
  have hmem : entry ∈ (engine.events.handlers eventType).filter (·.source = some filename) :=
    List.mem_filter.mpr ⟨hentry, decide_eq_true hsource⟩
  rw [h.ofFile] at hmem
  cases hloaded : engine.scripts filename with
  | none =>
    rw [hloaded] at hmem
    cases hmem
  | some loaded =>
    rw [hloaded] at hmem
    exact ⟨filename, loaded, hsource, hloaded, hmem⟩

end Runs

section Examples

local instance : Platform Unit := Interpreter.integersOnly
local instance : Numerals Unit := wholeNumerals

def greetingCalls : List ScriptCall := [.load "on TEXT:*hi* \x7b\x7d".toList ['a'] 0, .reload ['a'] 0]

theorem handlers_mirror_scripts_greeting :
    let engine := (scripting (fun _ => none) (fun _ => 0) 0).exec ({} : ScriptEngine Unit) greetingCalls
    ((engine.events.handlers .text).filter (·.source = some ['a'])).map HandlerEntry.pattern =
      ["*hi*".toList] := by
  intro engine
  have hlegal : System.Legal (scripting (fun _ => none) (fun _ => 0) 0) System.Free
      ({} : ScriptEngine Unit) greetingCalls :=
    ⟨(by decide +kernel : (ScriptCall.run _ _ _ ({} : ScriptEngine Unit) _).isSome = true), trivial,
      (by decide +kernel : (ScriptCall.run _ _ _ _ _).isSome = true), trivial, trivial⟩
  rw [(handlers_mirror_scripts hlegal.steps .text).1 ['a']]
  decide +kernel

end Examples

end Pirc.Scripting
