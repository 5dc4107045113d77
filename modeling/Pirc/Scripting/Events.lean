import Pirc.Lib.Glob
import Pirc.Scripting.Interpreter

/-!
# Scripts: events

`interpreter/event.rs`: what an event brings along, the handlers that scripts register for it, and
which of them run. The pattern of a handler is matched with one text of the event by a loop over two
positions.
-/

namespace Pirc.Scripting

open Protocol (Str)

variable {F : Type} [Platform F]

/-! ## Events -/

/-- What is known of an event. -/
structure EventContext where
  eventType : Option EventType := none
  nick : Option Str := none
  channel : Option Str := none
  text : Option Str := none
  rawParams : Option Str := none
  me : Option Str := none
  server : Option Str := none
  target : Option Str := none

def BuiltinContext.set (ctx : BuiltinContext F) (name : String) (value : Value F) : BuiltinContext F :=
  { ctx with identifiers := Function.update ctx.identifiers name.toList (some value) }

namespace EventContext

variable (context : EventContext)

/-- What an event sets for its handlers, over a base context. -/
def applyToContext (ctx : BuiltinContext F) : BuiltinContext F :=
  let apply (name : String) (value : Option Str) (ctx : BuiltinContext F) : BuiltinContext F :=
    match value with
    | some value => ctx.set name (.string value)
    | none => ctx
  let ctx := apply "nick" context.nick ctx
  let ctx := apply "chan" context.channel ctx
  let ctx := apply "me" context.me ctx
  let ctx := apply "server" context.server ctx
  let ctx := apply "target" context.target ctx
  ctx.setEventText ((context.rawParams.or context.text).getD [])

def toBuiltinContext : BuiltinContext F := context.applyToContext {}

end EventContext

/-! ## Handlers -/

structure HandlerEntry (F : Type) where
  pattern : Str
  body : List (Statement F)
  source : Option Str

/-- The handlers of each type, in the order in which they were registered. -/
structure EventDispatcher (F : Type) where
  handlers : EventType → List (HandlerEntry F) := fun _ => []

namespace EventDispatcher

variable (dispatcher : EventDispatcher F)

def registerWithSource (handler : EventHandler F) (source : Option Str) : EventDispatcher F where
  handlers := Function.update dispatcher.handlers handler.eventType
    (dispatcher.handlers handler.eventType ++
      [⟨Platform.toLowercase F handler.pattern, handler.body, source⟩])

def removeBySource (source : Str) : EventDispatcher F where
  handlers eventType := (dispatcher.handlers eventType).filter (·.source ≠ some source)

end EventDispatcher

def matchTextFor (eventType : EventType) (context : EventContext) : Str :=
  match eventType with
  | .text | .notice | .action | .ctcp => (context.text.or context.channel).getD []
  | .join | .part | .kick | .topic | .mode | .invite => context.channel.getD []
  | .nick | .quit => context.nick.getD []
  | .numeric => (context.rawParams.or context.text).getD []
  | .connect | .disconnect => context.server.getD []

/-! ## Matching -/

/-- The loop, and what is left of the pattern after it; nothing if it has not left after so many
rounds. `wildcardPat` is where the last star is, and `wildcardTxt` where the text for it ends so
far. -/
def globLoop (pattern text : Str) : ℕ → ℕ → ℕ → Option ℕ → ℕ → Option Bool
  | 0, _, _, _, _ => none
  | n + 1, patIdx, txtIdx, wildcardPat, wildcardTxt =>
    match text[txtIdx]? with
    | none => some ((pattern.drop patIdx).dropWhile (· = '*')).isEmpty
    | some x =>
      if pattern[patIdx]?.any fun p => p = '?' || p = x then
        globLoop pattern text n (patIdx + 1) (txtIdx + 1) wildcardPat wildcardTxt
      else if pattern[patIdx]? = some '*' then
        globLoop pattern text n (patIdx + 1) txtIdx (some patIdx) txtIdx
      else
        match wildcardPat with
        | some wp => globLoop pattern text n (wp + 1) (wildcardTxt + 1) wildcardPat (wildcardTxt + 1)
        | none => some false

/-- Rounds enough for the loop to leave. -/
def globRounds (pattern text : Str) : ℕ :=
  (pattern.length + 1) * ((text.length + 1) * (pattern.length + 1))

def globMatchInner (pattern text : Str) : Bool :=
  (globLoop pattern text (globRounds pattern text) 0 0 none 0).getD false

/-- The text matches the pattern. -/
def globMatch (pattern text : Str) : Bool := globMatchInner pattern text

/-! ## Dispatch -/

namespace EventDispatcher

open Interpreter

variable {R H : Type} (host : Host F R H) (rounds : ℕ)

/-- The body of a handler, in a scope of its own and with a new interpreter. -/
def runHandler (body : List (Statement F)) : Exec F R H PUnit := do
  modify fun it => { it with ctxOverride := none, aliasDepth := 0 }
  let result ← inScope (exec host rounds body)
  match result with
  | .ok _ | .error (.return_ _) => pure ⟨⟩
  | .error e => raise e

def runMatching (matchText : Str) : List (HandlerEntry F) → Exec F R H PUnit
  | [] => pure ⟨⟩
  | handler :: handlers => do
    if globMatch handler.pattern (Platform.toLowercase F matchText) then
      runHandler host rounds handler.body
    runMatching matchText handlers

/-- **Run the handlers of an event.** -/
def dispatchFull (dispatcher : EventDispatcher F) (eventType : EventType) (context : EventContext)
    (baseCtx : Option (BuiltinContext F)) : Exec F R H PUnit := do
  let builtinCtx :=
    match baseCtx with
    | some base => context.applyToContext base
    | none => context.toBuiltinContext
  modify fun it => { it with builtinCtx := builtinCtx }
  runMatching host rounds (matchTextFor eventType context) (dispatcher.handlers eventType)

end EventDispatcher

/-! ## The loop is the scan for globs -/

theorem isEmpty_dropWhile_star (pattern : Str) :
    (pattern.dropWhile (· = '*')).isEmpty = pattern.all (· = '*') := by
  induction pattern with
  | nil => rfl
  | cons p pattern ih =>
    rw [List.dropWhile_cons, List.all_cons, ← ih]
    split <;> simp_all

def goBack (pattern text : Str) (wildcardPat : Option ℕ) (wildcardTxt : ℕ) : Option (Str × Str) :=
  wildcardPat.map fun wp => (pattern.drop (wp + 1), text.drop wildcardTxt)

theorem drop_cases (text : Str) (i : ℕ) :
    (text[i]? = none ∧ text.drop i = []) ∨
      ∃ x, text[i]? = some x ∧ text.drop i = x :: text.drop (i + 1) := by
  rcases Nat.lt_or_ge i text.length with hlt | hle
  · exact .inr ⟨text[i], List.getElem?_eq_getElem hlt, List.drop_eq_getElem_cons hlt⟩
  · exact .inl ⟨List.getElem?_eq_none hle, List.drop_eq_nil_of_le hle⟩

/-- Where the round is stuck, the last star takes a character more. -/
theorem globLoop_stuck {pattern text : Str} {n patIdx txtIdx : ℕ} {x : Char}
    (wildcardPat : Option ℕ) (wildcardTxt : ℕ) (hx : text[txtIdx]? = some x)
    (hstuck : Glob.Stuck '?' '*' (pattern.drop patIdx) x) :
    globLoop pattern text (n + 1) patIdx txtIdx wildcardPat wildcardTxt =
      match wildcardPat with
      | some wp => globLoop pattern text n (wp + 1) (wildcardTxt + 1) wildcardPat (wildcardTxt + 1)
      | none => some false := by
  rw [globLoop.eq_def]
  rcases drop_cases pattern patIdx with ⟨hnone, -⟩ | ⟨p, hp, hpattern⟩
  · simp [hx, hnone]
  · obtain ⟨hone, hstar⟩ := hstuck p (by rw [hpattern]; rfl)
    simp [hx, hp, hone, hstar]

/-- **The loop leaves, with what the scan says** of what is left behind both positions, if there are
rounds enough. -/
theorem globLoop_eq_scan (pattern text : Str) (n patIdx txtIdx : ℕ) (wildcardPat : Option ℕ)
    (wildcardTxt : ℕ) (h : wildcardTxt ≤ txtIdx) {last : Option (Str × Str)}
    (hlast : goBack pattern text wildcardPat wildcardTxt = last)
    (hplaced : Glob.Placed (pattern.drop patIdx) (text.drop txtIdx) last)
    (hbounded : Glob.Bounded pattern.length text.length (pattern.drop patIdx) (text.drop txtIdx) last)
    (hcost : Glob.cost pattern.length text.length (pattern.drop patIdx) last < n) :
    globLoop pattern text n patIdx txtIdx wildcardPat wildcardTxt =
      some (Glob.scan '?' '*' n (pattern.drop patIdx) (text.drop txtIdx) last) := by
  induction n generalizing patIdx txtIdx wildcardPat wildcardTxt last with
  | zero => omega
  | succ n ih =>
    rcases drop_cases text txtIdx with ⟨hnone, htext⟩ | ⟨x, hx, htext⟩
    · unfold globLoop
      rw [hnone, htext]
      exact congrArg some (isEmpty_dropWhile_star _)
    rw [htext] at hplaced hbounded
    by_cases hstuck : Glob.Stuck '?' '*' (pattern.drop patIdx) x
    · -- to go back takes another character of the text for the star
      rw [htext, globLoop_stuck wildcardPat wildcardTxt hx hstuck]
      cases wildcardPat with
      | none =>
        subst hlast
        exact congrArg some (Glob.scan_stuck_none hstuck).symm
      | some wp =>
        have hlt : wildcardTxt < text.length := h.trans_lt (List.getElem?_eq_some_iff.mp hx).1
        have hgo : goBack pattern text (some wp) wildcardTxt =
            some (pattern.drop (wp + 1), text[wildcardTxt] :: text.drop (wildcardTxt + 1)) := by
          rw [goBack, Option.map_some, List.drop_eq_getElem_cons hlt]
        obtain rfl := hgo.symm.trans hlast
        have hless := (Glob.cost_stuck hbounded.1).trans_le (Nat.le_of_lt_succ hcost)
        have hshort := Nat.le_of_succ_le hbounded.2
        rw [Glob.scan_stuck hstuck]
        exact ih _ _ _ _ le_rfl rfl ⟨List.suffix_rfl, List.suffix_rfl⟩ ⟨hbounded.1, hshort⟩ hless
    · rcases drop_cases pattern patIdx with ⟨-, hpattern⟩ | ⟨p, hp, hpattern⟩
      · exact absurd (hpattern ▸ Glob.stuck_nil) hstuck
      unfold globLoop
      rw [hpattern] at hplaced hbounded hcost hstuck
      simp only [hx, htext, hp, hpattern, Option.any_some, Bool.or_eq_true, decide_eq_true_eq,
        Option.some.injEq]
      by_cases hone : p = '?' ∨ p = x
      · have hless := Glob.cost_one.trans_le (Nat.le_of_lt_succ hcost)
        rw [if_pos hone, Glob.scan_one hone]
        exact ih _ _ _ _ (Nat.le_succ_of_le h) hlast hplaced.one hbounded.one hless
      · have hstar : p = '*' := by
          by_contra hne
          exact hstuck (Glob.stuck_cons hone hne)
        subst hstar
        have hless := (hplaced.cost_many hbounded).trans_le (Nat.le_of_lt_succ hcost)
        obtain ⟨hrest, hleft⟩ := hplaced.bounded hbounded
        rw [← htext] at hless hleft
        rw [if_neg hone, if_pos rfl, Glob.scan_many hone, ← htext]
        exact ih _ _ _ _ le_rfl rfl ⟨List.suffix_rfl, List.suffix_rfl⟩
          ⟨Nat.le_of_succ_le hrest, hleft⟩ hless

theorem globLoop_start (pattern text : Str) {n : ℕ} (h : globRounds pattern text ≤ n) :
    globLoop pattern text n 0 0 none 0 = some (Glob.scan '?' '*' n pattern text none) :=
  globLoop_eq_scan pattern text n 0 0 none 0 le_rfl rfl trivial ⟨le_rfl, le_rfl⟩
    ((Glob.cost_lt _ _ _ le_rfl).trans_le h)

theorem globMatch_eq_scan (pattern text : Str) :
    globMatch pattern text = Glob.scan '?' '*' (globRounds pattern text) pattern text none := by
  rw [globMatch, globMatchInner, globLoop_start pattern text le_rfl, Option.getD_some]

/-- **The loop comes to its end**: it leaves within so many rounds, and with more of them its result
is the same. -/
theorem globLoop_eq_globMatchInner (pattern text : Str) (n : ℕ) (h : globRounds pattern text ≤ n) :
    globLoop pattern text n 0 0 none 0 = some (globMatchInner pattern text) := by
  have hcost : Glob.cost pattern.length text.length pattern none < globRounds pattern text :=
    Glob.cost_lt _ _ _ le_rfl
  rw [globMatchInner, globLoop_start pattern text h, globLoop_start pattern text le_rfl]
  exact congrArg some (Glob.scan_eq_of_cost_lt trivial ⟨le_rfl, le_rfl⟩ (hcost.trans_le h) hcost)

theorem globLoop_eq_globMatchInner_star : globLoop ['a', '*'] ['a', 'b'] 99 0 0 none 0 = some true :=
  (globLoop_eq_globMatchInner _ _ 99 (by decide)).trans rfl

/-! ## Which patterns and which texts are matched as globs -/

/-- **What a pattern stands for**: the text is the pattern with some characters for each `*` and one
for each `?`. -/
def PatternMatches (pattern text : Str) : Prop :=
  Glob.Matches (pattern.map (Glob.piece '?' '*')) text

/-- A `*` of the text comes to face a `*` of the pattern while they are matched. -/
def starFacesStar (pattern text : Str) : Bool :=
  Glob.meets '?' '*' (globRounds pattern text) pattern text none

variable {pattern text : Str}

/-- **Right where no star faces a star.** -/
theorem globMatch_iff_of_not_faces (h : starFacesStar pattern text = false) :
    globMatch pattern text = true ↔ PatternMatches pattern text := by
  rw [globMatch_eq_scan]
  exact Glob.scan_iff (by decide) pattern text (Glob.cost_lt _ _ _ le_rfl) h

/-- **Which patterns and which texts are matched as globs**: whatever is accepted is matched, and
where no star faces a star whatever is matched is accepted. The texts that all patterns are matched
with as globs are those without a star, and so are the patterns that are matched as globs with all
texts. -/
theorem globMatch_iff (pattern text : Str) :
    (globMatch pattern text = true → PatternMatches pattern text) ∧
      (starFacesStar pattern text = false →
        (globMatch pattern text = true ↔ PatternMatches pattern text)) ∧
      ((∀ pattern, globMatch pattern text = true ↔ PatternMatches pattern text) ↔ '*' ∉ text) ∧
      ((∀ text, globMatch pattern text = true ↔ PatternMatches pattern text) ↔ '*' ∉ pattern) := by
  refine ⟨?_, globMatch_iff_of_not_faces, ⟨?_, ?_⟩, ⟨?_, ?_⟩⟩
  · intro h
    rw [globMatch_eq_scan] at h
    exact Glob.matches_of_scan h
  · intro hall hstar
    obtain ⟨pattern, hmatch, hscan⟩ := Glob.exists_pattern_of_star
      (show '?' ≠ '*' by decide) hstar
    have hfree := (hall pattern).mpr hmatch
    rw [globMatch_eq_scan, hscan] at hfree
    cases hfree
  · intro hstar pattern
    exact globMatch_iff_of_not_faces (Glob.meets_eq_false (.inr ⟨hstar, fun _ hs => by cases hs⟩))
  · intro hall hstar
    obtain ⟨text, hmatch, hscan⟩ := Glob.exists_text_of_star '?' hstar
    have hfree := (hall text).mpr hmatch
    rw [globMatch_eq_scan, hscan] at hfree
    cases hfree
  · intro hstar text
    exact globMatch_iff_of_not_faces (Glob.meets_eq_false (.inl ⟨hstar, fun _ hs => by cases hs⟩))

/-- The pattern for everything does not match a text that begins with a star. -/
theorem star_not_matched :
    PatternMatches "*".toList "*waves".toList ∧ globMatch "*".toList "*waves".toList = false := by
  refine ⟨?_, by decide⟩
  have hpieces : "*".toList.map (Glob.piece '?' '*') = [.many] := by decide
  rw [PatternMatches, hpieces]
  exact .many "*waves".toList .nil

end Pirc.Scripting
