import Pirc.Scripting.Interpreter

/-!
# Scripts: the library

`interpreter/functions.rs`. A function of the library has so many arguments, and gives a value or an
error of the script; `$regex` leaves its captures to `$regml`. Upper case, the conversion of a
floating-point number to an integer, and the matching of regular expressions are parameters.
-/

namespace Pirc.Scripting

open Protocol (Str decimal)

/-- The upper case of a text, the nearest integer of 64 bits towards zero, and regular expressions:
a pattern is not one, for some reason, or gives the groups of its first match in a text, where a
group may be left out. -/
class Library (F : Type) where
  toUppercase : Str → Str
  toInt : F → Int64
  regex : Str → Except Str (Str → Option (List (Option Str)))

/-! ## Texts -/

def splitFirst (part : Str) : Str → Option (Str × Str)
  | [] => if part.isEmpty then some ([], []) else none
  | c :: rest =>
    if part.isPrefixOf (c :: rest) then some ([], (c :: rest).drop part.length)
    else (splitFirst part rest).map fun (before, behind) => (c :: before, behind)

/-- The parts of a text between so many delimiters at most. -/
def splitText (delim : Str) : ℕ → Str → List Str
  | 0, s => [s]
  | n + 1, s =>
    match splitFirst delim s with
    | none => [s]
    | some (before, behind) => before :: splitText delim n behind

/-- The tokens of a text; a text has no more than it has characters, and one. -/
def tokens (delim s : Str) : List Str := splitText delim s.length s

/-- Replace each occurrence; nothing occurs around each character. -/
def replaceText (s find replacement : Str) : Str :=
  if find.isEmpty then replacement ++ s.flatMap fun c => c :: replacement
  else replacement.intercalate (tokens find s)

theorem splitFirst_eq {part s before behind : Str} (h : splitFirst part s = some (before, behind)) :
    before ++ part ++ behind = s := by
  induction s generalizing before with
  | nil =>
    unfold splitFirst at h
    split_ifs at h with hpart
    cases h
    rw [List.isEmpty_iff.mp hpart]
    rfl
  | cons c rest ih =>
    unfold splitFirst at h
    split_ifs at h with hpart
    · cases h
      obtain ⟨behind, hbehind⟩ := List.isPrefixOf_iff_prefix.mp hpart
      rw [← hbehind, List.drop_left, List.nil_append]
    · obtain ⟨⟨before', behind'⟩, hrest, heq⟩ := Option.map_eq_some_iff.mp h
      cases heq
      exact congrArg (c :: ·) (ih hrest)

/-- An integer of 64 bits in decimal, perhaps after a sign. -/
def parseI64 (s : Str) : Option Int64 :=
  let (negative, digits) :=
    match s with
    | '-' :: digits => (true, digits)
    | '+' :: digits => (false, digits)
    | digits => (false, digits)
  if digits.isEmpty ∨ ¬ digits.all Char.isDigit then none
  else
    let n := Nat.ofDigitChars 10 digits 0
    if negative then if n ≤ 2 ^ 63 then some (Int64.ofInt (-n)) else none
    else if n < 2 ^ 63 then some (Int64.ofNat n) else none

/-! ## Functions -/

/-- The captures of the last match: the whole match, and then its groups. -/
structure RegexState where
  captures : List Str := []

variable {F : Type} [Platform F] [Library F]

/-- A function of the language, by the number of its arguments. -/
inductive BuiltinFn (F : Type)
  | one (f : Value F → RegexState → Except (RuntimeError F) (Value F) × RegexState)
  | two (f : Value F → Value F → RegexState → Except (RuntimeError F) (Value F) × RegexState)
  | three (f : Value F → Value F → Value F → RegexState → Except (RuntimeError F) (Value F) × RegexState)

namespace BuiltinFn

def arity : BuiltinFn F → ℕ
  | one _ => 1
  | two _ => 2
  | three _ => 3

def apply : BuiltinFn F → List (Value F) →
    Option (RegexState → Except (RuntimeError F) (Value F) × RegexState)
  | one f, [a] => some (f a)
  | two f, [a, b] => some (f a b)
  | three f, [a, b, c] => some (f a b c)
  | _, _ => none

end BuiltinFn

def typeError (fnName : String) (text : Str) : RuntimeError F :=
  .typeError ('$' :: fnName.toList ++ ": ".toList ++ text)

def toI64 (val : Value F) (fnName : String) : Except (RuntimeError F) Int64 :=
  match val with
  | .int n => .ok n
  | .number n => .ok (Library.toInt n)
  | .string s =>
    match parseI64 s with
    | some n => .ok n
    | none => .error (typeError fnName
        ("expected number, got string ".toList ++ '"' :: s ++ ['"']))
  | val => .error (typeError fnName ("expected number, got ".toList ++ val.typeName))

/-- An integer that is not negative is an index, as indices have 64 bits. -/
def toUsizeChecked (n : Int64) (fnName : String) : Except (RuntimeError F) ℕ :=
  if 0 ≤ n.toInt then .ok n.toInt.toNat
  else .error (typeError fnName
    ("value ".toList ++ (Value.int n : Value F).toStr ++ " out of range".toList))

def toUsize (val : Value F) (fnName : String) : Except (RuntimeError F) ℕ := do
  let n ← toI64 val fnName
  if n.toInt < 0 then
    .error (typeError fnName
      ("argument must be non-negative, got ".toList ++ (Value.int n : Value F).toStr))
  else toUsizeChecked n fnName

def fnLen (s : Value F) : Except (RuntimeError F) (Value F) := .ok
    (.int (Int64.ofNat (utf8 s.toStr).length))

def fnLeft (s n : Value F) : Except (RuntimeError F) (Value F) := do
  let n ← toUsize n "left"
  .ok (.string (s.toStr.take n))

def fnRight (s n : Value F) : Except (RuntimeError F) (Value F) := do
  let n ← toUsize n "right"
  .ok (.string (s.toStr.drop (s.toStr.length - n)))

def fnMid (s start len : Value F) : Except (RuntimeError F) (Value F) := do
  let start ← toUsize start "mid"
  let len ← toUsize len "mid"
  .ok (.string ((s.toStr.drop start).take len))

def fnUpper (s : Value F) : Except (RuntimeError F) (Value F) := .ok
    (.string (Library.toUppercase F s.toStr))

def fnLower (s : Value F) : Except (RuntimeError F) (Value F) :=
  .ok (.string (Platform.toLowercase F s.toStr))

def fnReplace (s find replacement : Value F) : Except (RuntimeError F) (Value F) :=
  .ok (.string (replaceText s.toStr find.toStr replacement.toStr))

def fnFind (s substr : Value F) : Except (RuntimeError F) (Value F) :=
  match splitFirst substr.toStr s.toStr with
  | some (before, _) => .ok (.int (Int64.ofNat (utf8 before).length))
  | none => .ok (.int (-1))

def delimiter (delim : Value F) : Str := if delim.toStr.isEmpty then [' '] else delim.toStr

def fnToken (s n delim : Value F) : Except (RuntimeError F) (Value F) := do
  let n ← toI64 n "token"
  if n.toInt < 1 then .ok .null
  else
    let index ← toUsizeChecked (n - 1) "token"
    match (tokens (delimiter delim) s.toStr)[index]? with
    | some token => .ok (.string token)
    | none => .ok .null

def fnNumtok (s delim : Value F) : Except (RuntimeError F) (Value F) :=
  if s.toStr.isEmpty then .ok (.int 0)
  else .ok (.int (Int64.ofNat (tokens (delimiter delim) s.toStr).length))

def fnStrip (s : Value F) : Except (RuntimeError F) (Value F) := .ok (.string (Server.trim s.toStr))

def fnChr (n : Value F) : Except (RuntimeError F) (Value F) := do
  let n ← toI64 n "chr"
  if n.toInt < 0 then .error (typeError "chr" "code point must be non-negative".toList)
  else if 2 ^ 32 ≤ n.toInt then
    .error (typeError "chr" ("code point too large: ".toList ++ (Value.int n : Value F).toStr))
  else if n.toInt.toNat.isValidChar then .ok (.string [Char.ofNat n.toInt.toNat])
  else .error (typeError "chr" ("invalid code point ".toList ++ (Value.int n : Value F).toStr))

def fnAsc (s : Value F) : Except (RuntimeError F) (Value F) :=
  match s.toStr.head? with
  | some ch => .ok (.int (Int64.ofNat ch.toNat))
  | none => .error (typeError "asc" "empty string".toList)

/-- `$regex(str, pattern)`: whether it matches; the captures are kept. -/
def fnRegex (s pattern : Value F) (state : RegexState) : Except (RuntimeError F) (Value F) × RegexState :=
  match Library.regex F pattern.toStr with
  | .error e => (.error (typeError "regex" ("invalid pattern: ".toList ++ e)), state)
  | .ok captures =>
    match captures s.toStr with
    | some groups => (.ok (.int 1), ⟨groups.map (·.getD [])⟩)
    | none => (.ok (.int 0), ⟨[]⟩)

def fnRegml (n : Value F) (state : RegexState) : Except (RuntimeError F) (Value F) := do
  let n ← toI64 n "regml"
  if n.toInt < 0 then .error (typeError "regml" "index must be non-negative".toList)
  else
    let index ← toUsizeChecked n "regml"
    match state.captures[index]? with
    | some capture => .ok (.string capture)
    | none => .ok .null

namespace FunctionRegistry

def functions : List (Str × BuiltinFn F) :=
  [("len".toList, .one fun s state => (fnLen s, state)),
    ("left".toList, .two fun s n state => (fnLeft s n, state)),
    ("right".toList, .two fun s n state => (fnRight s n, state)),
    ("mid".toList, .three fun s start len state => (fnMid s start len, state)),
    ("upper".toList, .one fun s state => (fnUpper s, state)),
    ("lower".toList, .one fun s state => (fnLower s, state)),
    ("replace".toList, .three fun s find replacement state => (fnReplace s find replacement, state)),
    ("find".toList, .two fun s substr state => (fnFind s substr, state)),
    ("token".toList, .three fun s n delim state => (fnToken s n delim, state)),
    ("numtok".toList, .two fun s delim state => (fnNumtok s delim, state)),
    ("strip".toList, .one fun s state => (fnStrip s, state)),
    ("chr".toList, .one fun n state => (fnChr n, state)),
    ("asc".toList, .one fun s state => (fnAsc s, state)),
    ("regex".toList, .two fnRegex),
    ("regml".toList, .one fun n state => (fnRegml n state, state))]

/-- **The call of a function**, if there is one of the name for so many arguments. -/
def call (name : Str) (args : List (Value F)) (state : RegexState) :
    Except (RuntimeError F) (Value F) × RegexState :=
  match functions.lookup name with
  | none => (.error (.unknownFunction name), state)
  | some func =>
    match func.apply args with
    | some result => result state
    | none =>
      let argument := "argument".toList ++ if func.arity = 1 then [] else ['s']
      (.error (.typeError ('$' :: name ++ ": expected ".toList ++ decimal func.arity ++ ' ' ::
        argument ++ ", got ".toList ++ decimal args.length)), state)

end FunctionRegistry

/-- A host with this library. -/
def libraryHost {H : Type}
    (handleCommand : Str → List (Value F) → H → Except (RuntimeError F) PUnit × H) :
    Host F RegexState H :=
  ⟨FunctionRegistry.call, handleCommand⟩

/-! ## Errors -/

def FailsOnValues {α : Type} (x : Except (RuntimeError F) α) : Prop := ∀ e, x = .error e → e.OfValues

section FailsOnValues

variable {α β : Type}

omit [Platform F] [Library F] in
theorem failsOnValues_ok (a : α) : FailsOnValues (.ok a : Except (RuntimeError F) α) := by
  rintro e ⟨⟩

omit [Platform F] [Library F] in
theorem failsOnValues_error {e : RuntimeError F} (h : e.OfValues) :
    FailsOnValues (.error e : Except (RuntimeError F) α) := by
  rintro e' ⟨⟩
  exact h

omit [Platform F] [Library F] in
theorem FailsOnValues.bind {x : Except (RuntimeError F) α} {f : α → Except (RuntimeError F) β}
    (hx : FailsOnValues x) (hf : ∀ a, FailsOnValues (f a)) : FailsOnValues (x >>= f) := by
  cases x with
  | ok a => exact hf a
  | error e => exact failsOnValues_error (hx e rfl)

omit [Platform F] in
theorem failsOnValues_toI64 (val : Value F) (fnName : String) : FailsOnValues (toI64 val fnName) := by
  unfold toI64
  split
  · exact failsOnValues_ok _
  · exact failsOnValues_ok _
  · split
    · exact failsOnValues_ok _
    · exact failsOnValues_error trivial
  · exact failsOnValues_error trivial

omit [Library F] in
theorem failsOnValues_toUsizeChecked (n : Int64) (fnName : String) :
    FailsOnValues (toUsizeChecked n fnName : Except (RuntimeError F) ℕ) := by
  unfold toUsizeChecked
  split_ifs
  · exact failsOnValues_ok _
  · exact failsOnValues_error trivial

theorem failsOnValues_toUsize (val : Value F) (fnName : String) :
    FailsOnValues (toUsize val fnName) := by
  refine (failsOnValues_toI64 val fnName).bind fun n => ?_
  split_ifs
  · exact failsOnValues_error trivial
  · exact failsOnValues_toUsizeChecked n fnName

theorem failsOnValues_fnToken (s n delim : Value F) : FailsOnValues (fnToken s n delim) := by
  refine (failsOnValues_toI64 n "token").bind fun n => ?_
  split_ifs
  · exact failsOnValues_ok _
  · refine (failsOnValues_toUsizeChecked _ _).bind fun index => ?_
    split
    · exact failsOnValues_ok _
    · exact failsOnValues_ok _

theorem failsOnValues_fnChr (n : Value F) : FailsOnValues (fnChr n) := by
  refine (failsOnValues_toI64 n "chr").bind fun n => ?_
  split_ifs
  · exact failsOnValues_error trivial
  · exact failsOnValues_error trivial
  · exact failsOnValues_ok _
  · exact failsOnValues_error trivial

theorem failsOnValues_fnRegex (s pattern : Value F) (state : RegexState) :
    FailsOnValues (fnRegex s pattern state).1 := by
  unfold fnRegex
  split
  · exact failsOnValues_error trivial
  · split
    · exact failsOnValues_ok _
    · exact failsOnValues_ok _

theorem failsOnValues_fnRegml (n : Value F) (state : RegexState) : FailsOnValues (fnRegml n state) := by
  refine (failsOnValues_toI64 n "regml").bind fun n => ?_
  split_ifs
  · exact failsOnValues_error trivial
  · refine (failsOnValues_toUsizeChecked _ _).bind fun index => ?_
    split
    · exact failsOnValues_ok _
    · exact failsOnValues_ok _

end FailsOnValues

/-- On as many arguments as it has, the function fails with errors of values only. -/
def BuiltinFn.Fails (func : BuiltinFn F) : Prop :=
  ∀ args result, func.apply args = some result → ∀ state, FailsOnValues (result state).1

section Fails

omit [Platform F] [Library F]

theorem BuiltinFn.Fails.one {f : Value F → RegexState → Except (RuntimeError F) (Value F) × RegexState}
    (h : ∀ a state, FailsOnValues (f a state).1) : (BuiltinFn.one f).Fails := by
  intro args result happly state
  rcases args with - | ⟨a, - | ⟨b, args⟩⟩
  all_goals cases happly
  exact h a state

theorem BuiltinFn.Fails.two
    {f : Value F → Value F → RegexState → Except (RuntimeError F) (Value F) × RegexState}
    (h : ∀ a b state, FailsOnValues (f a b state).1) : (BuiltinFn.two f).Fails := by
  intro args result happly state
  rcases args with - | ⟨a, - | ⟨b, - | ⟨c, args⟩⟩⟩
  all_goals cases happly
  exact h a b state

theorem BuiltinFn.Fails.three
    {f : Value F → Value F → Value F → RegexState → Except (RuntimeError F) (Value F) × RegexState}
    (h : ∀ a b c state, FailsOnValues (f a b c state).1) : (BuiltinFn.three f).Fails := by
  intro args result happly state
  rcases args with - | ⟨a, - | ⟨b, - | ⟨c, - | ⟨d, args⟩⟩⟩⟩
  all_goals cases happly
  exact h a b c state

end Fails

namespace FunctionRegistry

theorem functions_fails : ∀ entry ∈ (functions : List (Str × BuiltinFn F)), entry.2.Fails := by
  have hindex (val : Value F) (fnName : String) (f : ℕ → Value F) :
      FailsOnValues (toUsize val fnName >>= fun n => .ok (f n)) :=
    (failsOnValues_toUsize val fnName).bind fun n => failsOnValues_ok (f n)
  simp only [functions, List.forall_mem_cons]
  refine ⟨.one fun _ _ => failsOnValues_ok _, .two fun _ n _ => hindex n _ _,
    .two fun _ n _ => hindex n _ _, .three fun _ start len _ => ?_,
    .one fun _ _ => failsOnValues_ok _, .one fun _ _ => failsOnValues_ok _,
    .three fun _ _ _ _ => failsOnValues_ok _, .two fun s substr _ => ?_,
    .three fun s n delim _ => failsOnValues_fnToken s n delim,
    .two fun s delim _ => ?_, .one fun _ _ => failsOnValues_ok _,
    .one fun n _ => failsOnValues_fnChr n, .one fun s _ => ?_,
    .two failsOnValues_fnRegex, .one failsOnValues_fnRegml, by simp⟩
  · exact (failsOnValues_toUsize start "mid").bind fun start => hindex len _ _
  · change FailsOnValues (fnFind s substr)
    unfold fnFind
    split
    · exact failsOnValues_ok _
    · exact failsOnValues_ok _
  · change FailsOnValues (fnNumtok s delim)
    unfold fnNumtok
    split_ifs
    · exact failsOnValues_ok _
    · exact failsOnValues_ok _
  · change FailsOnValues (fnAsc s)
    unfold fnAsc
    split
    · exact failsOnValues_ok _
    · exact failsOnValues_error trivial

/-- **Functions fail with errors of values only.** -/
theorem call_error {name : Str} {args : List (Value F)} {state : RegexState} {e : RuntimeError F}
    (h : (call name args state).1 = .error e) : e.OfValues := by
  unfold call at h
  split at h
  · cases h
    trivial
  · next func hlookup =>
    split at h
    · next result happly =>
      have hmem : (name, func) ∈ (functions : List (Str × BuiltinFn F)) := by
        obtain ⟨before, behind, heq, -⟩ := List.lookup_eq_some_iff.mp hlookup
        rw [heq]
        exact List.mem_append_right _ List.mem_cons_self
      exact functions_fails _ hmem args result happly state e h
    · cases h
      trivial

end FunctionRegistry

end Pirc.Scripting
