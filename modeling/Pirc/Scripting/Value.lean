import Pirc.Scripting.Syntax

/-!
# Scripts: values

`interpreter/value.rs` and the errors of `interpreter/mod.rs`. Floating-point numbers are values of
a type `F`, and what is done with them is a parameter, as is the lower case of a text. An operation
returns a value, fails with an error of the script, or panics: integers are added, subtracted and
multiplied with wrapping, but divided and negated without.

## Main results

* `Value.binary_panics`, `Value.unary_panics`: **an operator panics exactly if its result
  overflows**
* `Value.binary_error`, `Value.unary_error`: the errors of operators
-/

namespace Pirc.Scripting

open Protocol (Str decimal)

/-- What the language does with floating-point numbers, how a time in nanoseconds is shown in
seconds with one place, the lower case of a text, and whether the build checks negations for
overflow. -/
class Platform (F : Type) where
  ofInt : Int64 → F
  add : F → F → F
  sub : F → F → F
  mul : F → F → F
  div : F → F → F
  rem : F → F → F
  neg : F → F
  isZero : F → Bool
  eq : F → F → Bool
  partialCmp : F → F → Option Ordering
  display : F → Str
  displaySeconds : ℕ → Str
  toLowercase : Str → Str
  overflowChecks : Bool

/-- The values of expressions. -/
inductive Value (F : Type)
  | string (s : Str)
  | int (n : Int64)
  | number (n : F)
  | bool (b : Bool)
  | null

/-- Errors of a script, and how control leaves a body. -/
inductive RuntimeError (F : Type)
  | typeError (text : Str)
  | undefinedVariable (name : Str)
  | divisionByZero
  | unknownBuiltin (name : Str)
  | unknownFunction (name : Str)
  | unknownCommand (name : Str)
  | loopLimit
  | aliasRecursionLimit
  | halt
  | return_ (value : Value F)
  | break_
  | continue_

/-- How an execution stops before its end: with an error, or the program panics. -/
inductive Stop (F : Type)
  | error (e : RuntimeError F)
  | panic

variable {F : Type} [Platform F]

namespace Value

def toStr : Value F → Str
  | string s => s
  | int n => if n.toInt < 0 then '-' :: decimal n.toInt.natAbs else decimal n.toInt.natAbs
  | number n => Platform.display n
  | bool true => "true".toList
  | bool false => "false".toList
  | null => []

def isTruthy : Value F → Bool
  | null => false
  | bool b => b
  | int n => n != 0
  | number n => !Platform.isZero n
  | string s => !s.isEmpty

def typeName : Value F → Str
  | string _ => "string".toList
  | int _ => "int".toList
  | number _ => "number".toList
  | bool _ => "bool".toList
  | null => "null".toList

/-- Texts are equal up to the case of ASCII letters. -/
def eqIgnoreAsciiCase (s t : Str) : Bool := s.map Char.toLower = t.map Char.toLower

def equals : Value F → Value F → Bool
  | string a, string b => eqIgnoreAsciiCase a b
  | int a, int b => a = b
  | number a, number b => Platform.eq a b
  | int a, number b | number b, int a => Platform.eq (Platform.ofInt a) b
  | bool a, bool b => a = b
  | null, null => true
  | _, _ => false

/-- An operator on values of these types is no operator of the language. -/
def typeError (before : String) (v : Value F) (between : String) (w : Value F) :
    Except (Stop F) (Value F) :=
  .error (.error (.typeError (before.toList ++ v.typeName ++ between.toList ++ w.typeName)))

def add : Value F → Value F → Except (Stop F) (Value F)
  | int a, int b => .ok (.int (a + b))
  | number a, number b => .ok (.number (Platform.add a b))
  | int a, number b => .ok (.number (Platform.add (Platform.ofInt a) b))
  | number a, int b => .ok (.number (Platform.add a (Platform.ofInt b)))
  | string a, string b => .ok (.string (a ++ b))
  | v, w => typeError "cannot add " v " and " w

def sub : Value F → Value F → Except (Stop F) (Value F)
  | int a, int b => .ok (.int (a - b))
  | number a, number b => .ok (.number (Platform.sub a b))
  | int a, number b => .ok (.number (Platform.sub (Platform.ofInt a) b))
  | number a, int b => .ok (.number (Platform.sub a (Platform.ofInt b)))
  | v, w => typeError "cannot subtract " w " from " v

def mul : Value F → Value F → Except (Stop F) (Value F)
  | int a, int b => .ok (.int (a * b))
  | number a, number b => .ok (.number (Platform.mul a b))
  | int a, number b => .ok (.number (Platform.mul (Platform.ofInt a) b))
  | number a, int b => .ok (.number (Platform.mul a (Platform.ofInt b)))
  | v, w => typeError "cannot multiply " v " and " w

/-- The quotient of these numbers has no place in 64 bits. -/
def Overflows (a b : Int64) : Prop := a = Int64.minValue ∧ b = -1

instance (a b : Int64) : Decidable (Overflows a b) := inferInstanceAs (Decidable (_ ∧ _))

/-- Division and remainder differ in the operation on each kind of numbers only. -/
def divideWith (ints : Int64 → Int64 → Int64) (numbers : F → F → F) (before between : String) :
    Value F → Value F → Except (Stop F) (Value F)
  | int a, int b =>
    if b = 0 then .error (.error .divisionByZero)
    else if Overflows a b then .error .panic
    else .ok (.int (ints a b))
  | number a, number b =>
    if Platform.isZero b then .error (.error .divisionByZero) else .ok (.number (numbers a b))
  | int a, number b =>
    if Platform.isZero b then .error (.error .divisionByZero)
    else .ok (.number (numbers (Platform.ofInt a) b))
  | number a, int b =>
    if b = 0 then .error (.error .divisionByZero)
    else .ok (.number (numbers a (Platform.ofInt b)))
  | v, w => typeError before v between w

def div : Value F → Value F → Except (Stop F) (Value F) :=
  divideWith (· / ·) Platform.div "cannot divide " " by "

def modulo : Value F → Value F → Except (Stop F) (Value F) :=
  divideWith (· % ·) Platform.rem "cannot compute modulo of " " and "

def negate : Value F → Except (Stop F) (Value F)
  | int n =>
    if n = Int64.minValue ∧ Platform.overflowChecks F then .error .panic else .ok (.int (-n))
  | number n => .ok (.number (Platform.neg n))
  | v => .error (.error (.typeError ("cannot negate ".toList ++ v.typeName)))

def numberOrder (ord : Option Ordering) : Except (Stop F) Ordering :=
  match ord with
  | some ord => .ok ord
  | none => .error (.error (.typeError "cannot compare NaN values".toList))

def partialCmpValues : Value F → Value F → Except (Stop F) Ordering
  | int a, int b => .ok (compare a.toInt b.toInt)
  | number a, number b => numberOrder (Platform.partialCmp a b)
  | int a, number b => numberOrder (Platform.partialCmp (Platform.ofInt a) b)
  | number a, int b => numberOrder (Platform.partialCmp a (Platform.ofInt b))
  | string a, string b =>
    .ok (compare (Platform.toLowercase F a) (Platform.toLowercase F b))
  | v, w => .error (.error (.typeError
      ("cannot compare ".toList ++ v.typeName ++ " and ".toList ++ w.typeName)))

def compareWith (holds : Ordering → Bool) (v w : Value F) : Except (Stop F) (Value F) :=
  (partialCmpValues v w).map fun ord => .bool (holds ord)

/-- The operators on two values. `&&` and `||` do not come here, as they may do without their right
side. -/
def binary : BinaryOp → Value F → Value F → Except (Stop F) (Value F)
  | .add, v, w => v.add w
  | .sub, v, w => v.sub w
  | .mul, v, w => v.mul w
  | .div, v, w => v.div w
  | .mod, v, w => v.modulo w
  | .eq, v, w => .ok (.bool (v.equals w))
  | .neq, v, w => .ok (.bool (!v.equals w))
  | .lt, v, w => compareWith (· = .lt) v w
  | .gt, v, w => compareWith (· = .gt) v w
  | .lte, v, w => compareWith (fun ord => ord = .lt || ord = .eq) v w
  | .gte, v, w => compareWith (fun ord => ord = .gt || ord = .eq) v w
  | .and, _, _ | .or, _, _ => .error .panic

/-- `!` and `-`. -/
def unary : UnaryOp → Value F → Except (Stop F) (Value F)
  | .not, v => .ok (.bool (!v.isTruthy))
  | .neg, v => v.negate

end Value

/-! ## Operations -/

/-- What an execution does at a point: an operator on its values, the body of an alias, which begins
at this depth, or a local variable that no scope binds. -/
inductive Step (F : Type)
  | binary (op : BinaryOp) (left right : Value F)
  | unary (op : UnaryOp) (operand : Value F)
  | alias_ (depth : ℕ)
  | unbound (name : Str)

/-- **The result has no place**: the smallest integer is divided by `-1`, or it is negated in a
build that checks for overflow. -/
def Step.Overflows : Step F → Prop
  | binary .div (.int a) (.int b) | binary .mod (.int a) (.int b) => Value.Overflows a b
  | unary .neg (.int n) => n = Int64.minValue ∧ Platform.overflowChecks F
  | _ => False

namespace Value

theorem divideWith_panics {ints : Int64 → Int64 → Int64} {numbers : F → F → F}
    {before between : String} (v w : Value F) :
    divideWith ints numbers before between v w = .error .panic ↔
      ∃ a b, v = .int a ∧ w = .int b ∧ Overflows a b := by
  constructor
  · intro h
    unfold divideWith at h
    split at h
    case h_1 a b =>
      split_ifs at h with hzero hoverflow
      · cases h
      · exact ⟨a, b, rfl, rfl, hoverflow⟩
    case h_2 | h_3 | h_4 =>
      split_ifs at h
      cases h
    case h_5 => cases h
  · rintro ⟨a, b, rfl, rfl, hoverflow⟩
    have hb : ¬ b = 0 := by
      rw [hoverflow.2]
      decide
    rw [divideWith, if_neg hb, if_pos hoverflow]

theorem compareWith_ne_panic (holds : Ordering → Bool) (v w : Value F) :
    compareWith holds v w ≠ .error .panic := by
  have horder (ord : Option Ordering) :
      (numberOrder ord : Except (Stop F) Ordering) ≠ .error .panic := by
    cases ord <;> rintro ⟨⟩
  have hcmp : partialCmpValues v w ≠ .error .panic := by
    unfold partialCmpValues
    split
    case h_2 | h_3 | h_4 => exact horder _
    all_goals rintro ⟨⟩
  unfold compareWith
  intro h
  cases hord : partialCmpValues v w with
  | ok ord =>
    rw [hord] at h
    cases h
  | error e =>
    rw [hord] at h hcmp
    exact hcmp (congrArg Except.error (Except.error.inj h))

/-- **An operator on two values panics exactly if its result has no place.** -/
theorem binary_panics {op : BinaryOp} (hand : op ≠ .and) (hor : op ≠ .or) (v w : Value F) :
    binary op v w = .error .panic ↔ (Step.binary op v w).Overflows := by
  have hdivide : (∃ a b, v = int a ∧ w = int b ∧ Overflows a b) ↔
      (Step.binary .div v w).Overflows := by
    constructor
    · rintro ⟨a, b, rfl, rfl, hoverflow⟩
      exact hoverflow
    · intro h
      unfold Step.Overflows at h
      split at h
      case h_1 a b heq =>
        cases heq
        exact ⟨a, b, rfl, rfl, h⟩
      case h_2 heq => cases heq
      case h_3 heq => cases heq
      case h_4 => exact h.elim
  cases op with
  | div => exact (divideWith_panics v w).trans hdivide
  | mod =>
    refine (divideWith_panics v w).trans (hdivide.trans ?_)
    cases v <;> cases w <;> rfl
  | add =>
    refine iff_of_false ?_ id
    cases v <;> cases w <;> rintro ⟨⟩
  | sub =>
    refine iff_of_false ?_ id
    cases v <;> cases w <;> rintro ⟨⟩
  | mul =>
    refine iff_of_false ?_ id
    cases v <;> cases w <;> rintro ⟨⟩
  | eq => exact iff_of_false (by rintro ⟨⟩) id
  | neq => exact iff_of_false (by rintro ⟨⟩) id
  | lt => exact iff_of_false (compareWith_ne_panic _ v w) id
  | gt => exact iff_of_false (compareWith_ne_panic _ v w) id
  | lte => exact iff_of_false (compareWith_ne_panic _ v w) id
  | gte => exact iff_of_false (compareWith_ne_panic _ v w) id
  | and => exact absurd rfl hand
  | or => exact absurd rfl hor

theorem unary_panics (op : UnaryOp) (v : Value F) :
    unary op v = .error .panic ↔ (Step.unary op v).Overflows := by
  cases op with
  | not => exact iff_of_false (by rintro ⟨⟩) id
  | neg =>
    cases v with
    | int n =>
      unfold unary negate
      dsimp only
      split_ifs with hoverflow
      · exact iff_of_true rfl hoverflow
      · exact iff_of_false (by rintro ⟨⟩) hoverflow
    | _ => exact iff_of_false (by rintro ⟨⟩) id

end Value

/-! ## Errors of operators -/

/-- The errors of operators and functions: values do not suit them, or there is no such function. -/
def RuntimeError.OfValues : RuntimeError F → Prop
  | .typeError _ | .divisionByZero | .unknownFunction _ => True
  | _ => False

namespace Value

theorem divideWith_error {ints : Int64 → Int64 → Int64} {numbers : F → F → F}
    {before between : String} {v w : Value F} {e : RuntimeError F}
    (h : divideWith ints numbers before between v w = .error (.error e)) : e.OfValues := by
  unfold divideWith at h
  split at h
  case h_5 =>
    cases h
    trivial
  all_goals split_ifs at h
  all_goals cases h
  all_goals trivial

theorem partialCmpValues_error {v w : Value F} {e : RuntimeError F}
    (h : partialCmpValues v w = .error (.error e)) : e.OfValues := by
  have horder (ord : Option Ordering) (h : numberOrder ord = .error (.error e)) : e.OfValues := by
    cases ord with
    | some ord => cases h
    | none =>
      cases h
      trivial
  unfold partialCmpValues at h
  split at h
  case h_2 | h_3 | h_4 => exact horder _ h
  all_goals cases h
  trivial

theorem compareWith_error {holds : Ordering → Bool} {v w : Value F} {e : RuntimeError F}
    (h : compareWith holds v w = .error (.error e)) : e.OfValues := by
  unfold compareWith at h
  cases hord : partialCmpValues v w with
  | ok ord =>
    rw [hord] at h
    cases h
  | error stop =>
    rw [hord] at h
    cases h
    exact partialCmpValues_error hord

theorem binary_error {op : BinaryOp} {v w : Value F} {e : RuntimeError F}
    (h : binary op v w = .error (.error e)) : e.OfValues := by
  cases op with
  | add =>
    cases v <;> cases w <;> cases h
    all_goals trivial
  | sub =>
    cases v <;> cases w <;> cases h
    all_goals trivial
  | mul =>
    cases v <;> cases w <;> cases h
    all_goals trivial
  | div => exact divideWith_error h
  | mod => exact divideWith_error h
  | lt => exact compareWith_error h
  | gt => exact compareWith_error h
  | lte => exact compareWith_error h
  | gte => exact compareWith_error h
  | eq => cases h
  | neq => cases h
  | and => cases h
  | or => cases h

theorem unary_error {op : UnaryOp} {v : Value F} {e : RuntimeError F}
    (h : unary op v = .error (.error e)) : e.OfValues := by
  cases op with
  | not => cases h
  | neg =>
    unfold unary negate at h
    dsimp only at h
    split at h
    · split_ifs at h
      cases h
    · cases h
    · cases h
      trivial

end Value

end Pirc.Scripting
