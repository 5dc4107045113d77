import Mathlib.Data.List.DropRight
import Pirc.Lib.Decimal
import Pirc.Lib.Utf8
import Pirc.Scripting.Syntax
import Pirc.Server.Channel

/-!
# Scripts: the lexer

`lexer.rs`. The lexer walks over the bytes of a source text, and takes slices of the text between
two bytes, where it would panic if they were not between characters. Its loops are counted. A reader
of characters tells what token there is at a position, and the lexer is shown to agree with it, so
that it neither panics nor is cut off.
-/

namespace Pirc.Scripting

open Protocol (Str)

/-- How a number with a point is read, or why it is none. -/
class Numerals (F : Type) where
  parse : Str → Except Str F

@[reducible] def wholeNumerals : Numerals Unit := ⟨fun text => .error text⟩

variable {F : Type}

/-- The errors, with where they are. -/
inductive LexError
  | unexpectedCharacter (ch : Char) (span : Span) (location : SourceLocation)
  | unterminatedString (span : Span) (location : SourceLocation)
  | invalidEscape (ch : Char) (span : Span) (location : SourceLocation)
  | invalidNumber (message : Str) (span : Span) (location : SourceLocation)
  deriving DecidableEq

/-- How the lexer stops: with an error, with a panic, or cut off by the count of its rounds. -/
inductive LexStop
  | error (e : LexError)
  | panic
  | cutOff
  deriving DecidableEq

/-! ## Characters -/

/-- The characters an identifier may begin with. -/
def isIdentStart (c : Char) : Bool := c.isAlpha || c = '_'

/-- The characters an identifier may go on with. -/
def isIdentContinue (c : Char) : Bool := c.isAlphanum || c = '_' || c = '-'

def TokenKind.keyword (name : Str) : Option (TokenKind F) :=
  if name = "alias".toList then some .alias_
  else if name = "on".toList then some .on
  else if name = "if".toList then some .if_
  else if name = "elseif".toList then some .elseIf
  else if name = "else".toList then some .else_
  else if name = "while".toList then some .while_
  else if name = "var".toList then some .var
  else if name = "set".toList then some .set
  else if name = "timer".toList then some .timer
  else if name = "return".toList then some .return_
  else if name = "break".toList then some .break_
  else if name = "continue".toList then some .continue_
  else if name = "true".toList then some .true
  else if name = "false".toList then some .false
  else none

/-- The operator or delimiter that begins with a character, by the one after it, and how long it
is. -/
def TokenKind.operator (c : Char) (next : Option Char) : Option (TokenKind F × ℕ) :=
  if c = '%' then some (.percent, 1)
  else if c = '+' then some (.plus, 1)
  else if c = '-' then some (.minus, 1)
  else if c = '*' then some (.star, 1)
  else if c = '/' then some (.slash, 1)
  else if c = '\x7b' then some (.leftBrace, 1)
  else if c = '\x7d' then some (.rightBrace, 1)
  else if c = '(' then some (.leftParen, 1)
  else if c = ')' then some (.rightParen, 1)
  else if c = ',' then some (.comma, 1)
  else if c = ':' then some (.colon, 1)
  else if c = '=' then some (if next = some '=' then (.equalEqual, 2) else (.equal, 1))
  else if c = '!' then some (if next = some '=' then (.bangEqual, 2) else (.bang, 1))
  else if c = '<' then some (if next = some '=' then (.lessEqual, 2) else (.less, 1))
  else if c = '>' then some (if next = some '=' then (.greaterEqual, 2) else (.greater, 1))
  else if c = '&' ∧ next = some '&' then some (.ampAmp, 2)
  else if c = '|' ∧ next = some '|' then some (.pipePipe, 2)
  else none

def TokenKind.isEof : TokenKind F → Bool
  | eof => Bool.true
  | _ => Bool.false

def TokenKind.number [Numerals F] (isFloat : Bool) (text : Str) : Except Str (TokenKind F) :=
  if isFloat then (Numerals.parse text).map .numberLiteral
  else
    match Decimal.parse 63 text with
    | .ok val => .ok (.intLiteral (.ofNat val))
    | .error e => .error e.text.toList

def escaped (c : Char) : Option Char :=
  if c = 'n' then some '\n'
  else if c = 't' then some '\t'
  else if c = 'r' then some '\r'
  else if c = '\\' then some '\\'
  else if c = '"' then some '"'
  else none

/-! ## The lexer -/

/-- A position in the bytes of a source text. -/
structure Lexer where
  source : Str
  pos : ℕ := 0

/-- What the lexer does: it gives something, or stops. -/
abbrev Lexing := Except LexStop

namespace Lexer

variable (l : Lexer)

def bytes : List UInt8 := utf8 l.source

/-- The byte so many positions ahead, as an ASCII character; other bytes mean nothing to the
lexer. -/
def peekAt (offset : ℕ) : Option Char := l.bytes[l.pos + offset]?.bind asciiOf

def advance (n : ℕ) : Lexer := { l with pos := l.pos + n }

def advanceWhile (p : UInt8 → Bool) : Lexer := l.advance ((l.bytes.drop l.pos).takeWhile p).length

/-- The text between two positions, which have to be between characters. -/
def slice (start stop : ℕ) : Lexing Str :=
  match strSlice l.source start stop with
  | some text => .ok text
  | none => .error .panic

/-- The character at the position, which has to be between characters. -/
def charAt : Lexing Char :=
  match splitBytes l.source l.pos with
  | some (_, rest) => .ok (rest.head?.getD (Char.ofNat 0))
  | none => .error .panic

def location (start : ℕ) : SourceLocation := .fromOffset l.source start

def token (kind : TokenKind F) (start : ℕ) : Token F × Lexer := (⟨kind, ⟨start, l.pos - start⟩⟩, l)

def skipWhitespace : Lexer := l.advanceWhile fun b => b = asciiByte ' ' || b = asciiByte '\t'

def lexComment : Lexing (Token F × Lexer) := do
  let start := l.pos
  let contentStart := l.pos + 1
  let l := (l.advance 1).advanceWhile fun b => !decide (b = asciiByte '\n')
  let content ← l.slice contentStart l.pos
  pure (l.token (.comment (content.rdropWhile Server.isWhitespace)) start)

/-- The rest of a string literal that began at `start`, so many rounds at most. -/
def lexStringFrom (start : ℕ) : ℕ → Lexer → Str → Lexing (Token F × Lexer)
  | 0, _, _ => .error .cutOff
  | rounds + 1, l, value =>
    let unterminated (l : Lexer) : Lexing (Token F × Lexer) :=
      .error (.error (.unterminatedString ⟨start, l.pos - start⟩ (l.location start)))
    if l.bytes.length ≤ l.pos then unterminated l
    else if l.peekAt 0 = some '"' then .ok ((l.advance 1).token (.stringLiteral value) start)
    else if l.peekAt 0 = some '\\' then
      let escStart := l.pos
      let l := l.advance 1
      if l.bytes.length ≤ l.pos then unterminated l
      else
        match (l.peekAt 0).bind escaped with
        | some ch => lexStringFrom start rounds (l.advance 1) (value ++ [ch])
        | none => do
          let ch ← l.charAt
          let l := l.advance (String.utf8EncodeChar ch).length
          .error (.error (.invalidEscape ch ⟨escStart, l.pos - escStart⟩ (l.location escStart)))
    else if l.peekAt 0 = some '\n' then unterminated l
    else do
      let ch ← l.charAt
      lexStringFrom start rounds (l.advance (String.utf8EncodeChar ch).length) (value ++ [ch])

def lexString : Lexing (Token F × Lexer) := lexStringFrom l.pos (l.bytes.length + 1) (l.advance 1) []

/-- A name behind so many bytes that tell what it is the name of. -/
def lexName (kind : Str → TokenKind F) (sigil : ℕ) : Lexing (Token F × Lexer) := do
  let start := l.pos
  let nameStart := l.pos + sigil
  let l := (l.advance sigil).advanceWhile (isAscii isIdentContinue)
  let name ← l.slice nameStart l.pos
  pure (l.token (kind name) start)

def lexVariable : Lexing (Token F × Lexer) := l.lexName .variable_ 1

def lexGlobalVariable : Lexing (Token F × Lexer) := l.lexName .globalVariable 2

def lexBuiltinIdentifier : Lexing (Token F × Lexer) := l.lexName .builtinIdentifier 1

def lexNumber [Numerals F] : Lexing (Token F × Lexer) := do
  let start := l.pos
  let l := l.advanceWhile (isAscii Char.isDigit)
  let isFloat : Bool := l.peekAt 0 = some '.' ∧ (l.peekAt 1).any Char.isDigit
  let l := if isFloat then (l.advance 1).advanceWhile (isAscii Char.isDigit) else l
  let text ← l.slice start l.pos
  match TokenKind.number isFloat text with
  | .ok kind => pure (l.token kind start)
  | .error message =>
    .error (.error (.invalidNumber message ⟨start, l.pos - start⟩ (l.location start)))

def lexIdentifierOrKeyword : Lexing (Token F × Lexer) := do
  let start := l.pos
  let l := l.advanceWhile (isAscii isIdentContinue)
  let text ← l.slice start l.pos
  pure (l.token ((TokenKind.keyword text).getD (.identifier text)) start)

def unexpectedCharacter : Lexing (Token F × Lexer) := do
  let ch ← l.charAt
  .error (.error (.unexpectedCharacter ch ⟨l.pos, (String.utf8EncodeChar ch).length⟩ (l.location l.pos)))

def fixedToken (kind : TokenKind F) (n : ℕ) : Lexing (Token F × Lexer) := .ok
    ((l.advance n).token kind l.pos)

def lexAt [Numerals F] (c : Char) (next : Option Char) : Lexing (Token F × Lexer) :=
  if c = '\n' then l.fixedToken .newline 1
  else if c = '\r' then l.fixedToken .newline (if next = some '\n' then 2 else 1)
  else if c = ';' then l.lexComment
  else if c = '"' then l.lexString
  else if c = '%' ∧ next = some '%' then l.lexGlobalVariable
  else if c = '%' ∧ next.any isIdentStart then l.lexVariable
  else if c = '$' ∧ next.any (fun d => isIdentStart d || d.isDigit) then l.lexBuiltinIdentifier
  else if c.isDigit then l.lexNumber
  else if isIdentStart c then l.lexIdentifierOrKeyword
  else
    match TokenKind.operator c next with
    | some (kind, n) => l.fixedToken kind n
    | none => l.unexpectedCharacter

def lexToken [Numerals F] : Lexing (Token F × Lexer) :=
  if l.bytes.length ≤ l.pos then .ok (l.token .eof l.pos)
  else
    match l.peekAt 0 with
    | some c => l.lexAt c (l.peekAt 1)
    | none => l.unexpectedCharacter

/-- **The next token.** -/
def nextToken [Numerals F] : Lexing (Token F × Lexer) := l.skipWhitespace.lexToken

def tokenizeFrom [Numerals F] : ℕ → Lexer → Lexing (List (Token F))
  | 0, _ => .error .cutOff
  | rounds + 1, l => do
    let (token, l) ← l.nextToken
    if token.kind.isEof then pure [token]
    else do
      let tokens ← tokenizeFrom rounds l
      pure (token :: tokens)

end Lexer

/-- **The tokens of a source text.** -/
def tokenize [Numerals F] (source : Str) : Lexing (List (Token F)) :=
  Lexer.tokenizeFrom ((utf8 source).length + 1) { source := source }

/-! ## The reader -/

/-- The rest of a string literal: what it stands for, and how many characters it takes. -/
def readString (value : Str) : Str → Option (Str × ℕ)
  | [] => none
  | c :: rest =>
    if c = '"' then some (value, 1)
    else if c = '\\' then
      match rest with
      | [] => none
      | e :: rest =>
        match escaped e with
        | some ch => (readString (value ++ [ch]) rest).map fun (value, n) => (value, n + 2)
        | none => none
    else if c = '\n' then none
    else (readString (value ++ [c]) rest).map fun (value, n) => (value, n + 1)

def readName (kind : Str → TokenKind F) (sigil : ℕ) (rest : Str) : TokenKind F × ℕ :=
  let name := (rest.drop sigil).takeWhile isIdentContinue
  (kind name, sigil + name.length)

def fraction : Str → Str
  | [] => []
  | c :: rest =>
    if c = '.' ∧ rest.head?.any Char.isDigit then c :: rest.takeWhile Char.isDigit else []

def numberText (rest : Str) : Str :=
  rest.takeWhile Char.isDigit ++ fraction (rest.drop (rest.takeWhile Char.isDigit).length)

def readNumber [Numerals F] (rest : Str) : Option (TokenKind F × ℕ) :=
  let isFloat := !(fraction (rest.drop (rest.takeWhile Char.isDigit).length)).isEmpty
  match TokenKind.number isFloat (numberText rest) with
  | .ok kind => some (kind, (numberText rest).length)
  | .error _ => none

/-- The token that begins with an ASCII character, which is the first one of `rest`. -/
def readAt [Numerals F] (rest : Str) (c : Char) (next : Option Char) : Option (TokenKind F × ℕ) :=
  if c = '\n' then some (.newline, 1)
  else if c = '\r' then some (.newline, if next = some '\n' then 2 else 1)
  else if c = ';' then
    let content := rest.tail.takeWhile (· ≠ '\n')
    some (.comment (content.rdropWhile Server.isWhitespace), content.length + 1)
  else if c = '"' then (readString [] rest.tail).map fun (value, n) => (.stringLiteral value, n + 1)
  else if c = '%' ∧ next = some '%' then some (readName .globalVariable 2 rest)
  else if c = '%' ∧ next.any isIdentStart then some (readName .variable_ 1 rest)
  else if c = '$' ∧ next.any (fun d => isIdentStart d || d.isDigit) then
    some (readName .builtinIdentifier 1 rest)
  else if c.isDigit then readNumber rest
  else if isIdentStart c then
    let text := rest.takeWhile isIdentContinue
    some ((TokenKind.keyword text).getD (.identifier text), text.length)
  else TokenKind.operator c next

/-- **The token that some characters begin with**, and how many of them it takes; none where it is
an error. -/
def readToken [Numerals F] (rest : Str) : Option (TokenKind F × ℕ) :=
  match rest with
  | [] => some (.eof, 0)
  | c :: more =>
    match asciiOnly c with
    | some c => readAt rest c (more.head?.bind asciiOnly)
    | none => none

def blanks (rest : Str) : Str := rest.takeWhile fun c => c = ' ' || c = '\t'

theorem take_blanks (rest : Str) : rest.take (blanks rest).length = blanks rest :=
  (List.prefix_iff_eq_take.mp (List.takeWhile_prefix _)).symm

theorem blanks_append_drop (rest : Str) : blanks rest ++ rest.drop (blanks rest).length = rest :=
  List.prefix_iff_eq_append.mp (List.takeWhile_prefix _)

theorem mem_blanks {rest : Str} {c : Char} (h : c ∈ blanks rest) : c = ' ' ∨ c = '\t' := by
  simpa using List.mem_takeWhile_imp h

/-! ## Between characters -/

namespace Lexer

def between (c : Cursor) : Lexer := ⟨c.text, c.offset⟩

variable (c : Cursor)

theorem peekAt_zero : (between c).peekAt 0 = c.rest.head?.bind asciiOnly := by
  rw [peekAt, bytes, Nat.add_zero, ← List.head?_drop, between, Cursor.drop_utf8, asciiOf_head?_utf8]

theorem advance_width (n : ℕ) : (between c).advance (c.width n) = between (c.forward n) := by
  simp [advance, between]

theorem advanceWhile_between {p : UInt8 → Bool} {q : Char → Bool} (h : SeesBytes p q) :
    (between c).advanceWhile p = between (c.forward (c.rest.takeWhile q).length) := by
  have hwidth : ((((between c).bytes).drop (between c).pos).takeWhile p).length
      = c.width (c.rest.takeWhile q).length := by
    rw [bytes, between, Cursor.drop_utf8, h.takeWhile, Cursor.width,
      ← List.prefix_iff_eq_take.mp (List.takeWhile_prefix q)]
  rw [advanceWhile, hwidth, advance_width]

theorem slice_between (n : ℕ) :
    (between (c.forward n)).slice c.offset (between (c.forward n)).pos = .ok (c.rest.take n) := by
  have h := strSlice_cursor c n
  rw [← c.text_forward n, ← c.offset_forward n] at h
  rw [slice, between]
  dsimp only
  rw [h]

theorem slice_takeWhile (q : Char → Bool) :
    (between (c.forward (c.rest.takeWhile q).length)).slice c.offset
      (between (c.forward (c.rest.takeWhile q).length)).pos = .ok (c.rest.takeWhile q) := by
  rw [slice_between, ← List.prefix_iff_eq_take.mp (List.takeWhile_prefix q)]

theorem charAt_between : (between c).charAt = .ok (c.rest.head?.getD (Char.ofNat 0)) := by
  have h := splitBytes_append c.before c.rest
  unfold charAt between Cursor.text Cursor.offset
  dsimp only
  rw [h]

theorem length_le_pos : (between c).bytes.length ≤ (between c).pos ↔ c.rest = [] := by
  have hlength := c.length_utf8_text
  have hle := length_le_length_utf8 c.rest
  unfold bytes between
  dsimp only
  constructor
  · intro h
    exact List.length_eq_zero_iff.mp (by omega)
  · intro h
    rw [hlength, h]
    exact le_rfl

def tokenAt (kind : TokenKind F) (n : ℕ) : Token F × Lexer :=
  (⟨kind, ⟨c.offset, c.width n⟩⟩, between (c.forward n))

theorem token_forward (kind : TokenKind F) (n : ℕ) :
    (between (c.forward n)).token kind c.offset = tokenAt c kind n := by
  simp [token, tokenAt, between]

end Lexer

theorem asciiOnly_of_lt {a : Char} (h : a.val.toNat < 128) : asciiOnly a = some a := if_pos h

theorem asciiOnly_eq {a d : Char} (ha : a.val.toNat < 128) : asciiOnly d = some a ↔ d = a := by
  rw [asciiOnly_eq_some]
  exact ⟨fun h => h.1, fun h => ⟨h, h ▸ ha⟩⟩

theorem isAlpha_ascii {d : Char} (h : d.isAlpha = true) : d.val.toNat < 128 := by
  have hupper : 'Z'.val.toNat = 90 := rfl
  have hlower : 'z'.val.toNat = 122 := rfl
  delta Char.isAlpha Char.isUpper Char.isLower at h
  simp only [Bool.or_eq_true, Bool.and_eq_true, decide_eq_true_eq, ge_iff_le,
    UInt32.le_iff_toNat_le] at h
  omega

theorem isIdentStart_ascii {d : Char} (h : isIdentStart d = true) : d.val.toNat < 128 := by
  rcases Bool.or_eq_true_iff.mp h with halpha | hunderscore
  · exact isAlpha_ascii halpha
  · rw [of_decide_eq_true hunderscore]
    decide

theorem isIdentContinue_ascii {d : Char} (h : isIdentContinue d = true) : d.val.toNat < 128 := by
  rcases Bool.or_eq_true_iff.mp h with hrest | hminus
  · rcases Bool.or_eq_true_iff.mp hrest with halphanum | hunderscore
    · rcases Bool.or_eq_true_iff.mp halphanum with halpha | hdigit
      · exact isAlpha_ascii halpha
      · exact isDigit_ascii hdigit
    · rw [of_decide_eq_true hunderscore]
      decide
  · rw [of_decide_eq_true hminus]
    decide

theorem isIdentContinue_of_isIdentStart {d : Char} (h : isIdentStart d = true) :
    isIdentContinue d = true := by
  unfold isIdentStart at h
  unfold isIdentContinue Char.isAlphanum
  simp only [Bool.or_eq_true] at h ⊢
  tauto

theorem isIdentContinue_of_isDigit {d : Char} (h : d.isDigit = true) : isIdentContinue d = true := by
  unfold isIdentContinue Char.isAlphanum
  simp [h]

theorem not_isDigit_of_isIdentStart {d : Char} (h : isIdentStart d = true) : d.isDigit = false := by
  have hnine : '9'.val.toNat = 57 := rfl
  have hupper : 'A'.val.toNat = 65 := rfl
  have hlower : 'a'.val.toNat = 97 := rfl
  rcases Bool.or_eq_true_iff.mp h with halpha | hunderscore
  · rw [← Bool.not_eq_true]
    intro hdigit
    unfold Char.isDigit at hdigit
    delta Char.isAlpha Char.isUpper Char.isLower at halpha
    simp only [Bool.or_eq_true, Bool.and_eq_true, decide_eq_true_eq, ge_iff_le,
      UInt32.le_iff_toNat_le] at hdigit halpha
    omega
  · rw [of_decide_eq_true hunderscore]
    rfl

theorem bind_asciiOnly_eq {a : Char} (ha : a.val.toNat < 128) (o : Option Char) :
    o.bind asciiOnly = some a ↔ o = some a := by
  cases o with
  | none => exact Iff.rfl
  | some d => rw [Option.bind_some, asciiOnly_eq ha, Option.some.injEq]

theorem escaped_asciiOnly (d : Char) : (asciiOnly d).bind escaped = escaped d := by
  by_cases h : d.val.toNat < 128
  · rw [asciiOnly_of_lt h]
    rfl
  · have hne : ∀ {a : Char}, a.val.toNat < 128 → d ≠ a := by
      rintro a ha rfl
      exact h ha
    rw [asciiOnly, if_neg h, escaped, if_neg (hne (by decide)), if_neg (hne (by decide)),
      if_neg (hne (by decide)), if_neg (hne (by decide)), if_neg (hne (by decide))]
    rfl

theorem escaped_width {d ch : Char} (h : escaped d = some ch) :
    (String.utf8EncodeChar d).length = 1 := by
  rw [← escaped_asciiOnly] at h
  obtain ⟨a, ha, -⟩ := Option.bind_eq_some_iff.mp h
  rw [utf8EncodeChar_of_ascii (asciiOnly_eq_some.mp ha).2]
  rfl

/-! ## The lexer agrees with the reader -/

namespace Lexer

/-- The lexer gives what is read, or fails with an error; it does not panic and is not cut off. -/
def Agrees {α : Type} (read : Option α) (x : Lexing α) : Prop :=
  match read with
  | some a => x = .ok a
  | none => ∃ e, x = .error (.error e)

variable (c : Cursor)

theorem fixedToken_between (kind : TokenKind F) {n : ℕ} (h : c.width n = n) :
    (between c).fixedToken kind n = .ok (tokenAt c kind n) := by
  have hadvance := advance_width c n
  rw [h] at hadvance
  rw [fixedToken, hadvance, ← token_forward]
  rfl

theorem unexpectedCharacter_between (read : Option (Token F × Lexer)) (h : read = none) :
    Agrees read (between c).unexpectedCharacter := by
  subst h
  rw [unexpectedCharacter, charAt_between]
  exact ⟨_, rfl⟩

theorem skipWhitespace_between :
    (between c).skipWhitespace = between (c.forward (blanks c.rest).length) :=
  advanceWhile_between c ((seesBytes_asciiByte (by decide)).or (seesBytes_asciiByte (by decide)))

theorem lexName_between (kind : Str → TokenKind F) {n : ℕ} (h : c.width n = n) :
    (between c).lexName kind n =
      .ok (tokenAt c (readName kind n c.rest).1 (readName kind n c.rest).2) := by
  have hadvance := advance_width c n
  rw [h] at hadvance
  have hstart : (between c).pos + n = (c.forward n).offset := by
    rw [c.offset_forward, h]
    rfl
  have hpass : (between (c.forward n)).advanceWhile (isAscii isIdentContinue) =
      between (c.forward (readName kind n c.rest).2) := by
    rw [advanceWhile_between _ (seesBytes_isAscii (q := isIdentContinue)
      fun _ => isIdentContinue_ascii), c.forward_forward]
    rfl
  have hname := slice_takeWhile (c.forward n) isIdentContinue
  rw [c.forward_forward] at hname
  rw [lexName, hadvance, hpass, hstart, ← token_forward]
  exact congrArg (· >>= _) hname

theorem lexIdentifierOrKeyword_between :
    (between c).lexIdentifierOrKeyword =
      .ok (tokenAt c ((TokenKind.keyword (c.rest.takeWhile isIdentContinue)).getD
        (.identifier (c.rest.takeWhile isIdentContinue)) : TokenKind F)
        (c.rest.takeWhile isIdentContinue).length) := by
  have hpass := advanceWhile_between c
    (seesBytes_isAscii (q := isIdentContinue) fun _ => isIdentContinue_ascii)
  rw [lexIdentifierOrKeyword, hpass, ← token_forward]
  exact congrArg (· >>= _) (slice_takeWhile c isIdentContinue)

theorem lexComment_between (h : c.width 1 = 1) :
    (between c).lexComment =
      .ok (tokenAt c (.comment ((c.rest.tail.takeWhile (· ≠ '\n')).rdropWhile Server.isWhitespace) :
        TokenKind F) ((c.rest.tail.takeWhile (· ≠ '\n')).length + 1)) := by
  have hadvance := advance_width c 1
  rw [h] at hadvance
  have hstart : (between c).pos + 1 = (c.forward 1).offset := by
    rw [c.offset_forward, h]
    rfl
  have hpred : (fun d : Char => !decide (d = '\n')) = fun d => decide (d ≠ '\n') := by
    funext d
    simp
  have hrest : (c.forward 1).rest = c.rest.tail := by
    rw [c.rest_forward, List.drop_one]
  have hpass := advanceWhile_between (c.forward 1) (seesBytes_asciiByte (a := '\n') (by decide)).not
  have htext := slice_takeWhile (c.forward 1) fun d => decide (d ≠ '\n')
  rw [hpred, hrest, c.forward_forward, Nat.add_comm] at hpass
  rw [hrest, c.forward_forward, Nat.add_comm] at htext
  rw [lexComment, hadvance, hpass, hstart, ← token_forward]
  exact congrArg (· >>= _) htext

theorem peekAt_one (h : c.width 1 = 1) :
    (between c).peekAt 1 = c.rest.tail.head?.bind asciiOnly := by
  have hnext := peekAt_zero (c.forward 1)
  rw [c.rest_forward, List.drop_one] at hnext
  rw [← hnext]
  unfold peekAt between bytes
  rw [c.text_forward, c.offset_forward, h]

theorem width_of_ascii {a : Char} (h : c.rest.head?.bind asciiOnly = some a) : c.width 1 = 1 := by
  obtain ⟨d, hd, hascii⟩ := Option.bind_eq_some_iff.mp h
  rw [c.width_one hd, utf8EncodeChar_of_ascii (asciiOnly_eq_some.mp hascii).2]
  rfl

theorem any_asciiOnly {q : Char → Bool} (h : ∀ d, q d = true → d.val.toNat < 128)
    (o : Option Char) : (o.bind asciiOnly).any q = o.any q := by
  cases o with
  | none => rfl
  | some d =>
    rw [Option.bind_some]
    by_cases hascii : d.val.toNat < 128
    · rw [asciiOnly_of_lt hascii]
    · have hq : q d = false := by
        rw [← Bool.not_eq_true]
        exact fun hq => hascii (h d hq)
      rw [asciiOnly, if_neg hascii]
      exact hq.symm

theorem isFloat_between :
    ((between c).peekAt 0 = some '.' ∧ ((between c).peekAt 1).any Char.isDigit = true) ↔
      (fraction c.rest).isEmpty = false := by
  rw [peekAt_zero]
  cases hrest : c.rest with
  | nil => simp [fraction]
  | cons d rest =>
    rw [List.head?_cons, Option.bind_some, asciiOnly_eq (by decide), fraction]
    by_cases hd : d = '.'
    · have hwidth : c.width 1 = 1 := by
        refine width_of_ascii c (a := '.') ?_
        rw [hrest, hd]
        rfl
      rw [peekAt_one c hwidth, hrest, List.tail_cons, any_asciiOnly fun _ => isDigit_ascii]
      split_ifs with h
      · simp [h]
      · simp [hd] at h
        simp [h]
    · rw [if_neg fun h => hd h.1]
      simp [hd]

theorem fraction_cases (rest : Str) :
    fraction rest = [] ∨
      ∃ more, rest = '.' :: more ∧ fraction rest = '.' :: more.takeWhile Char.isDigit := by
  cases rest with
  | nil => exact .inl rfl
  | cons d more =>
    rw [fraction]
    split_ifs with h
    · obtain ⟨rfl, -⟩ := h
      exact .inr ⟨more, rfl, rfl⟩
    · exact .inl rfl

theorem take_numberText (rest : Str) : rest.take (numberText rest).length = numberText rest := by
  have hsplit : rest = rest.takeWhile Char.isDigit ++
      rest.drop (rest.takeWhile Char.isDigit).length :=
    (List.prefix_iff_eq_append.mp (List.takeWhile_prefix Char.isDigit)).symm
  have hprefix : numberText rest <+: rest := by
    conv_rhs => rw [hsplit]
    rw [numberText, List.prefix_append_right_inj]
    rcases fraction_cases (rest.drop (rest.takeWhile Char.isDigit).length) with hnone | ⟨more, hrest, hpart⟩
    · rw [hnone]
      exact List.nil_prefix
    · rw [hpart, hrest, List.prefix_cons_inj]
      exact List.takeWhile_prefix _
  exact (List.prefix_iff_eq_take.mp hprefix).symm

theorem number_between :
    let l := (between c).advanceWhile (isAscii Char.isDigit)
    (if l.peekAt 0 = some '.' ∧ (l.peekAt 1).any Char.isDigit = true then
      (l.advance 1).advanceWhile (isAscii Char.isDigit) else l)
        = between (c.forward (numberText c.rest).length) := by
  intro l
  have hdigits : SeesBytes (isAscii Char.isDigit) Char.isDigit := seesBytes_isAscii fun _ => isDigit_ascii
  have hl : l = between (c.forward (c.rest.takeWhile Char.isDigit).length) :=
    advanceWhile_between c hdigits
  set whole := c.forward (c.rest.takeWhile Char.isDigit).length with hwhole
  have hpart : numberText c.rest = c.rest.takeWhile Char.isDigit ++ fraction whole.rest := rfl
  rw [hl, hpart, List.length_append, ← c.forward_forward, ← hwhole]
  rcases fraction_cases whole.rest with hnone | ⟨more, hrest, hfraction⟩
  · have hint := mt (isFloat_between whole).mp (by simp [hnone])
    rw [if_neg hint, hnone]
    exact congrArg between (by simp [Cursor.forward])
  · have hfloat := (isFloat_between whole).mpr (by simp [hfraction])
    have hwidth : whole.width 1 = 1 := width_of_ascii whole (a := '.') (by rw [hrest]; rfl)
    have hadvance := advance_width whole 1
    rw [hwidth] at hadvance
    have hmore : (whole.forward 1).rest = more := by
      rw [whole.rest_forward, hrest]
      rfl
    rw [if_pos hfloat, hadvance, advanceWhile_between _ hdigits, hmore, whole.forward_forward,
      hfraction, List.length_cons, Nat.add_comm]

theorem lexNumber_between [Numerals F] :
    Agrees ((readNumber c.rest).map fun k => tokenAt (F := F) c k.1 k.2) (between c).lexNumber := by
  have hend := number_between c
  have htext := slice_between c (numberText c.rest).length
  rw [take_numberText] at htext
  have hfloat := isFloat_between (c.forward (c.rest.takeWhile Char.isDigit).length)
  rw [← advanceWhile_between c (seesBytes_isAscii (q := Char.isDigit) fun _ => isDigit_ascii)] at hfloat
  have hkind : (decide (((between c).advanceWhile (isAscii Char.isDigit)).peekAt 0 = some '.' ∧
      (((between c).advanceWhile (isAscii Char.isDigit)).peekAt 1).any Char.isDigit = true)) =
        !(fraction (c.rest.drop (c.rest.takeWhile Char.isDigit).length)).isEmpty := by
    rw [Bool.eq_iff_iff, decide_eq_true_eq, hfloat, Bool.not_eq_true']
    rfl
  unfold lexNumber readNumber
  dsimp only at hend ⊢
  simp only [decide_eq_true_eq]
  rw [hend, hkind]
  generalize (!(fraction (c.rest.drop (c.rest.takeWhile Char.isDigit).length)).isEmpty) = isFloat
  have hstart : (between c).pos = c.offset := rfl
  rw [hstart, htext]
  dsimp only [bind, Except.bind]
  cases (TokenKind.number isFloat (numberText c.rest) : Except Str (TokenKind F)) with
  | ok kind => exact congrArg Except.ok (token_forward c kind _)
  | error message => exact ⟨_, rfl⟩

/-- A string literal that began at `start`, and the lexer behind so many more characters. -/
def stringAt (start : ℕ) (r : Str × ℕ) : Token F × Lexer :=
  (between (c.forward r.2)).token (.stringLiteral r.1) start

theorem stringAt_forward (start m : ℕ) (r : Str × ℕ) :
    stringAt (F := F) (c.forward m) start r = stringAt c start (r.1, r.2 + m) := by
  rw [stringAt, stringAt, c.forward_forward, Nat.add_comm]

theorem Agrees.forward {start m : ℕ} {read : Option (Str × ℕ)} {x : Lexing (Token F × Lexer)}
    (h : Agrees (read.map (stringAt (c.forward m) start)) x) :
    Agrees ((read.map fun r => (r.1, r.2 + m)).map (stringAt c start)) x := by
  rw [Option.map_map]
  rwa [show stringAt (c.forward m) start = (stringAt c start ∘ fun r : Str × ℕ => (r.1, r.2 + m))
    from funext fun r => stringAt_forward c start m r] at h

theorem lexStringFrom_between (start : ℕ) {rounds : ℕ} (hrounds : c.rest.length < rounds)
    (value : Str) : Agrees ((readString value c.rest).map (stringAt (F := F) c start))
      (lexStringFrom start rounds (between c) value) := by
  induction rounds generalizing c value with
  | zero => omega
  | succ rounds ih =>
    unfold lexStringFrom
    cases hrest : c.rest with
    | nil =>
      rw [if_pos ((length_le_pos c).mpr hrest)]
      exact ⟨_, rfl⟩
    | cons d rest =>
      have hend : ¬ (between c).bytes.length ≤ (between c).pos := by
        rw [length_le_pos, hrest]
        exact List.cons_ne_nil _ _
      have hpeek : (between c).peekAt 0 = asciiOnly d := by
        rw [peekAt_zero, hrest]
        rfl
      have hquote : asciiOnly d = some '"' ↔ d = '"' := asciiOnly_eq (by decide)
      have hback : asciiOnly d = some '\\' ↔ d = '\\' := asciiOnly_eq (by decide)
      have hline : asciiOnly d = some '\n' ↔ d = '\n' := asciiOnly_eq (by decide)
      have hwidth := c.width_one (a := d) (by rw [hrest]; rfl)
      have hadvance := advance_width c 1
      have hone : (c.forward 1).rest = rest := by
        rw [c.rest_forward, hrest]
        rfl
      rw [hrest, List.length_cons] at hrounds
      rw [readString.eq_def]
      dsimp only
      rw [if_neg hend, hpeek]
      simp only [hquote, hback, hline]
      by_cases hd : d = '"'
      · rw [if_pos hd, if_pos hd]
        rw [hwidth, hd] at hadvance
        exact congrArg (fun l : Lexer => Except.ok (l.token (.stringLiteral value) start)) hadvance
      · rw [if_neg hd, if_neg hd]
        by_cases hescape : d = '\\'
        · rw [if_pos hescape, if_pos hescape]
          rw [hwidth, hescape] at hadvance
          replace hadvance : (between c).advance 1 = between (c.forward 1) := hadvance
          rw [hadvance]
          cases rest with
          | nil =>
            rw [if_pos ((length_le_pos _).mpr hone)]
            exact ⟨_, rfl⟩
          | cons e more =>
            have hleft : ¬ (between (c.forward 1)).bytes.length ≤ (between (c.forward 1)).pos := by
              rw [length_le_pos, hone]
              exact List.cons_ne_nil _ _
            rw [if_neg hleft, peekAt_zero, hone, List.head?_cons, Option.bind_some, escaped_asciiOnly]
            dsimp only
            cases hch : escaped e with
            | none =>
              rw [charAt_between]
              exact ⟨_, rfl⟩
            | some ch =>
              have hnext := advance_width (c.forward 1) 1
              rw [Cursor.width_one _ (a := e) (by rw [hone]; rfl), escaped_width hch,
                c.forward_forward] at hnext
              have hmore : (c.forward 2).rest = more := by
                rw [c.rest_forward, hrest]
                rfl
              have hread := ih (c.forward 2) (by rw [hmore, List.length_cons] at *; omega) (value ++ [ch])
              rw [hmore] at hread
              rw [hnext]
              exact Agrees.forward c hread
        · rw [if_neg hescape, if_neg hescape]
          by_cases hnewline : d = '\n'
          · rw [if_pos hnewline, if_pos hnewline]
            exact ⟨_, rfl⟩
          · rw [if_neg hnewline, if_neg hnewline, charAt_between, hrest]
            rw [hwidth] at hadvance
            have hread := ih (c.forward 1) (by rw [hone]; omega) (value ++ [d])
            rw [hone, ← hadvance] at hread
            exact Agrees.forward c hread

theorem lexString_between (h : c.width 1 = 1) :
    Agrees (((readString [] c.rest.tail).map fun r => (TokenKind.stringLiteral r.1, r.2 + 1)).map
      fun k => tokenAt (F := F) c k.1 k.2) (between c).lexString := by
  have hadvance := advance_width c 1
  rw [h] at hadvance
  have hrest : (c.forward 1).rest = c.rest.tail := by
    rw [c.rest_forward, List.drop_one]
  have hlength : (c.forward 1).rest.length < (between c).bytes.length + 1 := by
    have hle := length_le_length_utf8 c.rest
    have htotal := c.length_utf8_text
    have hdrop : (c.forward 1).rest.length ≤ c.rest.length := (List.drop_sublist 1 c.rest).length_le
    show _ < (utf8 c.text).length + 1
    omega
  have hread := lexStringFrom_between (F := F) (c.forward 1) c.offset hlength []
  rw [hrest] at hread
  have hmap := Agrees.forward c hread
  rw [lexString, hadvance]
  show Agrees _ (lexStringFrom c.offset _ _ [])
  convert hmap using 1
  rw [Option.map_map, Option.map_map]
  congr 1
  funext r
  exact (token_forward c _ _).symm

theorem width_two (h : c.width 1 = 1) {a : Char}
    (hnext : c.rest.tail.head?.bind asciiOnly = some a) : c.width 2 = 2 := by
  have hsecond : (c.forward 1).width 1 = 1 := by
    refine width_of_ascii _ (a := a) ?_
    rwa [c.rest_forward, List.drop_one]
  rw [c.width_add 1 1, h, hsecond]

end Lexer

def IsFixed (next : Option Char) (k : TokenKind F × ℕ) : Prop :=
  k.1.isEof = false ∧ (k.2 = 1 ∨ k.2 = 2 ∧ next.isSome)

section Operators

variable {next : Option Char} {d : Char} {k k' : TokenKind F × ℕ} {read : Option (TokenKind F × ℕ)}

theorem IsFixed.ite_next (h : k.1.isEof = false ∧ k.2 = 2) (h' : k'.1.isEof = false ∧ k'.2 = 1) :
    IsFixed next (if next = some d then k else k') := by
  split_ifs with hnext
  · exact ⟨h.1, .inr ⟨h.2, by rw [hnext]; rfl⟩⟩
  · exact ⟨h'.1, .inl h'.2⟩

theorem forall_mem_ite {p : Prop} [Decidable p] {α : Type} {P : α → Prop} {o o' : Option α}
    (h : p → ∀ a ∈ o, P a) (h' : ¬ p → ∀ a ∈ o', P a) : ∀ a ∈ (if p then o else o'), P a := by
  split_ifs with hp
  · exact h hp
  · exact h' hp

theorem forall_mem_some {α : Type} {P : α → Prop} {a : α} (h : P a) : ∀ b ∈ some a, P b := by
  rintro b ⟨⟩
  exact h

theorem operator_fixed (a : Char) (next : Option Char) :
    ∀ k ∈ TokenKind.operator (F := F) a next, IsFixed next k := by
  unfold TokenKind.operator
  iterate 11 refine forall_mem_ite (fun _ => forall_mem_some ⟨rfl, .inl rfl⟩) fun _ => ?_
  iterate 4 refine forall_mem_ite (fun _ => forall_mem_some (.ite_next ⟨rfl, rfl⟩ ⟨rfl, rfl⟩)) fun _ => ?_
  iterate 2 refine forall_mem_ite (fun h => forall_mem_some ⟨rfl, .inr ⟨rfl, by rw [h.2]; rfl⟩⟩) fun _ => ?_
  exact nofun

end Operators

namespace Lexer

variable (c : Cursor)

theorem fixedToken_agrees (h : c.width 1 = 1) {k : TokenKind F × ℕ}
    (hk : IsFixed (c.rest.tail.head?.bind asciiOnly) k) :
    (between c).fixedToken k.1 k.2 = .ok (tokenAt c k.1 k.2) := by
  rcases hk.2 with hone | ⟨htwo, hnext⟩
  · rw [hone]
    exact fixedToken_between c k.1 h
  · obtain ⟨b, hb⟩ := Option.isSome_iff_exists.mp hnext
    rw [htwo]
    exact fixedToken_between c k.1 (width_two c h hb)

theorem Agrees.ite {p : Prop} [Decidable p] {α β : Type} {f : α → β} {read read' : Option α}
    {x y : Lexing β} (h : p → Agrees (read.map f) x) (h' : ¬ p → Agrees (read'.map f) y) :
    Agrees ((if p then read else read').map f) (if p then x else y) := by
  split_ifs with hp
  · exact h hp
  · exact h' hp

/-- **The token that begins with an ASCII character.** -/
theorem lexAt_between [Numerals F] {a : Char} (ha : c.rest.head?.bind asciiOnly = some a) :
    Agrees ((readAt c.rest a (c.rest.tail.head?.bind asciiOnly)).map fun k => tokenAt (F := F) c k.1 k.2)
      ((between c).lexAt a (c.rest.tail.head?.bind asciiOnly)) := by
  have hwidth := width_of_ascii c ha
  unfold readAt lexAt
  refine .ite (fun _ => ?newline) fun _ => .ite (fun _ => ?feed) fun _ => .ite (fun _ => ?comment) fun _ =>
    .ite (fun _ => ?string) fun _ => .ite (fun hglobal => ?globalVariable) fun _ =>
    .ite (fun _ => ?variable_) fun _ => .ite (fun _ => ?builtinIdentifier) fun _ =>
    .ite (fun _ => ?number) fun _ => .ite (fun _ => ?identifier) fun _ => ?operator
  case newline => exact fixedToken_agrees c hwidth (k := (.newline, 1)) ⟨rfl, .inl rfl⟩
  case feed =>
    refine fixedToken_agrees c hwidth
      (k := (.newline, if c.rest.tail.head?.bind asciiOnly = some '\n' then 2 else 1)) ⟨rfl, ?_⟩
    split_ifs with hnext
    · exact .inr ⟨rfl, by rw [hnext]; rfl⟩
    · exact .inl rfl
  case comment => exact lexComment_between c hwidth
  case string => exact lexString_between c hwidth
  case globalVariable => exact lexName_between c .globalVariable (width_two c hwidth hglobal.2)
  case variable_ => exact lexName_between c .variable_ hwidth
  case builtinIdentifier => exact lexName_between c .builtinIdentifier hwidth
  case number => exact lexNumber_between c
  case identifier => exact lexIdentifierOrKeyword_between c
  case operator =>
    cases hread : TokenKind.operator (F := F) a (c.rest.tail.head?.bind asciiOnly) with
    | none => exact unexpectedCharacter_between c _ rfl
    | some k => exact fixedToken_agrees c hwidth (operator_fixed _ _ k hread)

/-- **The lexer agrees with the reader.** -/
theorem lexToken_between [Numerals F] :
    Agrees ((readToken c.rest).map fun k => tokenAt (F := F) c k.1 k.2) (between c).lexToken := by
  unfold lexToken
  cases hrest : c.rest with
  | nil =>
    rw [if_pos ((length_le_pos c).mpr hrest)]
    have heof := token_forward (F := F) c .eof 0
    rw [c.forward_zero] at heof
    exact congrArg Except.ok heof
  | cons d rest =>
    rw [if_neg (mt (length_le_pos c).mp (by rw [hrest]; exact List.cons_ne_nil _ _)), peekAt_zero, hrest,
      List.head?_cons, Option.bind_some, readToken]
    cases ha : asciiOnly d with
    | none => exact unexpectedCharacter_between c _ rfl
    | some a =>
      have hhead : c.rest.head?.bind asciiOnly = some a := by
        rw [hrest]
        exact ha
      have hread := lexAt_between (F := F) c hhead
      rw [hrest] at hread
      rw [peekAt_one c (width_of_ascii c hhead), hrest]
      exact hread

/-- **The lexer agrees with the reader**, at any position between characters. -/
theorem nextToken_between [Numerals F] :
    Agrees ((readToken (c.rest.drop (blanks c.rest).length)).map fun k =>
      tokenAt (F := F) (c.forward (blanks c.rest).length) k.1 k.2) (between c).nextToken := by
  rw [nextToken, skipWhitespace_between]
  exact lexToken_between _

end Lexer

/-! ## Tokens take characters -/

def IsProper (k : TokenKind F × ℕ) : Prop := k.1.isEof = false ∧ 0 < k.2

theorem IsFixed.proper {next : Option Char} {k : TokenKind F × ℕ} (h : IsFixed next k) : IsProper k :=
  ⟨h.1, by rcases h.2 with hone | ⟨htwo, -⟩ <;> omega⟩

theorem keyword_isEof (name : Str) : ∀ kind ∈ TokenKind.keyword (F := F) name, kind.isEof = false := by
  unfold TokenKind.keyword
  iterate 14 refine forall_mem_ite (fun _ => forall_mem_some rfl) fun _ => ?_
  exact nofun

theorem number_cases [Numerals F] {isFloat : Bool} {text : Str} {kind : TokenKind F}
    (h : TokenKind.number isFloat text = .ok kind) :
    (∃ val, kind = .numberLiteral val) ∨
      ∃ val, kind = .intLiteral (.ofNat val) ∧ isFloat = false ∧ Decimal.parse 63 text = .ok val := by
  unfold TokenKind.number at h
  split_ifs at h with hfloat
  · cases hparse : (Numerals.parse text : Except Str F) with
    | ok val =>
      rw [hparse] at h
      exact .inl ⟨val, (Except.ok.inj h).symm⟩
    | error e =>
      rw [hparse] at h
      cases h
  · cases hparse : Decimal.parse 63 text with
    | ok val =>
      rw [hparse] at h
      exact .inr ⟨val, (Except.ok.inj h).symm, eq_false_of_ne_true hfloat, rfl⟩
    | error e =>
      rw [hparse] at h
      cases h

theorem readNumber_cases [Numerals F] {rest : Str} {k : TokenKind F × ℕ}
    (h : readNumber rest = some k) : k.2 = (numberText rest).length ∧
      ((∃ val, k.1 = .numberLiteral val) ∨
        ∃ val, k.1 = .intLiteral (.ofNat val) ∧ numberText rest = rest.takeWhile Char.isDigit ∧
          Decimal.parse 63 (numberText rest) = .ok val) := by
  unfold readNumber at h
  dsimp only at h
  cases hnumber : (TokenKind.number (!(fraction (rest.drop (rest.takeWhile Char.isDigit).length)).isEmpty)
      (numberText rest) : Except Str (TokenKind F)) with
  | ok kind =>
    rw [hnumber] at h
    obtain rfl := Option.some.inj h
    refine ⟨rfl, (number_cases hnumber).imp_right ?_⟩
    rintro ⟨val, hkind, hfloat, hparse⟩
    rw [Bool.not_eq_false', List.isEmpty_iff] at hfloat
    exact ⟨val, hkind, by rw [numberText, hfloat, List.append_nil], hparse⟩
  | error message =>
    rw [hnumber] at h
    cases h

theorem readNumber_proper [Numerals F] {c : Char} {rest : Str} (hc : c.isDigit = true) :
    ∀ k ∈ readNumber (F := F) (c :: rest), IsProper k := by
  intro k hk
  have hpos : 0 < (numberText (c :: rest)).length := by
    rw [numberText, List.takeWhile_cons_of_pos hc, List.cons_append, List.length_cons]
    exact Nat.succ_pos _
  obtain ⟨hlength, ⟨val, hkind⟩ | ⟨val, hkind, -⟩⟩ := readNumber_cases hk
  · exact ⟨by rw [hkind]; rfl, by rwa [hlength]⟩
  · exact ⟨by rw [hkind]; rfl, by rwa [hlength]⟩

theorem readAt_proper [Numerals F] (c : Char) (rest : Str) (next : Option Char) :
    ∀ k ∈ readAt (F := F) (c :: rest) c next, IsProper k := by
  unfold readAt
  refine forall_mem_ite (fun _ => ?newline) fun _ => forall_mem_ite (fun _ => ?feed) fun _ =>
    forall_mem_ite (fun _ => ?comment) fun _ => forall_mem_ite (fun _ => ?string) fun _ =>
    forall_mem_ite (fun _ => ?globalVariable) fun _ => forall_mem_ite (fun _ => ?variable_) fun _ =>
    forall_mem_ite (fun _ => ?builtinIdentifier) fun _ => forall_mem_ite (fun hdigit => ?number) fun _ =>
    forall_mem_ite (fun hident => ?identifier) fun _ => ?operator
  case newline => exact forall_mem_some ⟨rfl, Nat.one_pos⟩
  case feed => exact forall_mem_some ⟨rfl, by dsimp only; split_ifs <;> omega⟩
  case comment => exact forall_mem_some ⟨rfl, Nat.succ_pos _⟩
  case string =>
    intro k hk
    obtain ⟨r, -, rfl⟩ := Option.mem_map.mp hk
    exact ⟨rfl, Nat.succ_pos _⟩
  case globalVariable => exact forall_mem_some ⟨rfl, Nat.add_pos_left (by decide) _⟩
  case variable_ => exact forall_mem_some ⟨rfl, Nat.add_pos_left (by decide) _⟩
  case builtinIdentifier => exact forall_mem_some ⟨rfl, Nat.add_pos_left (by decide) _⟩
  case number => exact readNumber_proper hdigit
  case identifier =>
    refine forall_mem_some ⟨?_, ?_⟩
    · cases hkeyword : TokenKind.keyword (F := F) ((c :: rest).takeWhile isIdentContinue) with
      | none => rfl
      | some kind => exact keyword_isEof _ kind hkeyword
    · dsimp only
      rw [List.takeWhile_cons_of_pos (isIdentContinue_of_isIdentStart hident)]
      exact Nat.succ_pos _
  case operator => exact fun k hk => (operator_fixed _ _ k hk).proper

/-- **A token takes characters where there are any.** -/
theorem readToken_proper [Numerals F] {rest : Str} (h : rest ≠ []) :
    ∀ k ∈ readToken (F := F) rest, IsProper k := by
  intro k hk
  cases rest with
  | nil => exact absurd rfl h
  | cons c more =>
    unfold readToken at hk
    dsimp only at hk
    cases ha : asciiOnly c with
    | none =>
      rw [ha] at hk
      cases hk
    | some a =>
      rw [ha] at hk
      obtain ⟨rfl, -⟩ := asciiOnly_eq_some.mp ha
      exact readAt_proper c more _ k hk

/-! ## Tokens tile the source -/

/-- A position between characters of a text. -/
def IsBoundary (source : Str) (n : ℕ) : Prop :=
  ∃ before behind, source = before ++ behind ∧ (utf8 before).length = n

/-- Nothing but spaces and tabs between two positions. -/
def IsBlank (source : Str) (start stop : ℕ) : Prop :=
  ∃ gap, strSlice source start stop = some gap ∧ ∀ c ∈ gap, c = ' ' ∨ c = '\t'

/-- **Tokens tile a source text**: they are in order, between characters, and all but the last,
which is at the end of the text, take some of it, so that nothing but blanks is left. -/
structure Tiles (source : Str) (tokens : List (Token F)) : Prop where
  increasing : tokens.Pairwise fun t u => t.span.offset < u.span.offset
  disjoint : tokens.Pairwise fun t u => t.span.finish ≤ u.span.offset
  boundary : ∀ t ∈ tokens, IsBoundary source t.span.offset ∧ IsBoundary source t.span.finish
  first : ∀ t ∈ tokens.head?, IsBlank source 0 t.span.offset
  blank : tokens.IsChain fun t u => IsBlank source t.span.finish u.span.offset
  nonempty : ∀ t ∈ tokens, t.kind.isEof = false → 0 < t.span.length
  last : ∃ before, tokens = before ++ [⟨.eof, ⟨(utf8 source).length, 0⟩⟩] ∧
    ∀ t ∈ before, t.kind.isEof = false

/-- The tokens from a position on, one behind the other with blanks between them. -/
inductive Tiling [Numerals F] : Cursor → List (Token F) → Prop
  | eof {c : Cursor} (hblank : c.rest.drop (blanks c.rest).length = []) :
    Tiling c [⟨.eof, ⟨(utf8 c.text).length, 0⟩⟩]
  | token {c : Cursor} {k : TokenKind F × ℕ} {tokens : List (Token F)}
    (hrest : (c.forward (blanks c.rest).length).rest ≠ [])
    (hread : readToken (c.forward (blanks c.rest).length).rest = some k)
    (h : Tiling ((c.forward (blanks c.rest).length).forward k.2) tokens) :
    Tiling c ((Lexer.tokenAt (c.forward (blanks c.rest).length) k.1 k.2).1 :: tokens)

namespace Lexer

variable (c : Cursor)

theorem tokenAt_eof (h : c.rest = []) :
    (tokenAt (F := F) c .eof 0).1 = ⟨.eof, ⟨(utf8 c.text).length, 0⟩⟩ := by
  rw [tokenAt, c.length_utf8_text, h, c.width_zero]
  rfl

/-- **The tokens from a position on**, which the rounds suffice for. -/
theorem tokenizeFrom_between [Numerals F] {rounds : ℕ} (hrounds : c.rest.length < rounds) :
    (∃ tokens : List (Token F), tokenizeFrom rounds (between c) = .ok tokens ∧ Tiling c tokens) ∨
      ∃ e, tokenizeFrom (F := F) rounds (between c) = .error (.error e) := by
  induction rounds generalizing c with
  | zero => omega
  | succ rounds ih =>
    have hnext := nextToken_between (F := F) c
    rw [tokenizeFrom]
    cases hread : readToken (F := F) (c.rest.drop (blanks c.rest).length) with
    | none =>
      rw [hread] at hnext
      obtain ⟨e, he⟩ := hnext
      rw [he]
      exact .inr ⟨e, rfl⟩
    | some k =>
      rw [hread] at hnext
      replace hnext : (between c).nextToken = .ok (tokenAt (c.forward (blanks c.rest).length) k.1 k.2) :=
        hnext
      rw [hnext]
      by_cases hrest : c.rest.drop (blanks c.rest).length = []
      · rw [hrest] at hread
        cases hread
        have heof := tokenAt_eof (F := F) (c.forward (blanks c.rest).length) hrest
        rw [c.text_forward] at heof
        have htiling := Tiling.eof (F := F) hrest
        rw [← heof] at htiling
        exact .inl ⟨_, rfl, htiling⟩
      · have hk := readToken_proper hrest k hread
        have hshorter : ((c.forward (blanks c.rest).length).forward k.2).rest.length < rounds := by
          have hpos := List.length_pos_iff.mpr hrest
          rw [List.length_drop] at hpos
          rw [Cursor.rest_forward, Cursor.rest_forward, List.length_drop, List.length_drop]
          have hlen := hk.2
          omega
        have hmore : (tokenAt (c.forward (blanks c.rest).length) k.1 k.2).1.kind.isEof = false := hk.1
        have hbehind : (tokenAt (c.forward (blanks c.rest).length) k.1 k.2).2 =
            between ((c.forward (blanks c.rest).length).forward k.2) := rfl
        dsimp only [bind, Except.bind]
        rw [hmore, if_neg Bool.false_ne_true, hbehind]
        rcases ih _ hshorter with ⟨tokens, htokens, htiling⟩ | ⟨e, he⟩
        · rw [htokens]
          exact .inl ⟨_, rfl, .token hrest hread htiling⟩
        · rw [he]
          exact .inr ⟨e, rfl⟩

end Lexer

/-! ## Tilings are tiles -/

theorem isBoundary_cursor (c : Cursor) : IsBoundary c.text c.offset := ⟨c.before, c.rest, rfl, rfl⟩

theorem isBlank_cursor (c : Cursor) :
    IsBlank c.text c.offset (c.forward (blanks c.rest).length).offset := by
  refine ⟨blanks c.rest, ?_, ?_⟩
  · rw [c.offset_forward, strSlice_cursor]
    exact congrArg some (take_blanks c.rest)
  · exact fun d hd => mem_blanks hd

namespace Tiling

variable [Numerals F] {c : Cursor} {tokens : List (Token F)}

theorem boundary (h : Tiling c tokens) :
    ∀ t ∈ tokens, IsBoundary c.text t.span.offset ∧ IsBoundary c.text t.span.finish := by
  induction h with
  | @eof c hblank =>
    have hend : IsBoundary c.text (utf8 c.text).length := ⟨c.text, [], (List.append_nil _).symm, rfl⟩
    rintro t (_ | ⟨_, ⟨⟩⟩)
    exact ⟨hend, hend⟩
  | @token c k tokens hrest hread h ih =>
    simp only [Cursor.text_forward] at ih
    refine List.forall_mem_cons.mpr ⟨⟨?_, ?_⟩, ih⟩
    · have hstart := isBoundary_cursor (c.forward (blanks c.rest).length)
      rwa [c.text_forward] at hstart
    · have hfinish := isBoundary_cursor ((c.forward (blanks c.rest).length).forward k.2)
      rwa [Cursor.text_forward, c.text_forward, Cursor.offset_forward] at hfinish

theorem first (h : Tiling c tokens) : ∀ t ∈ tokens.head?, IsBlank c.text c.offset t.span.offset := by
  cases h with
  | eof hblank =>
    rintro t ⟨⟩
    have hend := isBlank_cursor c
    have hlength := (c.forward (blanks c.rest).length).length_utf8_text
    rw [c.text_forward, show (c.forward (blanks c.rest).length).rest = [] from hblank] at hlength
    rwa [show (c.forward (blanks c.rest).length).offset = (utf8 c.text).length from hlength.symm] at hend
  | token hrest hread h =>
    rintro t ⟨⟩
    exact isBlank_cursor c

theorem le_offset (h : Tiling c tokens) : ∀ t ∈ tokens, c.offset ≤ t.span.offset := by
  induction h with
  | @eof c hblank =>
    rintro t (_ | ⟨_, ⟨⟩⟩)
    exact c.length_utf8_text ▸ Nat.le_add_right _ _
  | @token c k tokens hrest hread h ih =>
    have hle : c.offset ≤ (c.forward (blanks c.rest).length).offset := by
      rw [c.offset_forward]
      exact Nat.le_add_right _ _
    refine List.forall_mem_cons.mpr ⟨hle, fun t ht => hle.trans (le_trans ?_ (ih t ht))⟩
    rw [Cursor.offset_forward _ k.2]
    exact Nat.le_add_right _ _

theorem disjoint (h : Tiling c tokens) : tokens.Pairwise fun t u => t.span.finish ≤ u.span.offset := by
  induction h with
  | eof hblank => exact List.pairwise_singleton _ _
  | @token c k tokens hrest hread h ih =>
    refine List.pairwise_cons.mpr ⟨fun u hu => ?_, ih⟩
    have hle := h.le_offset u hu
    rwa [Cursor.offset_forward] at hle

theorem nonempty (h : Tiling c tokens) : ∀ t ∈ tokens, t.kind.isEof = false → 0 < t.span.length := by
  induction h with
  | eof hblank =>
    rintro t (_ | ⟨_, ⟨⟩⟩) ⟨⟩
  | @token c k tokens hrest hread h ih =>
    exact List.forall_mem_cons.mpr
      ⟨fun _ => Cursor.width_pos _ _ hrest (readToken_proper hrest k hread).2, ih⟩

theorem last (h : Tiling c tokens) :
    ∃ before, tokens = before ++ [⟨.eof, ⟨(utf8 c.text).length, 0⟩⟩] ∧ ∀ t ∈ before,
      t.kind.isEof = false := by
  induction h with
  | eof hblank => exact ⟨[], rfl, nofun⟩
  | @token c k tokens hrest hread h ih =>
    obtain ⟨before, htokens, hbefore⟩ := ih
    rw [Cursor.text_forward, Cursor.text_forward] at htokens
    exact ⟨_ :: before, congrArg _ htokens,
      List.forall_mem_cons.mpr ⟨(readToken_proper hrest k hread).1, hbefore⟩⟩

theorem increasing (h : Tiling c tokens) : tokens.Pairwise fun t u => t.span.offset < u.span.offset := by
  induction h with
  | eof hblank => exact List.pairwise_singleton _ _
  | @token c k tokens hrest hread h ih =>
    refine List.pairwise_cons.mpr ⟨fun u hu => ?_, ih⟩
    have hle := h.le_offset u hu
    have hpos := Cursor.width_pos _ _ hrest (readToken_proper hrest k hread).2
    rw [Cursor.offset_forward] at hle
    exact lt_of_lt_of_le (Nat.lt_add_of_pos_right hpos) hle

theorem blank (h : Tiling c tokens) :
    tokens.IsChain fun t u => IsBlank c.text t.span.finish u.span.offset := by
  induction h with
  | eof hblank => exact List.isChain_singleton _
  | @token c k tokens hrest hread h ih =>
    have hfirst := h.first
    simp only [Cursor.text_forward] at ih hfirst
    rw [Cursor.offset_forward _ k.2] at hfirst
    exact List.isChain_cons.mpr ⟨hfirst, ih⟩

theorem head {t : Token F} (h : Tiling c (t :: tokens)) (ht : t.kind.isEof = false) :
    ∃ k, readToken (c.forward (blanks c.rest).length).rest = some k ∧
      t = (Lexer.tokenAt (c.forward (blanks c.rest).length) k.1 k.2).1 ∧
      Tiling ((c.forward (blanks c.rest).length).forward k.2) tokens := by
  cases h with
  | eof hblank => cases ht
  | token hrest hread h => exact ⟨_, hread, rfl, h⟩

theorem drop {before : List (Token F)} {t : Token F} (h : Tiling c (before ++ t :: tokens)) :
    ∃ c' : Cursor, c'.text = c.text ∧ Tiling c' (t :: tokens) := by
  induction before generalizing c with
  | nil => exact ⟨c, rfl, h⟩
  | cons u before ih =>
    rw [List.cons_append] at h
    generalize hbehind : before ++ t :: tokens = behind at h
    cases h with
    | eof hblank => exact absurd hbehind (by simp)
    | token hrest hread h =>
      rw [← hbehind] at h
      obtain ⟨c', htext, htiling⟩ := ih h
      exact ⟨c', by rw [htext, Cursor.text_forward, Cursor.text_forward], htiling⟩

/-- **A tiling of a whole text tiles it.** -/
theorem tiles {source : Str} (h : Tiling ⟨[], source⟩ tokens) : Tiles source tokens where
  increasing := h.increasing
  disjoint := h.disjoint
  boundary := h.boundary
  first := h.first
  blank := h.blank
  nonempty := h.nonempty
  last := h.last

end Tiling

theorem tiling_of_tokenize [Numerals F] {source : Str} {tokens : List (Token F)}
    (h : tokenize source = .ok tokens) : Tiling ⟨[], source⟩ tokens := by
  have hrounds : source.length < (utf8 source).length + 1 :=
    Nat.lt_succ_of_le (length_le_length_utf8 source)
  unfold tokenize at h
  rcases Lexer.tokenizeFrom_between (F := F) ⟨[], source⟩ hrounds with ⟨tokens', htokens, htiling⟩ | ⟨e, he⟩
  · obtain rfl := Except.ok.inj (h.symm.trans htokens)
    exact htiling
  · cases h.symm.trans he

/-- **On every source text the lexer comes to an end, with tokens that tile the text or with an
error.** -/
theorem tokenize_tiles [Numerals F] (source : Str) :
    (∃ tokens : List (Token F), tokenize source = .ok tokens ∧ Tiles source tokens) ∨
      ∃ e, tokenize (F := F) source = .error (.error e) := by
  have hrounds : source.length < (utf8 source).length + 1 :=
    Nat.lt_succ_of_le (length_le_length_utf8 source)
  rcases Lexer.tokenizeFrom_between (F := F) ⟨[], source⟩ hrounds with ⟨tokens, htokens, htiling⟩ | ⟨e, he⟩
  · exact .inl ⟨tokens, htokens, htiling.tiles⟩
  · exact .inr ⟨e, he⟩

local instance commandNumerals : Numerals Unit := wholeNumerals

theorem tokenize_tiles_command :
    ∃ tokens : List (Token Unit), tokenize "if (%n >= 10) \x7b echo \"a %n\" \x7d ; done".toList =
      .ok tokens ∧ Tiles "if (%n >= 10) \x7b echo \"a %n\" \x7d ; done".toList tokens := by
  refine (tokenize_tiles _).resolve_right ?_
  rintro ⟨e, he⟩
  have hok : (tokenize (F := Unit) "if (%n >= 10) \x7b echo \"a %n\" \x7d ; done".toList).toOption.isSome =
      true := by
    decide +kernel
  rw [he] at hok
  cases hok

end Pirc.Scripting
