import Pirc.Scripting.Lexer
import Pirc.Scripting.Parser

/-!
# Scripts: references in strings

`parser/mod.rs`, `parse_string_interpolation`. A string literal is split at the references in it,
which are looked for with a scanner of its own. The lexer sees more of them: a global variable, and
the words of a text that are called by their number.
-/

namespace Pirc.Scripting

open Protocol (Str)

variable {F : Type}

/-- A reference in a string. -/
inductive Reference
  | variable_ (name : Str)
  | globalVariable (name : Str)
  | builtinId (name : Str)
  deriving DecidableEq

def Reference.text : Reference → Str
  | variable_ name => '%' :: name
  | globalVariable name => '%' :: '%' :: name
  | builtinId name => '$' :: name

/-- A character of a string, or a reference in it. -/
inductive Piece
  | char (c : Char)
  | reference (r : Reference)
  deriving DecidableEq

def Piece.text : Piece → Str
  | char c => [c]
  | reference r => r.text

def sourceText (pieces : List Piece) : Str := pieces.flatMap Piece.text

/-- The pieces of a string, by the reference at a position, from behind so many characters on. -/
def scan (at_ : Str → Option Reference) : ℕ → Str → List Piece
  | _, [] => []
  | skip + 1, _ :: rest => scan at_ skip rest
  | 0, c :: rest =>
    match at_ (c :: rest) with
    | some r => .reference r :: scan at_ (r.text.length - 1) rest
    | none => .char c :: scan at_ 0 rest

/-! ## What the parser makes of a string -/

def Expression.reference : Expression F → Option Reference
  | variable_ name _ => some (.variable_ name)
  | globalVariable name _ => some (.globalVariable name)
  | builtinId name _ => some (.builtinId name)
  | _ => none

def StringPart.pieces : StringPart F → List Piece
  | literal text => text.map .char
  | expr e => (e.reference.map .reference).toList

def Expression.pieces : Expression F → List Piece
  | stringLiteral value _ => value.map .char
  | interpolated parts _ => parts.flatMap StringPart.pieces
  | _ => []

/-! ## What the lexer sees -/

def TokenKind.reference : TokenKind F → Option Reference
  | variable_ name => some (.variable_ name)
  | globalVariable name => if name = [] then none else some (.globalVariable name)
  | builtinIdentifier name => some (.builtinId name)
  | _ => none

/-- The reference that the lexer sees at the beginning of some text. -/
def lexedAt (F : Type) [Numerals F] (s : Str) : Option Reference :=
  match Lexer.lexToken (F := F) { source := s } with
  | .ok (token, _) => token.kind.reference
  | .error _ => none

/-- **A literal is split as the lexer would**: with a reference at every position where the lexer
sees one, and all other characters in the text, so that nothing is lost. -/
def Recognises (F : Type) [Numerals F] (s : Str) (e : Expression F) : Prop :=
  e.pieces = scan (lexedAt F) 0 s ∧ sourceText e.pieces = s

instance [Numerals F] (s : Str) (e : Expression F) : Decidable (Recognises F s e) :=
  inferInstanceAs (Decidable (_ ∧ _))

/-! ## Scans -/

section Scan

variable {at_ at' : Str → Option Reference}

theorem scan_skip (skip : ℕ) (s : Str) : scan at_ skip s = scan at_ 0 (s.drop skip) := by
  induction s generalizing skip with
  | nil => rw [List.drop_nil, scan, scan]
  | cons c rest ih =>
    cases skip with
    | zero => rfl
    | succ skip => rw [scan, ih, List.drop_succ_cons]

theorem scan_congr {s : Str} (h : ∀ t, t <:+ s → at_ t = at' t) (skip : ℕ) :
    scan at_ skip s = scan at' skip s := by
  induction s generalizing skip with
  | nil => rw [scan, scan]
  | cons c rest ih =>
    have hrest := ih fun t ht => h t (ht.trans (List.suffix_cons c rest))
    cases skip with
    | zero =>
      rw [scan, scan, h _ List.suffix_rfl, hrest]
      cases at' (c :: rest) with
      | none => rfl
      | some r => exact congrArg _ (hrest _)
    | succ skip => exact hrest skip

/-- **A scan loses nothing**, where references are told by how they are written. -/
theorem sourceText_scan (h : ∀ s r, at_ s = some r → r.text <+: s) (skip : ℕ) (s : Str) :
    sourceText (scan at_ skip s) = s.drop skip := by
  induction s generalizing skip with
  | nil =>
    rw [scan, List.drop_nil]
    rfl
  | cons c rest ih =>
    cases skip with
    | succ skip => exact ih skip
    | zero =>
      rw [scan, List.drop_zero]
      cases hr : at_ (c :: rest) with
      | none => exact congrArg (c :: ·) (ih 0)
      | some r =>
        obtain ⟨n, hlength⟩ : ∃ n, r.text.length = n + 1 := by
          cases r <;> exact ⟨_, List.length_cons⟩
        have hsplit := List.prefix_iff_eq_append.mp (h _ r hr)
        rw [hlength, List.drop_succ_cons] at hsplit
        dsimp only
        rw [hlength, Nat.add_sub_cancel]
        exact (congrArg (r.text ++ ·) (ih n)).trans hsplit

end Scan

theorem drop_length_takeWhile {α : Type} (p : α → Bool) (l : List α) :
    l.drop (l.takeWhile p).length = l.dropWhile p := by
  have h : (l.takeWhile p ++ l.dropWhile p).drop (l.takeWhile p).length = l.dropWhile p := List.drop_left
  rwa [List.takeWhile_append_dropWhile] at h

/-! ## How the parser tells a reference -/

/-- The reference that the parser sees at the beginning of some text. -/
def scannedAt : Str → Option Reference
  | [] => none
  | c :: rest =>
    let names := rest.head?.any isInterpStart
    let name := rest.takeWhile isInterpContinue
    if c = '$' && names then some (.builtinId name)
    else if c = '%' && names then some (.variable_ name)
    else none

theorem scannedAt_eq_some {s : Str} {r : Reference} (h : scannedAt s = some r) :
    ∃ c rest, s = c :: rest ∧ rest.head?.any isInterpStart = true ∧
      (r = .builtinId (rest.takeWhile isInterpContinue) ∧ c = '$' ∨
        r = .variable_ (rest.takeWhile isInterpContinue) ∧ c = '%') := by
  cases s with
  | nil => cases h
  | cons c rest =>
    rw [scannedAt] at h
    split_ifs at h with hdollar hpercent
    · simp only [Bool.and_eq_true, decide_eq_true_eq] at hdollar
      exact ⟨c, rest, rfl, hdollar.2, .inl ⟨(Option.some.inj h).symm, hdollar.1⟩⟩
    · simp only [Bool.and_eq_true, decide_eq_true_eq] at hpercent
      exact ⟨c, rest, rfl, hpercent.2, .inr ⟨(Option.some.inj h).symm, hpercent.1⟩⟩

theorem scannedAt_text {s : Str} {r : Reference} (h : scannedAt s = some r) :
    ∃ c rest, s = c :: rest ∧ r.text = c :: rest.takeWhile isInterpContinue := by
  obtain ⟨c, rest, rfl, -, ⟨rfl, rfl⟩ | ⟨rfl, rfl⟩⟩ := scannedAt_eq_some h
  · exact ⟨_, _, rfl, rfl⟩
  · exact ⟨_, _, rfl, rfl⟩

theorem scannedAt_prefix (s : Str) (r : Reference) (h : scannedAt s = some r) : r.text <+: s := by
  obtain ⟨c, rest, rfl, htext⟩ := scannedAt_text h
  rw [htext, List.prefix_cons_inj]
  exact List.takeWhile_prefix _

/-- What the parser has of a string: its parts, and the text behind the last reference. -/
def scannedPieces (r : List (StringPart F) × Str) : List Piece :=
  r.1.flatMap StringPart.pieces ++ r.2.map .char

theorem pieces_literalParts (buf : Str) :
    (literalParts (F := F) buf).flatMap StringPart.pieces = buf.map .char := by
  unfold literalParts
  split_ifs with h
  · rw [h]
    rfl
  · exact List.append_nil _

/-- **The parser scans**: it has the pieces from before, and those of the rest. -/
theorem scannedPieces_scanReferences (span : Span) {n : ℕ} {s : Str} (hn : s.length ≤ n) (buf : Str)
    (parts : List (StringPart F)) :
    scannedPieces (scanReferences span n buf s parts) = scannedPieces
      (parts, buf) ++ scan scannedAt 0 s := by
  induction n generalizing s buf parts with
  | zero =>
    rw [List.length_eq_zero_iff.mp (Nat.le_zero.mp hn), scanReferences, scan, List.append_nil]
  | succ n ih =>
    cases s with
    | nil => rw [scanReferences, scan, List.append_nil]
    | cons c rest =>
      have hrest : rest.length ≤ n := Nat.le_of_succ_le_succ hn
      have hdrop : (rest.dropWhile isInterpContinue).length ≤ n :=
        (List.dropWhile_suffix _).length_le.trans hrest
      have hname : scan scannedAt (rest.takeWhile isInterpContinue).length rest =
          scan scannedAt 0 (rest.dropWhile isInterpContinue) := by
        rw [scan_skip, drop_length_takeWhile]
      rw [scanReferences, scan, scannedAt]
      split_ifs with hdollar hpercent
      · rw [ih hdrop, ← hname]
        simp [scannedPieces, pieces_literalParts, StringPart.pieces, Expression.reference, Reference.text]
      · rw [ih hdrop, ← hname]
        simp [scannedPieces, pieces_literalParts, StringPart.pieces, Expression.reference, Reference.text]
      · rw [ih hrest]
        simp [scannedPieces]

theorem sourceText_map_char (s : Str) : sourceText (s.map .char) = s := by
  induction s with
  | nil => rfl
  | cons c rest ih => exact congrArg (c :: ·) ih

/-- **What the parser makes of a string literal.** -/
theorem pieces_parseStringInterpolation (s : Str) (span : Span) :
    (parseStringInterpolation s span : Expression F).pieces = scan scannedAt 0 s := by
  have h := scannedPieces_scanReferences (F := F) span (le_refl s.length) [] []
  unfold parseStringInterpolation
  rcases hscan : scanReferences (F := F) span s.length [] s [] with ⟨_ | ⟨part, parts⟩, buf⟩
  · have hbuf : buf.map Piece.char = scan scannedAt 0 s := by
      rw [hscan] at h
      exact h
    have htext := sourceText_scan scannedAt_prefix 0 s
    rw [← hbuf, sourceText_map_char, List.drop_zero] at htext
    rw [← hbuf, htext]
    rfl
  · rw [hscan] at h
    show (part :: parts ++ literalParts buf).flatMap StringPart.pieces = _
    rw [List.flatMap_append, pieces_literalParts]
    exact h

/-- **Nothing of a string is lost.** -/
theorem sourceText_parseStringInterpolation (s : Str) (span : Span) :
    sourceText (parseStringInterpolation s span : Expression F).pieces = s := by
  rw [pieces_parseStringInterpolation]
  exact sourceText_scan scannedAt_prefix 0 s

/-! ## How the lexer tells a reference -/

theorem operator_reference (c : Char) (next : Option Char) :
    ∀ k ∈ TokenKind.operator (F := F) c next, k.1.reference = none := by
  unfold TokenKind.operator
  iterate 11 refine forall_mem_ite (fun _ => forall_mem_some rfl) fun _ => ?_
  iterate 4 refine forall_mem_ite (fun _ => forall_mem_some (by split_ifs <;> rfl)) fun _ => ?_
  iterate 2 refine forall_mem_ite (fun _ => forall_mem_some rfl) fun _ => ?_
  exact nofun

theorem keyword_reference (name : Str) :
    ∀ kind ∈ TokenKind.keyword (F := F) name, kind.reference = none := by
  unfold TokenKind.keyword
  iterate 14 refine forall_mem_ite (fun _ => forall_mem_some rfl) fun _ => ?_
  exact nofun

section Lexed

variable [Numerals F]

theorem lexedAt_eq (s : Str) : lexedAt F s = (readToken (F := F) s).bind fun k => k.1.reference := by
  have h := Lexer.lexToken_between (F := F) ⟨[], s⟩
  unfold lexedAt
  cases hread : readToken (F := F) s with
  | none =>
    rw [hread] at h
    obtain ⟨e, he⟩ := h
    rw [show Lexer.lexToken (F := F) { source := s } = .error (.error e) from he]
    rfl
  | some k =>
    rw [hread] at h
    rw [show Lexer.lexToken (F := F) { source := s } = .ok _ from h]
    rfl

theorem readAt_reference {c : Char} (hpercent : c ≠ '%') (hdollar : c ≠ '$') (rest : Str)
    (next : Option Char) : ∀ k ∈ readAt (F := F) rest c next, k.1.reference = none := by
  unfold readAt
  refine forall_mem_ite (fun _ => forall_mem_some rfl)
    fun _ => forall_mem_ite (fun _ => forall_mem_some rfl)
    fun _ => forall_mem_ite (fun _ => forall_mem_some rfl)
        fun _ => forall_mem_ite (fun _ => ?string) fun _ =>
    forall_mem_ite (fun h => absurd h.1 hpercent)
        fun _ => forall_mem_ite (fun h => absurd h.1 hpercent) fun _ =>
    forall_mem_ite (fun h => absurd h.1 hdollar) fun _ => forall_mem_ite (fun _ => ?number) fun _ =>
    forall_mem_ite (fun _ => forall_mem_some ?identifier) fun _ => operator_reference _ _
  case string =>
    intro k hk
    obtain ⟨r, -, rfl⟩ := Option.mem_map.mp hk
    rfl
  case number =>
    intro k hk
    obtain ⟨-, ⟨val, hkind⟩ | ⟨val, hkind, -⟩⟩ := readNumber_cases hk
    · rw [hkind]
      rfl
    · rw [hkind]
      rfl
  case identifier =>
    cases hkeyword : TokenKind.keyword (F := F) (rest.takeWhile isIdentContinue) with
    | none => rfl
    | some kind => exact keyword_reference _ kind hkeyword

theorem lexedAt_other {c : Char} (hpercent : c ≠ '%') (hdollar : c ≠ '$') (rest : Str) :
    lexedAt F (c :: rest) = none := by
  rw [lexedAt_eq, Option.bind_eq_none_iff]
  intro k hk
  unfold readToken at hk
  dsimp only at hk
  cases ha : asciiOnly c with
  | none =>
    rw [ha] at hk
    cases hk
  | some a =>
    rw [ha] at hk
    obtain ⟨rfl, -⟩ := asciiOnly_eq_some.mp ha
    exact readAt_reference hpercent hdollar _ _ k hk

theorem lexedAt_percent (rest : Str) :
    lexedAt F ('%' :: rest) =
      if rest.head? = some '%' then
        if rest.tail.takeWhile isIdentContinue = [] then none
        else some (.globalVariable (rest.tail.takeWhile isIdentContinue))
      else if rest.head?.any isIdentStart then some (.variable_ (rest.takeWhile isIdentContinue))
      else none := by
  have hname : (readName (F := F) .globalVariable 2 ('%' :: rest)).1 =
      .globalVariable (rest.tail.takeWhile isIdentContinue) := by
    rw [← List.drop_one]
    rfl
  have hnext := bind_asciiOnly_eq (a := '%') (by decide) rest.head?
  have hany := Lexer.any_asciiOnly (fun _ => isIdentStart_ascii) rest.head?
  rw [lexedAt_eq, readToken, asciiOnly_of_lt (by decide)]
  dsimp only [readAt]
  rw [if_neg (by decide), if_neg (by decide), if_neg (by decide), if_neg (by decide), hany]
  by_cases hglobal : rest.head? = some '%'
  · rw [if_pos ⟨rfl, hnext.mpr hglobal⟩, if_pos hglobal, Option.bind_some, hname]
    rfl
  · rw [if_neg fun h => hglobal (hnext.mp h.2), if_neg hglobal]
    by_cases hstart : rest.head?.any isIdentStart = true
    · rw [if_pos ⟨rfl, hstart⟩, if_pos hstart]
      rfl
    · rw [if_neg fun h => hstart h.2, if_neg hstart, if_neg fun h => absurd h.1 (by decide),
        if_neg (by decide), if_neg (by decide)]
      rfl

theorem lexedAt_dollar (rest : Str) :
    lexedAt F ('$' :: rest) =
      if rest.head?.any (fun d => isIdentStart d || d.isDigit) then
        some (.builtinId (rest.takeWhile isIdentContinue))
      else none := by
  have hascii : ∀ d, (isIdentStart d || d.isDigit) = true → d.val.toNat < 128 := fun d h =>
    (Bool.or_eq_true_iff.mp h).elim isIdentStart_ascii isDigit_ascii
  have hany := Lexer.any_asciiOnly hascii rest.head?
  rw [lexedAt_eq, readToken, asciiOnly_of_lt (by decide)]
  dsimp only [readAt]
  rw [if_neg (by decide), if_neg (by decide), if_neg (by decide), if_neg (by decide),
    if_neg fun h => absurd h.1 (by decide), if_neg fun h => absurd h.1 (by decide), hany]
  by_cases hstart : rest.head?.any (fun d => isIdentStart d || d.isDigit) = true
  · rw [if_pos ⟨rfl, hstart⟩, if_pos hstart]
    rfl
  · rw [if_neg fun h => hstart h.2, if_neg hstart, if_neg (by decide), if_neg (by decide)]
    rfl

end Lexed

/-! ## References that the parser does not see -/

/-- At the beginning of some text there is a global variable, or a word that is called by its
number. -/
def UnseenAt (s : Str) : Prop :=
  (∃ c, isIdentContinue c = true ∧ ['%', '%', c] <+: s) ∨ ∃ d, d.isDigit = true ∧ ['$', d] <+: s

/-- **There is a global variable in a string, or a word that is called by its number.** -/
def Unseen (s : Str) : Prop :=
  (∃ c, isIdentContinue c = true ∧ ['%', '%', c] <:+: s) ∨ ∃ d, d.isDigit = true ∧ ['$', d] <:+: s

def Reference.unseen : Reference → Bool
  | variable_ _ => false
  | globalVariable _ => true
  | builtinId name => name.head?.any Char.isDigit

theorem unseen_iff (s : Str) : Unseen s ↔ ∃ t, t <:+ s ∧ UnseenAt t := by
  unfold Unseen UnseenAt
  simp only [List.infix_iff_prefix_suffix]
  constructor
  · rintro (⟨c, hc, t, hprefix, hsuffix⟩ | ⟨d, hd, t, hprefix, hsuffix⟩)
    · exact ⟨t, hsuffix, .inl ⟨c, hc, hprefix⟩⟩
    · exact ⟨t, hsuffix, .inr ⟨d, hd, hprefix⟩⟩
  · rintro ⟨t, hsuffix, ⟨c, hc, hprefix⟩ | ⟨d, hd, hprefix⟩⟩
    · exact .inl ⟨c, hc, t, hprefix, hsuffix⟩
    · exact .inr ⟨d, hd, t, hprefix, hsuffix⟩

theorem seen_of_scannedAt {s : Str} {r : Reference} (h : scannedAt s = some r) : r.unseen = false := by
  obtain ⟨c, rest, rfl, hstart, ⟨rfl, rfl⟩ | ⟨rfl, rfl⟩⟩ := scannedAt_eq_some h
  · cases rest with
    | nil => rfl
    | cons d more =>
      have hname : (d :: more).takeWhile isInterpContinue = d :: more.takeWhile isInterpContinue :=
        List.takeWhile_cons_of_pos (isIdentContinue_of_isIdentStart hstart)
      rw [hname]
      exact not_isDigit_of_isIdentStart hstart
  · rfl

section Unseen

variable [Numerals F] {s : Str}

theorem lexedAt_of_unseenAt (h : UnseenAt s) : ∃ r, lexedAt F s = some r ∧ r.unseen = true := by
  rcases h with ⟨c, hc, rest, rfl⟩ | ⟨d, hd, rest, rfl⟩
  · refine ⟨.globalVariable (c :: rest.takeWhile isIdentContinue), ?_, rfl⟩
    have hname : (c :: rest).takeWhile isIdentContinue = c :: rest.takeWhile isIdentContinue :=
      List.takeWhile_cons_of_pos hc
    show lexedAt F ('%' :: '%' :: c :: rest) = _
    rw [lexedAt_percent, List.head?_cons, if_pos rfl, List.tail_cons, hname, if_neg (List.cons_ne_nil _ _)]
  · refine ⟨.builtinId (d :: rest.takeWhile isIdentContinue), ?_, hd⟩
    have hname : (d :: rest).takeWhile isIdentContinue = d :: rest.takeWhile isIdentContinue :=
      List.takeWhile_cons_of_pos (isIdentContinue_of_isDigit hd)
    show lexedAt F ('$' :: d :: rest) = _
    rw [lexedAt_dollar, List.head?_cons, Option.any_some, hd, Bool.or_true, if_pos rfl, hname]

theorem lexedAt_of_not_unseenAt (h : ¬ UnseenAt s) : lexedAt F s = scannedAt s := by
  cases s with
  | nil => rw [lexedAt_eq]; rfl
  | cons c rest =>
    unfold scannedAt
    by_cases hpercent : c = '%'
    · subst hpercent
      rw [lexedAt_percent]
      by_cases hglobal : rest.head? = some '%'
      · obtain ⟨more, rfl⟩ := List.head?_eq_some_iff.mp hglobal
        have hempty : more.takeWhile isIdentContinue = [] := by
          cases more with
          | nil => rfl
          | cons d more =>
            refine List.takeWhile_cons_of_neg fun hd => h (.inl ⟨d, hd, more, rfl⟩)
        rw [if_pos hglobal, List.tail_cons, hempty, if_pos rfl]
        rfl
      · rw [if_neg hglobal]
        rfl
    · by_cases hdollar : c = '$'
      · subst hdollar
        rw [lexedAt_dollar]
        have hstart : rest.head?.any (fun d => isIdentStart d || d.isDigit) =
            rest.head?.any isInterpStart := by
          cases rest with
          | nil => rfl
          | cons d more =>
            have hd : d.isDigit = false := by
              rw [← Bool.not_eq_true]
              exact fun hd => h (.inr ⟨d, hd, more, rfl⟩)
            rw [List.head?_cons, Option.any_some, Option.any_some, hd, Bool.or_false]
            rfl
        rw [hstart]
        dsimp only
        cases rest.head?.any isInterpStart with
        | false => rfl
        | true => rfl
      · rw [lexedAt_other hpercent hdollar]
        simp [hpercent, hdollar]

theorem suffix_dropWhile {α : Type} {p : α → Bool} {a : α} {t l : List α} (ha : p a = false)
    (h : a :: t <:+ l) : a :: t <:+ l.dropWhile p := by
  induction l with
  | nil => exact h
  | cons b l ih =>
    rw [List.dropWhile_cons]
    split_ifs with hb
    · rcases List.suffix_cons_iff.mp h with heq | hsuffix
      · cases heq
        exact absurd hb (by simp [ha])
      · exact ih hsuffix
    · exact h

theorem UnseenAt.head (h : UnseenAt s) : ∃ a t, s = a :: t ∧ isInterpContinue a = false := by
  rcases h with ⟨c, -, rest, rfl⟩ | ⟨d, -, rest, rfl⟩
  · exact ⟨_, _, rfl, by decide⟩
  · exact ⟨_, _, rfl, by decide⟩

/-- **The lexer sees what the parser does not.** -/
theorem exists_unseen {t : Str} (ht : UnseenAt t) {skip : ℕ} (h : t <:+ s.drop skip) :
    ∃ r, Piece.reference r ∈ scan (lexedAt F) skip s ∧ r.unseen = true := by
  obtain ⟨a, t, rfl, ha⟩ := ht.head
  induction s generalizing skip with
  | nil =>
    rw [List.drop_nil] at h
    exact absurd (List.suffix_nil.mp h) (List.cons_ne_nil _ _)
  | cons c rest ih =>
    cases skip with
    | succ skip => exact ih h
    | zero =>
      rw [scan]
      by_cases hhere : UnseenAt (c :: rest)
      · obtain ⟨r, hr, hunseen⟩ := lexedAt_of_unseenAt (F := F) hhere
        rw [hr]
        exact ⟨r, List.mem_cons_self, hunseen⟩
      · have hrest : a :: t <:+ rest := by
          rcases List.suffix_cons_iff.mp h with heq | hsuffix
          · exact absurd (heq ▸ ht) hhere
          · exact hsuffix
        rw [lexedAt_of_not_unseenAt hhere]
        cases hr : scannedAt (c :: rest) with
        | none =>
          obtain ⟨r, hmem, hunseen⟩ := ih (show a :: t <:+ rest.drop 0 from hrest)
          exact ⟨r, List.mem_cons_of_mem _ hmem, hunseen⟩
        | some r =>
          obtain ⟨_, _, hcons, htext⟩ := scannedAt_text hr
          cases hcons
          have hbehind : a :: t <:+ rest.drop (r.text.length - 1) := by
            rw [htext, List.length_cons, Nat.add_sub_cancel, drop_length_takeWhile]
            exact suffix_dropWhile ha hrest
          obtain ⟨r', hmem, hunseen⟩ := ih hbehind
          exact ⟨r', List.mem_cons_of_mem _ hmem, hunseen⟩

end Unseen

theorem seen_of_mem_scan {skip : ℕ} {s : Str} {r : Reference}
    (h : .reference r ∈ scan scannedAt skip s) : r.unseen = false := by
  induction s generalizing skip with
  | nil =>
    rw [scan] at h
    cases h
  | cons c rest ih =>
    cases skip with
    | succ skip => exact ih h
    | zero =>
      rw [scan] at h
      cases hr : scannedAt (c :: rest) with
      | none =>
        rw [hr] at h
        rcases List.mem_cons.mp h with heq | hmem
        · cases heq
        · exact ih hmem
      | some r' =>
        rw [hr] at h
        rcases List.mem_cons.mp h with heq | hmem
        · cases heq
          exact seen_of_scannedAt hr
        · exact ih hmem

/-- **A string literal is split as the lexer would unless there is a global variable in it, or a
word that is called by its number.** -/
theorem recognises_iff [Numerals F] (s : Str) (span : Span) :
    Recognises F s (parseStringInterpolation s span) ↔ ¬ Unseen s := by
  unfold Recognises
  rw [pieces_parseStringInterpolation, sourceText_scan scannedAt_prefix, List.drop_zero, unseen_iff]
  constructor
  · rintro ⟨hpieces, -⟩ ⟨t, hsuffix, ht⟩
    obtain ⟨r, hmem, hunseen⟩ := exists_unseen (F := F) ht (show t <:+ s.drop 0 from hsuffix)
    rw [← hpieces] at hmem
    exact absurd hunseen (by rw [seen_of_mem_scan hmem]; exact Bool.false_ne_true)
  · intro h
    refine ⟨scan_congr (fun t hsuffix =>
      (lexedAt_of_not_unseenAt fun ht => h ⟨t, hsuffix, ht⟩).symm) 0, rfl⟩

local instance referenceNumerals : Numerals Unit := wholeNumerals

/-- A global variable is taken for a local one behind a percent sign, and a word for text. -/
theorem unseen_lost :
    ¬ Recognises Unit "hi %%total".toList (parseStringInterpolation "hi %%total".toList ⟨0, 12⟩) ∧
      ¬ Recognises Unit "hi $1".toList (parseStringInterpolation "hi $1".toList ⟨0, 7⟩) := by
  decide

end Pirc.Scripting
