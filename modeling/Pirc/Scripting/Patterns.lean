import Pirc.Scripting.Lexer
import Pirc.Scripting.Script

/-!
# Scripts: the patterns of event handlers

`parser/mod.rs`, `parse_pattern`. The pattern of an event handler is written between the colon and
the brace of the body. The parser puts it together from tokens that are meant for expressions: the
blanks between them are lost, and integers are written anew.
-/

namespace Pirc.Scripting

open Protocol (Str decimal)
open Parse

variable {F : Type}

/-! ## What tokens spell -/

def TokenKind.spelling (text : Str) : TokenKind F → Str
  | star => ['*']
  | identifier name => name
  | stringLiteral s => s
  | intLiteral n => intText n
  | colon => [':']
  | minus => ['-']
  | _ => text

theorem patternText_eq {source text : Str} {t : Token F}
    (h : strSlice source t.span.offset t.span.finish = some text) :
    t.patternText source = some (t.kind.spelling text) := by
  obtain ⟨kind, span⟩ := t
  cases kind <;> first | rfl | exact h

/-- What may stand in a pattern besides blanks. -/
def isPlain (c : Char) : Bool := c ≠ '\x7b' && !Server.isWhitespace c

/-- **What a token of a pattern spells**: its text, but for zeros before an integer. -/
structure Spells (kind : TokenKind F) (text : Str) : Prop where
  plain : ∀ c ∈ text, isPlain c = true
  continues : kind.endsPattern = false
  suffix : kind.spelling text <:+ text
  ne_nil : kind.spelling text ≠ []
  verbatim : (∀ n, kind ≠ .intLiteral n) → kind.spelling text = text

theorem Spells.of_eq {kind : TokenKind F} {text : Str} (hplain : ∀ c ∈ text, isPlain c = true)
    (hne : text ≠ []) (hkind : kind.endsPattern = false) (h : kind.spelling text = text) :
      Spells kind text where
  plain := hplain
  continues := hkind
  suffix := by rw [h]
  ne_nil := by rwa [h]
  verbatim _ := h

theorem isPlain_of_bounds {c : Char} (hlow : 33 ≤ c.toNat) (hhigh : c.toNat < 123) : isPlain c = true := by
  have hbrace : c ≠ '\x7b' := by
    rintro rfl
    exact absurd hhigh (by decide)
  have hspace : Server.isWhitespace c = false := by
    unfold Server.isWhitespace
    simp only [Bool.or_eq_false_iff, Bool.and_eq_false_iff, decide_eq_false_iff_not]
    omega
  rw [isPlain, hspace, decide_eq_true hbrace]
  rfl

theorem isPlain_of_isIdentContinue {c : Char} (h : isIdentContinue c = true) : isPlain c = true := by
  have hbounds : 33 ≤ c.toNat ∧ c.toNat < 123 := by
    have hzero : '0'.val.toNat = 48 := rfl
    have hnine : '9'.val.toNat = 57 := rfl
    have hupper : 'A'.val.toNat = 65 ∧ 'Z'.val.toNat = 90 := ⟨rfl, rfl⟩
    have hlower : 'a'.val.toNat = 97 ∧ 'z'.val.toNat = 122 := ⟨rfl, rfl⟩
    unfold isIdentContinue Char.isAlphanum at h
    delta Char.isAlpha Char.isUpper Char.isLower at h
    simp only [Char.isDigit, Bool.or_eq_true, Bool.and_eq_true, decide_eq_true_eq, ge_iff_le,
      UInt32.le_iff_toNat_le] at h
    rcases h with (h | rfl) | rfl
    · unfold Char.toNat
      omega
    · decide
    · decide
  exact isPlain_of_bounds hbounds.1 hbounds.2

theorem isPlain_of_isDigit {c : Char} (h : c.isDigit = true) : isPlain c = true :=
  isPlain_of_isIdentContinue (isIdentContinue_of_isDigit h)

/-! ## Tokens of a pattern -/

theorem take_readName (kind : Str → TokenKind F) (sigil : ℕ) (rest : Str) :
    rest.take (readName kind sigil rest).2 =
      rest.take sigil ++ (rest.drop sigil).takeWhile isIdentContinue := by
  have hname := List.prefix_iff_eq_take.mp (List.takeWhile_prefix (l := rest.drop sigil) isIdentContinue)
  rw [readName, List.take_add, ← hname]

theorem spells_number [Numerals F] {c : Char} (hdigit : c.isDigit = true) (rest : Str)
    {k : TokenKind F × ℕ} (h : readNumber (c :: rest) = some k) : Spells k.1 ((c :: rest).take k.2) := by
  have hplain : ∀ d ∈ (c :: rest).takeWhile Char.isDigit, isPlain d = true := fun d hd =>
    isPlain_of_isDigit (List.mem_takeWhile_imp hd)
  have hne : (c :: rest).takeWhile Char.isDigit ≠ [] := by
    rw [List.takeWhile_cons_of_pos hdigit]
    exact List.cons_ne_nil _ _
  obtain ⟨hlength, hkind⟩ := readNumber_cases h
  rw [hlength, Lexer.take_numberText]
  rcases hkind with ⟨val, hkind⟩ | ⟨val, hkind, htext, hparse⟩
  · rw [hkind]
    refine .of_eq (fun d hd => ?_) (List.append_ne_nil_of_left_ne_nil hne _) rfl rfl
    rcases List.mem_append.mp hd with hwhole | hpart
    · exact hplain d hwhole
    · rcases Lexer.fraction_cases ((c :: rest).drop ((c :: rest).takeWhile Char.isDigit).length) with
        hnone | ⟨more, -, hfraction⟩
      · rw [hnone] at hpart
        cases hpart
      · rw [hfraction] at hpart
        rcases List.mem_cons.mp hpart with rfl | hdigits
        · decide
        · exact isPlain_of_isDigit (List.mem_takeWhile_imp hdigits)
  · have hdigits : ∀ d ∈ numberText (c :: rest), d.isDigit = true := by
      rw [htext]
      exact fun d hd => List.mem_takeWhile_imp hd
    rw [← htext] at hplain hne
    obtain ⟨hval, hlt⟩ := Decimal.of_parse hdigits hparse
    have hspelling : intText (.ofNat val) = decimal val := by
      rw [intText, Int64.toInt_ofNat_of_lt hlt, if_neg (by omega), Int.natAbs_natCast]
    have hsuffix := Decimal.toDigits_suffix hne hdigits
    rw [← hval] at hsuffix
    rw [hkind]
    exact {
      plain := hplain
      continues := rfl
      suffix := by rw [TokenKind.spelling, hspelling]; exact hsuffix
      ne_nil := by rw [TokenKind.spelling, hspelling]; exact Nat.toDigits_ne_nil
      verbatim := fun h => absurd rfl (h _) }

section Operators

variable {c d : Char} {rest : Str} {kind : TokenKind F}

theorem spells_one (hplain : isPlain c = true) (hkind : kind.endsPattern = false)
    (h : kind.spelling [c] = [c]) : Spells kind ((c :: rest).take 1) :=
  .of_eq (List.forall_mem_singleton.mpr hplain) (List.cons_ne_nil _ _) hkind h

theorem spells_two (hplain : isPlain c = true) (hplain' : isPlain d = true)
    (hnext : rest.head?.bind asciiOnly = some d) (hkind : kind.endsPattern = false)
    (h : kind.spelling [c, d] = [c, d]) : Spells kind ((c :: rest).take 2) := by
  obtain ⟨d', hd', hascii⟩ := Option.bind_eq_some_iff.mp hnext
  obtain ⟨rfl, -⟩ := asciiOnly_eq_some.mp hascii
  obtain ⟨more, rfl⟩ := List.head?_eq_some_iff.mp hd'
  exact .of_eq (by simp [hplain, hplain']) (List.cons_ne_nil _ _) hkind h

theorem operator_spells (hbrace : c ≠ '\x7b') (rest : Str) :
    ∀ k ∈ TokenKind.operator (F := F) c (rest.head?.bind asciiOnly), Spells k.1 ((c :: rest).take k.2) := by
  have hpair : ∀ {c : Char} {k k' : TokenKind F}, isPlain c = true → k.endsPattern = false →
      k.spelling [c, '='] = [c, '='] → k'.endsPattern = false → k'.spelling [c] = [c] →
      ∀ x ∈ some (if rest.head?.bind asciiOnly = some '=' then (k, 2) else (k', 1)),
        Spells x.1 ((c :: rest).take x.2) := by
    intro c k k' hplain hkind hspell hkind' hspell'
    refine forall_mem_some ?_
    split_ifs with hnext
    · exact spells_two hplain (by decide) hnext hkind hspell
    · exact spells_one hplain hkind' hspell'
  unfold TokenKind.operator
  iterate 5
    refine forall_mem_ite (fun h =>
      forall_mem_some (spells_one (by rw [h]; decide) rfl (by rw [h]; rfl))) fun _ => ?_
  refine forall_mem_ite (fun h => absurd h hbrace) fun _ => ?_
  iterate 5
    refine forall_mem_ite (fun h =>
      forall_mem_some (spells_one (by rw [h]; decide) rfl (by rw [h]; rfl))) fun _ => ?_
  iterate 4
    refine forall_mem_ite (fun h => by rw [h]; exact hpair (by decide) rfl rfl rfl rfl) fun _ => ?_
  iterate 2
    refine forall_mem_ite (fun h =>
      forall_mem_some (spells_two (by rw [h.1]; decide) (by decide) h.2 rfl rfl)) fun _ => ?_
  exact nofun

end Operators

/-- The characters that a pattern does not go on with, and those of texts and comments. -/
def endsText (c : Char) : Bool := c = '\n' || c = '\r' || c = ';' || c = '"' || c = '\x7b'

theorem spells_name {kind : Str → TokenKind F} {sigil : ℕ} {c : Char} {rest : Str}
    (hkind : ∀ name text, (kind name).endsPattern = false ∧ (kind name).spelling text = text)
    (hsigil : ∀ d ∈ (c :: rest).take sigil, isPlain d = true) (hpos : 0 < sigil) :
    Spells (readName kind sigil (c :: rest)).1 ((c :: rest).take (readName kind sigil (c :: rest)).2) := by
  rw [take_readName]
  refine .of_eq (fun d hd => ?_) ?_ (hkind _ []).1 (hkind _ _).2
  · rcases List.mem_append.mp hd with hhead | hname
    · exact hsigil d hhead
    · exact isPlain_of_isIdentContinue (List.mem_takeWhile_imp hname)
  · obtain ⟨sigil, rfl⟩ := Nat.exists_eq_succ_of_ne_zero (Nat.ne_of_gt hpos)
    exact List.cons_ne_nil _ _

theorem keyword_spells (text : Str) :
    ∀ kind ∈ TokenKind.keyword (F := F) text, kind.endsPattern = false ∧ kind.spelling text = text := by
  unfold TokenKind.keyword
  iterate 14 refine forall_mem_ite (fun _ => forall_mem_some ⟨rfl, rfl⟩) fun _ => ?_
  exact nofun

/-- **What the tokens of a pattern spell.** -/
theorem readAt_spells [Numerals F] {c : Char} (hc : endsText c = false) (rest : Str) :
    ∀ k ∈ readAt (F := F) (c :: rest) c (rest.head?.bind asciiOnly), Spells k.1 ((c :: rest).take k.2) := by
  unfold endsText at hc
  simp only [Bool.or_eq_false_iff, decide_eq_false_iff_not] at hc
  obtain ⟨⟨⟨⟨hline, hreturn⟩, hcomment⟩, hquote⟩, hbrace⟩ := hc
  unfold readAt
  refine forall_mem_ite (fun h => absurd h hline)
      fun _ => forall_mem_ite (fun h => absurd h hreturn) fun _ =>
    forall_mem_ite (fun h => absurd h hcomment) fun _ => forall_mem_ite (fun h => absurd h hquote) fun _ =>
    forall_mem_ite (fun h => forall_mem_some ?globalVariable) fun _ =>
    forall_mem_ite (fun h => forall_mem_some ?variable_) fun _ =>
    forall_mem_ite (fun h => forall_mem_some ?builtinIdentifier) fun _ =>
    forall_mem_ite (fun h => fun _ => spells_number h rest) fun _ =>
    forall_mem_ite (fun h => forall_mem_some ?identifier) fun _ => operator_spells hbrace rest
  case globalVariable =>
    refine spells_name (fun _ _ => ⟨rfl, rfl⟩) ?_ (by decide)
    obtain ⟨d, hd, hascii⟩ := Option.bind_eq_some_iff.mp h.2
    obtain ⟨rfl, -⟩ := asciiOnly_eq_some.mp hascii
    obtain ⟨more, rfl⟩ := List.head?_eq_some_iff.mp hd
    rw [h.1]
    show ∀ d ∈ ['%', '%'], isPlain d = true
    exact List.forall_iff_forall_mem.mp (by decide)
  case variable_ =>
    refine spells_name (fun _ _ => ⟨rfl, rfl⟩) (List.forall_mem_singleton.mpr ?_) (by decide)
    rw [h.1]
    decide
  case builtinIdentifier =>
    refine spells_name (fun _ _ => ⟨rfl, rfl⟩) (List.forall_mem_singleton.mpr ?_) (by decide)
    rw [h.1]
    decide
  case identifier =>
    have htext := (List.prefix_iff_eq_take.mp (List.takeWhile_prefix (l := c :: rest) isIdentContinue)).symm
    rw [htext]
    have hplain : ∀ d ∈ (c :: rest).takeWhile isIdentContinue, isPlain d = true := fun d hd =>
      isPlain_of_isIdentContinue (List.mem_takeWhile_imp hd)
    have hne : (c :: rest).takeWhile isIdentContinue ≠ [] := by
      rw [List.takeWhile_cons_of_pos (isIdentContinue_of_isIdentStart h)]
      exact List.cons_ne_nil _ _
    cases hkeyword : TokenKind.keyword (F := F) ((c :: rest).takeWhile isIdentContinue) with
    | none => exact .of_eq hplain hne rfl rfl
    | some kind =>
      obtain ⟨hkind, hspelling⟩ := keyword_spells _ kind hkeyword
      exact .of_eq hplain hne hkind hspelling

theorem readToken_spells [Numerals F] {c : Char} (hc : endsText c = false) (rest : Str)
    {k : TokenKind F × ℕ}
    (h : readToken (c :: rest) = some k) : Spells k.1 ((c :: rest).take k.2) := by
  unfold readToken at h
  dsimp only at h
  cases ha : asciiOnly c with
  | none =>
    rw [ha] at h
    cases h
  | some a =>
    rw [ha] at h
    obtain ⟨rfl, -⟩ := asciiOnly_eq_some.mp ha
    exact readAt_spells hc rest k h

/-! ## The tokens of a pattern -/

/-- **A pattern as its tokens have it**: their texts, with blanks between them. -/
inductive Pieces (source : Str) : List (Token F) → Str → Prop
  | nil {gap : Str} (hgap : ∀ c ∈ gap, c = ' ' ∨ c = '\t') : Pieces source [] gap
  | cons {t : Token F} {tokens : List (Token F)} {gap text behind : Str}
    (hgap : ∀ c ∈ gap, c = ' ' ∨ c = '\t')
    (hslice : strSlice source t.span.offset t.span.finish = some text) (hspells : Spells t.kind text)
    (h : Pieces source tokens behind) : Pieces source (t :: tokens) (gap ++ (text ++ behind))

theorem blanks_append (text behind : Str) :
    blanks (text ++ '\x7b' :: behind) = blanks text := by
  unfold blanks
  rw [List.takeWhile_append]
  split_ifs with h
  · rw [List.takeWhile_cons_of_neg (by decide), List.append_nil]
    exact ((List.takeWhile_prefix _).eq_of_length h).symm
  · rfl

theorem le_of_plain {text behind : Str} {n : ℕ}
    (h : ∀ d ∈ (text ++ '\x7b' :: behind).take n, isPlain d = true) : n ≤ text.length := by
  by_contra hlt
  have hmem : '\x7b' ∈ (text ++ '\x7b' :: behind).take n := by
    rw [List.take_append, List.mem_append]
    refine .inr ?_
    obtain ⟨m, hm⟩ := Nat.exists_eq_succ_of_ne_zero (n := n - text.length) (by omega)
    rw [hm, List.take_succ_cons]
    exact List.mem_cons_self
  exact absurd (h _ hmem) (by decide)

/-- **The tokens from a pattern on**: those of the pattern, and the brace. -/
theorem Tiling.pieces [Numerals F] {c : Cursor} {tokens : List (Token F)} (h : Tiling c tokens)
    {text behind : Str} (hrest : c.rest = text ++ '\x7b' :: behind)
    (htext : ∀ d ∈ text, endsText d = false) :
    ∃ inside brace post, tokens = inside ++ brace :: post ∧ brace.kind.isEof = false ∧
      brace.kind.endsPattern = true ∧ brace.span.offset = c.offset + (utf8 text).length ∧
      Pieces c.text inside text := by
  induction h generalizing text with
  | @eof c hblank =>
    have hmem : '\x7b' ∈ c.rest := by simp [hrest]
    have hall : blanks c.rest = c.rest :=
      (List.takeWhile_prefix _).eq_of_length_le (List.drop_eq_nil_iff.mp hblank)
    rw [← hall] at hmem
    exact absurd (List.mem_takeWhile_imp hmem) (by decide)
  | @token c k tokens hne hread h ih =>
    obtain ⟨more, hmore⟩ : ∃ more, text = blanks text ++ more := ⟨_, (blanks_append_drop text).symm⟩
    have hgap : ∀ d ∈ blanks text, d = ' ' ∨ d = '\t' := fun d hd => mem_blanks hd
    have hstart : c.forward (blanks c.rest).length = ⟨c.before ++ blanks text,
        more ++ '\x7b' :: behind⟩ := by
      rw [hrest, blanks_append]
      exact c.forward_length (by rw [hrest, ← List.append_assoc, ← hmore])
    have hsource : (c.forward (blanks c.rest).length).text = c.text := c.text_forward _
    have hoffset : (c.forward (blanks c.rest).length).offset = c.offset + (utf8 (blanks text)).length := by
      rw [hstart, Cursor.offset, utf8_append, List.length_append]
      rfl
    have hrest' : (c.forward (blanks c.rest).length).rest = more ++ '\x7b' :: behind := by rw [hstart]
    generalize c.forward (blanks c.rest).length = c' at *
    rw [hrest'] at hread
    cases more with
    | nil =>
      obtain rfl : (TokenKind.leftBrace, 1) = k := Option.some.inj hread
      rw [List.append_nil] at hmore
      refine ⟨[], _, tokens, rfl, rfl, rfl, ?_, ?_⟩
      · rw [hmore]
        exact hoffset
      · exact .nil (hmore ▸ hgap)
    | cons d more =>
      have hd : endsText d = false := htext d (hmore ▸ List.mem_append_right _ List.mem_cons_self)
      have hspells := readToken_spells hd (more ++ '\x7b' :: behind) hread
      have hle : k.2 ≤ (d :: more).length := le_of_plain hspells.plain
      have htake : c'.rest.take k.2 = (d :: more).take k.2 := by
        rw [hrest', List.take_append_of_le_length hle]
      have hdrop : (c'.forward k.2).rest = (d :: more).drop k.2 ++ '\x7b' :: behind := by
        rw [c'.rest_forward, hrest', List.drop_append_of_le_length hle]
      obtain ⟨inside, brace, post, htokens, hproper, hbrace, hfinish, hpieces⟩ := ih hdrop fun d' hd' =>
        htext d' (hmore ▸ List.mem_append_right _ (List.mem_of_mem_drop hd'))
      refine ⟨_ :: inside, brace, post, congrArg _ htokens, hproper, hbrace, ?_, ?_⟩
      · have hbytes : (utf8 text).length = (utf8 (blanks text)).length +
            ((utf8 ((d :: more).take k.2)).length + (utf8 ((d :: more).drop k.2)).length) := by
          rw [← List.length_append, ← utf8_append, List.take_append_drop, ← List.length_append,
            ← utf8_append, ← hmore]
        rw [hfinish, c'.offset_forward, Cursor.width, htake, hoffset, hbytes]
        omega
      · have hslice := strSlice_cursor c' k.2
        rw [htake, hsource] at hslice
        rw [← List.cons_append, List.take_append_of_le_length hle] at hspells
        rw [c'.text_forward, hsource] at hpieces
        have hcons := Pieces.cons (t := (Lexer.tokenAt c' k.1 k.2).1) hgap hslice hspells hpieces
        rwa [List.take_append_drop, ← hmore] at hcons

/-! ## What a pattern is put together to -/

/-- A token of an integer is written as its value would be. -/
def Token.Canonical (source : Str) (t : Token F) : Prop :=
  ∀ n, t.kind = .intLiteral n → strSlice source t.span.offset t.span.finish = some (intText n)

def isBlank (c : Char) : Bool := c = ' ' || c = '\t'

def squeeze (text : Str) : Str := text.filter (!isBlank ·)

/-- **What the parser puts together**: as much as the text without its blanks, if every integer in
it is written as its value would be. -/
structure PatternText (source : Str) (tokens : List (Token F)) (text pattern : Str) : Prop where
  plain : ∀ c ∈ pattern, Server.isWhitespace c = false
  length_le : pattern.length ≤ (squeeze text).length
  canonical_iff : (∀ t ∈ tokens, t.Canonical source) ↔ pattern = squeeze text
  ne_nil : squeeze text ≠ [] → pattern ≠ []

section Pieces

variable {source text : Str} {tokens : List (Token F)}

theorem isBlank_iff {c : Char} : isBlank c = true ↔ c = ' ' ∨ c = '\t' := by
  simp [isBlank]

theorem isBlank_eq_false {c : Char} (h : isPlain c = true) : isBlank c = false := by
  rw [← Bool.not_eq_true, isBlank_iff]
  rintro (rfl | rfl)
  · exact absurd h (by decide)
  · exact absurd h (by decide)

theorem isWhitespace_eq_false {c : Char} (h : isPlain c = true) : Server.isWhitespace c = false := by
  unfold isPlain at h
  simp only [Bool.and_eq_true, Bool.not_eq_true'] at h
  exact h.2

theorem squeeze_gap {gap : Str} (h : ∀ c ∈ gap, c = ' ' ∨ c = '\t') : squeeze gap = [] := by
  refine List.filter_eq_nil_iff.mpr fun c hc => ?_
  rw [isBlank_iff.mpr (h c hc)]
  exact Bool.false_ne_true

theorem squeeze_eq_self (h : ∀ c ∈ text, isBlank c = false) : squeeze text = text := by
  refine List.filter_eq_self.mpr fun c hc => ?_
  rw [h c hc]
  rfl

theorem squeeze_piece {gap text : Str} (hgap : ∀ c ∈ gap, c = ' ' ∨ c = '\t')
    (hplain : ∀ c ∈ text, isPlain c = true) (behind : Str) :
    squeeze (gap ++ (text ++ behind)) = text ++ squeeze behind := by
  have htext := squeeze_eq_self fun c hc => isBlank_eq_false (hplain c hc)
  have hnone := squeeze_gap hgap
  unfold squeeze at *
  rw [List.filter_append, List.filter_append, hnone, htext, List.nil_append]

theorem Spells.canonical_iff {t : Token F} (h : Spells t.kind text)
    (hslice : strSlice source t.span.offset t.span.finish = some text) :
    t.Canonical source ↔ t.kind.spelling text = text := by
  unfold Token.Canonical
  rw [hslice]
  by_cases hint : ∃ n, t.kind = .intLiteral n
  · obtain ⟨n, hn⟩ := hint
    rw [hn]
    constructor
    · intro h
      exact (Option.some.inj (h n rfl)).symm
    · rintro hspelling m ⟨⟩
      exact congrArg some hspelling.symm
  · exact ⟨fun _ => h.verbatim fun n hn => hint ⟨n, hn⟩, fun _ n hn => absurd ⟨n, hn⟩ hint⟩

theorem Pieces.patternText (h : Pieces source tokens text) :
    ∃ texts, tokens.mapM (Token.patternText source) = some texts ∧
      PatternText source tokens text texts.flatten := by
  induction h with
  | @nil gap hgap =>
    have hnone := squeeze_gap hgap
    refine ⟨[], rfl, nofun, Nat.zero_le _, ?_, fun hne => absurd hnone hne⟩
    rw [hnone]
    exact iff_of_true nofun rfl
  | @cons t tokens gap text behind hgap hslice hspells h ih =>
    obtain ⟨texts, htexts, hbehind⟩ := ih
    have hsqueeze := squeeze_piece hgap hspells.plain behind
    refine ⟨t.kind.spelling text :: texts, ?_, ?_, ?_, ?_, ?_⟩
    · rw [List.mapM_cons, patternText_eq hslice, htexts]
      rfl
    · intro c hc
      rcases List.mem_append.mp hc with hhere | hthere
      · exact isWhitespace_eq_false (hspells.plain c (hspells.suffix.subset hhere))
      · exact hbehind.plain c hthere
    · rw [hsqueeze, List.flatten_cons, List.length_append, List.length_append]
      exact Nat.add_le_add hspells.suffix.length_le hbehind.length_le
    · rw [List.forall_mem_cons, hspells.canonical_iff hslice, hbehind.canonical_iff, hsqueeze,
        List.flatten_cons]
      constructor
      · rintro ⟨hhere, hthere⟩
        rw [hhere, hthere]
      · intro heq
        have hlength := congrArg List.length heq
        rw [List.length_append, List.length_append] at hlength
        have hhere := hspells.suffix.length_le
        have hthere := hbehind.length_le
        exact List.append_inj heq (by omega)
    · intro _ hnone
      exact hspells.ne_nil (List.append_eq_nil_iff.mp hnone).1

theorem Pieces.continues (h : Pieces source tokens text) : ∀ t ∈ tokens, t.kind.endsPattern = false := by
  induction h with
  | nil => exact nofun
  | cons _ _ hspells _ ih => exact List.forall_mem_cons.mpr ⟨hspells.continues, ih⟩

theorem Pieces.blank_of_isWhitespace (h : Pieces source tokens text) :
    ∀ c ∈ text, Server.isWhitespace c = true → isBlank c = true := by
  induction h with
  | nil hgap => exact fun c hc _ => isBlank_iff.mpr (hgap c hc)
  | cons hgap hslice hspells h ih =>
    intro c hc hspace
    rcases List.mem_append.mp hc with hhead | htail
    · exact isBlank_iff.mpr (hgap c hhead)
    · rcases List.mem_append.mp htail with hhere | hthere
      · exact absurd hspace (by rw [isWhitespace_eq_false
          (hspells.plain c hhere)]; exact Bool.false_ne_true)
      · exact ih c hthere hspace

end Pieces

/-! ## Texts without blanks at their ends -/

theorem exists_trim (text : Str) :
    ∃ lead trail, text = lead ++ (Server.trim text ++ trail) ∧
      (∀ c ∈ lead, Server.isWhitespace c = true) ∧ ∀ c ∈ trail, Server.isWhitespace c = true := by
  refine ⟨text.takeWhile Server.isWhitespace,
    ((text.dropWhile Server.isWhitespace).reverse.takeWhile Server.isWhitespace).reverse, ?_,
    fun c hc => List.mem_takeWhile_imp hc, fun c hc => List.mem_takeWhile_imp (List.mem_reverse.mp hc)⟩
  rw [Server.trim, ← List.reverse_append, List.takeWhile_append_dropWhile, List.reverse_reverse,
    List.takeWhile_append_dropWhile]

theorem trim_eq_self {text : Str} (h : ∀ c ∈ text, Server.isWhitespace c = false) :
    Server.trim text = text := by
  have hdrop : ∀ l : Str, (∀ c ∈ l, Server.isWhitespace c = false) →
      l.dropWhile Server.isWhitespace = l := by
    intro l hl
    cases l with
    | nil => rfl
    | cons c cs =>
      exact List.dropWhile_cons_of_neg (by rw [hl c List.mem_cons_self]; exact Bool.false_ne_true)
  unfold Server.trim
  rw [hdrop text h, hdrop _ fun c hc => h c (List.mem_reverse.mp hc), List.reverse_reverse]

section Trim

variable {source text : Str} {tokens : List (Token F)}

theorem squeeze_trim (h : ∀ c ∈ text, Server.isWhitespace c = true → isBlank c = true) :
    squeeze (Server.trim text) = squeeze text := by
  obtain ⟨lead, trail, htext, hlead, htrail⟩ := exists_trim text
  have hgap : ∀ gap : Str, (∀ c ∈ gap, c ∈ text) → (∀ c ∈ gap, Server.isWhitespace c = true) →
      squeeze gap = [] := fun gap hmem hspace =>
    squeeze_gap fun c hc => isBlank_iff.mp (h c (hmem c hc) (hspace c hc))
  have hleft := hgap lead (fun c hc => htext ▸ List.mem_append_left _ hc) hlead
  have hright := hgap trail
    (fun c hc => htext ▸ List.mem_append_right _ (List.mem_append_right _ hc)) htrail
  conv_rhs => rw [htext]
  unfold squeeze at *
  rw [List.filter_append, List.filter_append, hleft, hright, List.nil_append, List.append_nil]

/-- **When the pattern is the text that is written.** -/
theorem PatternText.patternOf_eq_iff {pattern : Str} (h : PatternText source tokens text pattern)
    (hspace : ∀ c ∈ text, Server.isWhitespace c = true → isBlank c = true) :
    patternOf pattern = Server.trim text ↔
      Server.trim text ≠ [] ∧ (∀ c ∈ Server.trim text, isBlank c = false) ∧
        ∀ t ∈ tokens, t.Canonical source := by
  have hsqueeze := squeeze_trim hspace
  unfold patternOf
  rw [trim_eq_self h.plain]
  dsimp only
  constructor
  · intro heq
    split_ifs at heq with hnone
    · have hstar : '*' ∈ squeeze (Server.trim text) := by
        rw [← heq]
        decide
      rw [hsqueeze] at hstar
      exact absurd hnone (h.ne_nil (List.ne_nil_of_mem hstar))
    · have hblank : ∀ c ∈ Server.trim text, isBlank c = false := by
        intro c hc
        rw [← Bool.not_eq_true]
        intro hblank
        rw [← heq] at hc
        have hplain := h.plain c hc
        rcases isBlank_iff.mp hblank with rfl | rfl
        · exact absurd hplain (by decide)
        · exact absurd hplain (by decide)
      refine ⟨heq ▸ hnone, hblank, h.canonical_iff.mpr ?_⟩
      rw [heq, ← hsqueeze]
      exact (squeeze_eq_self hblank).symm
  · rintro ⟨hne, hblank, hcanonical⟩
    have htext := h.canonical_iff.mp hcanonical
    rw [← hsqueeze, squeeze_eq_self hblank] at htext
    rw [htext, if_neg hne]

end Trim

/-! ## Headers -/

/-- **The header of an event handler** in a source text: `on TYPE:P {`, at a position of it. The
pattern is one line, in which no comment, text or block begins. -/
structure EventHeader (source : Str) where
  before : Str
  gap : Str
  type : Str
  pattern : Str
  behind : Str
  source_eq : source = before ++ ("on".toList ++ (gap ++ (type ++ ':' :: (pattern ++ '\x7b' :: behind))))
  gap_ne_nil : gap ≠ []
  gap_blank : ∀ c ∈ gap, isBlank c = true
  type_start : type.head?.any isIdentStart = true
  type_continue : ∀ c ∈ type, isIdentContinue c = true
  line : ∀ c ∈ pattern, endsText c = false

namespace EventHeader

variable {source : Str} (header : EventHeader source)

def start : ℕ := (utf8 header.before).length

def beforePattern : Str := header.before ++ "on".toList ++ header.gap ++ header.type ++ [':']

def patternStart : ℕ := (utf8 header.beforePattern).length

def patternStop : ℕ := header.patternStart + (utf8 header.pattern).length

/-- **The pattern is one that is kept**: it is there, has no blanks inside, and its integers are
written as their values would be. -/
def Verbatim (tokens : List (Token F)) : Prop :=
  Server.trim header.pattern ≠ [] ∧ (∀ c ∈ Server.trim header.pattern, isBlank c = false) ∧
    ∀ t ∈ tokens, header.patternStart ≤ t.span.offset → t.span.offset < header.patternStop →
      t.Canonical source

theorem text_pattern :
    Cursor.text ⟨header.beforePattern, header.pattern ++ '\x7b' :: header.behind⟩ = source := by
  conv_rhs => rw [header.source_eq]
  simp [Cursor.text, beforePattern]

end EventHeader

section Headers

variable [Numerals F]

theorem readToken_identifier {c : Char} (hc : isIdentStart c = true) (rest : Str) :
    readToken (F := F) (c :: rest) =
      some ((TokenKind.keyword ((c :: rest).takeWhile isIdentContinue)).getD
        (.identifier ((c :: rest).takeWhile isIdentContinue)),
            ((c :: rest).takeWhile isIdentContinue).length) := by
  have hne : ∀ {d : Char}, isIdentStart d = false → c ≠ d := by
    rintro d hd rfl
    rw [hc] at hd
    cases hd
  rw [readToken, asciiOnly_of_lt (isIdentStart_ascii hc)]
  dsimp only [readAt]
  rw [if_neg (hne (by decide)), if_neg (hne (by decide)), if_neg (hne (by decide)),
    if_neg (hne (by decide)),
    if_neg fun h => hne (by decide) h.1, if_neg fun h => hne (by decide) h.1,
    if_neg fun h => hne (by decide) h.1,
      if_neg (by rw [not_isDigit_of_isIdentStart hc]; exact Bool.false_ne_true),
    if_pos hc]

theorem readToken_name {name behind : Str} (hstart : name.head?.any isIdentStart = true)
    (hname : ∀ c ∈ name, isIdentContinue c = true) (hbehind : behind.head?.any isIdentContinue = false) :
    readToken (F := F) (name ++ behind) =
      some ((TokenKind.keyword name).getD (.identifier name), name.length) := by
  have htext : (name ++ behind).takeWhile isIdentContinue = name := by
    rw [List.takeWhile_append_of_pos hname]
    cases behind with
    | nil => exact List.append_nil _
    | cons d behind =>
      have hd : ¬ isIdentContinue d = true := by
        rw [Bool.not_eq_true]
        exact hbehind
      rw [List.takeWhile_cons_of_neg hd, List.append_nil]
  cases name with
  | nil => cases hstart
  | cons c name =>
    have hread := readToken_identifier (F := F) (c := c) hstart (name ++ behind)
    rw [← List.cons_append, htext] at hread
    exact hread

/-- **The next token**, behind blanks. -/
theorem Tiling.next {c : Cursor} {tokens : List (Token F)} (h : Tiling c tokens) {gap part behind : Str}
    {kind : TokenKind F} (hrest : c.rest = gap ++ (part ++ behind)) (hgap : ∀ d ∈ gap, isBlank d = true)
    (hpart : part.head?.any isBlank = false) (hne : part ≠ [])
    (hread : readToken (part ++ behind) = some (kind, part.length)) :
    ∃ more, tokens = ⟨kind, ⟨(utf8 (c.before ++ gap)).length, (utf8 part).length⟩⟩ :: more ∧
      Tiling ⟨c.before ++ gap ++ part, behind⟩ more := by
  have hblanks : blanks c.rest = gap := by
    obtain ⟨d, part, rfl⟩ := List.exists_cons_of_ne_nil hne
    have hd : ¬ isBlank d = true := by
      rw [Bool.not_eq_true]
      exact hpart
    rw [hrest]
    exact (List.takeWhile_append_of_pos hgap).trans (by
      rw [List.cons_append, List.takeWhile_cons_of_neg hd, List.append_nil])
  have hstart : c.forward (blanks c.rest).length = ⟨c.before ++ gap, part ++ behind⟩ := by
    rw [hblanks]
    exact c.forward_length hrest
  cases h with
  | eof hblank =>
    rw [hblanks, hrest, List.drop_left] at hblank
    exact absurd (List.append_eq_nil_iff.mp hblank).1 hne
  | @token _ k more hrest' hread' h =>
    rw [hstart] at hread' h
    obtain rfl := Option.some.inj (hread.symm.trans hread')
    have hbehind : (Cursor.mk (c.before ++ gap) (part ++ behind)).forward part.length =
        ⟨c.before ++ gap ++ part, behind⟩ := Cursor.forward_length _ rfl
    rw [hbehind] at h
    refine ⟨more, ?_, h⟩
    rw [hstart, Lexer.tokenAt, Cursor.width, List.take_left]
    rfl

/-- **The tokens of a header**: those before the pattern, those of the pattern, and the brace. -/
theorem EventHeader.tokens {source : Str} (header : EventHeader source) {c : Cursor}
    {tokens : List (Token F)} {t : Token F} (h : Tiling c (t :: tokens)) (hsource : c.text = source)
    (ht : t.kind.isEof = false) (hstart : t.span.offset = header.start) :
    ∃ on type colon inside brace post, t :: tokens = on :: type :: colon :: (inside ++ brace :: post) ∧
      (on.kind.isEof = false ∧ type.kind.isEof = false ∧ brace.kind.isEof = false) ∧
      (colon.kind = .colon ∧ colon.span.length = 1 ∧ colon.span.finish = header.patternStart) ∧
      (brace.kind.endsPattern = true ∧ brace.span.offset = header.patternStop) ∧
      Pieces source inside header.pattern := by
  obtain ⟨k, -, hk, -⟩ := h.head ht
  have hcursor : c.forward (blanks c.rest).length =
      ⟨header.before, "on".toList ++ (header.gap ++ (header.type ++
      ':' :: (header.pattern ++ '\x7b' :: header.behind)))⟩ := by
    refine Cursor.eq_of_offset_eq ?_ ?_
    · rw [c.text_forward, hsource]
      exact header.source_eq
    · rw [hk] at hstart
      exact hstart
  have hbefore : c.before ++ c.rest.take (blanks c.rest).length = header.before :=
    congrArg Cursor.before hcursor
  have hdrop : c.rest.drop (blanks c.rest).length = "on".toList ++ (header.gap ++ (header.type ++
      ':' :: (header.pattern ++ '\x7b' :: header.behind))) := congrArg Cursor.rest hcursor
  have hrest := blanks_append_drop c.rest
  rw [take_blanks] at hbefore
  rw [hdrop] at hrest
  have hgap : ∀ d ∈ blanks c.rest, isBlank d = true := fun d hd => isBlank_iff.mpr (mem_blanks hd)
  obtain ⟨d, gap, hd⟩ := List.exists_cons_of_ne_nil header.gap_ne_nil
  have hends : (header.gap ++ (header.type ++ ':' ::
      (header.pattern ++ '\x7b' :: header.behind))).head?.any isIdentContinue = false := by
    rw [hd]
    rcases isBlank_iff.mp (header.gap_blank d (hd ▸ List.mem_cons_self)) with rfl | rfl
    · rfl
    · rfl
  obtain ⟨a, name, ha⟩ : ∃ a name, header.type = a :: name := by
    cases htype : header.type with
    | nil =>
      have hname := header.type_start
      rw [htype] at hname
      cases hname
    | cons a name => exact ⟨a, name, rfl⟩
  have hname : header.type.head?.any isBlank = false := by
    rw [ha]
    exact isBlank_eq_false (isPlain_of_isIdentContinue (header.type_continue a (ha ▸ List.mem_cons_self)))
  obtain ⟨more, htokens, hmore⟩ := h.next hrest.symm hgap (by decide) (by decide)
    (readToken_name (by decide) (List.forall_iff_forall_mem.mp (by decide)) hends)
  obtain ⟨more', htokens', hmore'⟩ := hmore.next rfl header.gap_blank hname (ha ▸ List.cons_ne_nil _ _)
    (readToken_name header.type_start header.type_continue (by rfl))
  have hcolon : readToken (F := F) ([':'] ++ (header.pattern ++ '\x7b' :: header.behind)) =
      some (.colon, 1) :=
    rfl
  obtain ⟨more'', htokens'', hmore''⟩ := hmore'.next (List.nil_append _).symm
    (List.forall_mem_nil _) (by decide) (by decide) hcolon
  rw [hbefore, List.append_nil] at htokens''
  rw [hbefore, List.append_nil] at hmore''
  change Tiling ⟨header.beforePattern, header.pattern ++ '\x7b' :: header.behind⟩ more'' at hmore''
  obtain ⟨inside, brace, post, hinside, hproper, hbrace, hoffset, hpieces⟩ := hmore''.pieces rfl header.line
  rw [header.text_pattern] at hpieces
  rw [htokens, htokens', htokens'', hinside]
  refine ⟨_, _, _, inside, brace, post, rfl, ⟨rfl, ?_, hproper⟩, ⟨rfl, rfl, ?_⟩, ⟨hbrace, hoffset⟩, hpieces⟩
  · cases hkeyword : TokenKind.keyword (F := F) header.type with
    | none => rfl
    | some kind => exact keyword_isEof _ kind hkeyword
  · rw [EventHeader.patternStart, EventHeader.beforePattern, utf8_append _ [':'], List.length_append]
    rfl

end Headers

/-! ## The patterns of handlers -/

theorem cons_of_append_singleton {α : Type} {x l : List α} {a e : α} (h : x ++ [e] = a :: l)
    (hne : a ≠ e) : x = a :: x.tail ∧ x.tail ++ [e] = l := by
  cases x with
  | nil => exact absurd (List.cons.inj h).1.symm hne
  | cons b x =>
    obtain ⟨rfl, hl⟩ := List.cons.inj h
    exact ⟨rfl, hl⟩

theorem EventHeader.canonical_iff [Numerals F] {source : Str} (header : EventHeader source)
    {before inside post : List (Token F)} {on type colon brace : Token F}
    (h : Tiles source (before ++ on :: type :: colon :: (inside ++ brace :: post)))
    (hcolon : colon.kind = .colon) (hstart : colon.span.finish = header.patternStart)
    (hstop : brace.span.offset = header.patternStop) :
    (∀ t ∈ before ++ on :: type :: colon :: (inside ++ brace :: post),
      header.patternStart ≤ t.span.offset → t.span.offset < header.patternStop → t.Canonical source) ↔
      ∀ t ∈ inside, t.Canonical source := by
  obtain ⟨-, htail, hcross⟩ := List.pairwise_append.mp h.increasing
  obtain ⟨hon, htail⟩ := List.pairwise_cons.mp htail
  obtain ⟨htype, htail⟩ := List.pairwise_cons.mp htail
  obtain ⟨-, htail⟩ := List.pairwise_cons.mp htail
  obtain ⟨-, hpost, hinside⟩ := List.pairwise_append.mp htail
  obtain ⟨hpost, -⟩ := List.pairwise_cons.mp hpost
  obtain ⟨-, hdisjoint, -⟩ := List.pairwise_append.mp h.disjoint
  obtain ⟨hbehind, -⟩ := List.pairwise_cons.mp (List.pairwise_cons.mp (List.pairwise_cons.mp hdisjoint).2).2
  have hlength : 0 < colon.span.length := by
    refine h.nonempty colon (by simp) ?_
    rw [hcolon]
    rfl
  have hearly : ∀ t : Token F, t.span.offset ≤ colon.span.offset →
      ¬ header.patternStart ≤ t.span.offset := by
    intro t ht hle
    rw [← hstart, Span.finish] at hle
    omega
  constructor
  · intro hall t ht
    refine hall t (by simp [ht]) ?_ ?_
    · exact hstart ▸ hbehind t (List.mem_append_left _ ht)
    · exact hstop ▸ hinside t ht brace List.mem_cons_self
  · intro hall t ht hle hlt
    rcases List.mem_append.mp ht with hbefore | ht
    · exact absurd hle (hearly t (hcross t hbefore colon (by simp)).le)
    rcases List.mem_cons.mp ht with rfl | ht
    · exact absurd hle (hearly t (hon colon (by simp)).le)
    rcases List.mem_cons.mp ht with rfl | ht
    · exact absurd hle (hearly t (htype colon (by simp)).le)
    rcases List.mem_cons.mp ht with rfl | ht
    · exact absurd hle (hearly t le_rfl)
    rcases List.mem_append.mp ht with hin | ht
    · exact hall t hin
    rcases List.mem_cons.mp ht with rfl | ht
    · exact absurd (hstop ▸ hlt) (Nat.lt_irrefl _)
    · exact absurd (hstop ▸ hlt) (Nat.lt_asymm (hpost t ht))

theorem Parser.exists_currentSpan {p : Parser F} {eof : Token F} (heof : p.eof = eof.span) :
    ∃ t ∈ p.tokens ++ [eof], p.currentSpan = t.span := by
  unfold Parser.currentSpan
  cases p.tokens with
  | nil => exact ⟨eof, List.mem_cons_self, heof⟩
  | cons t tokens => exact ⟨t, List.mem_cons_self, rfl⟩

/-- **Which handlers have the pattern that is written.** -/
theorem pattern_eq_iff [Numerals F] {source : Str} {tokens : List (Token F)} {script : Script F}
    {q : Parser F} (htokens : tokenize source = .ok tokens)
    (hscript : Returns parse (Parser.new tokens source) script q) {e : EventHandler F}
    (he : .event e ∈ script.items) (header : EventHeader source) (hstart : header.start = e.span.offset) :
    e.pattern = Server.trim header.pattern ↔ header.Verbatim tokens := by
  have htiling := tiling_of_tokenize htokens
  obtain ⟨front, hfront, -⟩ := htiling.last
  obtain ⟨p, _, hlater, hon, hread⟩ := exists_parseEvent hscript he
  obtain ⟨⟨name, hname⟩, hpattern, r, hr, hspan⟩ := returns_parseEvent hread
  obtain ⟨before, hbefore⟩ := hlater.tokens
  set eof : Token F := ⟨.eof, ⟨(utf8 source).length, 0⟩⟩ with heof
  replace hfront : tokens = front ++ [eof] := hfront
  have hsource : p.source = source := hlater.source
  have hend : p.eof = eof.span := by
    rw [hlater.eof, Parser.new, hfront]
    simp
  have hsplit : tokens = before ++ (p.tokens ++ [eof]) := by
    rw [← List.append_assoc, hbefore, hfront, Parser.new]
    simp
  -- The parser is at the keyword that the header begins with.
  obtain ⟨t, rest, ht⟩ : ∃ t rest, p.tokens = t :: rest := by
    cases hcase : p.tokens with
    | nil =>
      rw [Parser.peekKind, hcase] at hon
      cases hon
    | cons t rest => exact ⟨t, rest, rfl⟩
  have hkind : t.kind = .on := by
    rwa [Parser.peekKind, ht] at hon
  rw [hsplit, ht] at htiling
  obtain ⟨c, hc, htail⟩ := htiling.drop
  have hoffset : e.span.offset = t.span.offset := by
    obtain ⟨u, hu, hcurrent⟩ := Parser.exists_currentSpan (hr.eof.trans hend)
    have hmem : u ∈ t :: (rest ++ [eof]) := by
      rw [← List.cons_append, ← ht]
      exact (List.mem_append.mp hu).elim (fun h => List.mem_append_left _ (hr.tokens.subset h))
        (List.mem_append_right _)
    have hle : t.span.offset ≤ u.span.offset := by
      rcases List.mem_cons.mp hmem with rfl | hlater
      · exact le_rfl
      · exact ((List.pairwise_cons.mp htail.increasing).1 u hlater).le
    rw [hspan, hcurrent, Parser.currentSpan, ht]
    exact Nat.min_eq_left hle
  obtain ⟨on, type, colon, inside, brace, post, hheader, ⟨honEof, htypeEof, -⟩,
    ⟨hcolon, -, hpatternStart⟩, ⟨hbrace, hpatternStop⟩, hpieces⟩ :=
      header.tokens htail hc (by rw [hkind]; rfl) (hoffset.symm.trans hstart.symm)
  have hne : ∀ {u : Token F}, u.kind.isEof = false → u ≠ eof := by
    rintro u hu rfl
    cases hu
  replace hheader : p.tokens ++ [eof] = on :: type :: colon :: (inside ++ brace :: post) := by
    rw [ht]
    exact hheader
  obtain ⟨hon', htokens₁⟩ := cons_of_append_singleton hheader (hne honEof)
  obtain ⟨htype', htokens₂⟩ := cons_of_append_singleton htokens₁ (hne htypeEof)
  obtain ⟨hcolon', htokens₃⟩ := cons_of_append_singleton htokens₂ (hne (by rw [hcolon]; rfl))
  -- The pattern is put together from the tokens up to the brace.
  have hpeek : p.next.next.peekKind = .colon := by
    rw [Parser.peekKind, show p.next.next.tokens = _ from hcolon']
    exact hcolon
  obtain ⟨r', hr'⟩ := hpattern (decide_eq_true (congrArg TokenKind.ctorIdx hpeek))
  obtain ⟨texts, htexts, hpatternOf, -⟩ := returns_parsePattern.mp hr'
  have hinside : p.next.next.next.tokens.takeWhile (!·.kind.endsPattern) = inside := by
    have hall : ∀ u ∈ inside, (!u.kind.endsPattern) = true :=
      fun u hu => by rw [hpieces.continues u hu]; rfl
    have hstop : (inside ++ brace :: post).takeWhile (!·.kind.endsPattern) = inside := by
      rw [List.takeWhile_append_of_pos hall, List.takeWhile_cons_of_neg (by rw [hbrace]; decide),
        List.append_nil]
    rw [← htokens₃, List.takeWhile_append] at hstop
    split_ifs at hstop with hwhole
    · rw [List.takeWhile_cons_of_neg Bool.false_ne_true, List.append_nil] at hstop
      exact ((List.takeWhile_prefix _).eq_of_length hwhole).trans hstop
    · exact hstop
  obtain ⟨texts', htexts', htext⟩ := hpieces.patternText
  rw [hinside, show p.next.next.next.source = source from hsource, htexts'] at htexts
  cases htexts
  have htiles := (tiling_of_tokenize htokens).tiles
  rw [hsplit, hheader] at htiles
  have hcanonical := header.canonical_iff htiles hcolon hpatternStart hpatternStop
  rw [hpatternOf, htext.patternOf_eq_iff hpieces.blank_of_isWhitespace, EventHeader.Verbatim,
    hsplit, hheader, hcanonical]

local instance patternNumerals : Numerals Unit := wholeNumerals

/-! ## Two handlers -/

section Greetings

def greetingScript (pattern : Str) (length : ℕ) : Script Unit :=
  ⟨[.event ⟨.text, pattern, [], ⟨0, length⟩⟩], ⟨0, length⟩⟩

def greetingHeader : EventHeader "on TEXT:*hi* \x7b\x7d".toList where
  before := []
  gap := [' ']
  type := "TEXT".toList
  pattern := "*hi* ".toList
  behind := ['\x7d']
  source_eq := rfl
  gap_ne_nil := by decide
  gap_blank := List.forall_iff_forall_mem.mp (by decide)
  type_start := by decide
  type_continue := List.forall_iff_forall_mem.mp (by decide)
  line := List.forall_iff_forall_mem.mp (by decide)

def greetingTokens : List (Token Unit) :=
  [⟨.on, ⟨0, 2⟩⟩, ⟨.identifier "TEXT".toList, ⟨3, 4⟩⟩, ⟨.colon, ⟨7, 1⟩⟩, ⟨.star, ⟨8, 1⟩⟩,
    ⟨.identifier "hi".toList, ⟨9, 2⟩⟩, ⟨.star, ⟨11, 1⟩⟩, ⟨.leftBrace, ⟨13, 1⟩⟩, ⟨.rightBrace, ⟨14, 1⟩⟩,
    ⟨.eof, ⟨15, 0⟩⟩]

/-- The greeting is for a pattern that is kept. -/
theorem greeting_pattern :
    "*hi*".toList = Server.trim greetingHeader.pattern := by
  have htokens : tokenize "on TEXT:*hi* {}".toList = .ok greetingTokens := by decide +kernel
  have hscript : Returns parse (Parser.new greetingTokens "on TEXT:*hi* {}".toList)
      (greetingScript "*hi*".toList 15) ⟨"on TEXT:*hi* {}".toList, [], ⟨15, 0⟩⟩ := rfl
  have hverbatim : greetingHeader.Verbatim greetingTokens := by
    refine ⟨by decide +kernel, List.forall_iff_forall_mem.mp (by decide +kernel), ?_⟩
    intro t ht _ _ n hn
    fin_cases ht <;> cases hn
  exact (pattern_eq_iff htokens hscript (List.mem_singleton_self _) greetingHeader rfl).mpr hverbatim

def wordsHeader : EventHeader "on TEXT:hello world \x7b\x7d".toList where
  before := []
  gap := [' ']
  type := "TEXT".toList
  pattern := "hello world ".toList
  behind := ['\x7d']
  source_eq := rfl
  gap_ne_nil := by decide
  gap_blank := List.forall_iff_forall_mem.mp (by decide)
  type_start := by decide
  type_continue := List.forall_iff_forall_mem.mp (by decide)
  line := List.forall_iff_forall_mem.mp (by decide)

/-- The blank between two words is lost. -/
theorem words_joined :
    ∃ (tokens : List (Token Unit)) (script : Script Unit) (q : Parser Unit) (e : EventHandler Unit),
      tokenize "on TEXT:hello world \x7b\x7d".toList = .ok tokens ∧
        Returns parse (Parser.new tokens "on TEXT:hello world \x7b\x7d".toList) script q ∧
          .event e ∈ script.items ∧ wordsHeader.start = e.span.offset ∧
            e.pattern = "helloworld".toList ∧ e.pattern ≠ Server.trim wordsHeader.pattern := by
  let tokens : List (Token Unit) :=
    [⟨.on, ⟨0, 2⟩⟩, ⟨.identifier "TEXT".toList, ⟨3, 4⟩⟩, ⟨.colon, ⟨7, 1⟩⟩,
      ⟨.identifier "hello".toList, ⟨8, 5⟩⟩,
      ⟨.identifier "world".toList, ⟨14, 5⟩⟩, ⟨.leftBrace, ⟨20, 1⟩⟩, ⟨.rightBrace, ⟨21, 1⟩⟩, ⟨.eof, ⟨22, 0⟩⟩]
  exact ⟨tokens, greetingScript "helloworld".toList 22, _, _, by decide +kernel, rfl,
    List.mem_singleton_self _, rfl, rfl, by decide⟩

end Greetings

end Pirc.Scripting
