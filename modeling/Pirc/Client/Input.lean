import Pirc.Lib.Utf8

/-!
# Client: keys

`tui/input.rs`: what the terminal sends is read into a buffer, and a key is parsed from its
beginning. The buffer is cleared after that, whatever it held beyond the key.
-/

namespace Pirc.Client.Input

/-! ## Events -/

inductive KeyEvent
  | char (c : Char)
  | enter
  | backspace
  | delete
  | tab
  | backTab
  | up
  | down
  | left
  | right
  | home
  | end_
  | pageUp
  | pageDown
  | escape
  | ctrl (c : Char)
  | resize (cols rows : UInt16)
  | unknown (bytes : List UInt8)
  deriving DecidableEq

/-! ## Parsing -/

def esc : UInt8 := 0x1b

def isDigit (b : UInt8) : Bool := 0x30 ≤ b ∧ b ≤ 0x39

def number (digits : List UInt8) : ℕ :=
  digits.foldl (fun acc b => min (min (acc * 10) 65535 + (b - 0x30).toNat) 65535) 0

/-- How many bytes a character has, by its first one. -/
def expectedLen (b : UInt8) : Option ℕ :=
  if 0xC0 ≤ b ∧ b ≤ 0xDF then some 2
  else if 0xE0 ≤ b ∧ b ≤ 0xEF then some 3
  else if 0xF0 ≤ b ∧ b ≤ 0xF7 then some 4
  else none

def parseUtf8 (buf : List UInt8) : KeyEvent :=
  match buf.head?.bind expectedLen with
  | none => .unknown buf
  | some n =>
    if buf.length < n then .unknown buf
    else
      match fromUtf8? (buf.take n) with
      | some (c :: _) => .char c
      | some [] | none => .unknown (buf.take n)

/-- The key that a letter stands for at the end of a sequence. -/
def arrow (b : UInt8) : Option KeyEvent :=
  if b = asciiByte 'A' then some .up
  else if b = asciiByte 'B' then some .down
  else if b = asciiByte 'C' then some .right
  else if b = asciiByte 'D' then some .left
  else if b = asciiByte 'H' then some .home
  else if b = asciiByte 'F' then some .end_
  else none

def special : ℕ → Option KeyEvent
  | 1 => some .home
  | 3 => some .delete
  | 4 => some .end_
  | 5 => some .pageUp
  | 6 => some .pageDown
  | 7 => some .home
  | 8 => some .end_
  | _ => none

def parseCsiNumbered (buf : List UInt8) : KeyEvent :=
  let params := buf.drop 2
  match (params.dropWhile fun b => b = asciiByte ';' || isDigit b).head? with
  | none => .unknown buf
  | some finalByte =>
    let num := number ((params.takeWhile fun b => b = asciiByte ';' || isDigit b).takeWhile isDigit)
    if finalByte = asciiByte '~' then (special num).getD (.unknown buf)
    else (arrow finalByte).getD (.unknown buf)

def parseCsiSequence (buf : List UInt8) : KeyEvent :=
  match buf[2]? with
  | none => .unknown buf
  | some b =>
    match arrow b with
    | some event => event
    | none =>
      if b = asciiByte 'Z' then .backTab
      else if 0x31 ≤ b ∧ b ≤ 0x39 then parseCsiNumbered buf
      else .unknown buf

def parseSs3Sequence (buf : List UInt8) : KeyEvent :=
  match buf[2]? with
  | none => .unknown buf
  | some b => (arrow b).getD (.unknown buf)

def parseEscapeSequence (buf : List UInt8) : KeyEvent :=
  match buf[1]? with
  | none => .escape
  | some b =>
    if b = asciiByte '[' then parseCsiSequence buf
    else if b = asciiByte 'O' then parseSs3Sequence buf
    else .unknown buf

/-- **The key at the beginning of the buffer.** -/
def parseKeyEvent (buf : List UInt8) : KeyEvent :=
  match buf.head? with
  | none => .unknown []
  | some b =>
    if 0x01 ≤ b ∧ b ≤ 0x07 ∨ 0x0b ≤ b ∧ b ≤ 0x0c ∨ 0x0e ≤ b ∧ b ≤ 0x1a then
      .ctrl (Char.ofNat (b + asciiByte 'a' - 1).toNat)
    else if b = 0x08 then .backspace
    else if b = 0x09 then .tab
    else if b = 0x0a then .ctrl 'j'
    else if b = 0x0d then .enter
    else if b = esc then parseEscapeSequence buf
    else if b = 0x7f then .backspace
    else if 0x20 ≤ b ∧ b ≤ 0x7e then .char (Char.ofNat b.toNat)
    else parseUtf8 buf

/-! ## Reading -/

/-- What a reader finds when it polls: nothing, that the window has a new size, if it can be told,
or what a read gives. -/
inductive Poll
  | nothing
  | resize (size : Option (UInt16 × UInt16))
  | input (bytes : List UInt8)

structure InputReader where
  buf : List UInt8 := []

namespace InputReader

def readBytes (_reader : InputReader) (bytes : List UInt8) : InputReader := { buf := bytes }

def parseEvent (reader : InputReader) : KeyEvent × InputReader :=
  (parseKeyEvent reader.buf, { buf := [] })

/-- **The next event**, if there is one. -/
def pollEvent (reader : InputReader) : Poll → Option KeyEvent × InputReader
  | .nothing => (none, reader)
  | .resize size => (size.map fun (cols, rows) => .resize cols rows, reader)
  | .input bytes =>
    let reader := reader.readBytes bytes
    if reader.buf.isEmpty then (none, reader)
    else
      let (event, reader) := reader.parseEvent
      (some event, reader)

def pollEvents (reader : InputReader) : List Poll → List KeyEvent
  | [] => []
  | poll :: polls =>
    let (event, reader) := reader.pollEvent poll
    event.toList ++ reader.pollEvents polls

end InputReader

/-! ## Keys -/

inductive Arrow
  | up | down | right | left | home | end_
  deriving DecidableEq

def Arrow.letter : Arrow → Char
  | up => 'A'
  | down => 'B'
  | right => 'C'
  | left => 'D'
  | home => 'H'
  | end_ => 'F'

def Arrow.event : Arrow → KeyEvent
  | up => .up
  | down => .down
  | right => .right
  | left => .left
  | home => .home
  | end_ => .end_

/-- The numbers of a sequence: digits and semicolons, of which the first is a digit but `0`. -/
structure Params where
  bytes : List UInt8
  first : ∃ b ∈ bytes.head?, 0x31 ≤ b ∧ b ≤ 0x39
  params : ∀ b ∈ bytes, (b = asciiByte ';' || isDigit b) = true

def Params.number (p : Params) : ℕ := Input.number (p.bytes.takeWhile isDigit)

def Printable (c : Char) : Prop := 0x20 ≤ c.val ∧ c.val ≠ 0x7f

instance : DecidablePred Printable := fun _ => inferInstanceAs (Decidable (_ ∧ _))

def IsControl (b : UInt8) : Prop := b < 0x20 ∨ b = 0x7f

/-- **Keys**: characters, control characters, and the sequences that the parser knows. -/
inductive Key
  | char (c : Char) (printable : Printable c)
  | control (b : UInt8) (control : IsControl b)
  | csi (a : Arrow)
  | backTab
  | modified (p : Params) (a : Arrow)
  | special (p : Params) (event : KeyEvent) (known : Input.special p.number = some event)
  | ss3 (a : Arrow)

/-- What a control character stands for; those that have no meaning stand for themselves. -/
def controlEvent (b : UInt8) : KeyEvent :=
  if b = 0x08 ∨ b = 0x7f then .backspace
  else if b = 0x09 then .tab
  else if b = 0x0d then .enter
  else if b = esc then .escape
  else if 0x01 ≤ b ∧ b ≤ 0x1a then .ctrl (Char.ofNat (b.toNat + 96))
  else .unknown [b]

namespace Key

def encode : Key → List UInt8
  | char c _ => String.utf8EncodeChar c
  | control b _ => [b]
  | csi a => [esc, asciiByte '[', asciiByte a.letter]
  | backTab => [esc, asciiByte '[', asciiByte 'Z']
  | modified p a => esc :: asciiByte '[' :: (p.bytes ++ [asciiByte a.letter])
  | special p _ _ => esc :: asciiByte '[' :: (p.bytes ++ [asciiByte '~'])
  | ss3 a => [esc, asciiByte 'O', asciiByte a.letter]

def event : Key → KeyEvent
  | char c _ => .char c
  | control b _ => controlEvent b
  | csi a | modified _ a | ss3 a => a.event
  | backTab => .backTab
  | special _ event _ => event

end Key

/-! ## The bytes of a key are parsed as its event -/

theorem arrow_letter (a : Arrow) : arrow (asciiByte a.letter) = some a.event := by
  cases a <;> decide

theorem letter_not_param (a : Arrow) :
    (asciiByte a.letter = asciiByte ';' || isDigit (asciiByte a.letter)) = false := by
  cases a <;> decide

theorem letter_ne_tilde (a : Arrow) : asciiByte a.letter ≠ asciiByte '~' := by
  cases a <;> decide

theorem parseKeyEvent_control {b : UInt8} (h : IsControl b) : parseKeyEvent [b] = controlEvent b := by
  have hall : ∀ n : Fin 32, parseKeyEvent [UInt8.ofNat n] = controlEvent (UInt8.ofNat n) := by decide
  rcases h with hlt | rfl
  · have hn := hall ⟨b.toNat, UInt8.lt_iff_toNat_lt.mp hlt⟩
    rwa [UInt8.ofNat_toNat] at hn
  · decide

theorem parseKeyEvent_of_ge {b : UInt8} {rest : List UInt8} (hge : 0x20 ≤ b) (hne : b ≠ 0x7f) :
    parseKeyEvent (b :: rest) =
      if b ≤ 0x7e then .char (Char.ofNat b.toNat) else parseUtf8 (b :: rest) := by
  have hnat : 32 ≤ b.toNat := UInt8.le_iff_toNat_le.mp hge
  have hfirst : ¬ (0x01 ≤ b ∧ b ≤ 0x07 ∨ 0x0b ≤ b ∧ b ≤ 0x0c ∨ 0x0e ≤ b ∧ b ≤ 0x1a) := by
    simp only [UInt8.le_iff_toNat_le, UInt8.reduceToNat]
    omega
  have hsmall : ∀ {x : UInt8}, x.toNat < 32 → b ≠ x := by
    rintro x hx rfl
    omega
  rw [parseKeyEvent, List.head?_cons]
  dsimp only
  rw [if_neg hfirst, if_neg (hsmall (by decide)), if_neg (hsmall (by decide)),
    if_neg (hsmall (by decide)), if_neg (hsmall (by decide)), if_neg (hsmall (by decide)), if_neg hne]
  simp only [hge, true_and]

/-- The first byte of a character of more bytes tells how many. -/
theorem expectedLen_encode {c : Char} (h : 127 < c.val) :
    ∃ b rest, String.utf8EncodeChar c = b :: rest ∧
      expectedLen b = some (String.utf8EncodeChar c).length := by
  have htwo : ∀ n : Fin 256, expectedLen (UInt8.ofNat n &&& 0x1f ||| 0xc0) = some 2 := by decide +kernel
  have hthree : ∀ n : Fin 256, expectedLen (UInt8.ofNat n &&& 0x0f ||| 0xe0) = some 3 := by decide +kernel
  have hfour : ∀ n : Fin 256, expectedLen (UInt8.ofNat n &&& 0x07 ||| 0xf0) = some 4 := by decide +kernel
  have hbyte : ∀ x : UInt8, ∃ n : Fin 256, x = UInt8.ofNat n :=
    fun x => ⟨⟨x.toNat, x.toNat_lt⟩, UInt8.ofNat_toNat.symm⟩
  have hone : c.utf8Size ≠ 1 := fun hone => absurd (Char.utf8Size_eq_one_iff.mp hone) (UInt32.not_le.mpr h)
  rcases c.utf8Size_eq with hsize | hsize | hsize | hsize
  · exact absurd hsize hone
  · obtain ⟨n, hn⟩ := hbyte (c.val >>> 6).toUInt8
    exact ⟨_, _, String.utf8EncodeChar_eq_cons_cons hsize, by
      rw [String.length_utf8EncodeChar, hsize, hn, htwo]⟩
  · obtain ⟨n, hn⟩ := hbyte (c.val >>> 12).toUInt8
    exact ⟨_, _, String.utf8EncodeChar_eq_cons_cons_cons hsize, by
      rw [String.length_utf8EncodeChar, hsize, hn, hthree]⟩
  · obtain ⟨n, hn⟩ := hbyte (c.val >>> 18).toUInt8
    exact ⟨_, _, String.utf8EncodeChar_eq_cons_cons_cons_cons hsize, by
      rw [String.length_utf8EncodeChar, hsize, hn, hfour]⟩

theorem le_of_expectedLen {b : UInt8} {n : ℕ} (h : expectedLen b = some n) : 0xC0 ≤ b := by
  unfold expectedLen at h
  split_ifs at h with h2 h3 h4
  · exact h2.1
  · exact UInt8.le_trans (by decide) h3.1
  · exact UInt8.le_trans (by decide) h4.1

theorem parseKeyEvent_char {c : Char} (h : Printable c) :
    parseKeyEvent (String.utf8EncodeChar c) = .char c := by
  by_cases hascii : c.val.toNat < 128
  · rw [utf8EncodeChar_of_ascii hascii]
    have hnat : (UInt8.ofNat c.val.toNat).toNat = c.val.toNat := by
      rw [UInt8.toNat_ofNat']
      omega
    have hge : 0x20 ≤ UInt8.ofNat c.val.toNat := by
      rw [UInt8.le_iff_toNat_le, hnat]
      exact UInt32.le_iff_toNat_le.mp h.1
    have hdel : c.val.toNat ≠ 127 := fun heq => h.2 (UInt32.toNat_inj.mp heq)
    have hne : UInt8.ofNat c.val.toNat ≠ 0x7f := by
      intro heq
      have := congrArg UInt8.toNat heq
      rw [hnat] at this
      exact hdel this
    have hle : UInt8.ofNat c.val.toNat ≤ 0x7e := by
      rw [UInt8.le_iff_toNat_le, hnat]
      show c.val.toNat ≤ 126
      omega
    rw [parseKeyEvent_of_ge hge hne, if_pos hle, hnat]
    exact congrArg KeyEvent.char (Char.ofNat_toNat c)
  · have hval : 127 < c.val := by
      rw [UInt32.lt_iff_toNat_lt]
      show 127 < c.val.toNat
      omega
    obtain ⟨b, rest, hbytes, hlen⟩ := expectedLen_encode hval
    have hge := le_of_expectedLen hlen
    have hnat : 0xC0 ≤ b.toNat := UInt8.le_iff_toNat_le.mp hge
    have hne : b ≠ 0x7f := by
      rintro rfl
      exact absurd hge (by decide)
    have hle : ¬ b ≤ 0x7e := by
      rw [UInt8.le_iff_toNat_le]
      show ¬ b.toNat ≤ 126
      omega
    have hchar : fromUtf8? (String.utf8EncodeChar c) = some [c] := by
      have hutf8 := fromUtf8?_utf8 [c]
      rwa [utf8_cons, utf8_nil, List.append_nil] at hutf8
    have hparse : parseKeyEvent (b :: rest) = parseUtf8 (b :: rest) := by
      rw [parseKeyEvent_of_ge (UInt8.le_trans (by decide) hge) hne, if_neg hle]
    rw [← hbytes] at hparse
    rw [hparse, parseUtf8, hbytes, List.head?_cons, Option.bind_some, hlen, ← hbytes]
    dsimp only
    rw [if_neg (Nat.lt_irrefl _), List.take_length, hchar]

theorem parseKeyEvent_params (p : Params) {final : UInt8}
    (hfinal : (final = asciiByte ';' || isDigit final) = false) :
    let buf := esc :: asciiByte '[' :: (p.bytes ++ [final])
    parseKeyEvent buf =
      if final = asciiByte '~' then (special p.number).getD (.unknown buf)
      else (arrow final).getD (.unknown buf) := by
  intro buf
  obtain ⟨first, hmem, hfirst⟩ := p.first
  obtain ⟨rest, hbytes⟩ : ∃ rest, p.bytes = first :: rest := by
    cases hp : p.bytes with
    | nil => simp [hp] at hmem
    | cons b rest =>
      rw [hp, List.head?_cons, Option.mem_some_iff] at hmem
      exact ⟨rest, hmem ▸ rfl⟩
  have hitem : buf[2]? = some first := by simp [buf, hbytes]
  have harrow : arrow first = none ∧ first ≠ asciiByte 'Z' := by
    have hle : first.toNat ≤ 0x39 := UInt8.le_iff_toNat_le.mp hfirst.2
    have hother : ∀ {x : UInt8}, 0x39 < x.toNat → first ≠ x := by
      rintro x hx rfl
      omega
    constructor
    · unfold arrow
      rw [if_neg (hother (by decide)), if_neg (hother (by decide)), if_neg (hother (by decide)),
        if_neg (hother (by decide)), if_neg (hother (by decide)), if_neg (hother (by decide))]
    · exact hother (by decide)
  have hnumbered : parseKeyEvent buf = parseCsiNumbered buf := by
    have hsequence : parseKeyEvent buf = parseCsiSequence buf := rfl
    rw [hsequence, parseCsiSequence, hitem]
    dsimp only
    rw [harrow.1]
    dsimp only
    rw [if_neg harrow.2, if_pos hfirst]
  have hdrop : (p.bytes ++ [final]).dropWhile (fun b => b = asciiByte ';' || isDigit b) = [final] := by
    rw [List.dropWhile_append_of_pos p.params, List.dropWhile_cons, hfinal]
    rfl
  have htake : (p.bytes ++ [final]).takeWhile (fun b => b = asciiByte ';' || isDigit b) = p.bytes := by
    rw [List.takeWhile_append_of_pos p.params, List.takeWhile_cons, hfinal]
    simp
  have hparams : buf.drop 2 = p.bytes ++ [final] := rfl
  rw [hnumbered, parseCsiNumbered, hparams, hdrop, htake]
  rfl

/-- **The bytes of a key are parsed as its event.** -/
theorem parseKeyEvent_encode (k : Key) : parseKeyEvent k.encode = k.event := by
  cases k with
  | char c h => exact parseKeyEvent_char h
  | control b h => exact parseKeyEvent_control h
  | csi a => cases a <;> decide
  | backTab => decide
  | modified p a =>
    have hparse := parseKeyEvent_params p (letter_not_param a)
    dsimp only at hparse
    rw [if_neg (letter_ne_tilde a), arrow_letter] at hparse
    exact hparse
  | special p event hknown =>
    have htilde : (asciiByte '~' = asciiByte ';' || isDigit (asciiByte '~')) = false := by decide
    have hparse := parseKeyEvent_params p htilde
    dsimp only at hparse
    rw [if_pos rfl, hknown] at hparse
    exact hparse
  | ss3 a => cases a <;> decide

/-! ## What comes of what is typed -/

/-- Some keys that one read gives, with no more than 64 bytes. -/
structure Read where
  keys : List Key
  ne_nil : keys ≠ []
  le : (keys.flatMap Key.encode).length ≤ 64

/-- What happens at the terminal while a reader polls. -/
inductive TerminalEvent
  | timeout
  | resized (size : Option (UInt16 × UInt16))
  | typed (r : Read)

namespace TerminalEvent

def poll : TerminalEvent → Poll
  | timeout => .nothing
  | resized size => .resize size
  | typed r => .input (r.keys.flatMap Key.encode)

def read? : TerminalEvent → Option Read
  | typed r => some r
  | timeout | resized _ => none

end TerminalEvent

def KeyEvent.isKey : KeyEvent → Bool
  | resize _ _ => false
  | _ => true

/-- The events of keys that come of what happens at the terminal. -/
def keyEvents (events : List TerminalEvent) : List KeyEvent :=
  (InputReader.pollEvents {} (events.map TerminalEvent.poll)).filter KeyEvent.isKey

def typedKeys (events : List TerminalEvent) : List Key :=
  (events.filterMap TerminalEvent.read?).flatMap Read.keys

theorem isKey_arrow {b : UInt8} {event : KeyEvent} (h : arrow b = some event) : event.isKey = true := by
  unfold arrow at h
  split_ifs at h <;> cases h <;> rfl

theorem isKey_special {n : ℕ} {event : KeyEvent} (h : special n = some event) : event.isKey = true := by
  unfold special at h
  split at h <;> cases h <;> rfl

theorem isKey_getD {event : Option KeyEvent} (h : ∀ e, event = some e → e.isKey = true)
    (bytes : List UInt8) : (event.getD (.unknown bytes)).isKey = true := by
  cases event with
  | none => rfl
  | some e => exact h e rfl

theorem isKey_parseUtf8 (buf : List UInt8) : (parseUtf8 buf).isKey = true := by
  unfold parseUtf8
  split
  · rfl
  · split_ifs
    · rfl
    · split <;> rfl

theorem isKey_parseCsiNumbered (buf : List UInt8) : (parseCsiNumbered buf).isKey = true := by
  unfold parseCsiNumbered
  dsimp only
  split
  · rfl
  · split_ifs
    · exact isKey_getD (fun _ => isKey_special) buf
    · exact isKey_getD (fun _ => isKey_arrow) buf

theorem isKey_parseEscapeSequence (buf : List UInt8) : (parseEscapeSequence buf).isKey = true := by
  have hcsi : (parseCsiSequence buf).isKey = true := by
    unfold parseCsiSequence
    split
    · rfl
    · split
      · exact isKey_arrow ‹_›
      · split_ifs
        · rfl
        · exact isKey_parseCsiNumbered buf
        · rfl
  have hss3 : (parseSs3Sequence buf).isKey = true := by
    unfold parseSs3Sequence
    split
    · rfl
    · exact isKey_getD (fun _ => isKey_arrow) buf
  unfold parseEscapeSequence
  split
  · rfl
  · split_ifs
    · exact hcsi
    · exact hss3
    · rfl

theorem isKey_parseKeyEvent (buf : List UInt8) : (parseKeyEvent buf).isKey = true := by
  unfold parseKeyEvent
  split
  · rfl
  · split_ifs
    any_goals rfl
    · exact isKey_parseEscapeSequence buf
    · exact isKey_parseUtf8 buf

theorem encode_ne_nil (k : Key) : k.encode ≠ [] := by
  cases k with
  | char c _ => exact List.ne_nil_of_length_pos (length_utf8EncodeChar_pos c)
  | _ => exact List.cons_ne_nil _ _

/-- What is typed at once gives the event of what it begins with; nothing else gives events of
keys. -/
theorem keyEvents_eq (events : List TerminalEvent) :
    keyEvents events = (events.filterMap TerminalEvent.read?).map fun r =>
      parseKeyEvent (r.keys.flatMap Key.encode) := by
  have hreader : ∀ reader : InputReader,
      (reader.pollEvents (events.map TerminalEvent.poll)).filter KeyEvent.isKey =
        (events.filterMap TerminalEvent.read?).map fun r =>
          parseKeyEvent (r.keys.flatMap Key.encode) := by
    induction events with
    | nil => exact fun _ => rfl
    | cons event events ih =>
      intro reader
      rw [List.map_cons, InputReader.pollEvents, List.filter_append, List.filterMap_cons]
      cases event with
      | timeout => exact ih _
      | resized size =>
        cases size with
        | none => exact ih _
        | some size => exact ih _
      | typed r =>
        have hne : (r.keys.flatMap Key.encode).isEmpty = false := by
          obtain ⟨k, keys, hkeys⟩ := List.exists_cons_of_ne_nil r.ne_nil
          rw [hkeys, List.flatMap_cons, List.isEmpty_eq_false_iff]
          exact List.append_ne_nil_of_left_ne_nil (encode_ne_nil k) _
        have hpoll : reader.pollEvent (TerminalEvent.typed r).poll =
            (some (parseKeyEvent (r.keys.flatMap Key.encode)), { buf := [] }) := by
          unfold TerminalEvent.poll InputReader.pollEvent
          dsimp only [InputReader.readBytes, InputReader.parseEvent]
          rw [hne]
          rfl
        rw [hpoll]
        dsimp only [Option.toList, TerminalEvent.read?]
        rw [ih, List.filter_cons, isKey_parseKeyEvent]
        rfl
  exact hreader {}

/-- **No key is lost exactly if every read holds one key.** Otherwise all keys of a read after the
first one are dropped. -/
theorem keyEvents_eq_iff (events : List TerminalEvent) :
    keyEvents events = (typedKeys events).map Key.event ↔
      ∀ r ∈ events.filterMap TerminalEvent.read?, r.keys.length = 1 := by
  rw [keyEvents_eq, typedKeys]
  generalize events.filterMap TerminalEvent.read? = reads
  constructor
  · intro heq
    -- there are as many events as reads, and at least as many keys
    have hlength := congrArg List.length heq
    rw [List.length_map, List.length_map] at hlength
    clear heq
    have hle : ∀ reads : List Read, reads.length ≤ (reads.flatMap Read.keys).length := by
      intro reads
      induction reads with
      | nil => exact le_rfl
      | cons r reads ih =>
        have hpos := List.length_pos_of_ne_nil r.ne_nil
        rw [List.flatMap_cons, List.length_append, List.length_cons]
        omega
    induction reads with
    | nil => exact fun _ h => absurd h List.not_mem_nil
    | cons r reads ih =>
      have hpos := List.length_pos_of_ne_nil r.ne_nil
      have hrest := hle reads
      rw [List.flatMap_cons, List.length_append, List.length_cons] at hlength
      intro r' hr'
      rcases List.mem_cons.mp hr' with rfl | hr'
      · omega
      · exact ih (by omega) r' hr'
  · intro hone
    induction reads with
    | nil => rfl
    | cons r reads ih =>
      obtain ⟨k, hk⟩ := List.length_eq_one_iff.mp (hone r List.mem_cons_self)
      rw [List.map_cons, List.flatMap_cons, List.map_append,
        ih fun r' hr' => hone r' (List.mem_cons_of_mem _ hr'), hk]
      rw [List.flatMap_cons, List.flatMap_nil, List.append_nil, parseKeyEvent_encode]
      rfl

/-- Two letters that are pasted give one event. -/
theorem pasted_letters_lost : ¬ ∀ events, keyEvents events = (typedKeys events).map Key.event := by
  intro halways
  let pasted : Read :=
    ⟨[.char 'a' (by decide), .char 'b' (by decide)], List.cons_ne_nil _ _, by decide⟩
  have hlength := congrArg List.length (halways [.typed pasted])
  exact absurd hlength (by decide)

end Pirc.Client.Input
