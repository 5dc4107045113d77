import Pirc.Protocol.Message

/-!
# Protocol: the parser

`parser.rs`: one line as a message.
-/

namespace Pirc.Protocol

/-- Bytes per message, the end of the line included. -/
def maxMessageLen : ℕ := 512

def splitOnce (c : Char) : Str → Option (Str × Str)
  | [] => none
  | x :: rest =>
    if x = c then some ([], rest) else (splitOnce c rest).map fun out => (x :: out.1, out.2)

def token (s : Str) : Str × Str := (splitOnce ' ' s).getD (s, [])

def skipSpaces (s : Str) : Str := s.dropWhile (· = ' ')

def stripLineEnd (s : Str) : Str :=
  match s.reverse with
  | '\n' :: '\r' :: line => line.reverse
  | '\n' :: line => line.reverse
  | _ => s

def parsePrefix (s : Str) : Except ProtocolError Prefix :=
  if s.isEmpty then .error (.invalidPrefix "empty prefix".toList)
  else
    match splitOnce '!' s with
    | some (nick, afterBang) =>
      match splitOnce '@' afterBang with
      | none => .error (.invalidPrefix ("missing '@' in user prefix: ".toList ++ s))
      | some (user, host) =>
        if user.isEmpty then .error (.invalidPrefix ("empty user in prefix: ".toList ++ s))
        else if host.isEmpty then .error (.invalidPrefix ("empty host in prefix: ".toList ++ s))
        else
          match Nickname.new nick with
          | .ok nick => .ok (.user nick user host)
          | .error e => .error (.invalidNickname e.text)
    | none => .ok (.server s)

/-- The loop of `parse_params`. Every turn takes at least one character. -/
def paramsLoop : ℕ → Str → List Str → List Str
  | 0, _, params => params
  | _ + 1, [], params => params
  -- a colon makes the rest of the line one parameter
  | _ + 1, ':' :: trailing, params => params ++ [trailing]
  | fuel + 1, rest, params =>
    let (param, rest) := token rest
    let params := if param.isEmpty then params else params ++ [param]
    -- the last parameter takes the rest, even without a colon
    if params.length = maxParams - 1 ∧ ¬ rest.isEmpty then params ++ [rest]
    else paramsLoop fuel rest params

def parseParams (input : Str) : Except ProtocolError (List Str) :=
  let params := paramsLoop input.length input []
  if maxParams < params.length then .error (.tooManyParams params.length maxParams) else .ok params

def isPircNamespace (s : Str) : Bool :=
  String.ofList s ∈ ["CLUSTER", "P2P", "INVITE-KEY", "NETWORK", "GROUP"]

def withParams (prefix_ : Option Prefix) (command : Command) (input : Str) :
    Except ProtocolError Message :=
  (parseParams input).map fun params => { prefix_ := prefix_, command := command, params := params }

def parsePircCommand (prefix_ : Option Prefix) (remainder : Str) : Except ProtocolError Message :=
  let remainder := skipSpaces remainder
  if remainder.isEmpty then .error (.unknownCommand "PIRC (missing subcommand)".toList)
  else
    let (sub, afterSub) := token remainder
    if isPircNamespace sub then
      let afterSub := skipSpaces afterSub
      if afterSub.isEmpty then
        .error (.unknownCommand ("PIRC ".toList ++ sub ++ " (missing subcommand)".toList))
      else
        let (inner, params) := token afterSub
        match PircSubcommand.fromNamespace (String.ofList sub) (String.ofList inner) with
        | none => .error (.unknownCommand ("PIRC ".toList ++ sub ++ ' ' :: inner))
        | some subcommand => withParams prefix_ (.pirc subcommand) params
    else
      match PircSubcommand.fromKeyword (String.ofList sub) with
      | none => .error (.unknownCommand ("PIRC ".toList ++ sub))
      | some subcommand => withParams prefix_ (.pirc subcommand) afterSub

def parseCommand (prefix_ : Option Prefix) (rest : Str) : Except ProtocolError Message :=
  let rest := skipSpaces rest
  if rest.isEmpty then .error .missingCommand
  else
    let (cmd, remainder) := token rest
    if cmd = "PIRC".toList then parsePircCommand prefix_ remainder
    else
      match Command.fromKeyword cmd with
      | none => .error (.unknownCommand cmd)
      | some command => withParams prefix_ command remainder

/-- The parser. -/
def parse (input : Str) : Except ProtocolError Message :=
  if maxMessageLen < (utf8 input).length then
    .error (.messageTooLong (utf8 input).length maxMessageLen)
  else
    let line := stripLineEnd input
    if line.all fun c => c = ' ' ∨ c = '\t' then .error .emptyMessage
    else
      match line with
      | ':' :: rest =>
        match splitOnce ' ' rest with
        | none => .error .missingCommand
        | some (prefix_, rest) =>
          match parsePrefix prefix_ with
          | .error e => .error e
          | .ok p => parseCommand (some p) rest
      | _ => parseCommand none line

/-! ## Tokens -/

section Tokens

theorem splitOnce_append {c : Char} {a : Str} (h : c ∉ a) (b : Str) :
    splitOnce c (a ++ c :: b) = some (a, b) := by
  induction a with
  | nil => simp [splitOnce]
  | cons x a ih =>
    obtain ⟨hx, ha⟩ := not_or.mp (mt List.mem_cons.mpr h)
    rw [List.cons_append, splitOnce, if_neg (Ne.symm hx), ih ha]
    rfl

theorem splitOnce_eq_none {c : Char} {a : Str} (h : c ∉ a) : splitOnce c a = none := by
  induction a with
  | nil => rfl
  | cons x a ih =>
    obtain ⟨hx, ha⟩ := not_or.mp (mt List.mem_cons.mpr h)
    rw [splitOnce, if_neg (Ne.symm hx), ih ha]
    rfl

theorem token_append {a : Str} (h : ' ' ∉ a) (b : Str) : token (a ++ ' ' :: b) = (a, b) := by
  rw [token, splitOnce_append h]
  rfl

theorem token_self {a : Str} (h : ' ' ∉ a) : token a = (a, []) := by
  rw [token, splitOnce_eq_none h]
  rfl

theorem skipSpaces_cons {c : Char} (h : c ≠ ' ') (s : Str) : skipSpaces (c :: s) = c :: s := by
  simp [skipSpaces, h]

@[simp] theorem stripLineEnd_append (s : Str) : stripLineEnd (s ++ ['\r', '\n']) = s := by
  simp [stripLineEnd]

end Tokens

/-! ## Parameters -/

structure Plain (p : Str) : Prop where
  ne_nil : p ≠ []
  spaceless : ' ' ∉ p
  head : p.head? ≠ some ':'

theorem Plain.of_needsColon {p : Str} (h : needsColon p = false) : Plain p := by
  simp only [needsColon, Bool.or_eq_false_iff, decide_eq_false_iff_not, List.isEmpty_eq_false_iff]
    at h
  exact ⟨h.1.1, h.1.2, h.2⟩

/-- The parameters as they are written, without the space before the first. -/
def paramsBody : List Str → Str
  | [] => []
  | [last] => if needsColon last then ':' :: last else last
  | param :: next :: params => param ++ ' ' :: paramsBody (next :: params)

theorem paramsToWire_eq : ∀ {params : List Str}, params ≠ [] →
    Message.paramsToWire params = ' ' :: paramsBody params
  | [last], _ => by
    rw [Message.paramsToWire, paramsBody]
    split_ifs
    · rfl
    · rfl
  | param :: q :: params, _ => by
    have ih := paramsToWire_eq (List.cons_ne_nil q params)
    rw [Message.paramsToWire, ih, paramsBody, List.cons_append]

theorem token_append_paramsToWire {w : Str} (h : ' ' ∉ w) (params : List Str) :
    token (w ++ Message.paramsToWire params) = (w, paramsBody params) := by
  cases params with
  | nil =>
    rw [Message.paramsToWire, List.append_nil]
    exact token_self h
  | cons p params =>
    rw [paramsToWire_eq (List.cons_ne_nil p params)]
    exact token_append h _

theorem length_le_length_paramsBody : ∀ {params : List Str}, (∀ p ∈ params.dropLast, Plain p) →
    params.length ≤ (paramsBody params).length
  | [], _ => le_rfl
  | [last], _ => by
    rw [paramsBody]
    cases hcolon : needsColon last with
    | true => simp
    | false =>
      have hpos := List.length_pos_of_ne_nil (Plain.of_needsColon hcolon).ne_nil
      simp only [Bool.false_eq_true, if_false, List.length_singleton]
      omega
  | param :: q :: params, h => by
    have hrest : ∀ p ∈ (q :: params).dropLast, Plain p := fun p hp =>
      h p (List.mem_cons_of_mem param hp)
    have ih := length_le_length_paramsBody hrest
    simp only [paramsBody, List.length_append, List.length_cons] at ih ⊢
    omega

/-- **The parameters as they are read back**: a fifteenth one keeps the colon it is written
after. -/
def received (params : List Str) : List Str :=
  match params.getLast? with
  | some last =>
    if params.length = maxParams ∧ needsColon last then params.dropLast ++ [':' :: last]
    else params
  | none => params

theorem received_of_length {params : List Str} (h : params.length < maxParams) :
    received params = params := by
  unfold received
  cases params.getLast? with
  | none => rfl
  | some last => exact if_neg fun hlast => absurd hlast.1 h.ne

theorem received_append_singleton {acc : List Str} (h : acc.length = maxParams - 1) (last : Str) :
    received (acc ++ [last]) = acc ++ [paramsBody [last]] := by
  have hlen : (acc ++ [last]).length = maxParams := by
    rw [List.length_append, h]
    rfl
  simp only [received, List.getLast?_append, List.getLast?_singleton, Option.some_or, hlen,
    true_and, List.dropLast_concat, paramsBody]
  split_ifs
  · rfl
  · rfl

theorem length_received (params : List Str) : (received params).length = params.length := by
  unfold received
  cases hlast : params.getLast? with
  | none => rfl
  | some last =>
    dsimp only
    split_ifs with h
    · simp only [List.length_append, List.length_dropLast, List.length_singleton]
      have hlen := h.1
      unfold maxParams at hlen
      omega
    · rfl

/-- **The fifteenth parameter decides**: what is read back is what was written unless there are
fifteen and the last is written after a colon. -/
theorem received_eq_iff (params : List Str) :
    received params = params ↔
      ¬ (params.length = maxParams ∧ ∃ last, params.getLast? = some last ∧ needsColon last) := by
  unfold received
  cases hlast : params.getLast? with
  | none => simp
  | some last =>
    dsimp only
    split_ifs with h
    · have hne : params.dropLast ++ [':' :: last] ≠ params := by
        intro heq
        have hsame := congrArg List.getLast? heq
        rw [hlast, List.getLast?_append, List.getLast?_singleton, Option.some_or] at hsame
        have hlen := congrArg List.length (Option.some_inj.mp hsame)
        simp at hlen
      simp [hne, h.1, h.2]
    · simp only [true_iff]
      rintro ⟨hlen, last', hlast', hcolon⟩
      rw [Option.some_inj] at hlast'
      exact h ⟨hlen, hlast' ▸ hcolon⟩

theorem paramsLoop_token {fuel : ℕ} {s param rest : Str} {acc : List Str} (hparam : Plain param)
    (hhead : s.head? = param.head?) (htoken : token s = (param, rest)) :
    paramsLoop (fuel + 1) s acc =
      if (acc ++ [param]).length = maxParams - 1 ∧ ¬ rest.isEmpty then acc ++ [param] ++ [rest]
      else paramsLoop fuel rest (acc ++ [param]) := by
  have hempty : param.isEmpty = false := List.isEmpty_eq_false_iff.mpr hparam.ne_nil
  have hcolon : ∀ trailing, s ≠ ':' :: trailing := by
    rintro trailing rfl
    exact hparam.head hhead.symm
  have hnil : s ≠ [] := by
    rintro rfl
    rw [List.head?_nil] at hhead
    exact hparam.ne_nil (List.head?_eq_none_iff.mp hhead.symm)
  rw [paramsLoop]
  · simp only [htoken, hempty, Bool.false_eq_true, if_false]
  · exact hnil
  · exact hcolon

/-- **The loop reads back what is written**, up to the fifteenth parameter. -/
theorem paramsLoop_paramsBody : ∀ {params : List Str} {acc : List Str} {fuel : ℕ},
    params ≠ [] → params.length ≤ fuel → acc.length < maxParams - 1 →
    acc.length + params.length ≤ maxParams → (∀ p ∈ params.dropLast, Plain p) →
    paramsLoop fuel (paramsBody params) acc = received (acc ++ params)
  | [last], acc, fuel + 1, _, _, hacc, _, _ => by
    have hreceived : received (acc ++ [last]) = acc ++ [last] := by
      apply received_of_length
      simp only [List.length_append, List.length_singleton]
      omega
    rw [hreceived, paramsBody]
    cases hcolon : needsColon last with
    | true => rfl
    | false =>
      have hplain := Plain.of_needsColon hcolon
      simp only [Bool.false_eq_true, if_false]
      rw [paramsLoop_token hplain rfl (token_self hplain.spaceless)]
      cases fuel <;> simp [paramsLoop]
  | param :: next :: params, acc, fuel + 1, _, hfuel, hacc, hmax, hplain => by
    have hparam : Plain param := hplain param List.mem_cons_self
    have hrest : ∀ p ∈ (next :: params).dropLast, Plain p := fun p hp =>
      hplain p (List.mem_cons_of_mem param hp)
    have hhead : (paramsBody (param :: next :: params)).head? = param.head? := by
      obtain ⟨c, cs, rfl⟩ := List.exists_cons_of_ne_nil hparam.ne_nil
      rfl
    have hbody : ¬ (paramsBody (next :: params)).isEmpty := by
      have hlen := length_le_length_paramsBody hrest
      intro hempty
      rw [List.isEmpty_iff.mp hempty] at hlen
      simp at hlen
    have happend : acc ++ param :: next :: params = (acc ++ [param]) ++ (next :: params) := by simp
    rw [paramsLoop_token hparam hhead (token_append hparam.spaceless _), happend]
    simp only [List.length_cons] at hfuel hmax
    split_ifs with hfull
    · -- the parameter after this one is the fifteenth and takes the rest of the line
      have hlen := hfull.1
      obtain rfl : params = [] := by
        rw [← List.length_eq_zero_iff]
        simp only [List.length_append, List.length_singleton] at hlen
        unfold maxParams at hlen hmax
        omega
      rw [received_append_singleton hlen]
    · have hlen : (acc ++ [param]).length ≠ maxParams - 1 := fun h => hfull ⟨h, hbody⟩
      rw [List.length_append, List.length_singleton] at hlen
      apply paramsLoop_paramsBody (List.cons_ne_nil next params)
      · simp only [List.length_cons]
        omega
      · rw [List.length_append, List.length_singleton]
        omega
      · simp only [List.length_append, List.length_cons, List.length_nil]
        omega
      · exact hrest

theorem parseParams_paramsBody {params : List Str} (hmax : params.length ≤ maxParams)
    (hplain : ∀ p ∈ params.dropLast, Plain p) :
    parseParams (paramsBody params) = .ok (received params) := by
  have hloop : paramsLoop (paramsBody params).length (paramsBody params) [] = received params := by
    cases params with
    | nil => rfl
    | cons p params =>
      exact paramsLoop_paramsBody (List.cons_ne_nil p params) (length_le_length_paramsBody hplain)
        (by decide) (by simpa using hmax) hplain
  unfold parseParams
  dsimp only
  rw [hloop, length_received, if_neg (by omega)]

/-! ## Commands -/

section Commands

theorem leftpad_decimal {n : ℕ} (h : n < 1000) :
    (decimal n).leftpad 3 '0' =
      [(n / 100).digitChar, (n / 10 % 10).digitChar, (n % 10).digitChar] := by
  unfold decimal
  rcases Nat.lt_or_ge n 10 with h1 | h1
  · have ha : n / 100 = 0 := by omega
    have hb : n / 10 = 0 := by omega
    have hc : n % 10 = n := by omega
    rw [Nat.toDigits_of_lt_base h1, ha, hb, hc]
    rfl
  · rw [Nat.toDigits_of_base_le (by decide) h1]
    rcases Nat.lt_or_ge (n / 10) 10 with h2 | h2
    · have ha : n / 100 = 0 := by omega
      have hb : n / 10 % 10 = n / 10 := by omega
      rw [Nat.toDigits_of_lt_base h2, ha, hb]
      rfl
    · have ha : n / 10 / 10 = n / 100 := by omega
      have hc : n / 100 < 10 := by omega
      rw [Nat.toDigits_of_base_le (by decide) h2, ha, Nat.toDigits_of_lt_base hc]
      rfl

theorem toNat_digitChar {n : ℕ} (h : n < 10) : n.digitChar.toNat - '0'.toNat = n := by
  interval_cases n
  all_goals rfl

theorem fromDigits_leftpad {n : ℕ} (h : n < 1000) :
    Command.fromDigits ((decimal n).leftpad 3 '0') = some (.numeric (UInt16.ofNat n)) := by
  have ha : n / 100 < 10 := by omega
  have hb : n / 10 % 10 < 10 := by omega
  have hc : n % 10 < 10 := by omega
  have hsum : n / 100 * 100 + n / 10 % 10 * 10 + n % 10 = n := by omega
  rw [leftpad_decimal h, Command.fromDigits, toNat_digitChar ha, toNat_digitChar hb,
    toNat_digitChar hc, hsum]
  exact if_pos (by simp [Nat.isDigit_digitChar, ha, hb, hc])

theorem fromKeyword_of_isDigit {c : Char} {s : Str} (h : c.isDigit) :
    Command.fromKeyword (c :: s) = Command.fromDigits (c :: s) := by
  have hne : ∀ (d : Char) (t : Str), d.isDigit = false →
      String.ofList (c :: s) ≠ String.ofList (d :: t) := by
    intro d t hd heq
    rw [String.ofList_inj] at heq
    obtain ⟨rfl, -⟩ := List.cons.inj heq
    rw [hd] at h
    cases h
  unfold Command.fromKeyword
  split
  all_goals first
    | rfl
    | next heq => exact absurd heq (hne _ _ (by decide))

/-- **How a command is read back**: its keyword has no space, and finds it. -/
structure Keyword (command : Command) (w : Str) : Prop where
  spaceless : ' ' ∉ w
  head : ∃ c s, w = c :: s ∧ c.isAlphanum
  ne_pirc : w ≠ "PIRC".toList
  found : Command.fromKeyword w = some command

theorem keyword_numeric {code : UInt16} (h : code.toNat ≤ 999) :
    Keyword (.numeric code) (Command.numeric code).asStr := by
  have hlt : code.toNat < 1000 := by omega
  have hasStr : (Command.numeric code).asStr = (decimal code.toNat).leftpad 3 '0' := rfl
  have hfound := fromDigits_leftpad hlt
  rw [hasStr]
  rw [leftpad_decimal hlt] at hfound ⊢
  have hdigits : ∀ c ∈ [(code.toNat / 100).digitChar, (code.toNat / 10 % 10).digitChar,
      (code.toNat % 10).digitChar], c.isDigit := by
    intro c hc
    simp only [List.mem_cons, List.not_mem_nil, or_false] at hc
    rcases hc with rfl | rfl | rfl
    all_goals
      simp only [Nat.isDigit_digitChar, decide_eq_true_eq]
      omega
  have hfirst := hdigits _ List.mem_cons_self
  refine ⟨?_, ⟨_, _, rfl, ?_⟩, ?_, ?_⟩
  · intro hspace
    have hdigit := hdigits _ hspace
    simp at hdigit
  · simp [Char.isAlphanum, hfirst]
  · intro heq
    have hlen := congrArg List.length heq
    simp at hlen
  · rw [fromKeyword_of_isDigit hfirst, hfound]
    simp

theorem keyword_asStr {command : Command} (hpirc : ∀ sub, command ≠ .pirc sub)
    (hnumeric : ∀ code, command = .numeric code → code.toNat ≤ 999) :
    Keyword command command.asStr := by
  cases command with
  | numeric code => exact keyword_numeric (hnumeric code rfl)
  | pirc sub => exact absurd rfl (hpirc sub)
  | _ => exact ⟨by decide, ⟨_, _, rfl, by decide⟩, by decide, by decide⟩

/-- **How a subcommand is read back**: by one keyword, or by its namespace and one in it. -/
theorem PircSubcommand.asStr_cases (sub : PircSubcommand) :
    let (first, second) := token sub.asStr.toList
    ' ' ∉ first ∧ ' ' ∉ second ∧ first.head?.any Char.isAlphanum ∧
      if isPircNamespace first then
        sub.asStr.toList = first ++ ' ' :: second ∧ second.head?.any Char.isAlphanum ∧
          PircSubcommand.fromNamespace (String.ofList first) (String.ofList second) = some sub
      else
        sub.asStr.toList = first ∧
          PircSubcommand.fromKeyword (String.ofList first) = some sub := by
  cases sub
  all_goals decide +kernel

theorem skipSpaces_word {w : Str} (h : w.head?.any Char.isAlphanum) (s : Str) :
    skipSpaces (w ++ s) = w ++ s ∧ (w ++ s).isEmpty = false := by
  cases w with
  | nil => cases h
  | cons c w =>
    have hc : c ≠ ' ' := by
      rintro rfl
      have hspace : ' '.isAlphanum := h
      exact absurd hspace (by decide)
    exact ⟨skipSpaces_cons hc _, rfl⟩

theorem parsePircCommand_wire (prefix_ : Option Prefix) (sub : PircSubcommand)
    (params : List Str) :
    parsePircCommand prefix_ (sub.asStr.toList ++ Message.paramsToWire params) =
      withParams prefix_ (.pirc sub) (paramsBody params) := by
  have hcases := PircSubcommand.asStr_cases sub
  generalize token sub.asStr.toList = words at hcases
  obtain ⟨first, second⟩ := words
  obtain ⟨hfirst, hsecond, hhead, hif⟩ := hcases
  unfold parsePircCommand
  dsimp only
  split_ifs at hif with hnamespace
  · obtain ⟨hasStr, hhead', hfound⟩ := hif
    have hwire : sub.asStr.toList ++ Message.paramsToWire params =
        first ++ (' ' :: (second ++ Message.paramsToWire params)) := by
      rw [hasStr, List.append_assoc, List.cons_append]
    obtain ⟨hskip, hempty⟩ :=
      skipSpaces_word hhead (' ' :: (second ++ Message.paramsToWire params))
    obtain ⟨hskip', hempty'⟩ := skipSpaces_word hhead' (Message.paramsToWire params)
    rw [hwire, hskip, hempty, token_append hfirst]
    simp only [Bool.false_eq_true, if_false, hnamespace, if_true, hskip', hempty',
      token_append_paramsToWire hsecond, hfound]
  · obtain ⟨hasStr, hfound⟩ := hif
    obtain ⟨hskip, hempty⟩ := skipSpaces_word hhead (Message.paramsToWire params)
    rw [hasStr, hskip, hempty, token_append_paramsToWire hfirst]
    simp only [Bool.false_eq_true, if_false, hnamespace, hfound]

theorem parseCommand_wire (prefix_ : Option Prefix) {command : Command}
    (hnumeric : ∀ code, command = .numeric code → code.toNat ≤ 999) (params : List Str) :
    parseCommand prefix_ (Message.commandToWire command ++ Message.paramsToWire params) =
      withParams prefix_ command (paramsBody params) := by
  unfold parseCommand
  dsimp only
  by_cases hpirc : ∃ sub, command = .pirc sub
  · obtain ⟨sub, rfl⟩ := hpirc
    have hwire : Message.commandToWire (.pirc sub) ++ Message.paramsToWire params =
        "PIRC".toList ++ (' ' :: (sub.asStr.toList ++ Message.paramsToWire params)) := by
      rw [Message.commandToWire, List.append_assoc, List.cons_append]
      rfl
    have hword : ("PIRC".toList).head?.any Char.isAlphanum := by decide
    obtain ⟨hskip, hempty⟩ :=
      skipSpaces_word hword (' ' :: (sub.asStr.toList ++ Message.paramsToWire params))
    have hspace : ' ' ∉ "PIRC".toList := by decide
    rw [hwire, hskip, hempty, token_append hspace]
    simp only [Bool.false_eq_true, if_false, if_true]
    exact parsePircCommand_wire prefix_ sub params
  · have hkeyword := keyword_asStr (fun sub h => hpirc ⟨sub, h⟩) hnumeric
    have hwire : Message.commandToWire command = command.asStr := by
      cases command with
      | pirc sub => exact absurd ⟨sub, rfl⟩ hpirc
      | _ => rfl
    have hword : command.asStr.head?.any Char.isAlphanum := by
      obtain ⟨c, s, hcons, hc⟩ := hkeyword.head
      rw [hcons]
      exact hc
    obtain ⟨hskip, hempty⟩ := skipSpaces_word hword (Message.paramsToWire params)
    rw [hwire, hskip, hempty, token_append_paramsToWire hkeyword.spaceless]
    simp only [Bool.false_eq_true, if_false, hkeyword.ne_pirc, hkeyword.found]

theorem commandToWire_word {command : Command}
    (hnumeric : ∀ code, command = .numeric code → code.toNat ≤ 999) :
    ∃ c s, Message.commandToWire command = c :: s ∧ c.isAlphanum := by
  cases command with
  | numeric code => exact (keyword_numeric (hnumeric code rfl)).head
  | pirc sub =>
    have hpirc : (Command.pirc sub).asStr = 'P' :: "IRC".toList := by
      have hkeyword : (Command.pirc sub).asStr = "PIRC".toList := rfl
      rw [hkeyword]
      rfl
    rw [Message.commandToWire, hpirc]
    exact ⟨'P', _, rfl, by decide⟩
  | _ => exact ⟨_, _, rfl, by decide⟩

end Commands

/-! ## Messages -/

/-- **Prefixes that can be told apart**: a server name without a space or `!`, or a user and a host
without spaces, and the user without `@`. -/
def Prefix.WellFormed : Prefix → Prop
  | server name => name ≠ [] ∧ ' ' ∉ name ∧ '!' ∉ name
  | user _ username host =>
    (username ≠ [] ∧ ' ' ∉ username ∧ '@' ∉ username) ∧ host ≠ [] ∧ ' ' ∉ host

/-- **Messages that can be told apart**, whatever their last parameter is. -/
structure Message.WellFormed (m : Message) : Prop where
  prefix_ : ∀ p ∈ m.prefix_, p.WellFormed
  numeric : ∀ code, m.command = .numeric code → code.toNat ≤ 999
  length : m.params.length ≤ maxParams
  plain : ∀ p ∈ m.params.dropLast, Plain p

theorem Nickname.notMem {nick : Nickname} {c : Char} (h : isValidSubsequentChar c = false) :
    c ∉ nick.name := by
  intro hc
  have hvalid := nick.forall_mem c hc
  rw [h] at hvalid
  cases hvalid

theorem parsePrefix_toWire {p : Prefix} (h : p.WellFormed) : parsePrefix p.toWire = .ok p := by
  cases p with
  | server name =>
    obtain ⟨hname, -, hbang⟩ := h
    simp only [Prefix.toWire, parsePrefix, List.isEmpty_eq_false_iff.mpr hname,
      splitOnce_eq_none hbang, Bool.false_eq_true, if_false]
  | user nick username host =>
    obtain ⟨⟨hname, -, hat⟩, hhost, -⟩ := h
    have hbang : '!' ∉ nick.name := Nickname.notMem (by decide)
    have hempty : (nick.name ++ '!' :: (username ++ '@' :: host)).isEmpty = false := by simp
    simp only [Prefix.toWire, List.append_assoc, List.cons_append, parsePrefix, hempty,
      splitOnce_append hbang, splitOnce_append hat, List.isEmpty_eq_false_iff.mpr hname,
      List.isEmpty_eq_false_iff.mpr hhost, Nickname.new_name, Bool.false_eq_true, if_false]

theorem Prefix.WellFormed.spaceless {p : Prefix} (h : p.WellFormed) : ' ' ∉ p.toWire := by
  cases p with
  | server name => exact h.2.1
  | user nick username host =>
    obtain ⟨⟨-, hname, -⟩, -, hhost⟩ := h
    have hnick : ' ' ∉ nick.name := Nickname.notMem (by decide)
    simp [Prefix.toWire, hnick, hname, hhost]

/-- **What the parser makes of a written message**: the message, with its parameters as they are
read back. -/
theorem parse_toWire {m : Message} (h : m.WellFormed)
    (hlen : (utf8 (m.toWire ++ ['\r', '\n'])).length ≤ maxMessageLen) :
    parse (m.toWire ++ ['\r', '\n']) = .ok { m with params := received m.params } := by
  obtain ⟨c, s, hword, hc⟩ := commandToWire_word h.numeric
  have hparams : ∀ q : Option Prefix, withParams q m.command (paramsBody m.params) =
      .ok { prefix_ := q, command := m.command, params := received m.params } := by
    intro q
    rw [withParams, parseParams_paramsBody h.length h.plain]
    rfl
  -- the command makes the line more than white space
  have hall : m.toWire.all (fun c => c = ' ' ∨ c = '\t') = false := by
    have hmem : c ∈ m.toWire := by
      rw [Message.toWire, hword]
      simp
    rw [List.all_eq_false]
    refine ⟨c, hmem, ?_⟩
    intro hblank
    rcases of_decide_eq_true hblank with rfl | rfl
    · exact absurd hc (by decide)
    · exact absurd hc (by decide)
  unfold parse
  dsimp only
  rw [if_neg (by omega), stripLineEnd_append, hall, if_neg Bool.false_ne_true]
  cases hsource : m.prefix_ with
  | none =>
    have hwire : m.toWire =
        Message.commandToWire m.command ++ Message.paramsToWire m.params := by
      rw [Message.toWire, hsource]
      rfl
    have hcommand := parseCommand_wire none h.numeric m.params
    rw [hwire]
    rw [hword, List.cons_append] at hcommand ⊢
    split
    · next rest heq =>
      obtain ⟨rfl, -⟩ := List.cons.inj heq
      exact absurd hc (by decide)
    · rw [hcommand, hparams]
  | some p =>
    have hp : p.WellFormed := h.prefix_ p hsource
    have hwire : m.toWire = ':' :: (p.toWire ++
        ' ' :: (Message.commandToWire m.command ++ Message.paramsToWire m.params)) := by
      rw [Message.toWire, hsource]
      simp
    rw [hwire]
    simp only [splitOnce_append hp.spaceless, parsePrefix_toWire hp]
    rw [parseCommand_wire (some p) h.numeric, hparams]

/-! ## Lines -/

def Message.strings (m : Message) : List Str :=
  (match m.prefix_ with
    | some (.server name) => [name]
    | some (.user nick username host) => [nick.name, username, host]
    | none => []) ++ m.params

def Message.Lineless (m : Message) : Prop := ∀ s ∈ m.strings, pairAt '\r' '\n' s = none

theorem notMem_commandToWire (command : Command) : '\r' ∉ Message.commandToWire command := by
  cases command with
  | numeric code =>
    intro hmem
    have hwire : Message.commandToWire (.numeric code) = (decimal code.toNat).leftpad 3 '0' := rfl
    rw [hwire, List.leftpad, List.mem_append] at hmem
    rcases hmem with hzero | hdigit
    · exact absurd (List.eq_of_mem_replicate hzero) (by decide)
    · have hisDigit := Nat.isDigit_of_mem_toDigits (by decide) le_rfl hdigit
      exact absurd hisDigit (by decide)
  | pirc sub => cases sub <;> decide +kernel
  | _ => decide

theorem pairAt_paramsToWire : ∀ {params : List Str}, (∀ p ∈ params, pairAt '\r' '\n' p = none) →
    pairAt '\r' '\n' (Message.paramsToWire params) = none
  | [], _ => rfl
  | [last], h => by
    have hlast := h last List.mem_cons_self
    have hspace : pairAt '\r' '\n' ([] : Str) = none := rfl
    rw [Message.paramsToWire]
    split_ifs
    · have hcolon := pairAt_append_cons (x := ':') (by decide) (by decide) hspace hlast
      exact pairAt_append_cons (x := ' ') (by decide) (by decide) hspace hcolon
    · exact pairAt_append_cons (x := ' ') (by decide) (by decide) hspace hlast
  | param :: next :: params, h => by
    have ih := pairAt_paramsToWire fun p hp => h p (List.mem_cons_of_mem param hp)
    have hparam := h param List.mem_cons_self
    rw [paramsToWire_eq (List.cons_ne_nil next params)] at ih
    rw [Message.paramsToWire, paramsToWire_eq (List.cons_ne_nil next params)]
    have hrest := pairAt_append_cons (x := ' ') (by decide) (by decide) hparam (pairAt_of_cons ih)
    exact pairAt_append_cons (x := ' ') (by decide) (by decide) (l := []) rfl hrest

theorem Message.Lineless.pairAt_toWire {m : Message} (h : m.Lineless) :
    pairAt '\r' '\n' m.toWire = none := by
  have hparams : pairAt '\r' '\n' (paramsToWire m.params) = none :=
    pairAt_paramsToWire fun p hp => h p (List.mem_append_right _ hp)
  have hcommand : pairAt '\r' '\n' (commandToWire m.command ++ paramsToWire m.params) = none :=
    pairAt_append_of_notMem (notMem_commandToWire m.command) _ hparams
  cases hsource : m.prefix_ with
  | none =>
    rw [toWire, hsource]
    exact hcommand
  | some p =>
    have hp : pairAt '\r' '\n' p.toWire = none := by
      unfold Lineless strings at h
      rw [hsource] at h
      cases p with
      | server name => exact h name (by simp)
      | user nick username host =>
        have hhost := h host (by simp)
        have huser := h username (by simp)
        have hnick := h nick.name (by simp)
        have hat := pairAt_append_cons (x := '@') (by decide) (by decide) huser hhost
        have hbang := pairAt_append_cons (x := '!') (by decide) (by decide) hnick hat
        simpa [Prefix.toWire] using hbang
    have hspace := pairAt_append_cons (x := ' ') (by decide) (by decide) hp hcommand
    have hcolon := pairAt_append_cons (x := ':') (by decide) (by decide) (l := []) rfl hspace
    rw [toWire, hsource]
    simpa using hcolon

end Pirc.Protocol
