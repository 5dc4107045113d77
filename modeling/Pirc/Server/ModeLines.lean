import Pirc.Server.Membership
import Pirc.Server.SecretChannels

/-!
# Server: the lines that announce channel modes

A mode string is read as a list of changes, and the line that announces them is written from the
changes that were made. Read again, the line stands for the same changes, unless the key is removed
before a change with a parameter: removing the key uses up a parameter that the line does not have.
-/

namespace Pirc.Server

open Protocol

/-! ## Changes -/

/-- A change to a channel. -/
inductive ModeChange
  | flag (adding : Bool) (mode : ChannelMode)
  | key (value : Option Str)
  | limit (text : Option Str)
  | ban (adding : Bool) (mask : Str)
  | status (adding oper : Bool) (target : Str)
  deriving DecidableEq

def flagMode : Char → Option ChannelMode
  | 'i' => some .inviteOnly
  | 'm' => some .moderated
  | 'n' => some .noExternalMessages
  | 's' => some .secret
  | 't' => some .topicProtected
  | _ => none

def isMember (channel : Channel) (target : Str) : Bool :=
  match Nickname.new target with
  | .error _ => false
  | .ok nick => channel.members.contains nick

namespace ModeChange

def adding : ModeChange → Bool
  | .flag sign _ | .ban sign _ | .status sign _ _ => sign
  | .key value | .limit value => value.isSome

def letter : ModeChange → Char
  | flag _ mode => mode.modeChar
  | key _ => 'k'
  | limit _ => 'l'
  | ban _ _ => 'b'
  | status _ oper _ => if oper then 'o' else 'v'

def param : ModeChange → Option Str
  | flag _ _ => none
  | .key value | .limit value => value
  | ban _ mask => some mask
  | status _ _ target => some target

/-- **What a change does.** -/
def apply (whoSet : Str) (now : ℕ) (channel : Channel) : ModeChange → Channel
  | flag adding mode =>
    { channel with
      modes := if adding then insert mode channel.modes else channel.modes.erase mode }
  | key value => { channel with key := value }
  | limit text => { channel with userLimit := text.bind parseU32 }
  | ban adding mask =>
    { channel with
      banList :=
        if adding then
          channel.banList ++ [{ mask := mask, whoSet := whoSet, timestamp := now }]
        else channel.banList.filter fun ban => lowercase ban.mask ≠ lowercase mask }
  | status adding oper target =>
    match Nickname.new target with
    | .error _ => channel
    | .ok nick =>
      { channel with
        members := channel.members.insert nick
          (if adding then (if oper then .operator else .voiced) else .normal) }

def Valid (member : Str → Bool) : ModeChange → Prop
  | flag _ mode => flagMode mode.modeChar = some mode
  | limit (some text) => (parseU32 text).isSome
  | status _ _ target => member target
  | key _ | limit none | ban _ _ => True

end ModeChange

/-! ## Reading and writing -/

def readLetter (member : Str → Bool) (adding : Bool) (params : List Str) (ch : Char) :
    Option ModeChange × List Str :=
  match flagMode ch with
  | some mode => (some (.flag adding mode), params)
  | none =>
    if ch = 'k' then
      match adding, params with
      | true, key :: params => (some (.key (some key)), params)
      | true, [] => (none, [])
      | false, params => (some (.key none), params.tail)
    else if ch = 'l' then
      match adding, params with
      | true, text :: params =>
        if (parseU32 text).isSome then (some (.limit (some text)), params)
        else (none, text :: params)
      | true, [] => (none, [])
      | false, params => (some (.limit none), params)
    else if ch = 'b' then
      match params with
      | mask :: params => (some (.ban adding mask), params)
      | [] => (none, [])
    else if ch = 'o' ∨ ch = 'v' then
      match params with
      | target :: params =>
        (if member target then some (.status adding (ch = 'o') target) else none, params)
      | [] => (none, [])
    else (none, params)

/-- **The changes a mode string stands for**, read with a sign that goes before. -/
def readModes (member : Str → Bool) : Bool → List Str → Str → List ModeChange
  | _, _, [] => []
  | adding, params, ch :: letters =>
    if ch = '+' then readModes member true params letters
    else if ch = '-' then readModes member false params letters
    else
      let read := readLetter member adding params ch
      read.1.toList ++ readModes member adding read.2 letters

def writeSign (last : Option Bool) (adding : Bool) : Str :=
  if last ≠ some adding then [if adding then '+' else '-'] else []

/-- The letters of some changes. -/
def writeModes : Option Bool → List ModeChange → Str
  | _, [] => []
  | last, change :: changes =>
    writeSign last change.adding ++ change.letter :: writeModes (some change.adding) changes

/-- The parameters of some changes. -/
def writeParams (changes : List ModeChange) : List Str := changes.filterMap ModeChange.param

/-- **The key is removed before a change with a parameter.** -/
def losesParam : List ModeChange → Bool
  | [] => false
  | change :: changes =>
    (change = .key none ∧ writeParams changes ≠ []) || losesParam changes

/-! ## The loop over a mode string -/

section Loop

variable {nick chanStr : Str} {now : ℕ} {modeParams : List Str}

def ModeState.make (whoSet : Str) (now : ℕ) (m : ModeState) (change : ModeChange) : ModeState :=
  { m with
    adding := change.adding
    channel := change.apply whoSet now m.channel }.applied change.letter change.param.toList

structure ModeState.SameLine (m m' : ModeState) : Prop where
  channel : m.channel = m'.channel
  modes : m.appliedModes = m'.appliedModes
  params : m.appliedParams = m'.appliedParams
  lastDir : m.lastDir = m'.lastDir

theorem ModeState.SameLine.make {m m' : ModeState} (h : m.SameLine m') (change : ModeChange) :
    (m.make nick now change).SameLine (m'.make nick now change) where
  channel := congrArg (fun channel => change.apply nick now channel) h.channel
  modes := by simp only [ModeState.make, ModeState.applied, h.modes, h.lastDir]
  params := congrArg (fun params => params ++ change.param.toList) h.params
  lastDir := rfl

theorem ModeState.SameLine.trans {m₁ m₂ m₃ : ModeState} (h₁ : m₁.SameLine m₂)
    (h₂ : m₂.SameLine m₃) : m₁.SameLine m₃ :=
  ⟨h₁.channel.trans h₂.channel, h₁.modes.trans h₂.modes, h₁.params.trans h₂.params,
    h₁.lastDir.trans h₂.lastDir⟩

theorem ModeState.SameLine.foldl {m m' : ModeState} (h : m.SameLine m')
    (changes : List ModeChange) : (changes.foldl (ModeState.make nick now) m).SameLine
      (changes.foldl (ModeState.make nick now) m') := by
  induction changes generalizing m m' with
  | nil => exact h
  | cons change changes ih => exact ih (h.make change)

theorem drop_of_getElem? {i : ℕ} {param : Str} (h : modeParams[i]? = some param) :
    modeParams.drop i = param :: modeParams.drop (i + 1) := by
  obtain ⟨hi, hparam⟩ := List.getElem?_eq_some_iff.mp h
  rw [List.drop_eq_getElem_cons hi, hparam]

theorem drop_of_getElem?_eq_none {i : ℕ} (h : modeParams[i]? = none) : modeParams.drop i = [] :=
  List.drop_eq_nil_iff.mpr (List.getElem?_eq_none_iff.mp h)

/-- **A letter is read**: the change that it stands for is made, and the parameters are left that
reading it leaves. -/
def ModeState.Reads (nick : Str) (now : ℕ) (modeParams : List Str) (ch : Char) (m m' : ModeState) :
    Prop :=
  let read := readLetter (isMember m.channel) m.adding (modeParams.drop m.paramIdx) ch
  ∃ i replies,
    m' = { read.1.toList.foldl (ModeState.make nick now) m with
      adding := m.adding, paramIdx := i, replies := replies } ∧
    modeParams.drop i = read.2

theorem ModeState.reads_key (m : ModeState) :
    m.Reads nick now modeParams 'k' (m.key modeParams[m.paramIdx]?) := by
  obtain ⟨channel, replies, i, adding, modes, params, last⟩ := m
  unfold Reads
  dsimp only
  cases hparam : modeParams[i]? with
  | none =>
    rw [drop_of_getElem?_eq_none hparam]
    cases adding <;> exact ⟨i, replies, rfl, drop_of_getElem?_eq_none hparam⟩
  | some param =>
    rw [drop_of_getElem? hparam]
    cases adding <;> exact ⟨i + 1, replies, rfl, rfl⟩

theorem ModeState.reads_limit (m : ModeState) :
    m.Reads nick now modeParams 'l' (m.limit modeParams[m.paramIdx]?) := by
  obtain ⟨channel, replies, i, adding, modes, params, last⟩ := m
  unfold Reads
  dsimp only
  cases hparam : modeParams[i]? with
  | none =>
    rw [drop_of_getElem?_eq_none hparam]
    cases adding <;> exact ⟨i, replies, rfl, drop_of_getElem?_eq_none hparam⟩
  | some param =>
    rw [drop_of_getElem? hparam]
    cases adding with
    | false => exact ⟨i, replies, rfl, drop_of_getElem? hparam⟩
    | true =>
      have hread : readLetter (isMember channel) true (param :: modeParams.drop (i + 1)) 'l' =
          if (parseU32 param).isSome then (some (.limit (some param)), modeParams.drop (i + 1))
          else (none, param :: modeParams.drop (i + 1)) := rfl
      rw [hread]
      cases hlimit : parseU32 param with
      | none =>
        refine ⟨i, replies, ?_, drop_of_getElem? hparam⟩
        simp only [ModeState.limit, if_true, hlimit]
        rfl
      | some limit =>
        refine ⟨i + 1, replies, ?_, rfl⟩
        simp only [ModeState.limit, if_true, hlimit]
        simp only [Option.isSome_some, if_true, Option.toList_some, List.foldl_cons, List.foldl_nil,
          ModeState.make, ModeChange.apply, Option.bind_some, hlimit]
        rfl

theorem ModeState.reads_ban (m : ModeState) :
    m.Reads nick now modeParams 'b' (m.ban nick now modeParams[m.paramIdx]?) := by
  obtain ⟨channel, replies, i, adding, modes, params, last⟩ := m
  unfold Reads
  dsimp only
  cases hparam : modeParams[i]? with
  | none =>
    rw [drop_of_getElem?_eq_none hparam]
    exact ⟨i, replies, rfl, drop_of_getElem?_eq_none hparam⟩
  | some param =>
    rw [drop_of_getElem? hparam]
    exact ⟨i + 1, replies, rfl, rfl⟩

theorem ModeState.reads_status (m : ModeState) {ch : Char} (hch : ch = 'o' ∨ ch = 'v') :
    m.Reads nick now modeParams ch (m.status ch nick chanStr modeParams[m.paramIdx]?) := by
  obtain ⟨channel, replies, i, adding, modes, params, last⟩ := m
  unfold Reads
  dsimp only
  cases hparam : modeParams[i]? with
  | none =>
    rw [drop_of_getElem?_eq_none hparam]
    rcases hch with rfl | rfl <;> exact ⟨i, replies, rfl, drop_of_getElem?_eq_none hparam⟩
  | some target =>
    have hread : readLetter (isMember channel) adding (target :: modeParams.drop (i + 1)) ch =
        (if isMember channel target then some (.status adding (ch = 'o') target) else none,
          modeParams.drop (i + 1)) := by
      rcases hch with rfl | rfl <;> rfl
    rw [drop_of_getElem? hparam, hread]
    dsimp only
    cases hnick : Nickname.new target with
    | error e =>
      have hmember : isMember channel target = false := by rw [isMember, hnick]
      refine ⟨i + 1, replies, ?_, rfl⟩
      rw [hmember]
      simp only [ModeState.status, hnick]
      rfl
    | ok nickname =>
      have hmember : isMember channel target = channel.members.contains nickname := by
        rw [isMember, hnick]
      rw [hmember]
      cases hcontains : channel.members.contains nickname with
      | false =>
        let reply := numeric errUserNotInChannel [nick, target, chanStr] "They aren't on that channel"
        refine ⟨i + 1, replies ++ [reply], ?_, rfl⟩
        simp only [ModeState.status, ModeState.consume, hnick, hcontains]
        rfl
      | true =>
        refine ⟨i + 1, replies, ?_, rfl⟩
        rcases hch with rfl | rfl
        · simp only [ModeState.status, ModeState.consume, hnick, hcontains, if_true]
          simp only [Option.toList_some, List.foldl_cons, List.foldl_nil, ModeState.make,
            ModeChange.apply, hnick]
          rfl
        · simp only [ModeState.status, ModeState.consume, hnick, hcontains, if_true]
          simp only [Option.toList_some, List.foldl_cons, List.foldl_nil, ModeState.make,
            ModeChange.apply, hnick]
          rfl

/-- **A letter** that is no sign is read. -/
theorem ModeState.reads_step (m : ModeState) {ch : Char} (hplus : ch ≠ '+') (hminus : ch ≠ '-') :
    m.Reads nick now modeParams ch (m.step nick chanStr now modeParams ch) := by
  unfold ModeState.step
  dsimp only
  split
  · exact absurd rfl hplus
  · exact absurd rfl hminus
  · exact ⟨_, _, rfl, rfl⟩
  · exact ⟨_, _, rfl, rfl⟩
  · exact ⟨_, _, rfl, rfl⟩
  · exact ⟨_, _, rfl, rfl⟩
  · exact ⟨_, _, rfl, rfl⟩
  · exact m.reads_key
  · exact m.reads_limit
  · exact m.reads_ban
  · exact m.reads_status (.inl rfl)
  · exact m.reads_status (.inr rfl)
  · next hi hm hn hs ht hk hl hb ho hv =>
    have hflag : flagMode ch = none := by
      unfold flagMode
      split
      case h_6 => rfl
      all_goals exact absurd rfl ‹_›
    have hread : readLetter (isMember m.channel) m.adding (modeParams.drop m.paramIdx) ch =
        (none, modeParams.drop m.paramIdx) := by
      simp only [readLetter, hflag, if_neg hk, if_neg hl, if_neg hb, if_neg (not_or.mpr ⟨ho, hv⟩)]
    unfold ModeState.Reads
    rw [hread]
    exact ⟨_, _, rfl, rfl⟩

/-- What is left of the letters is read of the channel as it was: no change takes members away or
lets them in. -/
theorem isMember_congr {channel channel' : Channel} (h : channel.occupants = channel'.occupants) :
    isMember channel = isMember channel' := by
  funext target
  unfold isMember
  split
  · rfl
  · next nickname _ =>
    have hmem : nickname.fold ∈ channel.occupants ↔ nickname.fold ∈ channel'.occupants := by rw [h]
    exact Bool.eq_iff_iff.mpr (FoldMap.contains_iff.trans (hmem.trans FoldMap.contains_iff.symm))

/-- **The loop over a mode string makes the changes that the string stands for.** -/
theorem ModeState.sameLine_foldl_step (nick chanStr : Str) (now : ℕ) (modeParams : List Str)
    (m : ModeState) (letters : Str) :
    (letters.foldl (ModeState.step nick chanStr now modeParams) m).SameLine
      ((readModes (isMember m.channel) m.adding (modeParams.drop m.paramIdx) letters).foldl
        (ModeState.make nick now) m) := by
  induction letters generalizing m with
  | nil => exact ⟨rfl, rfl, rfl, rfl⟩
  | cons ch letters ih =>
    rw [List.foldl_cons, readModes]
    have hmember := isMember_congr (m.occupants_step nick chanStr now modeParams ch)
    split_ifs with hplus hminus
    · subst hplus
      have hsame : (m.step nick chanStr now modeParams '+').SameLine m := ⟨rfl, rfl, rfl, rfl⟩
      exact (ih _).trans (hsame.foldl _)
    · subst hminus
      have hsame : (m.step nick chanStr now modeParams '-').SameLine m := ⟨rfl, rfl, rfl, rfl⟩
      exact (ih _).trans (hsame.foldl _)
    · have hreads : m.Reads nick now modeParams ch (m.step nick chanStr now modeParams ch) :=
        m.reads_step hplus hminus
      obtain ⟨i, replies, hstep, hleft⟩ := hreads
      have hrest := ih (m.step nick chanStr now modeParams ch)
      rw [hmember, hstep] at hrest
      have hsame (made : ModeState) :
          { made with adding := m.adding, paramIdx := i, replies := replies }.SameLine made :=
        ⟨rfl, rfl, rfl, rfl⟩
      rw [List.foldl_append, ← hleft, hstep]
      exact hrest.trans ((hsame _).foldl _)

theorem ModeState.foldl_make (nick : Str) (now : ℕ) (m : ModeState) (changes : List ModeChange) :
    (changes.foldl (ModeState.make nick now) m).channel =
        changes.foldl (fun channel change => change.apply nick now channel) m.channel ∧
      (changes.foldl (ModeState.make nick now) m).appliedModes =
        m.appliedModes ++ writeModes m.lastDir changes ∧
      (changes.foldl (ModeState.make nick now) m).appliedParams =
        m.appliedParams ++ writeParams changes := by
  induction changes generalizing m with
  | nil => simp [writeModes, writeParams]
  | cons change changes ih =>
    obtain ⟨hchannel, hmodes, hparams⟩ := ih (m.make nick now change)
    refine ⟨hchannel, ?_, ?_⟩
    · rw [List.foldl_cons, hmodes]
      simp [ModeState.make, ModeState.applied, writeModes, writeSign]
    · rw [List.foldl_cons, hparams]
      cases hparam : change.param <;>
        simp [ModeState.make, ModeState.applied, writeParams, hparam]

end Loop

/-! ## Reading what was written -/

section Lines

variable {member : Str → Bool} {change : ModeChange} {changes : List ModeChange}

@[simp] theorem writeParams_cons :
    writeParams (change :: changes) = change.param.toList ++ writeParams changes := by
  cases hparam : change.param <;> simp [writeParams, hparam]

@[simp] theorem writeParams_append (changes' : List ModeChange) :
    writeParams (changes ++ changes') = writeParams changes ++ writeParams changes' :=
  List.filterMap_append

theorem flagMode_modeChar {ch : Char} {mode : ChannelMode} (h : flagMode ch = some mode) :
    flagMode mode.modeChar = some mode := by
  unfold flagMode at h
  split at h
  case h_6 => cases h
  all_goals
    cases h
    rfl

theorem readLetter_valid {adding : Bool} {params : List Str} {ch : Char}
    (h : (readLetter member adding params ch).1 = some change) : change.Valid member := by
  unfold readLetter at h
  split at h
  · next hflag =>
    cases h
    exact flagMode_modeChar hflag
  · split_ifs at h with hk hl hb ho
    · split at h <;> cases h <;> trivial
    · split at h
      · split_ifs at h with hnumber
        cases h
        exact hnumber
      · cases h
      · cases h
        trivial
    · split at h <;> cases h
      trivial
    · split at h
      · simp only at h
        split_ifs at h with hmember
        cases h
        exact hmember
      · cases h

theorem valid_of_mem_readModes {adding : Bool} {params : List Str} {letters : Str}
    (h : change ∈ readModes member adding params letters) : change.Valid member := by
  induction letters generalizing adding params with
  | nil => cases h
  | cons ch letters ih =>
    rw [readModes] at h
    split_ifs at h with hplus hminus
    · exact ih h
    · exact ih h
    · rcases List.mem_append.mp h with hread | hrest
      · exact readLetter_valid (by simpa using hread)
      · exact ih hrest

theorem length_readLetter_le (member : Str → Bool) (adding : Bool) (params : List Str) (ch : Char) :
    (writeParams (readLetter member adding params ch).1.toList).length +
      (readLetter member adding params ch).2.length ≤ params.length := by
  have hone (change : ModeChange) : writeParams [change] = change.param.toList := by
    rw [writeParams_cons, writeParams, List.filterMap_nil, List.append_nil]
  unfold readLetter
  split
  · simp [hone, ModeChange.param]
  · split_ifs with hk hl hb ho
    · split
      · simp only [Option.toList_some, hone, ModeChange.param, List.length_cons, List.length_nil]
        omega
      · exact le_rfl
      · simp only [Option.toList_some, hone, ModeChange.param, Option.toList_none, List.length_nil,
          List.length_tail]
        omega
    · split
      · split_ifs
        · simp only [Option.toList_some, hone, ModeChange.param, List.length_cons, List.length_nil]
          omega
        · simp [writeParams]
      · exact le_rfl
      · simp [hone, ModeChange.param]
    · split
      · simp only [Option.toList_some, hone, ModeChange.param, List.length_cons, List.length_nil]
        omega
      · exact le_rfl
    · split
      · dsimp only
        split_ifs
        · simp only [Option.toList_some, hone, ModeChange.param, List.length_cons, List.length_nil]
          omega
        · simp [writeParams]
      · exact le_rfl
    · simp [writeParams]

theorem length_writeParams_readModes_le (member : Str → Bool) (adding : Bool) (params : List Str)
    (letters : Str) :
    (writeParams (readModes member adding params letters)).length ≤ params.length := by
  induction letters generalizing adding params with
  | nil => exact Nat.zero_le _
  | cons ch letters ih =>
    rw [readModes]
    split_ifs with hplus hminus
    · exact ih ..
    · exact ih ..
    · have hletter := length_readLetter_le member adding params ch
      have hrest := ih adding (readLetter member adding params ch).2
      dsimp only
      rw [writeParams_append, List.length_append]
      omega

/-- **A letter that was written is read as its change**, which uses up its parameter, and one more
where the key is removed. -/
theorem readLetter_letter (hvalid : change.Valid member) (params : List Str) :
    readLetter member change.adding (change.param.toList ++ params) change.letter =
      (some change, if change = .key none then params.tail else params) := by
  cases change with
  | flag adding mode =>
    simp only [ModeChange.Valid] at hvalid
    simp [readLetter, ModeChange.letter, ModeChange.param, ModeChange.adding, hvalid]
  | key value => cases value <;> rfl
  | limit text =>
    cases text with
    | none => rfl
    | some text =>
      simp only [ModeChange.Valid] at hvalid
      have hread : readLetter member true (text :: params) 'l' =
          if (parseU32 text).isSome then (some (.limit (some text)), params)
          else (none, text :: params) := rfl
      exact hread.trans (if_pos hvalid)
  | ban adding mask => rfl
  | status adding oper target =>
    simp only [ModeChange.Valid] at hvalid
    cases oper
    · have hread : readLetter member adding (target :: params) 'v' =
          (if member target then some (.status adding false target) else none, params) := rfl
      exact hread.trans (by rw [if_pos hvalid]; rfl)
    · have hread : readLetter member adding (target :: params) 'o' =
          (if member target then some (.status adding true target) else none, params) := rfl
      exact hread.trans (by rw [if_pos hvalid]; rfl)

theorem letter_ne_sign (change : ModeChange) : change.letter ≠ '+' ∧ change.letter ≠ '-' := by
  cases change with
  | flag adding mode => cases mode <;> simp [ModeChange.letter, ChannelMode.modeChar]
  | key => simp [ModeChange.letter]
  | limit => simp [ModeChange.letter]
  | ban => simp [ModeChange.letter]
  | status adding oper => cases oper <;> simp [ModeChange.letter]

theorem readModes_writeModes_cons {last : Option Bool} {adding : Bool}
    (hvalid : change.Valid member) (hlast : ∀ sign ∈ last, sign = adding) (params : List Str) :
    readModes member adding (change.param.toList ++ params) (writeModes last (change :: changes)) =
      change :: readModes member change.adding
        (if change = .key none then params.tail else params)
        (writeModes (some change.adding) changes) := by
  obtain ⟨hplus, hminus⟩ := letter_ne_sign change
  have hletter (sign : Bool) (hsign : change.adding = sign) :
      readModes member sign (change.param.toList ++ params)
          (change.letter :: writeModes (some change.adding) changes) =
        change :: readModes member change.adding
          (if change = .key none then params.tail else params)
          (writeModes (some change.adding) changes) := by
    rw [readModes, if_neg hplus, if_neg hminus, ← hsign, readLetter_letter hvalid]
    rfl
  rw [writeModes, writeSign]
  by_cases hsign : last = some change.adding
  · rw [if_neg (not_not.mpr hsign)]
    exact hletter adding (hlast _ hsign)
  · rw [if_pos hsign]
    by_cases hadding : change.adding = true
    · rw [if_pos hadding]
      exact hletter true hadding
    · rw [if_neg hadding]
      exact hletter false (Bool.eq_false_iff.mpr hadding)

/-- **What was written is read back**, where no parameter is lost. -/
theorem readModes_writeModes {last : Option Bool} {adding : Bool}
    (hvalid : ∀ change ∈ changes, change.Valid member) (hlast : ∀ sign ∈ last, sign = adding)
    (hloses : losesParam changes = false) :
    readModes member adding (writeParams changes) (writeModes last changes) = changes := by
  induction changes generalizing last adding with
  | nil => rfl
  | cons change changes ih =>
    obtain ⟨hchange, hchanges⟩ := List.forall_mem_cons.mp hvalid
    rw [losesParam, Bool.or_eq_false_iff, decide_eq_false_iff_not, not_and, not_not] at hloses
    obtain ⟨hkey, hloses⟩ := hloses
    rw [writeParams_cons, readModes_writeModes_cons hchange hlast]
    -- removing the key finds no parameter to use up
    have hparams : (if change = .key none then (writeParams changes).tail
        else writeParams changes) = writeParams changes := by
      split_ifs with hnone
      · rw [hkey hnone, List.tail_nil]
      · rfl
    rw [hparams, ih hchanges (by simp) hloses]

theorem length_pos_of_losesParam (hloses : losesParam (change :: changes) = true) :
    0 < (writeParams changes).length := by
  rw [List.length_pos_iff]
  induction changes generalizing change with
  | nil => simp [losesParam, writeParams] at hloses
  | cons next changes ih =>
    rw [losesParam, Bool.or_eq_true, decide_eq_true_eq] at hloses
    rcases hloses with ⟨_, hparams⟩ | hloses
    · exact hparams
    · rw [writeParams_cons]
      exact List.append_ne_nil_of_right_ne_nil _ (ih hloses)

/-- **Where one is lost, fewer are read** than were written. -/
theorem length_writeParams_readModes_lt {last : Option Bool} {adding : Bool}
    (hvalid : ∀ change ∈ changes, change.Valid member) (hlast : ∀ sign ∈ last, sign = adding)
    (hloses : losesParam changes = true) :
    (writeParams (readModes member adding (writeParams changes) (writeModes last changes))).length <
      (writeParams changes).length := by
  induction changes generalizing last adding with
  | nil => cases hloses
  | cons change changes ih =>
    obtain ⟨hchange, hchanges⟩ := List.forall_mem_cons.mp hvalid
    rw [writeParams_cons, readModes_writeModes_cons hchange hlast, writeParams_cons,
      List.length_append, List.length_append]
    split_ifs with hnone
    · -- the rest has one parameter less to read
      have hrest := length_pos_of_losesParam hloses
      have hle := length_writeParams_readModes_le member change.adding
        (writeParams changes).tail (writeModes (some change.adding) changes)
      rw [List.length_tail] at hle
      omega
    · have hlt : (writeParams (readModes member change.adding (writeParams changes)
          (writeModes (some change.adding) changes))).length < (writeParams changes).length :=
        ih hchanges (by simp) (by simpa [losesParam, hnone] using hloses)
      omega

end Lines

/-! ## Messages -/

section Messages

variable {s : ServerState} {msg : Message} {c : ConnId}

/-- A message that sets modes of a channel: who sent it, the channel and what is asked for. -/
structure ModeSetting where
  session : UserSession
  chanStr : Str
  name : ChannelName
  channel : Channel
  modestring : Str
  modeParams : List Str

/-- **What a message asks for**, if it is an operator's message that sets modes. -/
def modeSetting (s : ServerState) (msg : Message) (c : ConnId) : Option ModeSetting :=
  match s.registry.getByConnection c, msg.params with
  | some session, chanStr :: modestring :: modeParams =>
    match findChannel s session.nickname.name chanStr with
    | .error _ => none
    | .ok (name, channel) =>
      if (modestring = "+b".toList ∨ modestring = "b".toList) ∧ modeParams.isEmpty then none
      else
        match requireOperator channel session.nickname chanStr with
        | .error _ => none
        | .ok () => some ⟨session, chanStr, name, channel, modestring, modeParams⟩
  | _, _ => none

def ModeSetting.changes (setting : ModeSetting) : List ModeChange :=
  readModes (isMember setting.channel) true setting.modeParams setting.modestring

def ModeSetting.changed (setting : ModeSetting) (now : ℕ) : Channel :=
  setting.changes.foldl (fun channel change =>
    change.apply setting.session.nickname.name now channel) setting.channel

def ModeSetting.line (setting : ModeSetting) : Option Message :=
  if setting.changes = [] then none
  else
    some {
      prefix_ := some setting.session.userPrefix
      command := .mode
      params :=
        setting.name.name :: writeModes none setting.changes :: writeParams setting.changes }

theorem ModeSetting.params_of_line (setting : ModeSetting) {line : Message}
    (h : setting.line = some line) :
    line.params =
      setting.name.name :: writeModes none setting.changes :: writeParams setting.changes := by
  unfold ModeSetting.line at h
  split_ifs at h
  cases h
  rfl

/-- **The line that is broadcast** for a message. -/
def modeLine (s : ServerState) (msg : Message) (c : ConnId) : Option Message :=
  (modeSetting s msg c).bind ModeSetting.line

theorem writeModes_eq_nil {last : Option Bool} {changes : List ModeChange} :
    writeModes last changes = [] ↔ changes = [] := by
  cases changes <;> simp [writeModes]

theorem modeSetting_eq_some {setting : ModeSetting} :
    modeSetting s msg c = some setting ↔
      s.registry.getByConnection c = some setting.session ∧
      msg.params = setting.chanStr :: setting.modestring :: setting.modeParams ∧
      findChannel s setting.session.nickname.name setting.chanStr =
        .ok (setting.name, setting.channel) ∧
      ¬ ((setting.modestring = "+b".toList ∨ setting.modestring = "b".toList) ∧
        setting.modeParams.isEmpty) ∧
      requireOperator setting.channel setting.session.nickname setting.chanStr = .ok () := by
  constructor
  · intro h
    unfold modeSetting at h
    split at h
    · next session chanStr modestring modeParams hsession hparams =>
      split at h
      · cases h
      · next name channel hfound =>
        split_ifs at h with hquery
        split at h
        · cases h
        · next hoper =>
          cases h
          exact ⟨hsession, hparams, hfound, hquery, hoper⟩
    · cases h
  · rintro ⟨hsession, hparams, hfound, hquery, hoper⟩
    unfold modeSetting
    rw [hsession, hparams]
    dsimp only
    rw [hfound]
    dsimp only
    rw [if_neg hquery, hoper]

/-- **The loop over the letters**, for a message that sets modes. -/
theorem ModeSetting.foldl_step (setting : ModeSetting) (now : ℕ) :
    let m := setting.modestring.foldl
      (ModeState.step setting.session.nickname.name setting.chanStr now setting.modeParams)
      { channel := setting.channel }
    m.channel = setting.changed now ∧ m.appliedModes = writeModes none setting.changes ∧
      m.appliedParams = writeParams setting.changes := by
  let start : ModeState := { channel := setting.channel }
  have hsame := start.sameLine_foldl_step setting.session.nickname.name setting.chanStr now
    setting.modeParams setting.modestring
  obtain ⟨hchannel, hmodes, hparams⟩ :=
    start.foldl_make setting.session.nickname.name now setting.changes
  exact ⟨hsame.channel.trans hchannel, hsame.modes.trans hmodes, hsame.params.trans hparams⟩

/-- **A message that sets modes** writes the channel with its changes, and broadcasts the line. -/
theorem handleChannelMode_eq {setting : ModeSetting} (h : modeSetting s msg c = some setting)
    (now : ℕ) :
    ∃ t : ServerState, t.channels = s.channels.modify setting.name (fun _ => setting.changed now) ∧
      handleChannelMode s msg c now =
        match setting.line with
        | none => t
        | some line => t.broadcastToChannel (setting.changed now) line none := by
  obtain ⟨hsession, hparams, hfound, hquery, hoper⟩ := modeSetting_eq_some.mp h
  have hhandle : handleChannelMode s msg c now =
      setChannelMode s c setting.session now setting.chanStr setting.name setting.channel
        setting.modestring setting.modeParams := by
    unfold handleChannelMode
    rw [hsession, hparams]
    dsimp only
    rw [hfound]
    dsimp only
    rw [if_neg hquery, hoper]
  obtain ⟨hchannel, hmodes, happlied⟩ := setting.foldl_step now
  rw [hhandle, setChannelMode]
  generalize setting.modestring.foldl (ModeState.step setting.session.nickname.name
    setting.chanStr now setting.modeParams) { channel := setting.channel } = m
    at hchannel hmodes happlied
  have hwritten : s.channels.modify setting.name (fun _ => m.channel) =
      s.channels.modify setting.name fun _ => setting.changed now := by rw [hchannel]
  refine ⟨({ s with
    channels := s.channels.modify setting.name fun _ => m.channel }).reply c m.replies, hwritten, ?_⟩
  rw [hmodes, happlied, hchannel, ModeSetting.line]
  by_cases hnone : setting.changes = []
  · rw [if_pos hnone, hnone]
    rfl
  · have hmodes' : ¬ (writeModes none setting.changes).isEmpty :=
      mt List.isEmpty_iff.mp (mt writeModes_eq_nil.mp hnone)
    rw [if_neg hnone, if_neg hmodes']

theorem handleChannelMode_channels {setting : ModeSetting} (h : modeSetting s msg c = some setting)
    (now : ℕ) :
    (handleChannelMode s msg c now).channels =
      s.channels.modify setting.name fun _ => setting.changed now := by
  obtain ⟨t, hchannels, hhandle⟩ := handleChannelMode_eq h now
  rw [hhandle, ← hchannels]
  split
  · rfl
  · exact ServerState.broadcastToChannel_channels ..

/-- **Other messages** leave the channels as they are. -/
theorem handleChannelMode_channels_of_none (h : modeSetting s msg c = none) (now : ℕ) :
    (handleChannelMode s msg c now).channels = s.channels := by
  unfold handleChannelMode
  split
  · rfl
  · next session hsession =>
    dsimp only
    split
    · rfl
    · next chanStr rest hparams =>
      split
      · rfl
      · next name channel hfound =>
        split
        · rfl
        · next modestring modeParams =>
          split_ifs with hquery
          · rfl
          · split
            · rfl
            · next hoper =>
              -- an operator who asks for modes is a setting
              have hsome : modeSetting s msg c =
                  some ⟨session, chanStr, name, channel, modestring, modeParams⟩ :=
                modeSetting_eq_some.mpr ⟨hsession, hparams, hfound, hquery, hoper⟩
              rw [h] at hsome
              cases hsome

/-! ## Lines in place of messages -/

theorem findChannel_name {nick chanStr : Str} {name : ChannelName} {channel : Channel}
    (h : findChannel s nick chanStr = .ok (name, channel)) :
    findChannel s nick name.name = .ok (name, channel) := by
  have hget := get_of_findChannel h
  unfold findChannel
  rw [ChannelName.new_name]
  dsimp only
  rw [hget]

theorem requireOperator_name {channel : Channel} {nick : Nickname} {chanStr : Str} (chanStr' : Str)
    (h : requireOperator channel nick chanStr = .ok ()) :
    requireOperator channel nick chanStr' = .ok () := by
  unfold requireOperator requireMember at h ⊢
  cases hget : channel.members.get nick with
  | none =>
    rw [hget] at h
    cases h
  | some status =>
    rw [hget] at h
    obtain ⟨_, hstatus, hoper⟩ := Except.bind_eq_ok.mp h
    cases hstatus
    split_ifs at hoper with hne
    exact if_neg hne

theorem not_query_of_line {changes : List ModeChange}
    (hmodes : writeModes none changes = "+b".toList ∨ writeModes none changes = "b".toList) :
    writeParams changes ≠ [] := by
  cases changes with
  | nil => rcases hmodes with h | h <;> cases h
  | cons change changes =>
    have hletter : change.letter = 'b' := by
      rw [writeModes, writeSign, if_pos (by simp)] at hmodes
      rcases hmodes with h | h
      · injection h with _ h
        injection h
      · injection h with _ h
        cases h
    rw [writeParams_cons]
    cases change with
    | ban adding mask => simp [ModeChange.param]
    | flag adding mode => cases mode <;> cases hletter
    | status adding oper => cases oper <;> cases hletter
    | key => cases hletter
    | limit => cases hletter

/-- **A line asks for what it announces**, as far as it is read back. -/
theorem modeSetting_line {setting : ModeSetting} {line : Message}
    (h : modeSetting s msg c = some setting) (hline : setting.line = some line) :
    modeSetting s line c = some { setting with
      chanStr := setting.name.name
      modestring := writeModes none setting.changes
      modeParams := writeParams setting.changes } := by
  obtain ⟨hsession, hparams, hfound, hquery, hoper⟩ := modeSetting_eq_some.mp h
  unfold ModeSetting.line at hline
  split_ifs at hline with hnone
  cases hline
  refine modeSetting_eq_some.mpr
    ⟨hsession, rfl, findChannel_name hfound, ?_, requireOperator_name _ hoper⟩
  rintro ⟨hmodes, hempty⟩
  exact not_query_of_line hmodes (List.isEmpty_iff.mp hempty)

def modeChanges (s : ServerState) (msg : Message) (c : ConnId) : List ModeChange :=
  ((modeSetting s msg c).map ModeSetting.changes).getD []

/-- **Which announced lines can be processed in place of the message**: unless a key is removed
before a change with a parameter, the line makes the same of the channels and is announced as
itself. Otherwise it is read with a parameter less, and not announced as itself. -/
theorem handleChannelMode_modeLine {line : Message} (h : modeLine s msg c = some line) (now : ℕ) :
    (losesParam (modeChanges s msg c) = false →
      modeLine s line c = some line ∧
      (handleChannelMode s line c now).channels = (handleChannelMode s msg c now).channels) ∧
    (losesParam (modeChanges s msg c) = true → modeLine s line c ≠ some line) := by
  obtain ⟨setting, hsetting, hline⟩ := Option.bind_eq_some_iff.mp h
  have hreplay := modeSetting_line hsetting hline
  have hchanges : modeChanges s msg c = setting.changes := by rw [modeChanges, hsetting]; rfl
  have hvalid : ∀ change ∈ setting.changes, change.Valid (isMember setting.channel) :=
    fun _ => valid_of_mem_readModes
  rw [hchanges]
  -- what the line is read as, under the name and the sign it is written with
  let replay : ModeSetting := { setting with
    chanStr := setting.name.name
    modestring := writeModes none setting.changes
    modeParams := writeParams setting.changes }
  constructor
  · intro hkeeps
    have hread : replay.changes = setting.changes :=
      readModes_writeModes hvalid (fun _ hsign => by cases hsign) hkeeps
    have hchanged : replay.changed now = setting.changed now := by
      unfold ModeSetting.changed
      rw [hread]
    have hline' : replay.line = setting.line := by
      unfold ModeSetting.line
      rw [hread]
    constructor
    · rw [modeLine, hreplay, Option.bind_some]
      exact hline'.trans hline
    · rw [handleChannelMode_channels hreplay, handleChannelMode_channels hsetting]
      exact congrArg (fun channel => s.channels.modify setting.name fun _ => channel) hchanged
  · intro hloses hsame
    have hlt : (writeParams replay.changes).length < (writeParams setting.changes).length :=
      length_writeParams_readModes_lt hvalid (fun _ hsign => by cases hsign) hloses
    rw [modeLine, hreplay, Option.bind_some] at hsame
    have hparams := (replay.params_of_line hsame).symm.trans (setting.params_of_line hline)
    injection hparams with _ hparams
    injection hparams with _ hparams
    rw [hparams] at hlt
    exact hlt.false

def alicesChannel : ServerState where
  registry := withoutSecret.registry
  channels := {
    byName := FoldMap.insert ∅ bobsSecret.name
      { bobsSecret with members := FoldMap.insert ∅ alice .operator, key := some "old".toList } }

def removeKeySetLimit : Message :=
  { command := .mode, params := ["#s".toList, "-k+l".toList, "old".toList, "50".toList] }

def limitOf (s : ServerState) : Option ℕ := (s.channels.get bobsSecret.name).bind Channel.userLimit

/-- **The limit is lost** where the line is processed in place of the message: it goes with the
key. -/
theorem limit_lost :
    ∃ line, modeLine alicesChannel removeKeySetLimit 1 = some line ∧
      limitOf (handleChannelMode alicesChannel removeKeySetLimit 1 0) = some 50 ∧
      limitOf (handleChannelMode alicesChannel line 1 0) = none :=
  ⟨{ prefix_ := some aliceOnline.userPrefix
     command := .mode
     params := ["#s".toList, "-k+l".toList, "50".toList] }, by decide, by decide, by decide⟩

def setLimitRemoveKey : Message :=
  { command := .mode, params := ["#s".toList, "+tlb-k".toList, "50".toList, "x!*@*".toList, "old".toList] }

/-- Where the key is removed behind the limit, the line does the same. -/
theorem handleChannelMode_modeLine_setLimit :
    ∃ line, modeLine alicesChannel setLimitRemoveKey 1 = some line ∧
      (handleChannelMode alicesChannel line 1 0).channels =
        (handleChannelMode alicesChannel setLimitRemoveKey 1 0).channels := by
  obtain ⟨line, hline⟩ := Option.isSome_iff_exists.mp
    (show (modeLine alicesChannel setLimitRemoveKey 1).isSome = true by decide)
  exact ⟨line, hline, ((handleChannelMode_modeLine hline 0).1 (by decide)).2⟩

end Messages

end Pirc.Server
