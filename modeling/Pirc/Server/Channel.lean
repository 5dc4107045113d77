import Mathlib.Data.Char
import Mathlib.Data.Multiset.Sort
import Pirc.Server.Registry

/-!
# Server: channels

`channel.rs`, `channel_registry.rs` and the masks of `handler_channel/util.rs`. Channel names are
compared without regard to the case of ASCII letters, like nicknames.
-/

namespace Pirc.Server

open Protocol

/-! ## Text -/

/-- White space that `str::trim` removes. -/
def isWhitespace (c : Char) : Bool :=
  let n := c.toNat
  (9 ≤ n && n ≤ 13) || n = 0x20 || n = 0x85 || n = 0xa0 || n = 0x1680 ||
    (0x2000 ≤ n && n ≤ 0x200a) || n = 0x2028 || n = 0x2029 || n = 0x202f || n = 0x205f || n = 0x3000

def isControl (c : Char) : Bool := c.toNat < 0x20 || (0x7f ≤ c.toNat && c.toNat ≤ 0x9f)

def trim (s : Str) : Str := s.dropWhile isWhitespace |>.reverse.dropWhile isWhitespace |>.reverse

/-- A `u32` in decimal, perhaps after a plus sign. -/
def parseU32 (s : Str) : Option ℕ :=
  let digits := if s.head? = some '+' then s.tail else s
  if digits.isEmpty ∨ ¬ digits.all Char.isDigit then none
  else
    let n := digits.foldl (fun n c => n * 10 + (c.toNat - '0'.toNat)) 0
    if n < 2 ^ 32 then some n else none

/-! ## Channel names -/

/-- Errors of `ChannelName::new`. -/
inductive ChannelNameError
  | empty
  | missingPrefix (c : Char)
  | tooShort
  | tooLong (length : ℕ)
  | invalidChar (c : Char) (position : ℕ)
  deriving DecidableEq

def validateChannelChars (i : ℕ) : Str → Except ChannelNameError Unit
  | [] => .ok ()
  | c :: rest =>
    if c = ' ' ∨ c = ',' ∨ isControl c then .error (.invalidChar c i)
    else validateChannelChars (i + 1) rest

/-- The rules for channel names. The length is counted in bytes. -/
def ChannelName.validate (s : Str) : Except ChannelNameError Unit :=
  match s with
  | [] => .error .empty
  | first :: rest =>
    if first ≠ '#' then .error (.missingPrefix first)
    else if (utf8 s).length < 2 then .error .tooShort
    else if 50 < (utf8 s).length then .error (.tooLong (utf8 s).length)
    else validateChannelChars 1 rest

/-- A name that passed `ChannelName.validate`. -/
structure ChannelName where
  name : Str
  valid : ChannelName.validate name = .ok ()
  deriving DecidableEq

def ChannelName.new (s : Str) : Except ChannelNameError ChannelName :=
  match h : ChannelName.validate s with
  | .ok () => .ok ⟨s, h⟩
  | .error e => .error e

theorem ChannelName.new_name (name : ChannelName) : ChannelName.new name.name = .ok name := by
  unfold ChannelName.new
  split
  · rfl
  · next e h =>
    rw [name.valid] at h
    cases h

theorem forall_of_validateChannelChars : ∀ {i : ℕ} {s : Str}, validateChannelChars i s = .ok () →
    ∀ c ∈ s, c ≠ ' ' ∧ isControl c = false
  | _, [], _ => by simp
  | i, c :: rest, h => by
    unfold validateChannelChars at h
    split_ifs at h with hc
    have ih := forall_of_validateChannelChars h
    rw [not_or, not_or] at hc
    rw [List.forall_mem_cons]
    exact ⟨⟨hc.1, Bool.not_eq_true _ ▸ hc.2.2⟩, ih⟩

/-- A name is a number sign and characters that are neither spaces nor control characters. -/
theorem ChannelName.name_eq (name : ChannelName) :
    ∃ rest, name.name = '#' :: rest ∧ ∀ c ∈ rest, c ≠ ' ' ∧ isControl c = false := by
  have hvalid := name.valid
  unfold ChannelName.validate at hvalid
  cases hname : name.name with
  | nil => simp [hname] at hvalid
  | cons first rest =>
    simp only [hname] at hvalid
    split_ifs at hvalid with hfirst hshort hlong
    have hhash : first = '#' := not_not.mp hfirst
    exact ⟨rest, by rw [hhash], forall_of_validateChannelChars hvalid⟩

def ChannelName.fold (name : ChannelName) : Str := lowercase name.name

/-! ## Channels -/

/-- Modes of a channel. Handlers keep the key and the limit in fields of their own. -/
inductive ChannelMode
  | inviteOnly | moderated | noExternalMessages | secret | topicProtected
  | keyRequired (key : Str)
  | userLimit (limit : ℕ)
  deriving DecidableEq

def ChannelMode.modeChar : ChannelMode → Char
  | inviteOnly => 'i'
  | moderated => 'm'
  | noExternalMessages => 'n'
  | secret => 's'
  | topicProtected => 't'
  | keyRequired _ => 'k'
  | userLimit _ => 'l'

inductive MemberStatus
  | normal | voiced | operator
  deriving DecidableEq

def MemberStatus.prefixChar : MemberStatus → Option Char
  | normal => none
  | voiced => some '+'
  | operator => some '@'

structure BanEntry where
  mask : Str
  whoSet : Str
  timestamp : ℕ
  deriving DecidableEq

structure Topic where
  text : Str
  who : Str
  timestamp : ℕ
  deriving DecidableEq

/-- A channel, with its members, modes, bans and invitations. -/
structure Channel where
  name : ChannelName
  topic : Option Topic := none
  modes : Finset ChannelMode := ∅
  members : FoldMap Nickname.fold MemberStatus := ∅
  banList : List BanEntry := []
  inviteList : FoldMap Nickname.fold Unit := ∅
  key : Option Str := none
  userLimit : Option ℕ := none

/-- The channels, by name. -/
structure ChannelRegistry where
  byName : FoldMap ChannelName.fold Channel := ∅

namespace ChannelRegistry

def getOrCreate (r : ChannelRegistry) (name : ChannelName) : Channel × ChannelRegistry :=
  match r.byName.get name with
  | some channel => (channel, r)
  | none =>
    let channel := { name := name }
    (channel, { byName := r.byName.insert name channel })

def get (r : ChannelRegistry) (name : ChannelName) : Option Channel := r.byName.get name

def modify (r : ChannelRegistry) (name : ChannelName) (f : Channel → Channel) : ChannelRegistry :=
  { byName := r.byName.modify name f }

def removeIfEmpty (r : ChannelRegistry) (name : ChannelName) : ChannelRegistry :=
  match r.byName.get name with
  | some channel => if channel.members.isEmpty then { byName := r.byName.remove name } else r
  | none => r

def listAll (r : ChannelRegistry) : List (ChannelName × Channel) := r.byName.entries

def channelsForNick (r : ChannelRegistry) (nick : Nickname) : ℕ :=
  r.listAll.countP fun e => e.2.members.contains nick

variable (r : ChannelRegistry) (name : ChannelName) (k : Str)

theorem lookup_getOrCreate :
    (r.getOrCreate name).2.byName.lookup k =
      if name.fold = k then some (r.getOrCreate name).1 else r.byName.lookup k := by
  unfold getOrCreate
  cases h : r.byName.get name with
  | some channel =>
    dsimp only
    split_ifs with hk
    · rw [← hk]
      exact h
    · rfl
  | none =>
    dsimp only
    rw [FoldMap.lookup_insert]

theorem lookup_removeIfEmpty :
    (r.removeIfEmpty name).byName.lookup k =
      if name.fold = k then (r.byName.lookup k).filter fun channel => !channel.members.isEmpty
      else r.byName.lookup k := by
  unfold removeIfEmpty
  cases h : r.byName.get name with
  | some channel =>
    rw [FoldMap.get] at h
    dsimp only
    split_ifs with hempty hk hk
    · rw [FoldMap.lookup_remove, if_pos hk, ← hk, h]
      simp [Option.filter, hempty]
    · rw [FoldMap.lookup_remove, if_neg hk]
    · rw [← hk, h]
      simp [Option.filter, hempty]
    · rfl
  | none =>
    rw [FoldMap.get] at h
    dsimp only
    split_ifs with hk
    · rw [← hk, h]
      rfl
    · rfl

end ChannelRegistry

theorem getOrCreate_of_not_isEmpty {r : ChannelRegistry} {name : ChannelName}
    (h : ¬ (r.getOrCreate name).1.members.isEmpty) : (r.getOrCreate name).2 = r := by
  unfold ChannelRegistry.getOrCreate at h ⊢
  split
  · rfl
  · next hnone =>
    rw [hnone] at h
    exact absurd rfl h

theorem not_isEmpty_of_contains {channel : Channel} {nick : Nickname}
    (h : channel.members.contains nick) : ¬ channel.members.isEmpty := by
  rw [FoldMap.isEmpty_iff]
  intro hnone
  obtain ⟨status, hstatus⟩ := FoldMap.contains_iff.mp h
  rw [FoldMap.get, hnone] at hstatus
  cases hstatus

/-! ## Masks -/

/-- The loop of `glob_match`, over what is left of the pattern and of the text. The star is where
to go on when the rest does not match: behind the last star, with one more byte for it. -/
def globLoop : ℕ → List UInt8 → List UInt8 → Option (List UInt8 × List UInt8) → Bool
  | 0, _, _, _ => false
  | _ + 1, pattern, [], _ => pattern.all (· = '*'.toUInt8)
  | fuel + 1, pattern, x :: text, star =>
    let retry :=
      match star with
      | some (afterStar, _ :: starText) =>
        globLoop fuel afterStar starText (some (afterStar, starText))
      | some (_, []) | none => false
    match pattern with
    | p :: rest =>
      if p = '?'.toUInt8 ∨ p = x then globLoop fuel rest text star
      else if p = '*'.toUInt8 then globLoop fuel rest (x :: text) (some (rest, x :: text))
      else retry
    | [] => retry

/-- The mask matcher. -/
def globMatch (pattern text : Str) : Bool :=
  let p := utf8 pattern
  let t := utf8 text
  globLoop ((p.length + 2) * (t.length + 2) * (p.length + t.length + 2)) p t none

def matchesBanMask (mask target : Str) : Bool := globMatch (lowercase mask) (lowercase target)

def isBanned (banList : List BanEntry) (userMask : Str) : Bool :=
  banList.any fun ban => matchesBanMask ban.mask userMask

end Pirc.Server
