import Pirc.Lib.Run
import Pirc.Lib.Threads
import Pirc.Server.ChannelCommands

/-!
# Server: concurrent calls on the channel registry

`JOIN`, `PART`, `KICK` and `QUIT`, one registry call or one locked section at a time. The registry
hands out channels behind pointers, so a handler may still hold a channel that the registry has
removed. A `JOIN` gets the channel in one step and locks it in a later one; a channel that is empty
in between is removed by whoever cleans up.

Broadcasts and replies only read, and are left out. A `JOIN` or `PART` of several channels is
several calls in a row.
-/

namespace Pirc.Server

open Protocol

/-! ## Steps -/

/-- A pointer to a channel: its number in the order the channels were made. -/
abbrev ChannelRef := ℕ

/-- **What the handlers share**: the registry, and all channels. `joined` records the joins that
were announced and not undone, by client and channel name, with the channel that was joined. -/
structure ChannelHeap (τ : Type) where
  byName : FoldMap ChannelName.fold ChannelRef := ∅
  heap : List Channel := []
  joined : τ → Str → Option ChannelRef := fun _ _ => none

/-- The step that a call makes next. -/
inductive ChannelPhase
  | idle
  -- `JOIN`: the registry is asked for the channel, which is then locked
  | joining (name : ChannelName) (key : Option Str)
  | admitting (name : ChannelName) (key : Option Str) (channel : ChannelRef)
  -- `PART` and `KICK`: the channel is looked up, and the target's membership is checked
  | finding (name : ChannelName) (target : Nickname) (kick : Bool)
  | checking (name : ChannelName) (channel : ChannelRef) (target : Nickname) (kick : Bool)
  -- `QUIT`: all channels are listed, and visited one after another
  | listing
  | visiting (name : ChannelName) (channel : ChannelRef) (rest : List (ChannelName × ChannelRef))
  -- a member is removed, and then the channel if it is empty
  | removing (name : ChannelName) (channel : ChannelRef) (target : Nickname)
      (rest : List (ChannelName × ChannelRef))
  | cleaning (name : ChannelName) (rest : List (ChannelName × ChannelRef))
  deriving DecidableEq

def ChannelPhase.next : List (ChannelName × ChannelRef) → ChannelPhase
  | [] => .idle
  | e :: rest => .visiting e.1 e.2 rest

namespace ChannelHeap

variable {τ : Type}

def getOrCreate (s : ChannelHeap τ) (name : ChannelName) : ChannelRef × ChannelHeap τ :=
  match s.byName.get name with
  | some a => (a, s)
  | none =>
    (s.heap.length, { s with
      byName := s.byName.insert name s.heap.length
      heap := s.heap ++ [{ name := name }] })

def removeIfEmpty (s : ChannelHeap τ) (name : ChannelName) : ChannelHeap τ :=
  match s.byName.get name with
  | some a =>
    if s.heap[a]?.any fun channel => channel.members.isEmpty then
      { s with byName := s.byName.remove name }
    else s
  | none => s

def hasMember (s : ChannelHeap τ) (a : ChannelRef) (nick : Nickname) : Bool :=
  s.heap[a]?.any fun channel => channel.members.contains nick

variable {s : ChannelHeap τ} {a b : ChannelRef} {channel : Channel} {name : ChannelName}
  {nick : Nickname} {k : Str}

theorem hasMember_iff : s.hasMember a nick = true ↔
    ∃ channel, s.heap[a]? = some channel ∧ channel.members.contains nick = true := by
  unfold hasMember
  cases s.heap[a]? with
  | none => simp
  | some channel => simp

theorem heap_set_getElem? (ha : s.heap[a]? = some channel) (channel' : Channel) :
    (s.heap.set a channel')[b]? = if a = b then some channel' else s.heap[b]? := by
  obtain ⟨hlt, -⟩ := List.getElem?_eq_some_iff.mp ha
  rw [List.getElem?_set, if_pos hlt]

theorem lookup_removeIfEmpty_of_hasMember (hk : s.byName.lookup k = some b)
    (h : s.hasMember b nick = true) : (s.removeIfEmpty name).byName.lookup k = some b := by
  unfold removeIfEmpty
  cases hget : s.byName.get name with
  | none => exact hk
  | some a =>
    dsimp only
    split_ifs with hempty
    · dsimp only
      rw [FoldMap.lookup_remove, if_neg, hk]
      intro hname
      -- the channel of this name has a member, so it is not empty
      rw [FoldMap.get, hname, hk] at hget
      cases hget
      obtain ⟨channel, hb, hnick⟩ := hasMember_iff.mp h
      rw [hb] at hempty
      have hnone := FoldMap.isEmpty_iff.mp hempty nick.fold
      rw [FoldMap.contains, FoldMap.get, hnone] at hnick
      cases hnick
    · exact hk

theorem lookup_of_lookup_removeIfEmpty (h : (s.removeIfEmpty name).byName.lookup k = some b) :
    s.byName.lookup k = some b := by
  unfold removeIfEmpty at h
  cases hget : s.byName.get name with
  | none =>
    rw [hget] at h
    exact h
  | some a =>
    rw [hget] at h
    dsimp only at h
    split_ifs at h with hempty
    · dsimp only at h
      rw [FoldMap.lookup_remove] at h
      split_ifs at h
      exact h
    · exact h

@[simp] theorem hasMember_removeIfEmpty :
    (s.removeIfEmpty name).hasMember a nick = s.hasMember a nick := by
  unfold removeIfEmpty
  split
  · split_ifs
    · rfl
    · rfl
  · rfl

end ChannelHeap

/-- The locked section of `JOIN` lets the user in. -/
def Channel.admits (channel : Channel) (session : UserSession) (key : Option Str) : Bool :=
  !channel.members.contains session.nickname &&
    (channel.members.isEmpty || (joinRefusal channel session key).isNone)

def Channel.allowsRemoval (channel : Channel) (nick target : Nickname) (kick : Bool) : Bool :=
  if kick then
    channel.members.get nick = some .operator && channel.members.contains target
  else channel.members.contains nick

section Clients

variable {τ : Type} [DecidableEq τ] (session : τ → UserSession)

def ChannelHeap.join (s : ChannelHeap τ) (t : τ) (name : ChannelName) (a : ChannelRef)
    (channel : Channel) : ChannelHeap τ :=
  { s with
    heap := s.heap.set a (channel.join (session t).nickname)
    joined := fun u k => if u = t ∧ k = name.fold then some a else s.joined u k }

/-- A nickname is taken off the channel `a`: it has left, if this is where it joined. -/
def ChannelHeap.leave (s : ChannelHeap τ) (a : ChannelRef) (channel : Channel) (target : Nickname) :
    ChannelHeap τ :=
  { s with
    heap := s.heap.set a { channel with members := channel.members.remove target }
    joined := fun u k =>
      if (session u).nickname.fold = target.fold ∧ s.joined u k = some a then none
      else s.joined u k }

/-- **The next step** of the call of a client. -/
def access (s : ChannelHeap τ) (t : τ) : ChannelPhase → ChannelHeap τ × ChannelPhase
  | .idle => (s, .idle)
  | .joining name key =>
    let (a, s) := s.getOrCreate name
    (s, .admitting name key a)
  | .admitting name key a =>
    match s.heap[a]? with
    | some channel =>
      if channel.admits (session t) key then (s.join session t name a channel, .idle)
      else (s, .idle)
    | none => (s, .idle)
  | .finding name target kick =>
    match s.byName.get name with
    | some a => (s, .checking name a target kick)
    | none => (s, .idle)
  | .checking name a target kick =>
    if s.heap[a]?.any fun channel => channel.allowsRemoval (session t).nickname target kick then
      (s, .removing name a target [])
    else (s, .idle)
  | .listing => (s, .next s.byName.entries)
  | .visiting name a rest =>
    if s.hasMember a (session t).nickname then (s, .removing name a (session t).nickname rest)
    else (s, .next rest)
  | .removing name a target rest =>
    match s.heap[a]? with
    | some channel => (s.leave session a channel target, .cleaning name rest)
    | none => (s, .cleaning name rest)
  | .cleaning name rest => (s.removeIfEmpty name, .next rest)

/-! ## Runs -/

inductive ChannelCall
  | join (name : ChannelName) (key : Option Str)
  | part (name : ChannelName)
  | kick (name : ChannelName) (target : Nickname)
  | quit
  deriving DecidableEq

/-- A client starts a call, or takes the next step of the one it is in. -/
inductive ChannelEvent (τ : Type)
  | start (t : τ) (call : ChannelCall)
  | access (t : τ)
  deriving DecidableEq

abbrev ChannelRace (τ : Type) := Threads τ (ChannelHeap τ) ChannelPhase

namespace ChannelRace

def firstPhase (nick : Nickname) : ChannelCall → ChannelPhase
  | .join name key => .joining name key
  | .part name => .finding name nick false
  | .kick name target => .finding name target true
  | .quit => .listing

def step (w : ChannelRace τ) : ChannelEvent τ → ChannelRace τ
  | .start t call => w.advance t w.shared (firstPhase (session t).nickname call)
  | .access t =>
    let (s, p) := access session w.shared t (w.phase t)
    w.advance t s p

def enabled (w : ChannelRace τ) : ChannelEvent τ → Prop
  | .start t _ => w.phase t = .idle
  | .access t => w.phase t ≠ .idle

/-- **A `JOIN` that is let in has locked the channel that the registry has.** -/
def locksCurrent (w : ChannelRace τ) : ChannelEvent τ → Bool
  | .start _ _ => true
  | .access t =>
    match w.phase t with
    | .admitting name key a =>
      !(w.shared.heap[a]?.any fun channel => channel.admits (session t) key) ||
        w.shared.byName.get name = some a
    | _ => true

end ChannelRace

def channelRace : System (ChannelRace τ) (ChannelEvent τ) where
  enabled := ChannelRace.enabled
  step := ChannelRace.step session

instance (w : ChannelRace τ) (e : ChannelEvent τ) :
    Decidable ((channelRace session).enabled w e) := by
  unfold channelRace ChannelRace.enabled
  dsimp only
  split <;> infer_instance

def ChannelRace.before (byName : FoldMap ChannelName.fold ChannelRef) (heap : List Channel) :
    ChannelRace τ :=
  ⟨{ byName := byName, heap := heap }, fun _ => .idle⟩

/-- **Whoever joined a channel and has not left is on the channel that the registry has.** -/
def Present (w : ChannelRace τ) : Prop :=
  ∀ t k a, w.shared.joined t k = some a →
    ∃ b, w.shared.byName.lookup k = some b ∧ w.shared.hasMember b (session t).nickname = true

/-! ## Members -/

namespace ChannelHeap

variable {session} {s : ChannelHeap τ} {a b : ChannelRef} {channel : Channel} {name : ChannelName}
  {nick target : Nickname} {t u : τ} {k : Str}

theorem hasMember_join_self (ha : s.heap[a]? = some channel) :
    (s.join session t name a channel).hasMember a (session t).nickname = true := by
  rw [hasMember_iff]
  refine ⟨channel.join (session t).nickname, ?_, ?_⟩
  · exact (heap_set_getElem? ha _).trans (if_pos rfl)
  · rw [FoldMap.contains, Channel.join, FoldMap.get_insert_self]
    rfl

theorem hasMember_join (ha : s.heap[a]? = some channel) (h : s.hasMember b nick = true) :
    (s.join session t name a channel).hasMember b nick = true := by
  obtain ⟨channel', hb, hnick⟩ := hasMember_iff.mp h
  rw [hasMember_iff]
  by_cases hab : a = b
  · subst hab
    obtain rfl : channel = channel' := Option.some_inj.mp (ha.symm.trans hb)
    refine ⟨channel.join (session t).nickname, (heap_set_getElem? ha _).trans (if_pos rfl), ?_⟩
    rw [FoldMap.contains_iff] at hnick ⊢
    unfold Channel.join FoldMap.get
    dsimp only
    rw [FoldMap.lookup_insert]
    by_cases hfold : (session t).nickname.fold = nick.fold
    · rw [if_pos hfold]
      exact ⟨_, rfl⟩
    · rw [if_neg hfold]
      exact hnick
  · exact ⟨channel', ((heap_set_getElem? ha _).trans (if_neg hab)).trans hb, hnick⟩

theorem hasMember_of_join (ha : s.heap[a]? = some channel) (hne : (session t).nickname.fold ≠ nick.fold)
    (h : (s.join session t name a channel).hasMember b nick = true) : s.hasMember b nick = true := by
  obtain ⟨channel', hb, hnick⟩ := hasMember_iff.mp h
  rw [join, heap_set_getElem? ha] at hb
  rw [hasMember_iff]
  split_ifs at hb with hab
  · subst hab
    cases hb
    refine ⟨channel, ha, ?_⟩
    rw [FoldMap.contains_iff] at hnick ⊢
    unfold Channel.join FoldMap.get at hnick
    rw [FoldMap.lookup_insert, if_neg hne] at hnick
    exact hnick
  · exact ⟨channel', hb, hnick⟩

omit [DecidableEq τ] in
theorem hasMember_leave (ha : s.heap[a]? = some channel) (h : s.hasMember b nick = true)
    (hne : a = b → nick.fold ≠ target.fold) :
    (s.leave session a channel target).hasMember b nick = true := by
  obtain ⟨channel', hb, hnick⟩ := hasMember_iff.mp h
  rw [hasMember_iff]
  by_cases hab : a = b
  · subst hab
    obtain rfl : channel = channel' := Option.some_inj.mp (ha.symm.trans hb)
    refine ⟨_, (heap_set_getElem? ha _).trans (if_pos rfl), ?_⟩
    rw [FoldMap.contains_iff] at hnick ⊢
    unfold FoldMap.get
    rw [FoldMap.lookup_remove, if_neg (Ne.symm (hne rfl))]
    exact hnick
  · exact ⟨channel', ((heap_set_getElem? ha _).trans (if_neg hab)).trans hb, hnick⟩

omit [DecidableEq τ] in
theorem hasMember_of_leave (ha : s.heap[a]? = some channel)
    (h : (s.leave session a channel target).hasMember b nick = true) :
    s.hasMember b nick = true := by
  obtain ⟨channel', hb, hnick⟩ := hasMember_iff.mp h
  rw [leave, heap_set_getElem? ha] at hb
  rw [hasMember_iff]
  split_ifs at hb with hab
  · subst hab
    cases hb
    refine ⟨channel, ha, ?_⟩
    rw [FoldMap.contains_iff] at hnick ⊢
    unfold FoldMap.get at hnick
    rw [FoldMap.lookup_remove] at hnick
    split_ifs at hnick
    · obtain ⟨status, hstatus⟩ := hnick
      cases hstatus
    · exact hnick
  · exact ⟨channel', hb, hnick⟩

end ChannelHeap

/-! ## What a step does -/

/-- A step of `JOIN` is next, with the channel it got. -/
def ChannelPhase.Admitting : ChannelPhase → Prop
  | .admitting _ _ _ => True
  | _ => False

theorem ChannelPhase.not_admitting_next (rest : List (ChannelName × ChannelRef)) :
    ¬ (ChannelPhase.next rest).Admitting := by
  cases rest with
  | nil => exact id
  | cons e rest => exact id

/-- **What one step does to the channels**: nothing, or it makes a channel, lets somebody in, takes
somebody off or removes an empty channel. -/
theorem access_cases (s : ChannelHeap τ) (t : τ) (p : ChannelPhase) :
    ((access session s t p).1 = s ∧ ¬ (access session s t p).2.Admitting) ∨
    (∃ name key, p = .joining name key ∧ (access session s t p).1 = (s.getOrCreate name).2 ∧
      (access session s t p).2 = .admitting name key (s.getOrCreate name).1) ∨
    (∃ name key a channel, p = .admitting name key a ∧ s.heap[a]? = some channel ∧
      channel.admits (session t) key = true ∧
      access session s t p = (s.join session t name a channel, .idle)) ∨
    (∃ a channel target, s.heap[a]? = some channel ∧
      (access session s t p).1 = s.leave session a channel target ∧
      ¬ (access session s t p).2.Admitting) ∨
    (∃ name, (access session s t p).1 = s.removeIfEmpty name ∧
      ¬ (access session s t p).2.Admitting) := by
  cases p with
  | idle => exact .inl ⟨rfl, id⟩
  | joining name key => exact .inr (.inl ⟨name, key, rfl, rfl, rfl⟩)
  | admitting name key a =>
    dsimp only [access]
    cases ha : s.heap[a]? with
    | none => exact .inl ⟨rfl, id⟩
    | some channel =>
      dsimp only
      by_cases hadmits : channel.admits (session t) key = true
      · rw [if_pos hadmits]
        exact .inr (.inr (.inl ⟨name, key, a, channel, rfl, ha, hadmits, rfl⟩))
      · rw [if_neg hadmits]
        exact .inl ⟨rfl, id⟩
  | finding name target kick =>
    refine .inl ?_
    dsimp only [access]
    split
    · exact ⟨rfl, id⟩
    · exact ⟨rfl, id⟩
  | checking name a target kick =>
    refine .inl ?_
    dsimp only [access]
    split_ifs
    · exact ⟨rfl, id⟩
    · exact ⟨rfl, id⟩
  | listing => exact .inl ⟨rfl, ChannelPhase.not_admitting_next _⟩
  | visiting name a rest =>
    refine .inl ?_
    dsimp only [access]
    split_ifs
    · exact ⟨rfl, id⟩
    · exact ⟨rfl, ChannelPhase.not_admitting_next _⟩
  | removing name a target rest =>
    dsimp only [access]
    cases ha : s.heap[a]? with
    | none => exact .inl ⟨rfl, id⟩
    | some channel => exact .inr (.inr (.inr (.inl ⟨a, channel, target, ha, rfl, id⟩)))
  | cleaning name rest =>
    exact .inr (.inr (.inr (.inr ⟨name, rfl, ChannelPhase.not_admitting_next _⟩)))

/-! ## Invariants -/

def Valid (s : ChannelHeap τ) : Prop := ∀ k a, s.byName.lookup k = some a → a < s.heap.length

/-- **A user who is about to be let in is on no other channel of that name**: if the registry has
made a new one since, nobody could have put the user there. -/
def Apart (s : ChannelHeap τ) (t : τ) : ChannelPhase → Prop
  | .admitting name _ a =>
    ∀ b, s.byName.get name = some b → b ≠ a → s.hasMember b (session t).nickname = false
  | _ => True

variable {session} {s s' : ChannelHeap τ} {t u : τ} {p : ChannelPhase}

omit [DecidableEq τ] in
theorem apart_of_not_admitting (h : ¬ p.Admitting) : Apart session s t p := by
  cases p with
  | admitting => exact absurd trivial h
  | _ => trivial

omit [DecidableEq τ] in
theorem getOrCreate_cases (hs : Valid s) (name : ChannelName) :
    (s.getOrCreate name).2.byName.get name = some (s.getOrCreate name).1 ∧
    Valid (s.getOrCreate name).2 ∧ (s.getOrCreate name).2.joined = s.joined ∧
    (∀ k a nick, s.byName.lookup k = some a → s.hasMember a nick = true →
      (s.getOrCreate name).2.byName.lookup k = some a ∧
        (s.getOrCreate name).2.hasMember a nick = true) ∧
    (∀ k a nick, (s.getOrCreate name).2.byName.lookup k = some a →
      (s.getOrCreate name).2.hasMember a nick = true →
        s.byName.lookup k = some a ∧ s.hasMember a nick = true) := by
  unfold ChannelHeap.getOrCreate
  cases hget : s.byName.get name with
  | some a => exact ⟨hget, hs, rfl, fun _ _ _ hk hm => ⟨hk, hm⟩, fun _ _ _ hk hm => ⟨hk, hm⟩⟩
  | none =>
    -- channels that were there before are found where they were
    have hold : ∀ (a : ChannelRef) (nick : Nickname), a < s.heap.length →
        ChannelHeap.hasMember (τ := τ) { s with
          byName := s.byName.insert name s.heap.length
          heap := s.heap ++ [{ name := name }] } a nick = s.hasMember a nick := by
      intro a nick ha
      unfold ChannelHeap.hasMember
      dsimp only
      rw [List.getElem?_append_left ha]
    refine ⟨FoldMap.get_insert_self .., ?_, rfl, ?_, ?_⟩
    · intro k a hk
      dsimp only at hk ⊢
      rw [FoldMap.lookup_insert] at hk
      rw [List.length_append, List.length_singleton]
      split_ifs at hk with hname
      · cases hk
        exact Nat.lt_succ_self _
      · exact Nat.lt_succ_of_lt (hs k a hk)
    · intro k a nick hk hm
      refine ⟨?_, (hold a nick (hs k a hk)).trans hm⟩
      dsimp only
      rw [FoldMap.lookup_insert, if_neg, hk]
      rintro rfl
      rw [FoldMap.get, hk] at hget
      cases hget
    · intro k a nick hk hm
      dsimp only at hk
      rw [FoldMap.lookup_insert] at hk
      split_ifs at hk with hname
      · cases hk
        obtain ⟨channel, hchannel, hnick⟩ := ChannelHeap.hasMember_iff.mp hm
        dsimp only at hchannel
        rw [List.getElem?_concat_length] at hchannel
        cases hchannel
        cases hnick
      · exact ⟨hk, (hold a nick (hs k a hk)).symm.trans hm⟩

theorem valid_access (hs : Valid s) : Valid (access session s t p).1 := by
  obtain ⟨heq, -⟩ | ⟨name, key, -, heq, -⟩ | ⟨name, key, a, channel, -, ha, -, heq⟩ |
    ⟨a, channel, target, ha, heq, -⟩ | ⟨name, heq, -⟩ := access_cases session s t p
  · rw [heq]
    exact hs
  · rw [heq]
    exact (getOrCreate_cases hs name).2.1
  · rw [heq]
    intro k b hk
    exact (hs k b hk).trans_eq (List.length_set ..).symm
  · rw [heq]
    intro k b hk
    exact (hs k b hk).trans_eq (List.length_set ..).symm
  · rw [heq]
    intro k b hk
    refine (hs k b (ChannelHeap.lookup_of_lookup_removeIfEmpty hk)).trans_eq ?_
    unfold ChannelHeap.removeIfEmpty
    split
    · split_ifs
      · rfl
      · rfl
    · rfl

/-- **Nobody is put on a channel by somebody else's step.** -/
theorem hasMember_of_access (hs : Valid s) {k : Str} {b : ChannelRef} {nick : Nickname}
    (hne : (session t).nickname.fold ≠ nick.fold)
    (hk : (access session s t p).1.byName.lookup k = some b)
    (hm : (access session s t p).1.hasMember b nick = true) :
    s.byName.lookup k = some b ∧ s.hasMember b nick = true := by
  obtain ⟨heq, -⟩ | ⟨name, key, -, heq, -⟩ | ⟨name, key, a, channel, -, ha, -, heq⟩ |
    ⟨a, channel, target, ha, heq, -⟩ | ⟨name, heq, -⟩ := access_cases session s t p
  · rw [heq] at hk hm
    exact ⟨hk, hm⟩
  · rw [heq] at hk hm
    exact (getOrCreate_cases hs name).2.2.2.2 k b nick hk hm
  · rw [heq] at hk hm
    exact ⟨hk, ChannelHeap.hasMember_of_join ha hne hm⟩
  · rw [heq] at hk hm
    exact ⟨hk, ChannelHeap.hasMember_of_leave ha hm⟩
  · rw [heq] at hk hm
    rw [ChannelHeap.hasMember_removeIfEmpty] at hm
    exact ⟨ChannelHeap.lookup_of_lookup_removeIfEmpty hk, hm⟩

/-- After its own step, a client that is about to be let in has the channel of the registry. -/
theorem apart_access_self (hs : Valid s) :
    Apart session (access session s t p).1 t (access session s t p).2 := by
  obtain ⟨-, hnot⟩ | ⟨name, key, -, heq, hphase⟩ | ⟨name, key, a, channel, -, -, -, heq⟩ |
    ⟨a, channel, target, -, -, hnot⟩ | ⟨name, -, hnot⟩ := access_cases session s t p
  · exact apart_of_not_admitting hnot
  · rw [hphase]
    intro b hb hne
    rw [heq, (getOrCreate_cases hs name).1] at hb
    exact absurd (Option.some_inj.mp hb).symm hne
  · rw [heq]
    trivial
  · exact apart_of_not_admitting hnot
  · exact apart_of_not_admitting hnot

theorem apart_access_other (hs : Valid s) (hne : (session t).nickname.fold ≠ (session u).nickname.fold)
    {q : ChannelPhase} (h : Apart session s u q) : Apart session (access session s t p).1 u q := by
  cases q with
  | admitting name key a =>
    intro b hb hba
    by_contra hm
    rw [Bool.not_eq_false] at hm
    obtain ⟨hb', hm'⟩ := hasMember_of_access hs hne hb hm
    rw [h b hb' hba] at hm'
    cases hm'
  | _ => trivial

/-- **Everybody who joined is on the channel that they joined, and the registry has it.** -/
def Settled (session : τ → UserSession) (s : ChannelHeap τ) : Prop :=
  ∀ t k a, s.joined t k = some a →
    s.byName.lookup k = some a ∧ s.hasMember a (session t).nickname = true

theorem settled_access (hs : Valid s) (h : Settled session s)
    (hcurrent : ∀ name key a channel, p = .admitting name key a → s.heap[a]? = some channel →
      channel.admits (session t) key = true → s.byName.get name = some a) :
    Settled session (access session s t p).1 := by
  obtain ⟨heq, -⟩ | ⟨name, key, -, heq, -⟩ | ⟨name, key, a, channel, hp, ha, hadmits, heq⟩ |
    ⟨a, channel, target, ha, heq, -⟩ | ⟨name, heq, -⟩ := access_cases session s t p
  · rw [heq]
    exact h
  · rw [heq]
    obtain ⟨-, -, hjoined, hkeep, -⟩ := getOrCreate_cases hs name
    intro u k b hb
    rw [hjoined] at hb
    obtain ⟨hk, hm⟩ := h u k b hb
    exact hkeep k b _ hk hm
  · rw [heq]
    intro u k b hb
    dsimp only [ChannelHeap.join] at hb
    split_ifs at hb with hnew
    · -- the one who is let in
      obtain ⟨rfl, rfl⟩ := hnew
      cases hb
      exact ⟨hcurrent name key a channel hp ha hadmits, ChannelHeap.hasMember_join_self ha⟩
    · obtain ⟨hk, hm⟩ := h u k b hb
      exact ⟨hk, ChannelHeap.hasMember_join ha hm⟩
  · rw [heq]
    intro u k b hb
    dsimp only [ChannelHeap.leave] at hb
    split_ifs at hb with hleft
    obtain ⟨hk, hm⟩ := h u k b hb
    refine ⟨hk, ChannelHeap.hasMember_leave ha hm ?_⟩
    rintro rfl hfold
    exact hleft ⟨hfold, hb⟩
  · rw [heq]
    intro u k b hb
    have hjoined : (s.removeIfEmpty name).joined = s.joined := by
      unfold ChannelHeap.removeIfEmpty
      split
      · split_ifs
        · rfl
        · rfl
      · rfl
    rw [hjoined] at hb
    obtain ⟨hk, hm⟩ := h u k b hb
    exact ⟨ChannelHeap.lookup_removeIfEmpty_of_hasMember hk hm,
      ChannelHeap.hasMember_removeIfEmpty.trans hm⟩

/-! ## Nobody is lost -/

namespace ChannelRace

variable {w : ChannelRace τ}

structure Inv (session : τ → UserSession) (w : ChannelRace τ) : Prop where
  valid : Valid w.shared
  apart (t : τ) : Apart session w.shared t (w.phase t)

theorem step_inv (hnicks : ∀ t u, (session t).nickname.fold = (session u).nickname.fold → t = u)
    (hw : Inv session w) {e : ChannelEvent τ} : Inv session (w.step session e) := by
  cases e with
  | start t call =>
    refine ⟨hw.valid, ?_⟩
    apply Threads.forall_advance (W := Apart session)
    · cases call with
      | _ => trivial
    · exact fun u _ => hw.apart u
  | access t =>
    refine ⟨valid_access hw.valid, ?_⟩
    apply Threads.forall_advance (W := Apart session)
    · exact apart_access_self hw.valid
    · intro u hne
      exact apart_access_other hw.valid (fun hfold => hne (hnicks t u hfold).symm) (hw.apart u)

omit [DecidableEq τ] in
theorem locksCurrent_iff {t : τ} : w.locksCurrent session (.access t) = true ↔
    ∀ name key a channel, w.phase t = .admitting name key a → w.shared.heap[a]? = some channel →
      channel.admits (session t) key = true → w.shared.byName.get name = some a := by
  dsimp only [locksCurrent]
  cases hphase : w.phase t with
  | admitting name key a =>
    dsimp only
    cases ha : w.shared.heap[a]? with
    | none =>
      refine iff_of_true rfl ?_
      rintro _ _ _ channel ⟨⟩ hchannel
      rw [ha] at hchannel
      cases hchannel
    | some channel =>
      rw [Option.any_some, Bool.or_eq_true, Bool.not_eq_true', decide_eq_true_eq]
      constructor
      · rintro hor _ _ _ channel' ⟨⟩ hchannel hadmits
        rw [ha] at hchannel
        cases hchannel
        rcases hor with hnot | hcurrent
        · rw [hadmits] at hnot
          cases hnot
        · exact hcurrent
      · intro hall
        cases hadmits : channel.admits (session t) key with
        | false => exact .inl rfl
        | true => exact .inr (hall name key a channel rfl ha hadmits)
  | _ =>
    refine iff_of_true rfl ?_
    rintro name key a channel ⟨⟩

theorem step_settled (hw : Inv session w) (h : Settled session w.shared) {e : ChannelEvent τ}
    (hok : w.locksCurrent session e = true) : Settled session (w.step session e).shared := by
  cases e with
  | start t call => exact h
  | access t => exact settled_access hw.valid h (locksCurrent_iff.mp hok)

/-- **Whoever is let in to a channel that the registry does not have is lost.** -/
theorem locksCurrent_of_present (hw : Inv session w) {e : ChannelEvent τ}
    (h : Present session (w.step session e)) : w.locksCurrent session e = true := by
  cases e with
  | start t call => rfl
  | access t =>
    rw [locksCurrent_iff]
    intro name key a channel hphase ha hadmits
    have hstep : (w.step session (.access t)).shared = w.shared.join session t name a channel := by
      dsimp only [step]
      rw [hphase]
      dsimp only [access]
      rw [ha]
      dsimp only
      rw [if_pos hadmits]
      rfl
    have hjoined : (w.step session (.access t)).shared.joined t name.fold = some a := by
      rw [hstep]
      exact if_pos ⟨rfl, rfl⟩
    obtain ⟨b, hb, hm⟩ := h t name.fold a hjoined
    rw [hstep] at hb hm
    by_contra hne
    -- the registry has another channel, where the user is not
    have hba : b ≠ a := by
      rintro rfl
      exact hne hb
    have hm' : w.shared.hasMember b (session t).nickname = true := by
      obtain ⟨channel', hchannel, hnick⟩ := ChannelHeap.hasMember_iff.mp hm
      rw [ChannelHeap.join, ChannelHeap.heap_set_getElem? ha, if_neg (Ne.symm hba)] at hchannel
      exact ChannelHeap.hasMember_iff.mpr ⟨channel', hchannel, hnick⟩
    have hapart := hw.apart t
    rw [hphase] at hapart
    rw [hapart b hb hba] at hm'
    cases hm'

end ChannelRace

/-- **Nobody is lost to a cleanup.** Clients with different nicknames call on a registry with any
channels. Whoever joins and has not left is on the channel of the registry, in every state of the
run, exactly when every `JOIN` that is let in has locked the channel that the registry has then. -/
theorem present_iff (session : τ → UserSession)
    (hnicks : ∀ t u, (session t).nickname.fold = (session u).nickname.fold → t = u)
    {byName : FoldMap ChannelName.fold ChannelRef} {heap : List Channel}
    (hvalid : ∀ k a, byName.lookup k = some a → a < heap.length) {es : List (ChannelEvent τ)}
    (h : (channelRace session).Legal System.Free (.before byName heap) es) :
    (∀ n, Present session ((channelRace session).exec (.before byName heap) (es.take n))) ↔
      (channelRace session).Legal (fun w e => w.locksCurrent session e = true)
        (.before byName heap) es := by
  apply System.forall_take_iff (I := ChannelRace.Inv session)
    (P := fun w => Settled session w.shared)
    (fun w e _ hw => ChannelRace.step_inv hnicks hw)
    (fun w e _ hw hp hok => ChannelRace.step_settled hw hp hok)
    (fun w e _ hw _ hq => ChannelRace.locksCurrent_of_present hw hq) _ h
  · exact ⟨hvalid, fun _ => trivial⟩
  · intro t k a ha
    cases ha
  · intro w hw t k a ha
    exact ⟨a, hw t k a ha⟩

end Clients

section Runs

def twoUsers (t : Bool) : UserSession where
  connectionId := if t then 2 else 1
  nickname := if t then bob else alice
  username := []
  realname := []
  hostname := []
  signonTime := 0
  lastActive := 0

def chanA : ChannelName := ⟨"#a".toList, by decide⟩

/-- `alice` makes a channel, `bob` joins it while `alice` leaves, and `bob` stays. -/
def joinsInTime : List (ChannelEvent Bool) :=
  [.start false (.join chanA none), .access false, .access false,
    .start true (.join chanA none), .start false (.part chanA), .access false, .access false,
    .access true, .access true, .access false, .access false]

/-- The same, but `alice` is off the channel and has cleaned up before `bob` locks it. -/
def joinsTooLate : List (ChannelEvent Bool) :=
  [.start false (.join chanA none), .access false, .access false,
    .start true (.join chanA none), .start false (.part chanA), .access false, .access false,
    .access true, .access false, .access false, .access true]

/-- The run in which `bob` locks the channel while `alice` is still on it. -/
theorem present_iff_joinsInTime :
    (channelRace twoUsers).Legal System.Free (.before ∅ []) joinsInTime ∧
      ∀ n, Present twoUsers ((channelRace twoUsers).exec (.before ∅ []) (joinsInTime.take n)) := by
  have hlegal : (channelRace twoUsers).Legal System.Free (.before ∅ []) joinsInTime := by
    decide +kernel
  have hnicks : ∀ t u, (twoUsers t).nickname.fold = (twoUsers u).nickname.fold → t = u := by
    decide
  refine ⟨hlegal, (present_iff twoUsers hnicks ?_ hlegal).mpr (by decide +kernel)⟩
  intro k a hk
  cases hk

/-- **A lost join**: all calls have finished, `bob` has joined, and the registry has no channel. -/
theorem joined_channel_removed :
    (channelRace twoUsers).Legal System.Free (.before ∅ []) joinsTooLate ∧
      (∀ t, ((channelRace twoUsers).exec (.before ∅ []) joinsTooLate).phase t = .idle) ∧
      ¬ Present twoUsers ((channelRace twoUsers).exec (.before ∅ []) joinsTooLate) := by
  refine ⟨by decide +kernel, by decide +kernel, ?_⟩
  intro hpresent
  have hjoined : ((channelRace twoUsers).exec (.before ∅ []) joinsTooLate).shared.joined true
      chanA.fold = some 0 := by decide +kernel
  obtain ⟨b, hb, -⟩ := hpresent true chanA.fold 0 hjoined
  have hnone : ((channelRace twoUsers).exec (.before ∅ []) joinsTooLate).shared.byName.lookup
      chanA.fold = none := by decide +kernel
  rw [hnone] at hb
  cases hb

end Runs

end Pirc.Server
