import Pirc.Crypto.Encryption
import Pirc.Protocol.Message

/-!
# Crypto: the keys of a group

`group_key.rs`: for every member of a group a state, and a session once a key exchange is done. A
group message is encrypted for each member that is ready.

## Main results

* `encryptForGroup_within`, `decryptFromMember_within`: messages change no member's state
-/

namespace Pirc.Crypto

open Protocol

inductive GroupEncryptionState
  | pending
  | establishing
  | ready
  deriving DecidableEq

/-- A hash map by nickname; the source iterates it in any order. -/
abbrev NickMap (V : Type) := AList fun _ : Str => V

/-- States and sessions by nickname. -/
structure GroupKeyManager where
  sessions : NickMap TripleRatchetSession := ∅
  memberStates : NickMap GroupEncryptionState := ∅

namespace GroupKeyManager

variable (manager : GroupKeyManager)

def addMember (nickname : Str) : GroupKeyManager :=
  match manager.memberStates.lookup nickname with
  | some _ => manager
  | none => { manager with memberStates := manager.memberStates.insert nickname .pending }

/-- From any state, and also for somebody unknown. -/
def setEstablishing (nickname : Str) : GroupKeyManager :=
  { manager with memberStates := manager.memberStates.insert nickname .establishing }

/-- From any state, and also for somebody unknown. -/
def setSession (nickname : Str) (session : TripleRatchetSession) : GroupKeyManager where
  sessions := manager.sessions.insert nickname session
  memberStates := manager.memberStates.insert nickname .ready

def removeMember (nickname : Str) : GroupKeyManager where
  sessions := manager.sessions.erase nickname
  memberStates := manager.memberStates.erase nickname

def memberState (nickname : Str) : Option GroupEncryptionState :=
  manager.memberStates.lookup nickname

def readyMembers : List Str :=
  (manager.memberStates.entries.filter fun entry => entry.2 = .ready).map Sigma.fst

variable {manager} {nickname other : Str}

theorem mem_readyMembers :
    nickname ∈ manager.readyMembers ↔ manager.memberState nickname = some .ready := by
  simp [readyMembers, memberState, ← Option.mem_def, AList.mem_lookup_iff]

/-! ## States -/

@[simp] theorem memberState_addMember :
    (manager.addMember nickname).memberState other =
      if other = nickname then some ((manager.memberState nickname).getD .pending)
      else manager.memberState other := by
  unfold addMember memberState
  rcases eq_or_ne other nickname with rfl | hne
  · rcases hlookup : manager.memberStates.lookup other with - | state
    · simp
    · simp [hlookup]
  · rw [if_neg hne]
    rcases hlookup : manager.memberStates.lookup nickname with - | state
    · exact AList.lookup_insert_ne hne
    · rfl

@[simp] theorem memberState_setEstablishing :
    (manager.setEstablishing nickname).memberState other =
      if other = nickname then some .establishing else manager.memberState other := by
  rcases eq_or_ne other nickname with rfl | hne
  · simp [setEstablishing, memberState]
  · simp [setEstablishing, memberState, hne]

@[simp] theorem memberState_setSession {session : TripleRatchetSession} :
    (manager.setSession nickname session).memberState other =
      if other = nickname then some .ready else manager.memberState other := by
  rcases eq_or_ne other nickname with rfl | hne
  · simp [setSession, memberState]
  · simp [setSession, memberState, hne]

@[simp] theorem memberState_removeMember :
    (manager.removeMember nickname).memberState other =
      if other = nickname then none else manager.memberState other := by
  rcases eq_or_ne other nickname with rfl | hne
  · simp [removeMember, memberState]
  · simp [removeMember, memberState, hne]

end GroupKeyManager

/-! ## Encryption -/

namespace Primitives

variable (P : Primitives)

/-- Encrypt for one member; the session keeps what encrypting did to it, also where it failed. -/
def encryptForMember (plaintext : List UInt8) (nickname : Str) :
    CryptoM GroupKeyManager EncryptedMessage := fun (manager, rng) =>
  match manager.sessions.lookup nickname with
  | none =>
    .error (.ratchet ("member '" ++ String.ofList nickname ++ "' is Ready but has no session"))
      (manager, rng)
  | some session =>
    match (P.encryptMessage plaintext).run (session, rng) with
    | .ok message (session, rng) =>
      .ok message ({ manager with sessions := manager.sessions.insert nickname session }, rng)
    | .error e (session, rng) =>
      .error e ({ manager with sessions := manager.sessions.insert nickname session }, rng)

def encryptForMembers (plaintext : List UInt8) :
    List Str → CryptoM GroupKeyManager (List (Str × EncryptedMessage))
  | [] => pure []
  | nickname :: nicknames => do
    let message ← P.encryptForMember plaintext nickname
    let messages ← encryptForMembers plaintext nicknames
    return (nickname, message) :: messages

/-- One message for each ready member. -/
def encryptForGroup (plaintext : List UInt8) :
    CryptoM GroupKeyManager (List (Str × EncryptedMessage)) := do
  let (manager, _) ← get
  if manager.readyMembers = [] then
    throw (.ratchet "no group members with ready sessions")
  else P.encryptForMembers plaintext manager.readyMembers

/-- A message of a member. -/
def decryptFromMember (sender : Str) (encrypted : EncryptedMessage) :
    CryptoM GroupKeyManager (List UInt8) := fun (manager, rng) =>
  match manager.sessions.lookup sender with
  | none =>
    .error (.ratchet ("no pairwise session with group member '" ++ String.ofList sender ++ "'"))
      (manager, rng)
  | some session =>
    match (P.decryptMessage encrypted).run (session, rng) with
    | .ok plaintext (session, rng) =>
      .ok plaintext ({ manager with sessions := manager.sessions.insert sender session }, rng)
    | .error e (session, rng) =>
      .error e ({ manager with sessions := manager.sessions.insert sender session }, rng)

/-! ## Who gets a message -/

section Recipients

variable {P} {plaintext : List UInt8}

def memberStatesPart (s : GroupKeyManager × OsRng) : NickMap GroupEncryptionState :=
  s.1.memberStates

theorem encryptForMember_within (nickname : Str) :
    Within (Unchanged memberStatesPart) (P.encryptForMember plaintext nickname) := by
  rintro ⟨manager, rng⟩
  simp only [wp, EStateM.run, encryptForMember]
  rcases manager.sessions.lookup nickname with - | session
  · rfl
  · -- whatever becomes of the session, the states are not written
    simp only
    rcases P.encryptMessage plaintext (session, rng) with ⟨message, s⟩ | ⟨e, s⟩
    · exact rfl
    · exact rfl

theorem encryptForMembers_within (nicknames : List Str) :
    Within (Unchanged memberStatesPart) (P.encryptForMembers plaintext nicknames) := by
  induction nicknames with
  | nil => exact within_pure []
  | cons nickname nicknames ih =>
    exact (encryptForMember_within nickname).bind fun _ => ih.bind fun _ => within_pure _

/-- **Encrypting** changes no member's state. -/
theorem encryptForGroup_within :
    Within (Unchanged memberStatesPart) (P.encryptForGroup plaintext) := by
  refine within_get ?_
  rintro ⟨manager, rng⟩
  rcases eq_or_ne manager.readyMembers [] with hnone | hsome
  · simp only [hnone, if_pos]
    rfl
  · simp only [hsome, if_neg, not_false_eq_true]
    exact encryptForMembers_within manager.readyMembers (manager, rng)

theorem decryptFromMember_within (sender : Str) (encrypted : EncryptedMessage) :
    Within (Unchanged memberStatesPart) (P.decryptFromMember sender encrypted) := by
  rintro ⟨manager, rng⟩
  simp only [wp, EStateM.run, decryptFromMember]
  rcases manager.sessions.lookup sender with - | session
  · rfl
  · simp only
    rcases P.decryptMessage encrypted (session, rng) with ⟨plaintext, s⟩ | ⟨e, s⟩
    · exact rfl
    · exact rfl

theorem encryptForMembers_ok {nicknames : List Str} {messages : List (Str × EncryptedMessage)}
    {s s' : GroupKeyManager × OsRng}
    (h : (P.encryptForMembers plaintext nicknames).run s = .ok messages s') :
    messages.map Prod.fst = nicknames := by
  induction nicknames generalizing messages s s' with
  | nil =>
    obtain ⟨rfl, -⟩ := EStateM.Result.ok.inj h
    rfl
  | cons nickname nicknames ih =>
    obtain ⟨message, t, -, hrest⟩ := run_bind_eq_ok.mp h
    obtain ⟨rest, t', hrun, hpure⟩ := run_bind_eq_ok.mp hrest
    obtain ⟨rfl, -⟩ := EStateM.Result.ok.inj hpure
    rw [List.map_cons, ih hrun]

/-- **Recipients**: the members that are ready get a message, and nobody else. -/
theorem encryptForGroup_ok {messages : List (Str × EncryptedMessage)} {manager : GroupKeyManager}
    {rng : OsRng} {s' : GroupKeyManager × OsRng}
    (h : (P.encryptForGroup plaintext).run (manager, rng) = .ok messages s') :
    messages.map Prod.fst = manager.readyMembers := by
  rw [encryptForGroup, run_bind_ok (EStateM.run_get _)] at h
  rcases eq_or_ne manager.readyMembers [] with hnone | hsome
  · simp only [hnone, if_pos] at h
    cases h
  · simp only [hsome, if_neg, not_false_eq_true] at h
    exact encryptForMembers_ok h

end Recipients

end Primitives

end Pirc.Crypto
