import Pirc.Crypto.Turns
import Pirc.Lib.Run

/-!
# Crypto: conversations

Two sessions built from matching keys, and the messages on their way from one to the other, which
arrive in order and are not lost. Both parties may write at any time, the receiver once it has heard
from the sender.

A conversation goes wrong when a call fails or a message is decrypted to something else. The
receiver's session takes its ratchet steps first, so it is the first to owe a post-quantum step,
which it cannot start: it never learnt the sender's KEM key. From its twentieth turn on it cannot
write at all.
-/

namespace Pirc.Crypto

/-! ## Conversations -/

/-- Whose session was built by `init_sender`, and whose by `init_receiver`. -/
inductive Party
  | alice
  | bob
  deriving DecidableEq

def Party.peer : Party → Party
  | .alice => .bob
  | .bob => .alice

/-- A message under way, with the plaintext and the turn it was sent in. -/
structure Sent where
  message : EncryptedMessage
  plaintext : List UInt8
  turn : ℕ

/-- A conversation. A party's turn begins when the first message of its peer's turn arrives; `sound`
says that no call failed so far and no message was decrypted to something else. -/
structure Conversation where
  session : Party → TripleRatchetSession
  rng : OsRng
  inbox : Party → List Sent := fun _ => []
  turn : Party → ℕ := fun p => if p = .alice then 1 else 0
  sound : Bool := true

/-- A party writes, or the next message reaches it. -/
inductive ConversationEvent
  | send (p : Party) (plaintext : List UInt8)
  | deliver (p : Party)

namespace Primitives

variable (P : Primitives)

/-- Two sessions built from matching keys. -/
def start (sharedSecret : Key) (dhPair : KeyPair) (kemPair : KemKeyPair) (rng : OsRng) :
    Except CryptoError Conversation :=
  match (P.initSender sharedSecret (P.publicKey dhPair) kemPair.ek).run ((), rng),
    P.initReceiver sharedSecret dhPair kemPair with
  | .ok alice (_, rng), .ok bob =>
    .ok { session := fun p => if p = .alice then alice else bob, rng := rng }
  | .error e _, _ => .error e
  | _, .error e => .error e

def send (c : Conversation) (p : Party) (plaintext : List UInt8) : Conversation :=
  match (P.encryptMessage plaintext).run (c.session p, c.rng) with
  | .ok message (session, rng) =>
    { c with
      session := Function.update c.session p session
      rng := rng
      inbox := Function.update c.inbox p.peer
        (c.inbox p.peer ++ [⟨message, plaintext, c.turn p⟩]) }
  | .error _ (session, rng) =>
    { c with session := Function.update c.session p session, rng := rng, sound := false }

def deliver (c : Conversation) (p : Party) : Conversation :=
  match c.inbox p with
  | [] => c
  | sent :: rest =>
    let turn := if c.turn p < sent.turn then sent.turn + 1 else c.turn p
    match (P.decryptMessage sent.message).run (c.session p, c.rng) with
    | .ok plaintext (session, rng) =>
      { session := Function.update c.session p session
        rng := rng
        inbox := Function.update c.inbox p rest
        turn := Function.update c.turn p turn
        sound := c.sound && plaintext = sent.plaintext }
    | .error _ (session, rng) =>
      { session := Function.update c.session p session
        rng := rng
        inbox := Function.update c.inbox p rest
        turn := Function.update c.turn p turn
        sound := false }

/-- Conversations: the receiver writes once it has heard something, and messages arrive in order. -/
def conversation : System Conversation ConversationEvent where
  enabled c
    | .send p _ => 0 < c.turn p
    | .deliver p => c.inbox p ≠ []
  step c
    | .send p plaintext => P.send c p plaintext
    | .deliver p => P.deliver c p

instance (c : Conversation) (e : ConversationEvent) : Decidable (P.conversation.enabled c e) :=
  match e with
  | .send p _ => inferInstanceAs (Decidable (0 < c.turn p))
  | .deliver p => inferInstanceAs (Decidable (c.inbox p ≠ []))

end Primitives

/-- The receiver writes in its first nineteen turns only; its turns are numbered 2, 4, 6, and so
on. -/
def ConversationEvent.InTime (c : Conversation) : ConversationEvent → Prop
  | .send .bob _ => c.turn .bob / 2 < 20
  | _ => True

/-! ## Messages under way -/

/-- The items with the numbers from `k` up to `n`, in order. -/
inductive Batch {α : Type} (G : ℕ → α → Prop) : ℕ → ℕ → List α → Prop
  | nil (n : ℕ) : Batch G n n []
  | cons {k n : ℕ} {x : α} {l : List α} (hx : G k x) (h : Batch G (k + 1) n l) :
      Batch G k n (x :: l)

namespace Batch

variable {α : Type} {G : ℕ → α → Prop} {k n : ℕ} {x : α} {l : List α}

theorem snoc (h : Batch G k n l) (hx : G n x) : Batch G k (n + 1) (l ++ [x]) := by
  induction h with
  | nil n => exact .cons hx (.nil _)
  | cons hy _ ih => exact .cons hy (ih hx)

theorem le (h : Batch G k n l) : k ≤ n := by
  induction h with
  | nil n => exact le_rfl
  | cons _ _ ih => omega

theorem mono {G' : ℕ → α → Prop} (h : Batch G k n l) (hG : ∀ i x, G i x → G' i x) :
    Batch G' k n l := by
  induction h with
  | nil n => exact .nil n
  | cons hy _ ih => exact .cons (hG _ _ hy) ih

end Batch

namespace KeySchedule

variable {S : KeySchedule}

/-- Message `i` of a turn whose sender sent `before` messages in its turn before. -/
structure Carries (S : KeySchedule) (m before i : ℕ) (sent : Sent) : Prop where
  turn : sent.turn = m
  genuine : S.Genuine m i before sent.message sent.plaintext

/-- **What is under way** to a party in turn `m` that received `k` messages of its peer's turn
before, from a peer that sent `n` messages in its turn and `before` in the one before. The peer's
turn is the one before or the one after; messages of that follow the rest of the one before. -/
inductive UnderWay (S : KeySchedule) (m mPeer n before k : ℕ) : List Sent → Prop
  | behind {inbox : List Sent} (hturn : m = mPeer + 1)
      (h : Batch (fun i sent => ∃ before, S.Carries mPeer before i sent) k n inbox) :
      UnderWay S m mPeer n before k inbox
  | ahead {old new : List Sent} (hturn : mPeer = m + 1)
      (hold : Batch (fun i sent => ∃ before, S.Carries (m - 1) before i sent) k before old)
      (hnew : Batch (S.Carries mPeer before) 0 n new) :
      UnderWay S m mPeer n before k (old ++ new)

namespace UnderWay

variable {m mPeer n before k : ℕ} {inbox rest : List Sent} {sent : Sent}

theorem snoc (h : S.UnderWay m mPeer n before k inbox) (hsent : S.Carries mPeer before n sent) :
    S.UnderWay m mPeer (n + 1) before k (inbox ++ [sent]) := by
  cases h with
  | behind hturn h => exact .behind hturn (h.snoc ⟨before, hsent⟩)
  | ahead hturn hold hnew =>
    rw [List.append_assoc]
    exact .ahead hturn hold (hnew.snoc hsent)

/-- **The next message**: one of the turn before ours, or the first of the turn after it, when all
of the turn before have arrived. -/
theorem next (h : S.UnderWay m mPeer n before k (sent :: rest)) :
    (∃ before', (m = mPeer + 1 ∧ 0 < n ∨ mPeer = m + 1 ∧ 0 < before) ∧
      S.Carries (m - 1) before' k sent ∧ S.UnderWay m mPeer n before (k + 1) rest) ∨
    (mPeer = m + 1 ∧ S.Carries mPeer k 0 sent ∧ S.UnderWay (m + 2) mPeer n before 1 rest) := by
  generalize hinbox : sent :: rest = inbox at h
  cases h with
  | behind hturn h =>
    subst hinbox
    have hpeer : m - 1 = mPeer := by omega
    cases h with
    | cons hsent hrest =>
      obtain ⟨before', hsent⟩ := hsent
      have hle := hrest.le
      rw [hpeer]
      exact .inl ⟨before', .inl ⟨hturn, by omega⟩, hsent, .behind hturn hrest⟩
  | ahead hturn hold hnew =>
    cases hold with
    | cons hsent hrest =>
      obtain ⟨rfl, rfl⟩ := List.cons.inj hinbox
      obtain ⟨before', hsent⟩ := hsent
      have hle := hrest.le
      exact .inl ⟨before', .inr ⟨hturn, by omega⟩, hsent, .ahead hturn hrest hnew⟩
    | nil =>
      rw [List.nil_append] at hinbox
      subst hinbox
      cases hnew with
      | cons hsent hrest =>
        refine .inr ⟨hturn, hsent, .behind (by omega) ?_⟩
        exact hrest.mono fun i sent hcarries => ⟨_, hcarries⟩

theorem followed (h : S.UnderWay (m + 1) m n before k inbox) :
    S.UnderWay (m + 1) (m + 2) 0 n k inbox := by
  cases h with
  | behind _ h =>
    rw [← List.append_nil inbox]
    exact .ahead rfl h (.nil 0)
  | ahead hturn _ _ => omega

end UnderWay

end KeySchedule

/-! ## Lockstep -/

/-- What each party counts: messages sent in its turn and in the one before, and messages received
of its peer's turn. -/
structure Counts where
  sent : Party → ℕ
  before : Party → ℕ
  received : Party → ℕ

/-- **Lockstep**: both sessions have the keys of their turns, and what is under way is genuine. -/
structure Lockstep (S : KeySchedule) (c : Conversation) (counts : Counts) : Prop where
  rng : ∀ p, c.rng.x25519 = S.secrets.drop (max (c.turn p) (c.turn p.peer) + 1)
  at_turn : ∀ p, S.At (c.session p) (c.turn p) (counts.sent p) (counts.before p) (counts.received p)
  underWay : ∀ p, S.UnderWay (c.turn p) (c.turn p.peer) (counts.sent p.peer) (counts.before p.peer)
    (counts.received p) (c.inbox p)

namespace Party

theorem peer_ne (p : Party) : p.peer ≠ p := by cases p <;> decide

@[simp] theorem peer_peer (p : Party) : p.peer.peer = p := by cases p <;> rfl

end Party

namespace Lockstep

open KeySchedule

variable {S : KeySchedule} {c : Conversation} {counts : Counts}

theorem of_party (p : Party)
    (hrng : c.rng.x25519 = S.secrets.drop (max (c.turn p) (c.turn p.peer) + 1))
    (hat : S.At (c.session p) (c.turn p) (counts.sent p) (counts.before p) (counts.received p))
    (hatPeer : S.At (c.session p.peer) (c.turn p.peer) (counts.sent p.peer) (counts.before p.peer)
      (counts.received p.peer))
    (hway : S.UnderWay (c.turn p) (c.turn p.peer) (counts.sent p.peer) (counts.before p.peer)
      (counts.received p) (c.inbox p))
    (hwayPeer : S.UnderWay (c.turn p.peer) (c.turn p) (counts.sent p) (counts.before p)
      (counts.received p.peer) (c.inbox p.peer)) : Lockstep S c counts := by
  have hrng' := hrng
  rw [max_comm] at hrng'
  constructor
  · intro q
    cases p <;> cases q <;> assumption
  · intro q
    cases p <;> cases q <;> assumption
  · intro q
    cases p <;> cases q <;> assumption

/-- **Step lemma, writing**: a party that has a turn and owes no post-quantum step encrypts a
genuine message. -/
theorem send (h : S.P.Correct) (hl : Lockstep S c counts) {p : Party} (hturn : 0 < c.turn p)
    (hdue : (c.session p).pqDue = false) (plaintext : List UInt8) :
    ∃ message session' rng' counts',
      S.P.send c p plaintext =
        { c with
          session := Function.update c.session p session'
          rng := rng'
          inbox := Function.update c.inbox p.peer
            (c.inbox p.peer ++ [⟨message, plaintext, c.turn p⟩]) } ∧
      SamePq (c.session p) session' ∧ Lockstep S (S.P.send c p plaintext) counts' := by
  obtain ⟨m, hm⟩ : ∃ m, c.turn p = m + 1 := ⟨c.turn p - 1, by omega⟩
  have hat := hl.at_turn p
  rw [hm] at hat
  obtain ⟨message, session', rng', hrun, hrng, hat', hg, hpq⟩ :=
    hat.encryptMessage_run h hdue plaintext c.rng
  have hsend : S.P.send c p plaintext =
      { c with
        session := Function.update c.session p session'
        rng := rng'
        inbox := Function.update c.inbox p.peer
          (c.inbox p.peer ++ [⟨message, plaintext, c.turn p⟩]) } := by
    unfold Primitives.send
    rw [hrun]
  refine ⟨message, session', rng',
    { counts with sent := Function.update counts.sent p (counts.sent p + 1) }, hsend, hpq, ?_⟩
  rw [hsend]
  have hother : p.peer ≠ p := p.peer_ne
  apply of_party p
  · rw [hrng]
    exact hl.rng p
  · simp only [Function.update_self, hm]
    exact hat'
  · simp only [Function.update_of_ne hother]
    exact hl.at_turn p.peer
  · simp only [Function.update_of_ne hother, Function.update_of_ne hother.symm]
    exact hl.underWay p
  · have hway := hl.underWay p.peer
    rw [Party.peer_peer] at hway
    simp only [Function.update_self]
    -- the new message is the next one of the writer's turn
    refine hway.snoc ⟨rfl, ?_⟩
    rw [hm]
    exact hg

/-- **Step lemma, receiving**: the next message is decrypted to its plaintext. It belongs to the
peer's turn, or starts its next one. -/
theorem deliver (h : S.P.Committing) (hdistinct : S.Distinct) (hl : Lockstep S c counts) {p : Party}
    {sent : Sent} {rest : List Sent} (hinbox : c.inbox p = sent :: rest) :
    ∃ session' rng' counts',
      S.P.deliver c p =
        { session := Function.update c.session p session'
          rng := rng'
          inbox := Function.update c.inbox p rest
          turn := Function.update c.turn p
            (if c.turn p < sent.turn then sent.turn + 1 else c.turn p)
          sound := c.sound } ∧
      SamePq (c.session p) session' ∧ Lockstep S (S.P.deliver c p) counts' := by
  have hway := hl.underWay p
  have hpeer := hl.underWay p.peer
  rw [hinbox] at hway
  rw [Party.peer_peer] at hpeer
  have hdeliver : ∀ {session' rng'}, (S.P.decryptMessage sent.message).run (c.session p, c.rng) =
        .ok sent.plaintext (session', rng') →
      S.P.deliver c p =
        { session := Function.update c.session p session'
          rng := rng'
          inbox := Function.update c.inbox p rest
          turn := Function.update c.turn p
            (if c.turn p < sent.turn then sent.turn + 1 else c.turn p)
          sound := c.sound } := by
    intro session' rng' hrun
    unfold Primitives.deliver
    rw [hinbox]
    simp [hrun]
  have hother : p.peer ≠ p := p.peer_ne
  rcases hway.next with ⟨before', hcount, hsent, hrest⟩ | ⟨hturn, hsent, hrest⟩
  · -- a message of the turn before ours; the first two turns have none before them
    obtain ⟨m, hm⟩ : ∃ m, c.turn p = m + 2 := by
      have hstart := (hl.at_turn p.peer).start
      have hfresh := (hl.at_turn p.peer).fresh
      exact ⟨c.turn p - 2, by omega⟩
    have hat := hl.at_turn p
    rw [hm] at hat hsent
    obtain ⟨session', hrun, hat', hpq⟩ :=
      hat.decryptMessage_current h hdistinct hsent.genuine c.rng
    have hturn : (if c.turn p < sent.turn then sent.turn + 1 else c.turn p) = c.turn p := by
      rw [if_neg]
      rw [hsent.turn, hm]
      omega
    refine ⟨session', c.rng,
      { counts with received := Function.update counts.received p (counts.received p + 1) },
      hdeliver hrun, hpq, ?_⟩
    rw [hdeliver hrun, hturn, Function.update_eq_self]
    apply of_party p
    · exact hl.rng p
    · simp only [Function.update_self, hm]
      exact hat'
    · simp only [Function.update_of_ne hother]
      exact hl.at_turn p.peer
    · simp only [Function.update_self]
      exact hrest
    · simp only [Function.update_of_ne hother]
      exact hpeer
  · -- the first message of the peer's next turn
    have hat := hl.at_turn p
    have hrng := hl.rng p
    rw [hturn] at hsent
    have hmax : max (c.turn p) (c.turn p.peer) + 1 = c.turn p + 2 := by omega
    rw [hmax] at hrng
    obtain ⟨session', rng', hrun, hrng', hat', hpq⟩ :=
      hat.decryptMessage_next h hsent.genuine hrng
    have hturn' : (if c.turn p < sent.turn then sent.turn + 1 else c.turn p) = c.turn p + 2 := by
      rw [if_pos]
      · rw [hsent.turn]
      · rw [hsent.turn]
        omega
    refine ⟨session', rng',
      { sent := Function.update counts.sent p 0
        before := Function.update counts.before p (counts.sent p)
        received := Function.update counts.received p 1 }, hdeliver hrun, hpq, ?_⟩
    rw [hdeliver hrun, hturn']
    apply of_party p
    · simp only [Function.update_self, Function.update_of_ne hother]
      have hmax' : max (c.turn p + 2) (c.turn p.peer) + 1 = c.turn p + 3 := by omega
      rw [hmax']
      exact hrng'
    · simp only [Function.update_self]
      exact hat'
    · simp only [Function.update_of_ne hother]
      exact hl.at_turn p.peer
    · simp only [Function.update_self, Function.update_of_ne hother]
      exact hrest
    · simp only [Function.update_self, Function.update_of_ne hother]
      rw [hturn] at hpeer ⊢
      exact hpeer.followed

end Lockstep

/-! ## The start -/

def Primitives.keySchedule (P : Primitives) (sharedSecret : Key) (dhPair : KeyPair) (rng : OsRng) :
    KeySchedule where
  P := P
  sharedSecret := sharedSecret
  secrets := Stream'.cons dhPair.secret rng.x25519

section Start

open KeySchedule

variable {P : Primitives}

def KeySchedule.senderSession (S : KeySchedule) (kemPublic : KemPublicKey) (kemPair : KemKeyPair) :
    TripleRatchetSession where
  dhRatchet :=
    { dhPair := S.pair 1
      remotePublic := some (S.dhPublic 0)
      rootKey := S.root 1
      sendingChain := some (S.chain 1 0)
      receivingChain := none
      stepCount := 0 }
  pqRatchet :=
    { kemPair := kemPair
      remoteKemPublic := some kemPublic
      pqChainKey := S.P.expand (S.P.extract S.sharedSecret.val [])
        (utf8 "pirc-triple-ratchet-pq-chain".toList) 32
      stepCounter := 0 }
  sendingHeaderKey := S.header 1
  receivingHeaderKey := S.header 0
  nextSendingHeaderKey := S.header 3
  nextReceivingHeaderKey := S.header 2

def KeySchedule.receiverSession (S : KeySchedule) (kemPair : KemKeyPair) : TripleRatchetSession where
  dhRatchet := DhRatchetState.initReceiver (S.root 0) (S.pair 0)
  pqRatchet := PqRatchetState.withKeypair (S.P.expand (S.P.extract S.sharedSecret.val [])
    (utf8 "pirc-triple-ratchet-pq-chain".toList) 32) kemPair
  sendingHeaderKey := S.header 0
  receivingHeaderKey := S.header 1
  nextSendingHeaderKey := S.header 2
  nextReceivingHeaderKey := S.header 2

/-- **The sender's session**, which draws a DH key pair and a KEM key pair. -/
theorem initSender_run (h : P.Correct) (sharedSecret : Key) (dhPair : KeyPair)
    (kemPublic : KemPublicKey) (rng : OsRng) :
    (P.initSender sharedSecret (P.publicKey dhPair) kemPublic).run ((), rng) =
      .ok ((P.keySchedule sharedSecret dhPair rng).senderSession kemPublic
          (P.kemGenerate rng.mlKem.head))
        ((), { rng with x25519 := rng.x25519.tail, mlKem := rng.mlKem.tail }) := by
  generalize hS : P.keySchedule sharedSecret dhPair rng = S
  have hpair : (⟨rng.x25519.head⟩ : KeyPair) = S.pair 1 := by
    subst hS
    rfl
  have hpublic : P.publicKey dhPair = S.dhPublic 0 := by
    subst hS
    rfl
  have hdh : P.diffieHellmanKeypair (S.pair 1) (S.dhPublic 0) = .ok (S.dhOutput 0) := by
    subst hS
    exact Primitives.diffieHellmanKeypair_eq h _ _
  have hmaterial : P.headerKeyMaterial sharedSecret = .ok S.material := by
    subst hS
    rfl
  have hroot : P.deriveInitialKey sharedSecret "pirc-triple-ratchet-root" = .ok (S.root 0) := by
    subst hS
    rfl
  have hkeys : P.rootKdf (S.root 0) (S.dhOutput 0) = .ok (S.next 0) := by
    subst hS
    rfl
  simp only [Primitives.initSender, Primitives.initDhSender, Primitives.newPqRatchet,
    EStateM.run_bind, run_check, run_generateKeyPair, hpair, hpublic, hdh, hmaterial, hroot,
    hkeys]
  subst hS
  rfl

theorem initReceiver_eq (P : Primitives) (sharedSecret : Key) (dhPair : KeyPair)
    (kemPair : KemKeyPair) (rng : OsRng) :
    P.initReceiver sharedSecret dhPair kemPair =
      .ok ((P.keySchedule sharedSecret dhPair rng).receiverSession kemPair) := rfl

theorem senderSession_at (S : KeySchedule) (kemPublic : KemPublicKey) (kemPair : KemKeyPair) :
    S.At (S.senderSession kemPublic kemPair) 1 0 0 0 where
  dhAt := ⟨rfl, rfl, rfl, rfl, rfl⟩
  sendingKey _ := rfl
  nextSending := rfl
  nextReceiving := rfl
  receivingKey hm := absurd rfl hm
  previousKey hm := by cases hm
  skipped := rfl
  sent := rfl
  sentBefore := rfl
  steps := rfl
  start _ := rfl
  unheard _ := rfl
  fresh _ := rfl

theorem receiverSession_at (S : KeySchedule) (kemPair : KemKeyPair) :
    S.At (S.receiverSession kemPair) 0 0 0 0 where
  dhAt := ⟨rfl, rfl, rfl, rfl, rfl⟩
  sendingKey hm := absurd hm (lt_irrefl 0)
  nextSending := rfl
  nextReceiving := rfl
  receivingKey _ := rfl
  previousKey hm := by cases hm
  skipped := rfl
  sent := rfl
  sentBefore := rfl
  steps := rfl
  start _ := rfl
  unheard _ := rfl
  fresh _ := rfl

end Start

/-! ## Whole conversations -/

section Runs

open KeySchedule

variable {S : KeySchedule} {c : Conversation}

/-- **Early**: no message of the receiver's twentieth turn was sent, and the receiver never learnt
the sender's KEM key. -/
structure Early (S : KeySchedule) (c : Conversation) : Prop where
  lockstep : ∃ counts, Lockstep S c counts
  sound : c.sound = true
  odd : c.turn .alice % 2 = 1
  alice : c.turn .alice < 40
  inbox : ∀ sent ∈ c.inbox .alice, sent.turn % 2 = 0 ∧ sent.turn + 1 < 40
  interval : ∀ p, (c.session p).pqStepInterval = defaultPqInterval
  unset : (c.session .bob).pqRatchet.remoteKemPublic = none

theorem Early.bob (he : Early S c) : c.turn .bob % 2 = 0 ∧ c.turn .bob ≤ 40 := by
  obtain ⟨counts, hl⟩ := he.lockstep
  have hodd := he.odd
  have halice := he.alice
  have hway := hl.underWay .alice
  have hneighbours : c.turn .alice = c.turn .bob + 1 ∨ c.turn .bob = c.turn .alice + 1 := by
    generalize c.inbox .alice = inbox at hway
    cases hway with
    | behind hturn _ => exact .inl hturn
    | ahead hturn _ _ => exact .inr hturn
  omega

theorem Early.pqDue_eq (he : Early S c) (p : Party) :
    (c.session p).pqDue = decide (20 ≤ c.turn p / 2) := by
  obtain ⟨counts, hl⟩ := he.lockstep
  have hsteps := (hl.at_turn p).steps
  have halice := he.alice
  have hbob := he.bob
  have hlt : c.turn p / 2 < 2 ^ 32 := by
    cases p <;> omega
  have hle : (20 : UInt32) ≤ UInt32.ofNat (c.turn p / 2) ↔ 20 ≤ c.turn p / 2 := by
    rw [UInt32.le_iff_toNat_le, UInt32.toNat_ofNat_of_lt' hlt]
    rfl
  unfold TripleRatchetSession.pqDue
  rw [he.interval p, hsteps, defaultPqInterval, decide_eq_decide.mpr hle]
  rfl

theorem encryptMessage_unset {P : Primitives} {session : TripleRatchetSession} {rng : OsRng}
    (hdue : session.pqDue = true) (hunset : session.pqRatchet.remoteKemPublic = none)
    (plaintext : List UInt8) :
    (P.encryptMessage plaintext).run (session, rng) =
      .error (.ratchet "remote KEM public key not set") (session, rng) := by
  have hinitiate : P.initiateStep.run (session.pqRatchet, rng) =
      .error (.ratchet "remote KEM public key not set") (session.pqRatchet, rng) := by
    simp only [Primitives.initiateStep, EStateM.run_bind, EStateM.run_get, hunset]
    rfl
  have hprepare : P.preparePqStep.run (session, rng) =
      .error (.ratchet "remote KEM public key not set") (session, rng) := by
    simp only [Primitives.preparePqStep, EStateM.run_bind, EStateM.run_get, hdue, if_true,
      onPqRatchet, run_onPart, hinitiate]
  rw [Primitives.encryptMessage, run_bind_error hprepare]

section SamePq

variable {sessions : Party → TripleRatchetSession} {p : Party} {session' : TripleRatchetSession}

theorem KeySchedule.SamePq.interval (hpq : SamePq (sessions p) session') {interval : UInt32}
    (h : ∀ q, (sessions q).pqStepInterval = interval) (q : Party) :
    (Function.update sessions p session' q).pqStepInterval = interval := by
  by_cases hq : q = p
  · subst hq
    rw [Function.update_self, hpq.2]
    exact h q
  · rw [Function.update_of_ne hq]
    exact h q

theorem KeySchedule.SamePq.unset (hpq : SamePq (sessions p) session') {q : Party}
    (h : (sessions q).pqRatchet.remoteKemPublic = none) :
    (Function.update sessions p session' q).pqRatchet.remoteKemPublic = none := by
  by_cases hq : q = p
  · subst hq
    rw [Function.update_self, hpq.1]
    exact h
  · rw [Function.update_of_ne hq]
    exact h

end SamePq

/-- **Step lemma**: a step in time keeps a conversation early. -/
theorem Early.step (h : S.P.Committing) (hdistinct : S.Distinct) (he : Early S c)
    {e : ConversationEvent} (henabled : S.P.conversation.enabled c e) (hok : e.InTime c) :
    Early S (S.P.conversation.step c e) := by
  obtain ⟨counts, hl⟩ := he.lockstep
  have hodd := he.odd
  have halice := he.alice
  obtain ⟨heven, -⟩ := he.bob
  cases e with
  | send p plaintext =>
    have hdue : (c.session p).pqDue = false := by
      rw [he.pqDue_eq p, decide_eq_false_iff_not]
      cases p with
      | alice => omega
      | bob =>
        have hbob : c.turn .bob / 2 < 20 := hok
        omega
    obtain ⟨message, session', rng', counts', hsend, hpq, hl'⟩ := hl.send h henabled hdue plaintext
    have hstep : S.P.conversation.step c (.send p plaintext) = S.P.send c p plaintext := rfl
    rw [← hstep] at hsend hl'
    refine ⟨⟨counts', hl'⟩, ?_, ?_, ?_, ?_, ?_, ?_⟩
    · rw [hsend]
      exact he.sound
    · rw [hsend]
      exact hodd
    · rw [hsend]
      exact halice
    · rw [hsend]
      intro sent hsent
      cases p with
      | alice => exact he.inbox sent hsent
      | bob =>
        have hbob : c.turn .bob / 2 < 20 := hok
        have hlt : c.turn .bob + 1 < 40 := by omega
        rcases List.mem_append.mp hsent with hmem | hmem
        · exact he.inbox sent hmem
        · rw [List.mem_singleton.mp hmem]
          exact ⟨heven, hlt⟩
    · rw [hsend]
      exact hpq.interval he.interval
    · rw [hsend]
      exact hpq.unset he.unset
  | deliver p =>
    obtain ⟨sent, rest, hinbox⟩ := List.exists_cons_of_ne_nil henabled
    obtain ⟨session', rng', counts', hdeliver, hpq, hl'⟩ := hl.deliver h hdistinct hinbox
    have hstep : S.P.conversation.step c (.deliver p) = S.P.deliver c p := rfl
    rw [← hstep] at hdeliver hl'
    have hturn : (S.P.conversation.step c (.deliver p)).turn .alice = c.turn .alice ∨
        ∃ sent ∈ c.inbox .alice,
          (S.P.conversation.step c (.deliver p)).turn .alice = sent.turn + 1 := by
      rw [hdeliver]
      cases p with
      | bob => exact .inl rfl
      | alice =>
        by_cases hlt : c.turn .alice < sent.turn
        · refine .inr ⟨sent, ?_, ?_⟩
          · rw [hinbox]
            exact List.mem_cons_self
          · simp [hlt]
        · left
          simp [hlt]
    have hnext : (S.P.conversation.step c (.deliver p)).turn .alice % 2 = 1 ∧
        (S.P.conversation.step c (.deliver p)).turn .alice < 40 := by
      rcases hturn with heq | ⟨sent, hsent, heq⟩
      · rw [heq]
        exact ⟨hodd, halice⟩
      · obtain ⟨hsentEven, hlt⟩ := he.inbox sent hsent
        rw [heq]
        omega
    refine ⟨⟨counts', hl'⟩, ?_, hnext.1, hnext.2, ?_, ?_, ?_⟩
    · rw [hdeliver]
      exact he.sound
    · rw [hdeliver]
      intro sent' hsent
      cases p with
      | bob => exact he.inbox sent' hsent
      | alice =>
        apply he.inbox sent'
        rw [hinbox]
        exact List.mem_cons_of_mem sent hsent
    · rw [hdeliver]
      exact hpq.interval he.interval
    · rw [hdeliver]
      exact hpq.unset he.unset

/-- **A late step**: a receiver that writes in its twentieth turn, or after it, fails. -/
theorem Early.late (he : Early S c) {e : ConversationEvent} (hlate : ¬ e.InTime c) :
    (S.P.conversation.step c e).sound = false := by
  match e with
  | .send .alice _ => exact absurd trivial hlate
  | .deliver _ => exact absurd trivial hlate
  | .send .bob plaintext =>
    have hdue : (c.session .bob).pqDue = true := by
      have hturn : ¬ c.turn .bob / 2 < 20 := hlate
      rw [he.pqDue_eq .bob, decide_eq_true_eq]
      omega
    have hrun : (S.P.encryptMessage plaintext).run (c.session .bob, c.rng) =
        .error (.ratchet "remote KEM public key not set") (c.session .bob, c.rng) :=
      encryptMessage_unset hdue he.unset plaintext
    change (S.P.send c .bob plaintext).sound = false
    unfold Primitives.send
    rw [hrun]

variable {P : Primitives}

/-- **The start of a conversation**: one session of each kind. -/
theorem start_eq (h : P.Correct) (sharedSecret : Key) (dhPair : KeyPair) (kemPair : KemKeyPair)
    (rng : OsRng) :
    P.start sharedSecret dhPair kemPair rng =
      .ok
        { session := fun p =>
            if p = .alice then
              (P.keySchedule sharedSecret dhPair rng).senderSession kemPair.ek
                (P.kemGenerate rng.mlKem.head)
            else (P.keySchedule sharedSecret dhPair rng).receiverSession kemPair
          rng := { rng with x25519 := rng.x25519.tail, mlKem := rng.mlKem.tail } } := by
  unfold Primitives.start
  rw [initSender_run h, initReceiver_eq P sharedSecret dhPair kemPair rng]

theorem start_early (h : P.Correct) (sharedSecret : Key) (dhPair : KeyPair) (kemPair : KemKeyPair)
    (rng : OsRng) :
    ∃ c, P.start sharedSecret dhPair kemPair rng = .ok c ∧
      Early (P.keySchedule sharedSecret dhPair rng) c := by
  have hlt : (1 : ℕ) < 40 := by decide
  refine ⟨_, start_eq h sharedSecret dhPair kemPair rng,
    ⟨⟨fun _ => 0, fun _ => 0, fun _ => 0⟩, ?_⟩, rfl, rfl, hlt, ?_, ?_, rfl⟩
  · apply Lockstep.of_party .alice
    · rfl
    · exact senderSession_at _ _ _
    · exact receiverSession_at _ _
    · exact .behind rfl (.nil 0)
    · exact .ahead rfl (.nil 0) (.nil 0)
  · intro sent hsent
    cases hsent
  · intro p
    cases p <;> rfl

/-- **A conversation goes well exactly as long as the receiver writes in its first nineteen turns
only**: then every call succeeds and every message is decrypted to its plaintext. -/
theorem conversation_sound_iff (h : P.Committing) (sharedSecret : Key) (dhPair : KeyPair)
    (kemPair : KemKeyPair) (rng : OsRng)
    (hdistinct : (P.keySchedule sharedSecret dhPair rng).Distinct) :
    ∃ c, P.start sharedSecret dhPair kemPair rng = .ok c ∧
      ∀ es, System.Legal P.conversation System.Free c es →
        ((∀ n, (P.conversation.exec c (es.take n)).sound = true) ↔
          System.Legal P.conversation (fun c e => e.InTime c) c es) := by
  obtain ⟨c, hstart, hearly⟩ := start_early h.toCorrect sharedSecret dhPair kemPair rng
  refine ⟨c, hstart, ?_⟩
  intro es hlegal
  apply System.forall_take_iff (I := fun _ => True)
    (P := Early (P.keySchedule sharedSecret dhPair rng)) (Q := fun c => c.sound = true)
    (fun _ _ _ _ => trivial) ?_ ?_ (fun _ he => he.sound) hlegal trivial hearly
  · intro s e henabled _ he hok
    exact he.step h hdistinct henabled hok
  · intro s e _ _ he hsound
    by_contra hlate
    have hfail := he.late hlate
    exact Bool.false_ne_true (hfail.symm.trans hsound)

end Runs

/-! ## Concrete primitives -/

section Toy

open KeySchedule

def fill (n : ℕ) (f : ℕ → UInt8) : Bytes n := ⟨(List.range n).map f, by simp⟩

/-- Correct primitives that hide nothing: extracting adds one to a key's first byte, expanding
numbers the keys it gives, and a ciphertext begins with its key. -/
def toyPrimitives : Primitives where
  extract salt _ := fill 32 fun j => if j = 0 then salt.headD 0 + 1 else 0
  expand prk _ n := fill n fun j =>
    if j % 32 = 0 then prk.val.headD 0 else if j % 32 = 1 then .ofNat (j / 32) else 0
  x25519Public secret := secret
  x25519 _ _ := fill 32 fun _ => 1
  kemGenerate _ := ⟨fill 2400 fun _ => 0, fill 1184 fun _ => 0⟩
  kemEncapsulate _ _ := some (fill 1088 fun _ => 0, fill 32 fun _ => 0)
  kemDecapsulate _ _ := some (fill 32 fun _ => 0)
  aesEncrypt key _ plaintext _ := some (key.val ++ plaintext)
  aesDecrypt key _ ciphertext _ :=
    if ciphertext.take 32 = key.val then some (ciphertext.drop 32) else none

def toyRng : OsRng where
  x25519 _ := fill 32 fun _ => 0
  mlKem _ := fill 64 fun _ => 0
  encapsulation _ := fill 32 fun _ => 0
  nonces _ := fill 12 fun _ => 0

def toyKey : Key := fill 32 fun _ => 0

def toyPair : KeyPair := ⟨toyKey⟩

def toyKemPair : KemKeyPair := toyPrimitives.kemGenerate toyRng.mlKem.head

theorem toyPrimitives_committing : toyPrimitives.Committing where
  x25519_comm _ _ := rfl
  x25519_ne_zero _ _ := by
    have hne : (fill 32 fun _ => 1).val ≠ List.replicate 32 0 := by decide
    exact hne
  aesEncrypt_some key _ plaintext _ := by
    refine ⟨key.val ++ plaintext, rfl, ?_⟩
    rw [List.length_append, key.property]
    exact Nat.le_trans (by decide) (Nat.le_add_right 32 _)
  aesDecrypt_eq key _ plaintext _ ciphertext heq := by
    obtain rfl : key.val ++ plaintext = ciphertext := Option.some.inj heq
    simp [toyPrimitives, List.take_left' key.property, List.drop_left' key.property]
  aesDecrypt_other key key' _ plaintext _ ciphertext heq hne := by
    obtain rfl : key.val ++ plaintext = ciphertext := Option.some.inj heq
    have hother : key.val ≠ key'.val := fun h => hne (Subtype.ext h).symm
    simp [toyPrimitives, List.take_left' key.property, hother]

theorem toyPrimitives_correct : toyPrimitives.Correct := toyPrimitives_committing

def toySchedule : KeySchedule := toyPrimitives.keySchedule toyKey toyPair toyRng

theorem toySchedule_root (m : ℕ) : (toySchedule.root m).val.headD 0 = .ofNat (m + 1) := by
  induction m with
  | zero => rfl
  | succ m ih =>
    have hstep : (toySchedule.root (m + 1)).val.headD 0 =
        (toySchedule.root m).val.headD 0 + 1 := rfl
    rw [hstep, ih]
    exact (UInt8.ofNat_add (m + 1) 1).symm

theorem toySchedule_header (m : ℕ) : (toySchedule.header (m + 2)).val.headD 0 = .ofNat (m + 1) := by
  cases m with
  | zero => rfl
  | succ m =>
    have hstep : (toySchedule.header (m + 3)).val.headD 0 = (toySchedule.root m).val.headD 0 + 1 := rfl
    rw [hstep, toySchedule_root]
    exact (UInt8.ofNat_add (m + 1) 1).symm

theorem toySchedule_distinct : toySchedule.Distinct where
  first := by decide
  after m := by
    cases m with
    | zero => decide
    | succ m =>
      intro heq
      have hbyte : UInt8.ofNat (m + 1) = UInt8.ofNat (m + 3) := by
        rw [← toySchedule_header m, ← toySchedule_header (m + 2)]
        exact congrArg (fun key : Key => key.val.headD 0) heq
      have hnat := congrArg UInt8.toNat hbyte
      simp only [UInt8.toNat_ofNat'] at hnat
      omega

/-- The toy session goes well exactly as long as the receiver writes in time. -/
theorem conversation_sound_iff_toy :
    ∃ c, toyPrimitives.start toyKey toyPair toyKemPair toyRng = .ok c ∧
      ∀ es, System.Legal toyPrimitives.conversation System.Free c es →
        ((∀ n, (toyPrimitives.conversation.exec c (es.take n)).sound = true) ↔
          System.Legal toyPrimitives.conversation (fun c e => e.InTime c) c es) :=
  conversation_sound_iff toyPrimitives_committing toyKey toyPair toyKemPair toyRng toySchedule_distinct

/-- The parties write in turn, and each message arrives before the next one is sent; the receiver's
last reply does not arrive any more. -/
def alternating : ℕ → List ConversationEvent
  | 0 => [.send .alice [0], .deliver .bob, .send .bob [1]]
  | rounds + 1 =>
    [.send .alice [0], .deliver .bob, .send .bob [1], .deliver .alice] ++ alternating rounds

/-- **The receiver gets stuck**: its nineteenth reply succeeds, its twentieth fails. -/
theorem twentieth_reply_fails :
    toyPrimitives.Committing ∧ toySchedule.Distinct ∧
      ∃ c, toyPrimitives.start toyKey toyPair toyKemPair toyRng = .ok c ∧
        System.Legal toyPrimitives.conversation System.Free c (alternating 19) ∧
        (toyPrimitives.conversation.exec c (alternating 18)).sound = true ∧
        (toyPrimitives.conversation.exec c (alternating 19)).sound = false :=
  ⟨toyPrimitives_committing, toySchedule_distinct, Except.exists_ok (by decide +kernel)⟩

end Toy

end Pirc.Crypto
