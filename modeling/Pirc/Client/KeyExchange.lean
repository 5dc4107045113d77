import Pirc.Client.EncryptionManager
import Pirc.Lib.Handshake

/-!
# Client: key exchanges of two managers

Two managers exchange the messages of key exchanges; each direction keeps their order. Either of
them may begin an exchange at any time, also both at once or one again and again.
-/

namespace Pirc.Client

open Crypto Protocol EncryptionManager

/-! ## Two managers -/

/-- What a manager does with a message, and its reply. -/
def handleKeyExchangeMessage (P : IdentityPrimitives) (sender : Str) :
    KeyExchangeMessage → CryptoM EncryptionManager (Option KeyExchangeMessage)
  | .requestBundle => do
    let (manager, _) ← get
    return some (.bundle (createPreKeyBundle P manager))
  | .bundle bundle => do
    let (init, _) ← handleBundleResponse P sender bundle
    return some (.initMessage init)
  | .initMessage init => do
    let reply ← handleInitMessage P sender init
    return some reply
  | .complete => do
    modifyState (·.handleComplete sender)
    return none

/-- A manager with its randomness and the messages on their way to it. -/
structure Endpoint where
  manager : EncryptionManager
  rng : OsRng
  inbox : List KeyExchangeMessage := []

def Endpoint.receive (endpoint : Endpoint) (message : KeyExchangeMessage) : Endpoint :=
  { endpoint with inbox := endpoint.inbox ++ [message] }

/-- A manager begins an exchange, or its first message arrives. -/
inductive ExchangeEvent
  | initiate (p : Party)
  | deliver (p : Party)

def ends (p : Party) (me peer : Endpoint) : Party → Endpoint := fun q => if q = p then me else peer

def Endpoint.arrive (P : IdentityPrimitives) (sender : Str) (me peer : Endpoint) : Endpoint × Endpoint :=
  match me.inbox with
  | [] => (me, peer)
  | message :: rest =>
    match (handleKeyExchangeMessage P sender message).run (me.manager, me.rng) with
    | .ok reply (manager, rng) => (⟨manager, rng, rest⟩, reply.elim peer peer.receive)
    | .error _ (manager, rng) => (⟨manager, rng, rest⟩, peer)

def Endpoint.initiate (sender : Str) (me peer : Endpoint) : Endpoint × Endpoint :=
  let (message, manager) := me.manager.initiateKeyExchange sender
  ({ me with manager := manager }, peer.receive message)

section System

variable (P : IdentityPrimitives) (nick : Party → Str)

def exchanging : System (Party → Endpoint) ExchangeEvent where
  enabled s
    | .initiate _ => True
    | .deliver p => (s p).inbox ≠ []
  step s
    | .initiate p =>
      let (me, peer) := (s p).initiate (nick p.peer) (s p.peer)
      ends p me peer
    | .deliver p =>
      let (me, peer) := (s p).arrive P (nick p.peer) (s p.peer)
      ends p me peer

def fresh (manager : Party → EncryptionManager) (rng : Party → OsRng) : Party → Endpoint :=
  fun p => { manager := manager p, rng := rng p }

/-- **Convergence**: with no message on its way and two active sessions, what one party encrypts
next the other decrypts. -/
def Converged (s : Party → Endpoint) : Prop :=
  (∀ p, (s p).inbox = []) → (∀ p, (s p).manager.encryptionStatus (nick p.peer) = .active) →
    ∃ p, ∀ plaintext, ∃ message t r,
      (encrypt P (nick p.peer) plaintext).run ((s p).manager, (s p).rng) = .ok message t ∧
        (decrypt P (nick p) message).run ((s p.peer).manager, (s p.peer).rng) = .ok plaintext r

variable {nick}

/-- **An answerable init message**: none of ours is on its way, and we hold its one-time pre-key. -/
def Answerable (s : Party → Endpoint) : ExchangeEvent → Prop
  | .initiate _ => True
  | .deliver p => ∀ init ∈ (s p).inbox.head?.bind KeyExchangeMessage.init?,
      (∀ message ∈ (s p.peer).inbox, message.init? = none) ∧ (s p).manager.HoldsKeyOf init

instance (s : Party → Endpoint) (e : ExchangeEvent) : Decidable ((exchanging P nick).enabled s e) :=
  match e with
  | .initiate _ => inferInstanceAs (Decidable True)
  | .deliver p => inferInstanceAs (Decidable ((s p).inbox ≠ []))

instance (s : Party → Endpoint) (e : ExchangeEvent) : Decidable (Answerable s e) :=
  match e with
  | .initiate _ => inferInstanceAs (Decidable True)
  | .deliver p =>
    inferInstanceAs (Decidable (∀ init ∈ (s p).inbox.head?.bind KeyExchangeMessage.init?,
      (∀ message ∈ (s p.peer).inbox, message.init? = none) ∧ (s p).manager.HoldsKeyOf init))

end System

/-! ## The halves of an exchange -/

def Matching (P : Primitives) (sender receiver : TripleRatchetSession) : Prop :=
  ∀ plaintext rng rng', ∃ message s r,
    (P.encryptMessage plaintext).run (sender, rng) = .ok message s ∧
      (P.decryptMessage message).run (receiver, rng') = .ok plaintext r

/-- **The halves match**, whatever randomness the receiver draws later. -/
theorem matching_halves {P : Primitives} (h : P.Committing) (sharedSecret : Key) (dhPair : KeyPair)
    (kemPublic : KemPublicKey) (senderPair receiverPair : KemKeyPair) (rng₁ rng₂ : OsRng) :
    Matching P ((P.keySchedule sharedSecret dhPair rng₁).senderSession kemPublic senderPair)
      ((P.keySchedule sharedSecret dhPair rng₂).receiverSession receiverPair) := by
  intro plaintext rng rng'
  -- the schedule that goes on with what the receiver draws
  let later : OsRng := { rng₁ with x25519 := Stream'.cons rng₁.x25519.head rng'.x25519 }
  let S := P.keySchedule sharedSecret dhPair later
  have hsender := senderSession_at S kemPublic senderPair
  have hreceiver := receiverSession_at S receiverPair
  obtain ⟨message, session, _, hencrypt, -, -, hgenuine, -⟩ :=
    hsender.encryptMessage_run h.toCorrect rfl plaintext rng
  obtain ⟨session', _, hdecrypt, -⟩ := (@KeySchedule.At.decryptMessage_next _ rng') h hreceiver hgenuine rfl
  exact ⟨message, _, _, hencrypt, hdecrypt⟩

/-- An exchange: its init message, the one-time pre-key that was offered for it, and its halves. -/
structure Exchange (P : IdentityPrimitives) where
  init : X3DHInitMessage
  oneTimePreKey : Option OneTimePreKey
  sender : TripleRatchetSession
  receiver : TripleRatchetSession
  matching : Matching P.toPrimitives sender receiver

variable {P : IdentityPrimitives} {manager theirs : EncryptionManager} {rng : OsRng} {peer : Str}

/-- **An exchange with a manager**, which derives the receiver's half with the one-time pre-key. -/
structure Exchange.With (x : Exchange P) (manager : EncryptionManager) : Prop where
  offered : Offered manager x.oneTimePreKey
  used : x.init.usedOneTimePreKeyId = x.oneTimePreKey.map (·.id)
  receives : ∃ sharedSecret,
    P.x3dhReceiver manager.identity manager.signedPreKey manager.kemPreKey x.oneTimePreKey x.init =
        .ok sharedSecret ∧
      ∀ rng, x.receiver = (P.keySchedule sharedSecret manager.signedPreKey.keyPair
        rng).receiverSession manager.kemPreKey.kemPair

/-- **A bundle of genuine keys** begins an exchange with their manager. -/
theorem handleBundleResponse_exchange (h : P.Committing) (hg : Genuine P theirs)
    {oneTimePreKey : Option OneTimePreKey} (hoffered : Offered theirs oneTimePreKey)
    (hqueue : manager.awaitingBundleQueue peer = []) :
    ∃ (x : Exchange P) (rng' : OsRng), x.With theirs ∧
      (handleBundleResponse P peer (P.publish theirs.identity theirs.signedPreKey theirs.kemPreKey
        oneTimePreKey)).run (manager, rng) =
          .ok (x.init, [])
            ((manager.insertPeerIdentity peer (P.publicIdentity theirs.identity)).insertPending peer
              (.awaitingComplete x.sender []), rng') := by
  obtain ⟨ciphertext, kemSecret, hkem, hsender⟩ := IdentityPrimitives.x3dhSender_run h hg.toGenuine
    manager.identity oneTimePreKey manager rng
  generalize hsecret : P.x3dhSecret manager.identity theirs.identity theirs.signedPreKey
    oneTimePreKey ⟨rng.x25519.head⟩ kemSecret = sharedSecret at hsender
  have hsession := initSender_run h.toCorrect sharedSecret theirs.signedPreKey.keyPair
    theirs.kemPreKey.kemPair.ek
    { rng with x25519 := rng.x25519.tail, encapsulation := rng.encapsulation.tail }
  have hrun := (@handleBundleResponse_run _ _ _ peer) hsender hsession
  rw [hqueue] at hrun
  refine ⟨⟨_, oneTimePreKey, _, _, matching_halves h.toCommitting sharedSecret
    theirs.signedPreKey.keyPair _ _ theirs.kemPreKey.kemPair _ rng⟩, _,
    ⟨hoffered, rfl, sharedSecret, ?_, fun _ => rfl⟩, hrun⟩
  rw [← hsecret]
  exact IdentityPrimitives.x3dhReceiver_eq h _ oneTimePreKey rfl rfl hkem

/-! ## The managers as sides of a handshake -/

def Exchange.half : Handshake.Half (Exchange P) → TripleRatchetSession
  | .sender x => x.sender
  | .receiver x => x.receiver

def Exchange.pending : Handshake.Pending (Exchange P) → PendingExchange
  | .awaitingBundle => .awaitingBundle []
  | .awaitingComplete x => .awaitingComplete x.sender []

inductive Carries (mine theirs : EncryptionManager) :
    KeyExchangeMessage → Handshake.Message (Exchange P) → Prop
  | request : Carries mine theirs .requestBundle .request
  | bundle (oneTimePreKey : Option OneTimePreKey) (hoffered : Offered theirs oneTimePreKey) :
    Carries mine theirs (.bundle (P.publish theirs.identity theirs.signedPreKey theirs.kemPreKey
      oneTimePreKey)) .bundle
  | init (x : Exchange P) (hwith : x.With mine) : Carries mine theirs (.initMessage x.init) (.init x)
  | complete : Carries mine theirs .complete .complete

/-- **An end as a side**: a later state of a manager, whose sessions are halves of exchanges. -/
structure Represents (peer : Str) (mine theirs : EncryptionManager) (endpoint : Endpoint)
    (side : Handshake.Side (Exchange P)) : Prop where
  descends : Descends mine endpoint.manager
  session : endpoint.manager.sessions peer = side.session.map Exchange.half
  pending : endpoint.manager.pendingExchanges peer = side.pending.map Exchange.pending
  inbox : List.Forall₂ (Carries mine theirs) endpoint.inbox side.inbox

variable {mine : EncryptionManager} {me other : Endpoint} {side side' : Handshake.Side (Exchange P)}

theorem Represents.receive {message : KeyExchangeMessage} {message' : Handshake.Message (Exchange P)}
    (hr : Represents peer mine theirs me side) (hcarries : Carries mine theirs message message') :
    Represents peer mine theirs (me.receive message) (side.receive message') :=
  { hr with inbox := List.rel_append hr.inbox (.cons hcarries .nil) }

theorem Represents.inits_eq_nil (hr : Represents peer mine theirs me side)
    (hnone : ∀ message ∈ me.inbox, message.init? = none) : side.inits = [] := by
  have hall : ∀ {messages : List KeyExchangeMessage} {messages' : List (Handshake.Message (Exchange P))},
      List.Forall₂ (Carries mine theirs) messages messages' →
      (∀ message ∈ messages, message.init? = none) →
      messages'.filterMap Handshake.Message.init? = [] := by
    intro messages messages' hmessages
    induction hmessages with
    | nil => exact fun _ => rfl
    | cons hcarries _ ih =>
      intro hnone
      have hrest := ih fun message hmem => hnone message (List.mem_cons_of_mem _ hmem)
      cases hcarries with
      | init x => exact absurd (hnone _ List.mem_cons_self) (Option.some_ne_none _)
      | request => exact hrest
      | bundle => exact hrest
      | complete => exact hrest
  exact hall hr.inbox hnone

theorem Represents.awaitingBundleQueue_eq (hr : Represents peer mine theirs me side) :
    me.manager.awaitingBundleQueue peer = [] := by
  unfold awaitingBundleQueue
  rw [hr.pending]
  rcases side.pending with _ | _ | _ <;> rfl

/-- **Beginning an exchange** is a move of the handshake. -/
theorem Represents.initiate {name : Str} (hme : Represents peer mine theirs me side)
    (hother : Represents name theirs mine other side') :
    ∃ t t', Handshake.Moves side side' t t' ∧
      Represents peer mine theirs (me.initiate peer other).1 t ∧
      Represents name theirs mine (me.initiate peer other).2 t' := by
  refine ⟨_, _, .initiate side side', ?_, hother.receive .request⟩
  exact {
    descends := { hme.descends with }
    session := hme.session
    pending := Function.update_self _ _ _
    inbox := hme.inbox }

section Arrive

variable {message : KeyExchangeMessage} {rest : List KeyExchangeMessage} {name : Str}

theorem Endpoint.arrive_eq {reply : Option KeyExchangeMessage} {manager : EncryptionManager}
    {rng : OsRng} (hinbox : me.inbox = message :: rest)
    (hrun : (handleKeyExchangeMessage P peer message).run (me.manager, me.rng) =
      .ok reply (manager, rng)) :
    me.arrive P peer other = (⟨manager, rng, rest⟩, reply.elim other other.receive) := by
  unfold Endpoint.arrive
  rw [hinbox]
  dsimp only
  rw [hrun]

theorem Represents.inbox_eq (hme : Represents peer mine theirs me side)
    (hinbox : me.inbox = message :: rest) :
    ∃ message' rest', side.inbox = message' :: rest' ∧ Carries mine theirs message message' ∧
      List.Forall₂ (Carries mine theirs) rest rest' := by
  have hall := hme.inbox
  rw [hinbox] at hall
  generalize hinbox' : side.inbox = inbox' at hall
  cases hall with
  | cons hcarries hrest => exact ⟨_, _, rfl, hcarries, hrest⟩

/-- **A bundle that arrives** makes our half of a new exchange pending. -/
theorem Represents.bundle (h : P.Committing) (hg : Genuine P theirs)
    (hme : Represents peer mine theirs me side) (hother : Represents name theirs mine other side')
    {oneTimePreKey : Option OneTimePreKey} (hoffered : Offered theirs oneTimePreKey)
    (hinbox : me.inbox = .bundle (P.publish theirs.identity theirs.signedPreKey theirs.kemPreKey
      oneTimePreKey) :: rest)
    {rest' : List (Handshake.Message (Exchange P))} (hinbox' : side.inbox = .bundle :: rest')
    (hrest : List.Forall₂ (Carries mine theirs) rest rest') :
    ∃ t t', Handshake.Moves side side' t t' ∧
      Represents peer mine theirs (me.arrive P peer other).1 t ∧
      Represents name theirs mine (me.arrive P peer other).2 t' := by
  obtain ⟨x, rng', hwith, hresponse⟩ := (@handleBundleResponse_exchange _ _ _ me.rng) h hg hoffered
    hme.awaitingBundleQueue_eq
  have hrun := (@Endpoint.arrive_eq P peer _ other _ _ (some (.initMessage x.init))) hinbox (by
      unfold handleKeyExchangeMessage
      rw [run_bind_ok hresponse]
      rfl)
  rw [hrun]
  refine ⟨_, _, .bundle side side' rest' hinbox' x, ?_, hother.receive (.init x hwith)⟩
  exact {
    descends := { hme.descends with }
    session := hme.session
    pending := Function.update_self _ _ _
    inbox := hrest }

/-- **An init message that arrives**, with its one-time pre-key, makes our half active. -/
theorem Represents.init (hg : Genuine P mine) (hme : Represents peer mine theirs me side)
    (hother : Represents name theirs mine other side') {x : Exchange P} (hwith : x.With mine)
    (hinbox : me.inbox = .initMessage x.init :: rest)
    {rest' : List (Handshake.Message (Exchange P))} (hinbox' : side.inbox = .init x :: rest')
    (hrest : List.Forall₂ (Carries mine theirs) rest rest')
    (hnone : ∀ message ∈ other.inbox, message.init? = none) (hheld : me.manager.HoldsKeyOf x.init) :
    ∃ t t', Handshake.Moves side side' t t' ∧
      Represents peer mine theirs (me.arrive P peer other).1 t ∧
      Represents name theirs mine (me.arrive P peer other).2 t' := by
  obtain ⟨sharedSecret, hreceives, hreceiver⟩ := hwith.receives
  have htaken := hme.descends.take_held hg.oneTimeIds hwith.offered hwith.used hheld
  have hd := hme.descends
  have hinit := handleInitMessage_run (P := P) peer x.init me.manager me.rng
  rw [htaken, hd.identity, hd.signedPreKey, hd.kemPreKey, hreceives] at hinit
  have hrun := (@Endpoint.arrive_eq P peer _ other _ _ (some .complete))
    hinbox (by
      unfold handleKeyExchangeMessage
      rw [run_bind_ok hinit]
      rfl)
  rw [hrun]
  refine ⟨_, _, .init side side' rest' x hinbox' (hother.inits_eq_nil hnone), ?_,
    hother.receive .complete⟩
  have hdescends := hme.descends.take x.init.usedOneTimePreKeyId
  exact {
    descends := { hdescends with }
    session := by
      exact (Function.update_self _ _ _).trans (congrArg some (hreceiver _).symm)
    pending := by
      refine Eq.trans ?_ hme.pending
      cases x.init.usedOneTimePreKeyId <;> rfl
    inbox := hrest }

/-- **An acknowledgement that arrives** makes a pending half active. -/
theorem Represents.complete (hme : Represents peer mine theirs me side)
    (hother : Represents name theirs mine other side') (hinbox : me.inbox = .complete :: rest)
    {rest' : List (Handshake.Message (Exchange P))} (hinbox' : side.inbox = .complete :: rest')
    (hrest : List.Forall₂ (Carries mine theirs) rest rest') :
    ∃ t t', Handshake.Moves side side' t t' ∧
      Represents peer mine theirs (me.arrive P peer other).1 t ∧
      Represents name theirs mine (me.arrive P peer other).2 t' := by
  have hrun := (@Endpoint.arrive_eq P peer _ other _ _ none (me.manager.handleComplete peer) me.rng)
    hinbox rfl
  have hpending := hme.pending
  rw [hrun]
  unfold handleComplete
  rcases hside : side.pending with _ | _ | x
  · rw [hside] at hpending
    refine ⟨_, side', .ignored side side' rest' hinbox' (by simp [hside]), ?_, hother⟩
    rw [hpending]
    exact ⟨{ hme.descends with }, hme.session, Function.update_self _ _ _, hrest⟩
  · rw [hside] at hpending
    refine ⟨_, side', .ignored side side' rest' hinbox' (by simp [hside]), ?_, hother⟩
    rw [hpending]
    exact ⟨{ hme.descends with }, hme.session, Function.update_self _ _ _, hrest⟩
  · rw [hside] at hpending
    refine ⟨_, side', .complete side side' rest' hinbox' x hside, ?_, hother⟩
    rw [hpending]
    exact ⟨{ hme.descends with }, Function.update_self _ _ _, Function.update_self _ _ _, hrest⟩

/-- **An answerable message that arrives** is a move of the handshake. -/
theorem Represents.arrive (h : P.Committing) (hmine : Genuine P mine) (htheirs : Genuine P theirs)
    (hme : Represents peer mine theirs me side) (hother : Represents name theirs mine other side')
    (hne : me.inbox ≠ [])
    (hanswerable : ∀ init ∈ me.inbox.head?.bind KeyExchangeMessage.init?,
      (∀ message ∈ other.inbox, message.init? = none) ∧ me.manager.HoldsKeyOf init) :
    ∃ t t', Handshake.Moves side side' t t' ∧
      Represents peer mine theirs (me.arrive P peer other).1 t ∧
      Represents name theirs mine (me.arrive P peer other).2 t' := by
  obtain ⟨message, rest, hinbox⟩ := List.exists_cons_of_ne_nil hne
  obtain ⟨message', rest', hinbox', hcarries, hrest⟩ := hme.inbox_eq hinbox
  cases hcarries with
  | request =>
    obtain ⟨oneTimePreKey, hoffered, hbundle⟩ := hme.descends.createPreKeyBundle_eq (P := P)
    have hrun := (@Endpoint.arrive_eq P peer _ other _ _
      (some (.bundle (createPreKeyBundle P me.manager))) me.manager me.rng) hinbox rfl
    rw [hrun]
    refine ⟨_, _, .request side side' rest' hinbox', ?_, hother.receive ?_⟩
    · exact ⟨hme.descends, hme.session, hme.pending, hrest⟩
    · rw [hbundle]
      exact .bundle oneTimePreKey hoffered
  | bundle oneTimePreKey hoffered => exact hme.bundle h htheirs hother hoffered hinbox hinbox' hrest
  | init x hwith =>
    rw [hinbox] at hanswerable
    obtain ⟨hnone, hheld⟩ := hanswerable x.init rfl
    exact hme.init hmine hother hwith hinbox hinbox' hrest hnone hheld
  | complete => exact hme.complete hother hinbox hinbox' hrest

end Arrive

/-! ## Whole runs -/

section Runs

variable {nick : Party → Str} {managers : Party → EncryptionManager} {s : Party → Endpoint} {p : Party}

@[simp] theorem ends_self (p : Party) (me peer : Endpoint) : ends p me peer p = me := if_pos rfl

@[simp] theorem ends_peer (p : Party) (me peer : Endpoint) : ends p me peer p.peer = peer := by
  cases p <;> rfl

/-- The two ends are sides of a handshake in a safe state. -/
def Follows (nick : Party → Str) (managers : Party → EncryptionManager) (p : Party)
    (s : Party → Endpoint) : Prop :=
  ∃ side side' : Handshake.Side (Exchange P), Handshake.Safe side side' ∧
    Represents (nick p.peer) (managers p) (managers p.peer) (s p) side ∧
    Represents (nick p) (managers p.peer) (managers p) (s p.peer) side'

theorem Follows.symm (hf : Follows (P := P) nick managers p s) :
    Follows (P := P) nick managers p.peer s := by
  obtain ⟨side, side', hsafe, hme, hpeer⟩ := hf
  refine ⟨side', side, hsafe.symm, ?_, ?_⟩
  · rwa [Party.peer_peer]
  · rwa [Party.peer_peer]

theorem Follows.all (hf : Follows (P := P) nick managers .alice s) (p : Party) :
    Follows (P := P) nick managers p s := by
  cases p with
  | alice => exact hf
  | bob => exact hf.symm

/-- **One event**: an answerable message keeps the two ends safe. -/
theorem Follows.step (h : P.Committing) (hg : ∀ p, Genuine P (managers p))
    (hf : Follows (P := P) nick managers .alice s) {e : ExchangeEvent}
    (henabled : (exchanging P nick).enabled s e) (hanswerable : Answerable s e) :
    Follows (P := P) nick managers .alice ((exchanging P nick).step s e) := by
  have hback : ∀ {p s}, Follows (P := P) nick managers p s →
      Follows (P := P) nick managers .alice s := by
    intro p s hf
    cases p with
    | alice => exact hf
    | bob => exact hf.symm
  cases e with
  | initiate p =>
    obtain ⟨side, side', hsafe, hme, hpeer⟩ := hf.all p
    obtain ⟨t, t', hmoves, hme', hpeer'⟩ := hme.initiate hpeer
    refine hback (p := p) ⟨t, t', hmoves.safe hsafe, ?_, ?_⟩
    · simpa [exchanging] using hme'
    · simpa [exchanging] using hpeer'
  | deliver p =>
    obtain ⟨side, side', hsafe, hme, hpeer⟩ := hf.all p
    obtain ⟨t, t', hmoves, hme', hpeer'⟩ :=
      hme.arrive h (hg p) (hg p.peer) hpeer henabled hanswerable
    refine hback (p := p) ⟨t, t', hmoves.safe hsafe, ?_, ?_⟩
    · simpa [exchanging] using hme'
    · simpa [exchanging] using hpeer'

theorem onPeer_ok {α : Type} {x : CryptoM TripleRatchetSession α} {a : α}
    {session : TripleRatchetSession} {t : TripleRatchetSession × OsRng}
    (hsession : manager.sessions peer = some session) (hrun : x.run (session, rng) = .ok a t) :
    (onPeer peer x).run (manager, rng) = .ok a (manager.insertSession peer t.1, t.2) := by
  simp only [EStateM.run] at hrun
  simp only [EStateM.run, onPeer, hsession, hrun]

/-- **Matching sessions**: what the one party encrypts the other decrypts. -/
theorem Matching.encrypt {sender receiver : TripleRatchetSession}
    (hm : Matching P.toPrimitives sender receiver)
    (hsender : (s p).manager.sessions (nick p.peer) = some sender)
    (hreceiver : (s p.peer).manager.sessions (nick p) = some receiver) (plaintext : List UInt8) :
    ∃ message t r,
      (encrypt P (nick p.peer) plaintext).run ((s p).manager, (s p).rng) = .ok message t ∧
        (decrypt P (nick p) message).run ((s p.peer).manager, (s p.peer).rng) = .ok plaintext r := by
  obtain ⟨message, t, r, hencrypt, hdecrypt⟩ := hm plaintext (s p).rng (s p.peer).rng
  exact ⟨message, _, _, onPeer_ok hsender hencrypt, onPeer_ok hreceiver hdecrypt⟩

/-- **Safe ends have converged.** -/
theorem Follows.converged (hf : Follows (P := P) nick managers .alice s) : Converged P nick s := by
  intro hquiet hactive
  obtain ⟨side, side', hsafe, hme, hpeer⟩ := hf
  have hempty : ∀ {peer mine theirs endpoint} {side : Handshake.Side (Exchange P)},
      Represents peer mine theirs endpoint side → endpoint.inbox = [] → side.inbox = [] := by
    intro peer mine theirs endpoint side hr hinbox
    have hall := hr.inbox
    rw [hinbox] at hall
    exact List.forall₂_nil_left_iff.mp hall
  have hsome : ∀ {peer mine theirs endpoint} {side : Handshake.Side (Exchange P)},
      Represents peer mine theirs endpoint side → endpoint.manager.encryptionStatus peer = .active →
      side.session.isSome = true := by
    intro peer mine theirs endpoint side hr hstatus
    have hhas : endpoint.manager.hasSession peer = true := by
      unfold encryptionStatus at hstatus
      by_contra hno
      rw [if_neg hno] at hstatus
      split at hstatus <;> cases hstatus
    unfold hasSession at hhas
    rwa [hr.session, Option.isSome_map] at hhas
  have hmine : ∀ {half}, side.session = some half →
      (s .alice).manager.sessions (nick .bob) = some (Exchange.half half) :=
    fun hhalf => hme.session.trans (congrArg (Option.map Exchange.half) hhalf)
  have htheirs : ∀ {half}, side'.session = some half →
      (s .bob).manager.sessions (nick .alice) = some (Exchange.half half) :=
    fun hhalf => hpeer.session.trans (congrArg (Option.map Exchange.half) hhalf)
  obtain ⟨x, ⟨hsender, hreceiver⟩ | ⟨hreceiver, hsender⟩⟩ := hsafe.matched (hempty hme (hquiet .alice))
    (hempty hpeer (hquiet .bob)) (hsome hme (hactive .alice)) (hsome hpeer (hactive .bob))
  · exact ⟨.alice, x.matching.encrypt (p := .alice) (hmine hsender) (htheirs hreceiver)⟩
  · exact ⟨.bob, x.matching.encrypt (p := .bob) (htheirs hsender) (hmine hreceiver)⟩

/-- **Key exchanges converge** in every run in which each init message that arrives is answerable:
in every state with no message on its way and two active sessions, one party encrypts what the other
decrypts. -/
theorem key_exchange_converges (h : P.Committing) (hg : ∀ p, Genuine P (managers p))
    (hnone : ∀ p, (managers p).encryptionStatus (nick p.peer) = .none) (rng : Party → OsRng)
    (hrun : System.Steps (exchanging P nick) Answerable (fresh managers rng) s) :
    Converged P nick s := by
  have hfresh : ∀ p, Represents (P := P) (nick p.peer) (managers p) (managers p.peer)
      (fresh managers rng p) {} := by
    intro p
    have hstatus := hnone p
    unfold encryptionStatus hasSession hasPendingExchange at hstatus
    refine ⟨.refl _, ?_, ?_, .nil⟩
    · cases hsession : (managers p).sessions (nick p.peer) with
      | none => exact hsession
      | some session => simp [hsession] at hstatus
    · cases hpending : (managers p).pendingExchanges (nick p.peer) with
      | none => exact hpending
      | some pending =>
        rw [hpending] at hstatus
        split at hstatus <;> simp at hstatus
  have hinitial : Follows (P := P) nick managers .alice (fresh managers rng) :=
    ⟨{}, {}, Handshake.safe_fresh, hfresh .alice, hfresh .bob⟩
  have hfollows := hrun.invariant (I := Follows (P := P) nick managers .alice)
    (fun s e henabled hanswerable hf => hf.step h hg henabled hanswerable) hinitial
  exact hfollows.converged

end Runs

/-! ## New managers -/

theorem encryptionStatus_of_session {session : TripleRatchetSession}
    (h : manager.sessions peer = some session) : manager.encryptionStatus peer = .active := by
  rw [encryptionStatus, hasSession, h]
  rfl

theorem sessions_handleComplete (manager : EncryptionManager) (peer : Str)
    (session : TripleRatchetSession) (queued : List (List UInt8)) :
    ((manager.insertPending peer (.awaitingComplete session queued)).handleComplete peer).sessions
      peer = some session := by
  simp [handleComplete, insertPending, insertSession]

/-- **Two strangers come to talk**: of two new managers, one asks for the other's bundle, and the
bundle, the init message and the acknowledgement go back and forth. No step fails, both sessions are
active, and what the one party writes then the other reads. -/
theorem newManagers_exchange (h : P.Committing) (nick : Party → Str) (seed : Party → Bytes 32)
    (timestamp : Party → UInt64) (rng : Party → OsRng) :
    ∃ (managers : Party → EncryptionManager) (drawn : Party → OsRng),
      (∀ p, (newManager P (seed p) (timestamp p)).run ((), rng p) = .ok (managers p) ((), drawn p)) ∧
      ∃ init a b,
        (handleBundleResponse P (nick .bob) (createPreKeyBundle P (managers .bob))).run
          (((managers .alice).initiateKeyExchange (nick .bob)).2, drawn .alice) = .ok (init, []) a ∧
        (handleInitMessage P (nick .alice) init).run (managers .bob, drawn .bob) = .ok .complete b ∧
        (a.1.handleComplete (nick .bob)).encryptionStatus (nick .bob) = .active ∧
        b.1.encryptionStatus (nick .alice) = .active ∧
        ∀ plaintext, ∃ message t r,
          (encrypt P (nick .bob) plaintext).run (a.1.handleComplete (nick .bob), a.2) = .ok message t ∧
            (decrypt P (nick .alice) message).run b = .ok plaintext r := by
  have hnew := fun p => newManager_genuine h.correct (seed p) (timestamp p) (rng p)
  choose managers drawn hrun hgenuine hsessions hpending using hnew
  refine ⟨managers, drawn, hrun, ?_⟩
  have hoffered : Offered (managers .bob) (managers .bob).oneTimePreKeys.head? :=
    fun _ => List.mem_of_mem_head?
  obtain ⟨x, rng', hwith, hresponse⟩ := @handleBundleResponse_exchange P
    ((managers .alice).initiateKeyExchange (nick .bob)).2 _ (drawn .alice) (nick .bob) h
    (hgenuine .bob) _ hoffered (by
      unfold awaitingBundleQueue initiateKeyExchange insertPending
      simp)
  obtain ⟨sharedSecret, hreceives, hreceiver⟩ := hwith.receives
  have hheld : (managers .bob).HoldsKeyOf x.init := by
    intro id hid
    rw [hwith.used] at hid
    obtain ⟨preKey, hkey, rfl⟩ := Option.mem_map.mp hid
    exact ⟨preKey, hwith.offered preKey hkey, rfl⟩
  have htaken := (Descends.refl (managers .bob)).take_held (hgenuine .bob).oneTimeIds hwith.offered
    hwith.used hheld
  have hinit := handleInitMessage_run (P := P) (nick .alice) x.init (managers .bob) (drawn .bob)
  rw [htaken, hreceives] at hinit
  dsimp only at hinit
  rw [← hreceiver] at hinit
  have hours := sessions_handleComplete
    (((managers .alice).initiateKeyExchange (nick .bob)).2.insertPeerIdentity
    (nick .bob) (P.publicIdentity (managers .bob).identity)) (nick .bob) x.sender []
  refine ⟨x.init, _, _, hresponse, hinit, encryptionStatus_of_session hours,
    encryptionStatus_of_session (?_ : _ = some x.receiver), fun plaintext => ?_⟩
  · cases x.init.usedOneTimePreKeyId <;> exact Function.update_self ..
  · obtain ⟨message, t, r, hencrypt, hdecrypt⟩ := x.matching plaintext rng' (drawn .bob)
    exact ⟨message, _, _, onPeer_ok hours hencrypt, onPeer_ok (Function.update_self ..) hdecrypt⟩

/-! ## Toy managers -/

section Toy

def toyNick : Party → Str
  | .alice => ['a']
  | .bob => ['b']

/-- Both begin at once: requests, bundles, init messages and acknowledgements cross. -/
def simultaneous : List ExchangeEvent :=
  [.initiate .alice, .initiate .bob, .deliver .alice, .deliver .bob, .deliver .alice, .deliver .bob,
    .deliver .alice, .deliver .bob, .deliver .alice, .deliver .bob]

/-- **An exchange that diverges**: nothing is on its way and both sessions are active, but neither
party decrypts what the other encrypts. -/
theorem simultaneous_exchange_diverges :
    System.Legal (exchanging toyIdentityPrimitives toyNick) System.Free
        (fresh (fun _ => toyManager) fun _ => toyRng) simultaneous ∧
      ¬ Converged toyIdentityPrimitives toyNick
        ((exchanging toyIdentityPrimitives toyNick).exec
          (fresh (fun _ => toyManager) fun _ => toyRng) simultaneous) := by
  generalize hs : (exchanging toyIdentityPrimitives toyNick).exec
    (fresh (fun _ => toyManager) fun _ => toyRng) simultaneous = s
  have hquiet : ∀ p, (s p).inbox = [] := by
    subst hs
    rintro (_ | _) <;> decide +kernel
  have hactive : ∀ p, (s p).manager.encryptionStatus (toyNick p.peer) = .active := by
    subst hs
    rintro (_ | _) <;> decide +kernel
  -- what one party encrypts, the other fails to decrypt
  have hfails : ∀ p, (match (encrypt toyIdentityPrimitives (toyNick p.peer) [1]).run
      ((s p).manager, (s p).rng) with
    | .ok message _ =>
      match (decrypt toyIdentityPrimitives (toyNick p) message).run
        ((s p.peer).manager, (s p.peer).rng) with
      | .ok _ _ => false
      | .error _ _ => true
    | .error _ _ => true) = true := by
    subst hs
    rintro (_ | _) <;> decide +kernel
  refine ⟨by decide +kernel, fun hconverged => ?_⟩
  obtain ⟨p, hp⟩ := hconverged hquiet hactive
  obtain ⟨message, t, r, hencrypt, hdecrypt⟩ := hp [1]
  have hfail := hfails p
  rw [hencrypt] at hfail
  dsimp only at hfail
  rw [hdecrypt] at hfail
  cases hfail

/-- One party begins, and the other answers. -/
theorem key_exchange_converges_alone :
    Converged toyIdentityPrimitives toyNick
      ((exchanging toyIdentityPrimitives toyNick).exec (fresh (fun _ => toyManager) fun _ => toyRng)
        [.initiate .alice, .deliver .bob, .deliver .alice, .deliver .bob, .deliver .alice]) :=
  key_exchange_converges toyIdentityPrimitives_committing (fun _ => toyManager_genuine)
    (by rintro (_ | _) <;> rfl) (fun _ => toyRng) (System.Legal.steps (by decide +kernel))

/-- Two new managers of the toy primitives, made from other random bytes. -/
theorem newManagers_exchange_toy :
    ∃ a b : EncryptionManager × OsRng, a.1.encryptionStatus (toyNick .bob) = .active ∧
      b.1.encryptionStatus (toyNick .alice) = .active ∧
      ∃ message t r,
        (encrypt toyIdentityPrimitives (toyNick .bob) [1, 2]).run a = .ok message t ∧
          (decrypt toyIdentityPrimitives (toyNick .alice) message).run b = .ok [1, 2] r := by
  obtain ⟨_, _, -, _, a, b, -, -, hours, htheirs, htalk⟩ := newManagers_exchange
    toyIdentityPrimitives_committing toyNick (fun p => fill 32 fun _ => if p = .alice then 1 else 2)
    (fun p => if p = .alice then 5 else 7) fun _ => toyRng
  exact ⟨_, b, hours, htheirs, htalk [1, 2]⟩

end Toy

end Pirc.Client
