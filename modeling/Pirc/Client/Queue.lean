import Pirc.Client.EncryptionManager

/-!
# Client: messages that wait for a key exchange

A private message to a peer without a session is queued while the exchange is pending, and encrypted
when the peer's bundle is there. Beside the manager stand the messages it accepted for the queue,
and those it returned encrypted.
-/

namespace Pirc.Client

open Crypto Protocol EncryptionManager

/-! ## Calls -/

inductive ManagerCall
  | initiateKeyExchange (peer : Str)
  | queueMessage (peer : Str) (plaintext : List UInt8)
  | handleBundleResponse (peer : Str) (bundle : PreKeyBundle)
  | handleInitMessage (peer : Str) (init : X3DHInitMessage)
  | handleComplete (peer : Str)

/-- A manager, the plaintexts for which `queue_message` returned true, and the messages that
`handle_bundle_response` returned, for each peer in order. -/
structure QueueHistory where
  manager : EncryptionManager
  rng : OsRng
  accepted : Str → List (List UInt8)
  returned : Str → List EncryptedMessage := fun _ => []

def EncryptionManager.held (manager : EncryptionManager) (peer : Str) : List (List UInt8) :=
  (manager.pendingExchanges peer).elim [] PendingExchange.queuedMessages

def QueueHistory.start (manager : EncryptionManager) (rng : OsRng) : QueueHistory where
  manager := manager
  rng := rng
  accepted := manager.held

namespace QueueHistory

variable (P : IdentityPrimitives) (h : QueueHistory)

def call? (h : QueueHistory) : ManagerCall → Option QueueHistory
  | .initiateKeyExchange peer => some { h with manager := (h.manager.initiateKeyExchange peer).2 }
  | .queueMessage peer plaintext =>
    let (queued, manager) := h.manager.queueMessage peer plaintext
    some
      { h with
        manager := manager
        accepted :=
          if queued then Function.update h.accepted peer (h.accepted peer ++ [plaintext])
          else h.accepted }
  | .handleBundleResponse peer bundle =>
    match (EncryptionManager.handleBundleResponse P peer bundle).run (h.manager, h.rng) with
    | .ok (_, encryptedQueued) (manager, rng) =>
      some
        { h with
          manager := manager
          rng := rng
          returned := Function.update h.returned peer (h.returned peer ++ encryptedQueued) }
    | .error _ _ => none
  | .handleInitMessage peer init =>
    match (EncryptionManager.handleInitMessage P peer init).run (h.manager, h.rng) with
    | .ok _ (manager, rng) => some { h with manager := manager, rng := rng }
    | .error _ _ => none
  | .handleComplete peer => some { h with manager := h.manager.handleComplete peer }

/-- The calls of the manager, as long as none fails. -/
def queueing : System QueueHistory ManagerCall where
  enabled h e := (h.call? P e).isSome = true
  step h e := (h.call? P e).getD h

instance (h : QueueHistory) (e : ManagerCall) : Decidable ((queueing P).enabled h e) :=
  inferInstanceAs (Decidable (_ = true))

/-- **No message to the peer was lost**: those accepted are the ones returned encrypted, each once
and in order, and then those that still wait. -/
def Intact (peer : Str) (h : QueueHistory) : Prop :=
  ∃ sent, List.Forall₂ (Encrypts P.toPrimitives) sent (h.returned peer) ∧
    h.accepted peer = sent ++ h.manager.held peer

/-- **The call drops no message to the peer**: nothing waits when an exchange is begun again or
acknowledged, and a bundle finds the exchange waiting for it, or nothing queued. -/
def KeepsQueue (peer : Str) (h : QueueHistory) : ManagerCall → Prop
  | .initiateKeyExchange p => p = peer → h.manager.held peer = []
  | .queueMessage _ _ => True
  | .handleBundleResponse p _ =>
    p = peer → ∀ session queued,
      h.manager.pendingExchanges peer = some (.awaitingComplete session queued) → queued = []
  | .handleInitMessage _ _ => True
  | .handleComplete p => p = peer → h.manager.held peer = []

variable {P h} {h' : QueueHistory} {peer p : Str}

/-! ## What is held -/

theorem held_insertPending (manager : EncryptionManager) (p peer : Str)
    (pending : PendingExchange) : (manager.insertPending p pending).held peer =
      if peer = p then pending.queuedMessages else manager.held peer := by
  unfold EncryptionManager.held insertPending
  by_cases hp : peer = p
  · subst hp
    simp
  · simp [hp]

theorem held_handleComplete (manager : EncryptionManager) (p peer : Str) :
    (manager.handleComplete p).held peer = if peer = p then [] else manager.held peer := by
  have hpending : (manager.handleComplete p).pendingExchanges =
      Function.update manager.pendingExchanges p none := by
    unfold handleComplete
    split <;> rfl
  unfold EncryptionManager.held
  rw [hpending]
  by_cases hp : peer = p
  · subst hp
    simp
  · simp [hp]

@[simp] theorem queuedMessages_push (pending : PendingExchange) (plaintext : List UInt8) :
    (pending.push plaintext).queuedMessages = pending.queuedMessages ++ [plaintext] := by
  cases pending <;> rfl

theorem held_eq_awaitingBundleQueue_iff (manager : EncryptionManager) (peer : Str) :
    manager.held peer = manager.awaitingBundleQueue peer ↔
      ∀ session queued, manager.pendingExchanges peer = some (.awaitingComplete session queued) →
        queued = [] := by
  unfold EncryptionManager.held awaitingBundleQueue
  cases manager.pendingExchanges peer with
  | none => simp
  | some pending =>
    cases pending with
    | awaitingBundle queued => simp [PendingExchange.queuedMessages]
    | awaitingComplete session queued => simp [PendingExchange.queuedMessages]

theorem awaitingBundleQueue_eq_or (manager : EncryptionManager) (peer : Str) :
    manager.awaitingBundleQueue peer = manager.held peer ∨ manager.awaitingBundleQueue peer = [] := by
  unfold EncryptionManager.held awaitingBundleQueue
  rcases manager.pendingExchanges peer with - | (queued | ⟨session, queued⟩)
  · exact .inr rfl
  · exact .inl rfl
  · exact .inr rfl

/-! ## Steps -/

theorem Intact.length (hi : Intact P peer h) :
    (h.accepted peer).length = (h.returned peer).length + (h.manager.held peer).length := by
  obtain ⟨sent, hsent, haccepted⟩ := hi
  rw [haccepted, List.length_append, hsent.length_eq]

theorem Intact.of_same (hi : Intact P peer h) (haccepted : h'.accepted peer = h.accepted peer)
    (hreturned : h'.returned peer = h.returned peer)
    (hheld : h'.manager.held peer = h.manager.held peer) : Intact P peer h' := by
  unfold Intact
  rw [haccepted, hreturned, hheld]
  exact hi

/-- A call that empties the peer's queue without returning anything is fine exactly if nothing is in
it. -/
theorem Intact.dropped_iff (hi : Intact P peer h) (haccepted : h'.accepted peer = h.accepted peer)
    (hreturned : h'.returned peer = h.returned peer) (hheld : h'.manager.held peer = []) :
    Intact P peer h' ↔ h.manager.held peer = [] := by
  constructor
  · intro hi'
    have hbefore := hi.length
    have hafter := hi'.length
    rw [haccepted, hreturned, hheld, hbefore, List.length_nil] at hafter
    exact List.length_eq_zero_iff.mp (by omega)
  · intro hnil
    exact hi.of_same haccepted hreturned (hheld.trans hnil.symm)

/-- **Step lemma**: a call keeps the messages exactly if it drops none that waits. -/
theorem step_intact_iff {e : ManagerCall} (hstep : h.call? P e = some h') (hi : Intact P peer h) :
    Intact P peer h' ↔ KeepsQueue peer h e := by
  cases e with
  | initiateKeyExchange p =>
    obtain rfl := Option.some.inj hstep
    have hheld := held_insertPending h.manager p peer (.awaitingBundle [])
    by_cases hp : peer = p
    · subst hp
      rw [if_pos rfl] at hheld
      have hiff :=
        (@Intact.dropped_iff _ h { h with manager := (h.manager.initiateKeyExchange peer).2 }) hi
          rfl rfl hheld
      exact hiff.trans ⟨fun hnil _ => hnil, fun hkeeps => hkeeps rfl⟩
    · rw [if_neg hp] at hheld
      exact iff_of_true (hi.of_same rfl rfl hheld) fun heq => absurd heq.symm hp
  | queueMessage p plaintext =>
    refine iff_of_true ?_ trivial
    obtain rfl := Option.some.inj hstep
    cases hpending : h.manager.pendingExchanges p with
    | none => exact hi.of_same rfl rfl rfl
    | some pending =>
      have hheld := held_insertPending h.manager p peer (pending.push plaintext)
      by_cases hp : peer = p
      · subst hp
        obtain ⟨sent, hsent, haccepted⟩ := hi
        refine ⟨sent, hsent, ?_⟩
        have hbefore : h.manager.held peer = pending.queuedMessages := by
          unfold EncryptionManager.held
          rw [hpending]
          rfl
        rw [if_pos rfl, queuedMessages_push] at hheld
        simp only [if_true, Function.update_self, haccepted, hbefore, hheld, List.append_assoc]
      · rw [if_neg hp] at hheld
        refine hi.of_same ?_ rfl hheld
        simp only [if_true, Function.update_of_ne hp]
  | handleBundleResponse p bundle =>
    simp only [call?] at hstep
    split at hstep
    · next init encryptedQueued manager rng hrun =>
      obtain rfl := Option.some.inj hstep
      obtain ⟨⟨session, rfl⟩, hencrypted⟩ := handleBundleResponse_ok hrun
      have hheld := held_insertPending (h.manager.insertPeerIdentity p bundle.identityPublic) p peer
        (.awaitingComplete session [])
      by_cases hp : peer = p
      · subst hp
        rw [if_pos rfl] at hheld
        have hkeeps : KeepsQueue peer h (.handleBundleResponse peer bundle) ↔
            h.manager.held peer = h.manager.awaitingBundleQueue peer := by
          rw [held_eq_awaitingBundleQueue_iff]
          exact ⟨fun hkeeps => hkeeps rfl, fun hempty _ => hempty⟩
        rw [hkeeps]
        constructor
        · -- what was queued and not encrypted would be missing
          intro hi'
          have hbefore := hi.length
          have hafter := hi'.length
          have hcount := hencrypted.length_eq
          simp only [Function.update_self, List.length_append, hheld,
            PendingExchange.queuedMessages, List.length_nil] at hafter
          rcases awaitingBundleQueue_eq_or h.manager peer with heq | hnil
          · exact heq.symm
          · rw [hnil, List.length_nil] at hcount
            rw [hnil]
            exact List.length_eq_zero_iff.mp (by omega)
        · intro hall
          obtain ⟨sent, hsent, haccepted⟩ := hi
          refine ⟨sent ++ h.manager.awaitingBundleQueue peer, ?_, ?_⟩
          · simp only [Function.update_self]
            exact List.rel_append hsent hencrypted
          · simp only [hheld, haccepted, hall]
            simp [PendingExchange.queuedMessages]
      · rw [if_neg hp] at hheld
        refine iff_of_true (hi.of_same rfl ?_ hheld) fun heq => absurd heq.symm hp
        exact Function.update_of_ne hp _ _
    · cases hstep
  | handleInitMessage p init =>
    refine iff_of_true ?_ trivial
    simp only [call?, handleInitMessage_run] at hstep
    have htake : ∀ id, (h.manager.takeOneTimePreKey id).2.pendingExchanges =
        h.manager.pendingExchanges := by
      intro id
      cases id <;> rfl
    have hheld : ∀ id, (h.manager.takeOneTimePreKey id).2.held peer = h.manager.held peer := by
      intro id
      unfold EncryptionManager.held
      rw [htake]
    split at hstep
    · next hrun =>
      obtain rfl := Option.some.inj hstep
      split at hrun
      · obtain ⟨-, hstate⟩ := EStateM.Result.ok.inj hrun
        obtain ⟨rfl, -⟩ := Prod.mk.inj hstate
        exact hi.of_same rfl rfl (hheld init.usedOneTimePreKeyId)
      · cases hrun
    · cases hstep
  | handleComplete p =>
    obtain rfl := Option.some.inj hstep
    have hheld := held_handleComplete h.manager p peer
    by_cases hp : peer = p
    · subst hp
      rw [if_pos rfl] at hheld
      have hiff :=
        (@Intact.dropped_iff _ h { h with manager := h.manager.handleComplete peer }) hi rfl rfl hheld
      exact hiff.trans ⟨fun hnil _ => hnil, fun hkeeps => hkeeps rfl⟩
    · rw [if_neg hp] at hheld
      exact iff_of_true (hi.of_same rfl rfl hheld) fun heq => absurd heq.symm hp

theorem start_intact (manager : EncryptionManager) (rng : OsRng) (peer : Str) :
    Intact P peer (.start manager rng) := ⟨[], .nil, rfl⟩

/-! ## Whole runs -/

/-- **No message is lost exactly if no call drops any**: in every sequence of calls none of which
fails, the messages accepted for a peer are in every state those returned encrypted and those that
wait, if and only if each call finds the queue as it should be. -/
theorem queue_intact_iff (manager : EncryptionManager) (rng : OsRng) (peer : Str)
    {es : List ManagerCall} (hlegal : System.Legal (queueing P) System.Free (.start manager rng) es) :
    (∀ n, Intact P peer ((queueing P).exec (.start manager rng) (es.take n))) ↔
      System.Legal (queueing P) (KeepsQueue peer) (.start manager rng) es := by
  refine System.forall_take_iff_of_step (I := fun _ => True) (fun _ _ _ _ => trivial) ?_ hlegal
    trivial (start_intact manager rng peer)
  intro h e henabled _ hi
  obtain ⟨h', hstep⟩ := Option.isSome_iff_exists.mp henabled
  have hstep' : (queueing P).step h e = h' := by
    change (h.call? P e).getD h = h'
    rw [hstep]
    rfl
  rw [hstep']
  exact step_intact_iff hstep hi

/-! ## A message that is lost -/

section Toy

/-- A message is queued after our half of the exchange, before the peer acknowledges. -/
def queuedBeforeComplete : List ManagerCall :=
  [.initiateKeyExchange ['b'],
    .handleBundleResponse ['b'] (createPreKeyBundle toyIdentityPrimitives toyManager),
    .queueMessage ['b'] [1], .handleComplete ['b']]

theorem queuedBeforeComplete_run :
    System.Legal (queueing toyIdentityPrimitives) System.Free (.start toyManager toyRng)
        queuedBeforeComplete ∧
      ((queueing toyIdentityPrimitives).exec
        (.start toyManager toyRng) queuedBeforeComplete).accepted ['b'] = [[1]] ∧
      ((queueing toyIdentityPrimitives).exec
        (.start toyManager toyRng) queuedBeforeComplete).returned ['b'] = [] ∧
      ((queueing toyIdentityPrimitives).exec (.start toyManager toyRng)
        queuedBeforeComplete).manager.held ['b'] = [] := by
  decide +kernel

/-- **A message is lost**: it was accepted, is not held any more and was never returned. -/
theorem queued_message_lost :
    System.Legal (queueing toyIdentityPrimitives) System.Free (.start toyManager toyRng)
        queuedBeforeComplete ∧
      ¬ Intact toyIdentityPrimitives ['b']
        ((queueing toyIdentityPrimitives).exec (.start toyManager toyRng) queuedBeforeComplete) := by
  obtain ⟨hlegal, haccepted, hreturned, hheld⟩ := queuedBeforeComplete_run
  refine ⟨hlegal, fun hi => ?_⟩
  have hlength := hi.length
  rw [haccepted, hreturned, hheld] at hlength
  cases hlength

/-- The run drops a message, so that not all of its states are intact. -/
theorem queue_intact_iff_dropped :
    (∀ n, Intact toyIdentityPrimitives ['b']
        ((queueing toyIdentityPrimitives).exec (.start toyManager toyRng)
          (queuedBeforeComplete.take n))) ↔
      System.Legal (queueing toyIdentityPrimitives) (KeepsQueue ['b']) (.start toyManager toyRng)
        queuedBeforeComplete :=
  queue_intact_iff toyManager toyRng ['b'] queuedBeforeComplete_run.1

end Toy

end QueueHistory

end Pirc.Client
