import Pirc.Client.EncryptionManager

/-!
# Client: agreement through published bundles

One user publishes bundles; others fetch them from the server, any number of them the same one, and
begin exchanges. Their init messages reach the user in any order. A one-time pre-key is used up by
the first init message that names it, and a later one is answered without it.
-/

namespace Pirc.Client

open Crypto Protocol EncryptionManager

/-- An init message, and the secret that its initiator derived. -/
structure Begun where
  init : X3DHInitMessage
  sharedSecret : Key

/-- A user with the bundles it published and the init messages made from them. `agreed` says that
each call of `handle_init_message` that returned Ok derived the initiator's secret. -/
structure Published where
  manager : EncryptionManager
  rng : OsRng
  bundles : List PreKeyBundle := []
  inits : List Begun := []
  agreed : Bool := true

/-- The user publishes a bundle, someone begins an exchange with bundle `k`, or init message `i`
arrives from a peer. -/
inductive PublishedEvent
  | publish
  | respond (initiator : EncryptionManager) (peer : Str) (k : ℕ)
  | arrive (peer : Str) (i : ℕ)

namespace Published

variable (P : IdentityPrimitives)

/-- An initiator runs its half with a bundle; if that succeeds, its init message is sent. -/
def respond (s : Published) (initiator : EncryptionManager) (peer : Str) (bundle : PreKeyBundle) :
    Published :=
  match (handleBundleResponse P peer bundle).run (initiator, s.rng),
    (P.x3dhSender initiator.identity bundle).run (initiator, s.rng) with
  | .ok (init, _) (_, rng), .ok (result, _) _ =>
    { s with rng := rng, inits := s.inits ++ [⟨init, result.sharedSecret⟩] }
  | .error _ (_, rng), _ => { s with rng := rng }
  | .ok _ (_, rng), .error _ _ => { s with rng := rng }

def arrive (s : Published) (peer : Str) (begun : Begun) : Published :=
  match (handleInitMessage P peer begun.init).run (s.manager, s.rng),
    (receiveSecret P begun.init).run (s.manager, s.rng) with
  | .ok _ (manager, rng), .ok sharedSecret _ =>
    { s with
      manager := manager
      rng := rng
      agreed := s.agreed && sharedSecret = begun.sharedSecret }
  | .ok _ (manager, rng), .error _ _ => { s with manager := manager, rng := rng, agreed := false }
  | .error _ (manager, rng), _ => { s with manager := manager, rng := rng }

/-- The events of the peers. -/
def publishing : System Published PublishedEvent where
  enabled s
    | .publish => True
    | .respond _ _ k => k < s.bundles.length
    | .arrive _ i => i < s.inits.length
  step s
    | .publish => { s with bundles := s.bundles ++ [createPreKeyBundle P s.manager] }
    | .respond initiator peer k => (s.bundles[k]?).elim s (respond P s initiator peer)
    | .arrive peer i => (s.inits[i]?).elim s (arrive P s peer)

instance (s : Published) (e : PublishedEvent) : Decidable ((publishing P).enabled s e) :=
  match e with
  | .publish => inferInstanceAs (Decidable True)
  | .respond _ _ k => inferInstanceAs (Decidable (k < s.bundles.length))
  | .arrive _ i => inferInstanceAs (Decidable (i < s.inits.length))

/-- The user derives the initiator's secret from an init message. -/
def Agree (s : Published) (begun : Begun) : Prop :=
  P.x3dhReceiver s.manager.identity s.manager.signedPreKey s.manager.kemPreKey
    (s.manager.takeOneTimePreKey begun.init.usedOneTimePreKeyId).1 begun.init =
      .ok begun.sharedSecret

/-- **The one-time pre-key is held** that an arriving init message names. -/
def KeyHeld (s : Published) : PublishedEvent → Prop
  | .arrive _ i => ∀ begun ∈ s.inits[i]?, s.manager.HoldsKeyOf begun.init
  | _ => True

instance (s : Published) (e : PublishedEvent) : Decidable (s.KeyHeld e) :=
  match e with
  | .publish => inferInstanceAs (Decidable True)
  | .respond _ _ _ => inferInstanceAs (Decidable True)
  | .arrive _ i => inferInstanceAs (Decidable (∀ begun ∈ s.inits[i]?, s.manager.HoldsKeyOf begun.init))

/-- **No collision**: the secret of an arriving init message that names a one-time pre-key is not
also the one that is derived without it. -/
def NoCollision (s : Published) : PublishedEvent → Prop
  | .arrive _ i =>
    ∀ begun ∈ s.inits[i]?, begun.init.usedOneTimePreKeyId ≠ none →
      P.x3dhReceiver s.manager.identity s.manager.signedPreKey s.manager.kemPreKey none begun.init ≠
        .ok begun.sharedSecret
  | _ => True

/-! ## What was published -/

/-- An init message that answers a bundle of the manager, with this one-time pre-key in it, or
none. -/
structure Answers (manager : EncryptionManager) (oneTimePreKey : Option OneTimePreKey)
    (begun : Begun) : Prop where
  usedId : begun.init.usedOneTimePreKeyId = oneTimePreKey.map (·.id)
  received : ∀ heldKey, ∃ sharedSecret,
    P.x3dhReceiver manager.identity manager.signedPreKey manager.kemPreKey heldKey begun.init =
      .ok sharedSecret
  same : P.x3dhReceiver manager.identity manager.signedPreKey manager.kemPreKey oneTimePreKey
    begun.init = .ok begun.sharedSecret

/-- **The invariant**: the user has its long-term keys and some of its one-time pre-keys, and all
bundles and init messages come from them. -/
structure Faithful (manager : EncryptionManager) (s : Published) : Prop where
  descends : Descends manager s.manager
  bundles : ∀ bundle ∈ s.bundles, ∃ oneTimePreKey, Offered manager oneTimePreKey ∧
    bundle = P.publish manager.identity manager.signedPreKey manager.kemPreKey oneTimePreKey
  inits : ∀ begun ∈ s.inits, ∃ oneTimePreKey, Offered manager oneTimePreKey ∧
    Answers P manager oneTimePreKey begun

variable {P} {manager : EncryptionManager} {s : Published} {oneTimePreKey : Option OneTimePreKey}
  {begun : Begun} {peer : Str}

/-- **With its one-time pre-key**, if it names one, an init message gives the user the initiator's
secret. -/
theorem Answers.agree (hg : Genuine P manager) (hd : Descends manager s.manager)
    (hoffered : Offered manager oneTimePreKey) (ha : Answers P manager oneTimePreKey begun)
    (hheld : s.manager.HoldsKeyOf begun.init) : Agree P s begun := by
  unfold Agree
  rw [hd.take_held hg.oneTimeIds hoffered ha.usedId hheld, hd.identity, hd.signedPreKey, hd.kemPreKey]
  exact ha.same

/-- **Without it** the secret is another one. -/
theorem held_of_agree (hagree : Agree P s begun)
    (hcollision : begun.init.usedOneTimePreKeyId ≠ none →
      P.x3dhReceiver s.manager.identity s.manager.signedPreKey s.manager.kemPreKey none begun.init ≠
        .ok begun.sharedSecret) : s.manager.HoldsKeyOf begun.init := by
  by_contra hnot
  obtain ⟨hnamed, hnone⟩ := take_not_held hnot
  unfold Agree at hagree
  rw [hnone] at hagree
  exact hcollision hnamed hagree

/-! ## Steps -/

theorem Faithful.publish (hf : Faithful P manager s) :
    Faithful P manager { s with bundles := s.bundles ++ [createPreKeyBundle P s.manager] } := by
  refine { hf with bundles := fun bundle hbundle => ?_ }
  rcases List.mem_append.mp hbundle with hold | hnew
  · exact hf.bundles bundle hold
  · obtain rfl := List.mem_singleton.mp hnew
    exact hf.descends.createPreKeyBundle_eq

/-- **An initiator's message** answers the bundle it was made from. -/
theorem Faithful.respond (h : P.Correct) (hg : Genuine P manager) (hf : Faithful P manager s)
    {bundle : PreKeyBundle} (hbundle : bundle ∈ s.bundles) (initiator : EncryptionManager)
    (peer : Str) :
    Faithful P manager (respond P s initiator peer bundle) ∧
      (respond P s initiator peer bundle).agreed = s.agreed := by
  obtain ⟨oneTimePreKey, hoffered, rfl⟩ := hf.bundles bundle hbundle
  obtain ⟨ciphertext, kemSecret, hkem, hsender⟩ := IdentityPrimitives.x3dhSender_run h
    hg.toGenuine initiator.identity oneTimePreKey initiator s.rng
  have hsession := initSender_run h.toCorrect
    (P.x3dhSecret initiator.identity manager.identity manager.signedPreKey oneTimePreKey
      ⟨s.rng.x25519.head⟩ kemSecret) manager.signedPreKey.keyPair manager.kemPreKey.kemPair.ek
    { s.rng with
      x25519 := s.rng.x25519.tail
      encapsulation := s.rng.encapsulation.tail }
  have hrun := (@handleBundleResponse_run _ _ _ peer) hsender hsession
  unfold Published.respond
  rw [hrun, hsender]
  split
  · next init encryptedQueued _ rng result _ _ hbundleRun hsenderRun =>
    obtain ⟨hresult, -⟩ := EStateM.Result.ok.inj hsenderRun
    obtain ⟨rfl, -⟩ := Prod.mk.inj hresult
    split at hbundleRun
    · obtain ⟨hinit, -⟩ := EStateM.Result.ok.inj hbundleRun
      obtain ⟨rfl, -⟩ := Prod.mk.inj hinit
      refine ⟨{ hf with inits := fun begun hbegun => ?_ }, rfl⟩
      rcases List.mem_append.mp hbegun with hold | hnew
      · exact hf.inits begun hold
      · obtain rfl := List.mem_singleton.mp hnew
        refine ⟨oneTimePreKey, hoffered, rfl, fun heldKey => ?_, ?_⟩
        · refine ⟨P.x3dhSecret initiator.identity manager.identity manager.signedPreKey heldKey
            ⟨s.rng.x25519.head⟩ kemSecret, ?_⟩
          exact IdentityPrimitives.x3dhReceiver_eq h _ heldKey rfl rfl hkem
        · exact IdentityPrimitives.x3dhReceiver_eq h _ oneTimePreKey rfl rfl hkem
    · cases hbundleRun
  · exact ⟨{ hf with }, rfl⟩
  · next hsenderRun => cases hsenderRun

/-- **A message that arrives** is accepted, and the run stays one of agreement exactly if this
message gives the initiator's secret. -/
theorem Faithful.arrive (hf : Faithful P manager s) (hbegun : begun ∈ s.inits) (peer : Str) :
    Faithful P manager (arrive P s peer begun) ∧
      ((arrive P s peer begun).agreed = true ↔ s.agreed = true ∧ Agree P s begun) := by
  obtain ⟨oneTimePreKey, hoffered, ha⟩ := hf.inits begun hbegun
  obtain ⟨sharedSecret, hreceived⟩ :=
    ha.received (s.manager.takeOneTimePreKey begun.init.usedOneTimePreKeyId).1
  rw [← hf.descends.identity, ← hf.descends.signedPreKey, ← hf.descends.kemPreKey] at hreceived
  unfold Published.arrive Agree
  rw [handleInitMessage_run, receiveSecret_run, hreceived]
  have hdescends := hf.descends.take begun.init.usedOneTimePreKeyId
  refine ⟨⟨{ hdescends with }, hf.bundles, hf.inits⟩, ?_⟩
  simp only [Bool.and_eq_true, decide_eq_true_eq, Except.ok.injEq]

/-- **One event**: a faithful state stays faithful, and the run one of agreement exactly if the init
message that arrives, if one does, gives the initiator's secret. -/
theorem Faithful.step (h : P.Correct) (hg : Genuine P manager) (hf : Faithful P manager s)
    (hagreed : s.agreed = true) {e : PublishedEvent} (henabled : (publishing P).enabled s e) :
    Faithful P manager ((publishing P).step s e) ∧
      (((publishing P).step s e).agreed = true ↔
        ∀ peer i begun, e = .arrive peer i → s.inits[i]? = some begun → Agree P s begun) := by
  cases e with
  | publish => exact ⟨hf.publish, iff_of_true hagreed fun _ _ _ he => by cases he⟩
  | respond initiator peer k =>
    have hk : k < s.bundles.length := henabled
    obtain ⟨hf', hsame⟩ := hf.respond h hg (List.getElem_mem hk) initiator peer
    have heq : (publishing P).step s (.respond initiator peer k) =
        Published.respond P s initiator peer s.bundles[k] := by
      change (s.bundles[k]?).elim s _ = _
      rw [List.getElem?_eq_getElem hk]
      rfl
    rw [heq]
    exact ⟨hf', iff_of_true (hsame.trans hagreed) fun _ _ _ he => by cases he⟩
  | arrive peer i =>
    have hi : i < s.inits.length := henabled
    have hbegun : s.inits[i]? = some s.inits[i] := List.getElem?_eq_getElem hi
    have heq : (publishing P).step s (.arrive peer i) = Published.arrive P s peer s.inits[i] := by
      change (s.inits[i]?).elim s _ = _
      rw [hbegun]
      rfl
    obtain ⟨hf', hiff⟩ := hf.arrive (List.getElem_mem hi) peer
    rw [heq, hiff]
    refine ⟨hf', fun hboth _ _ begun he hi' => ?_, fun hall => ⟨hagreed, hall peer i _ rfl hbegun⟩⟩
    obtain ⟨-, rfl⟩ := PublishedEvent.arrive.inj he
    obtain rfl := Option.some.inj (hbegun.symm.trans hi')
    exact hboth.2

/-! ## Whole runs -/

/-- **Agreement through published bundles.** If every init message finds the one-time pre-key that
it names, each that is accepted gives the user the initiator's secret; and where no two of the
secrets in question collide, only then. -/
theorem x3dh_agree_iff (h : P.Correct) (hg : Genuine P manager) (rng : OsRng)
    (es : List PublishedEvent) :
    (System.Legal (publishing P) KeyHeld { manager := manager, rng := rng } es →
      ∀ n, ((publishing P).exec { manager := manager, rng := rng } (es.take n)).agreed = true) ∧
    (System.Legal (publishing P) (NoCollision P) { manager := manager, rng := rng } es →
      (∀ n, ((publishing P).exec { manager := manager, rng := rng } (es.take n)).agreed = true) →
        System.Legal (publishing P) KeyHeld { manager := manager, rng := rng } es) := by
  have hinitial : Faithful P manager { manager := manager, rng := rng } :=
    ⟨.refl manager, fun _ hmem => absurd hmem List.not_mem_nil,
      fun _ hmem => absurd hmem List.not_mem_nil⟩
  -- a step that finds its key keeps both
  have hkeep : ∀ s e, (publishing P).enabled s e → KeyHeld s e →
      Faithful P manager s ∧ s.agreed = true →
        Faithful P manager ((publishing P).step s e) ∧ ((publishing P).step s e).agreed = true := by
    rintro s e henabled hheld ⟨hf, hagreed⟩
    obtain ⟨hf', hiff⟩ := hf.step h hg hagreed henabled
    refine ⟨hf', hiff.mpr ?_⟩
    rintro peer i begun rfl hbegun
    obtain ⟨oneTimePreKey, hoffered, ha⟩ := hf.inits begun (List.mem_of_getElem? hbegun)
    exact ha.agree hg hf.descends hoffered (hheld begun hbegun)
  constructor
  · intro hlegal n
    exact ((hlegal.steps_take (Nat.zero_le n)).2.invariant hkeep ⟨hinitial, rfl⟩).2
  · intro hlegal
    refine (hlegal.forall_take_iff (P := fun s => Faithful P manager s ∧ s.agreed = true)
      (Q := fun s => s.agreed = true) (fun s e henabled _ hs hheld => hkeep s e henabled hheld hs) ?_
      (fun s hs => hs.2) ⟨hinitial, rfl⟩).mp
    rintro s e henabled hcollision ⟨hf, hagreed⟩ hagreed'
    have hiff := (hf.step h hg hagreed henabled).2
    cases e with
    | publish => trivial
    | respond initiator peer k => trivial
    | arrive peer i =>
      intro begun hbegun
      exact held_of_agree (hiff.mp hagreed' peer i begun rfl hbegun) (hcollision begun hbegun)

section Toy

/-- One bundle for two initiators: the first init message uses up the one-time pre-key of both. -/
def oneBundle : List PublishedEvent :=
  [.publish, .respond toyManager ['b'] 0, .respond toyManager ['b'] 0, .arrive ['a'] 0,
    .arrive ['c'] 1]

/-- **The second initiator's secret is another one**: its init message is accepted all the same. -/
theorem second_initiator_disagrees :
    System.Legal (publishing toyIdentityPrimitives) System.Free
        { manager := toyManager, rng := toyRng } oneBundle ∧
      ((publishing toyIdentityPrimitives).exec { manager := toyManager, rng := toyRng }
        oneBundle).agreed = false := by
  decide +kernel

def ownBundles : List PublishedEvent :=
  [.publish, .respond toyManager ['b'] 0, .arrive ['a'] 0, .publish, .respond toyManager ['b'] 1,
    .arrive ['c'] 1]

/-- With a bundle for each initiator all secrets agree. -/
theorem x3dh_agree_iff_bundles :
    ((publishing toyIdentityPrimitives).exec { manager := toyManager, rng := toyRng }
      ownBundles).agreed = true := by
  have hall := (x3dh_agree_iff toyIdentityPrimitives_correct toyManager_genuine toyRng ownBundles).1
    (by decide +kernel) ownBundles.length
  rwa [List.take_length] at hall

end Toy

end Published

end Pirc.Client
