import Pirc.Crypto.TripleRatchet

/-!
# Crypto: the key schedule of a session

The two parties of a session take turns. Each turn has a DH key pair, made when it begins; from it
and the pair of the turn before come a root key, the chain of the turn's messages and a header key
for two turns later. Turn 0 is the receiver's before it has heard anything, turn 1 the sender's
first.
-/

namespace Pirc.Crypto

/-! ## The keys of a turn -/

/-- The shared secret, and the secrets of all turns. -/
structure KeySchedule where
  P : Primitives
  sharedSecret : Key
  secrets : Stream' (Bytes 32)

namespace Primitives

variable (P : Primitives)

def nextKeys (rootKey dhOutput : Key) : Key × Key × Key :=
  let output :=
    P.expand (P.extract rootKey.val dhOutput.val) (utf8 "pirc-dh-ratchet-root".toList) 96
  (extractKey output 0, extractKey output 1, extractKey output 2)

end Primitives

namespace KeySchedule

variable (S : KeySchedule)

def pair (m : ℕ) : KeyPair := ⟨S.secrets.get m⟩

def dhPublic (m : ℕ) : PublicKey := S.P.publicKey (S.pair m)

def dhOutput (m : ℕ) : Key := S.P.x25519 (S.pair (m + 1)).secret (S.dhPublic m)

/-- The root key of a turn. -/
def root : ℕ → Key
  | 0 => S.P.expand (S.P.extract S.sharedSecret.val []) (utf8 "pirc-triple-ratchet-root".toList) 32
  | m + 1 => (S.P.nextKeys (root m) (S.dhOutput m)).1

def next (m : ℕ) : Key × Key × Key := S.P.nextKeys (S.root m) (S.dhOutput m)

/-- The chain of a turn, some messages on. -/
def chain (m k : ℕ) : SymmetricRatchet :=
  (fun ratchet => (S.P.advance ratchet).2)^[k] { chainKey := (S.next (m - 1)).2.1 }

def messageKey (m k : ℕ) : Key := (S.P.advance (S.chain m k)).1

def material : Bytes 96 :=
  S.P.expand (S.P.extract S.sharedSecret.val [])
    (utf8 "pirc-triple-ratchet-header-keys".toList) 96

/-- The header key of a turn: of the first two from the shared secret, then from the keys of the
turn two before. -/
def header : ℕ → Key
  | 0 => extractKey S.material 1
  | 1 => extractKey S.material 0
  | 2 => extractKey S.material 2
  | m + 3 => (S.next m).2.2

/-- **Distinct header keys**: the keys of consecutive turns of one party differ, and so do those of
the first two turns. -/
structure Distinct : Prop where
  first : S.header 1 ≠ S.header 2
  after : ∀ m, S.header (m + 1) ≠ S.header (m + 3)

theorem chain_succ (m k : ℕ) : S.chain m (k + 1) = (S.P.advance (S.chain m k)).2 :=
  Function.iterate_succ_apply' _ _ _

theorem advance_chain (m k : ℕ) :
    S.P.advance (S.chain m k) = (S.messageKey m k, S.chain m (k + 1)) := by
  rw [chain_succ]
  rfl

theorem messageNumber_chain (m k : ℕ) : (S.chain m k).messageNumber = UInt32.ofNat k := by
  induction k with
  | zero => rfl
  | succ k ih =>
    have hstep : (S.chain m (k + 1)).messageNumber = (S.chain m k).messageNumber + 1 := by
      rw [chain_succ]
      rfl
    rw [hstep, ih, UInt32.ofNat_add]
    rfl

theorem x25519_pair (h : S.P.Correct) (m : ℕ) :
    S.P.x25519 (S.pair m).secret (S.dhPublic (m + 1)) = S.dhOutput m := h.x25519_comm _ _

/-! ## The DH ratchet at a turn -/

/-- The public key a party in a turn knows of its peer. -/
def remote : ℕ → Option PublicKey
  | 0 => none
  | m + 1 => some (S.dhPublic m)

def sending : ℕ → ℕ → Option SymmetricRatchet
  | 0, _ => none
  | m + 1, n => some (S.chain (m + 1) n)

def receiving : ℕ → ℕ → Option SymmetricRatchet
  | 0, _ => none
  | 1, _ => none
  | m + 2, k => some (S.chain (m + 1) k)

/-- The ratchet of a party in turn `m` that sent `n` messages in it and received `k` of the turn
before. -/
structure DhAt (ratchet : DhRatchetState) (m n k : ℕ) : Prop where
  pair : ratchet.dhPair = S.pair m
  remote : ratchet.remotePublic = S.remote m
  root : ratchet.rootKey = S.root m
  sending : ratchet.sendingChain = S.sending m n
  receiving : ratchet.receivingChain = S.receiving m k

variable {S} {ratchet : DhRatchetState} {rng : OsRng} {m n k : ℕ}

/-- **A ratchet step** takes a party to its next turn, with the header keys of the two turns after
that. -/
theorem DhAt.ratchetStep_run (h : S.P.Correct) (hat : S.DhAt ratchet m n k)
    (hrng : rng.x25519 = S.secrets.drop (m + 2)) :
    ∃ ratchet', (S.P.ratchetStep (S.dhPublic (m + 1))).run (ratchet, rng) =
        .ok (S.header (m + 3), S.header (m + 4))
          (ratchet', { rng with x25519 := S.secrets.drop (m + 3) }) ∧
      S.DhAt ratchet' (m + 2) 0 0 := by
  -- the receiving chain comes with our old key pair, the sending chain with the new one
  have hrecv : S.P.diffieHellmanKeypair ratchet.dhPair (S.dhPublic (m + 1)) = .ok (S.dhOutput m) := by
    rw [hat.pair, dhPublic, Primitives.diffieHellmanKeypair_eq h]
    exact congrArg Except.ok (S.x25519_pair h m)
  have hpair : (⟨rng.x25519.head⟩ : KeyPair) = S.pair (m + 2) := by
    rw [hrng]
    simp [KeySchedule.pair, Stream'.head, Stream'.drop, Stream'.get]
  have hsend : S.P.diffieHellmanKeypair (S.pair (m + 2)) (S.dhPublic (m + 1)) =
      .ok (S.dhOutput (m + 1)) := Primitives.diffieHellmanKeypair_eq h _ _
  have htail : rng.x25519.tail = S.secrets.drop (m + 3) := by
    rw [hrng]
    funext i
    exact congrArg S.secrets (by omega)
  have hkdf (rootKey dhOutput : Key) :
      S.P.rootKdf rootKey dhOutput = .ok (S.P.nextKeys rootKey dhOutput) := rfl
  refine ⟨
    { dhPair := S.pair (m + 2)
      remotePublic := some (S.dhPublic (m + 1))
      rootKey := S.root (m + 2)
      sendingChain := some (S.chain (m + 2) 0)
      receivingChain := some (S.chain (m + 1) 0)
      stepCount := ratchet.stepCount + 1 }, ?_, rfl, rfl, rfl, rfl, rfl⟩
  simp only [Primitives.ratchetStep, EStateM.run_bind, EStateM.run_get, run_check, hrecv,
    hkdf, EStateM.run_modify, run_generateKeyPair, hpair, hsend, htail, hat.root]
  rfl

theorem DhAt.encryptMessageKey_run (hat : S.DhAt ratchet (m + 1) n k) (rng : OsRng) :
    ∃ ratchet', S.P.encryptMessageKey.run (ratchet, rng) =
        .ok (S.messageKey (m + 1) n, UInt32.ofNat n, S.dhPublic (m + 1)) (ratchet', rng) ∧
      S.DhAt ratchet' (m + 1) (n + 1) k := by
  have hsending : ratchet.sendingChain = some (S.chain (m + 1) n) := hat.sending
  refine ⟨{ ratchet with sendingChain := some (S.chain (m + 1) (n + 1)) }, ?_,
    hat.pair, hat.remote, hat.root, rfl, hat.receiving⟩
  simp only [Primitives.encryptMessageKey, EStateM.run_bind, EStateM.run_get, hsending,
    advance_chain, messageNumber_chain, hat.pair]
  rfl

theorem DhAt.receiveMessageKey_run (hat : S.DhAt ratchet (m + 2) n k) (rng : OsRng) :
    ∃ ratchet', (S.P.receiveMessageKey (UInt32.ofNat k)).run (ratchet, rng) =
        .ok (S.messageKey (m + 1) k, []) (ratchet', rng) ∧
      S.DhAt ratchet' (m + 2) n (k + 1) := by
  have hreceiving : ratchet.receivingChain = some (S.chain (m + 1) k) := hat.receiving
  refine ⟨{ ratchet with receivingChain := some (S.chain (m + 1) (k + 1)) }, ?_,
    hat.pair, hat.remote, hat.root, hat.sending, rfl⟩
  have hnot : ¬ UInt32.ofNat k < UInt32.ofNat k := UInt32.lt_irrefl _
  simp only [Primitives.receiveMessageKey, EStateM.run_bind, EStateM.run_get, hreceiving,
    messageNumber_chain, hnot, if_false, if_true, advance_chain]
  rfl

theorem DhAt.skipRemainingReceivingKeys_run (hat : S.DhAt ratchet m n k) (rng : OsRng) :
    (S.P.skipRemainingReceivingKeys (UInt32.ofNat k)).run (ratchet, rng) = .ok [] (ratchet, rng) := by
  simp only [Primitives.skipRemainingReceivingKeys, EStateM.run_bind, EStateM.run_get,
    hat.receiving]
  match m with
  | 0 => rfl
  | 1 => rfl
  | m + 2 =>
    have hle : UInt32.ofNat k ≤ (S.chain (m + 1) k).messageNumber := by
      rw [messageNumber_chain]
      exact UInt32.le_refl _
    change EStateM.run (if _ then _ else _) _ = _
    rw [if_pos hle]
    rfl

end KeySchedule

end Pirc.Crypto
