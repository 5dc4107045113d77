import Pirc.Crypto.PqAgreement
import Pirc.Crypto.PreKeys

/-!
# Crypto: when a session can encrypt

A session encrypts as long as its DH ratchet has a sending chain, and it knows the peer's KEM key
where a post-quantum step is due. The receiver of a session has no sending chain before its first
message, and does not know that key before the peer's first step.
-/

namespace Pirc.Crypto

/-- **A session that can encrypt**: it has a sending chain, and where a post-quantum step is due it
knows the peer's KEM key. -/
def TripleRatchetSession.CanEncrypt (session : TripleRatchetSession) : Prop :=
  session.dhRatchet.sendingChain.isSome = true ∧
    (session.pqDue = true → session.pqRatchet.remoteKemPublic.isSome = true)

instance (session : TripleRatchetSession) : Decidable session.CanEncrypt :=
  inferInstanceAs (Decidable (_ ∧ _))

/-- **A message of a session**: its header carries the KEM fields exactly if a post-quantum step was
due. -/
structure EncryptedBy (P : Primitives) (session : TripleRatchetSession) (plaintext : List UInt8)
    (message : EncryptedMessage) : Prop where
  header : ∃ key, ∃ header : MessageHeader,
    P.encrypt key message.headerNonce header.toBytes [] = .ok message.encryptedHeader ∧
      header.kemCiphertext.isSome = session.pqDue ∧ header.kemPublic.isSome = session.pqDue
  body : ∃ key, P.encrypt key message.bodyNonce plaintext message.encryptedHeader =
    .ok message.ciphertext

variable {P : IdentityPrimitives} {session : TripleRatchetSession} {rng : OsRng}
  {plaintext : List UInt8} {message : EncryptedMessage}

def dhPart (s : TripleRatchetSession × OsRng) : DhRatchetState := s.1.dhRatchet

theorem preparePqStep_within (P : Primitives) : Within (Unchanged dhPart) P.preparePqStep := by
  have hinitiate : Within (Unchanged dhPart) (onPqRatchet P.initiateStep) := by
    rintro ⟨s, rng⟩
    unfold wp
    rw [onPqRatchet, run_onPart]
    cases P.initiateStep.run (s.pqRatchet, rng) <;> rfl
  have hreset : Within (Unchanged dhPart) (modifySession fun s => { s with dhStepsSincePq := 0 }) :=
    within_modify fun _ => rfl
  refine within_get ?_
  rintro ⟨session, rng⟩
  dsimp only
  split_ifs with hdue
  · exact hinitiate.bind (fun _ => hreset.bind fun _ => within_pure _) (session, rng)
  · exact within_pure (none, none) (session, rng)

theorem encryptMessageKey_error {P : Primitives} {s : TripleRatchetSession × OsRng}
    (hnone : s.1.dhRatchet.sendingChain = none) :
    ∃ e t, (onDhRatchet P.encryptMessageKey).run s = .error e t := by
  obtain ⟨session, rng⟩ := s
  have hnone' : session.dhRatchet.sendingChain = none := hnone
  have hkey : P.encryptMessageKey.run (session.dhRatchet, rng) =
      .error (.ratchet "sending chain not initialized") (session.dhRatchet, rng) := by
    simp only [Primitives.encryptMessageKey, EStateM.run_bind, EStateM.run_get, hnone']
    rfl
  exact ⟨_, _, by rw [onDhRatchet, run_onPart, hkey]⟩

theorem encryptMessageKey_ok {P : Primitives} {s : TripleRatchetSession × OsRng}
    (hsome : s.1.dhRatchet.sendingChain.isSome = true) :
    ∃ result t, (onDhRatchet P.encryptMessageKey).run s = .ok result t := by
  obtain ⟨session, rng⟩ := s
  obtain ⟨chain, hchain⟩ := Option.isSome_iff_exists.mp hsome
  have hchain' : session.dhRatchet.sendingChain = some chain := hchain
  have hkey : ∃ result t, P.encryptMessageKey.run (session.dhRatchet, rng) = .ok result t := by
    simp only [Primitives.encryptMessageKey, EStateM.run_bind, EStateM.run_get, hchain']
    exact ⟨_, _, rfl⟩
  obtain ⟨result, ⟨ratchet, rng'⟩, hrun⟩ := hkey
  exact ⟨result, _, by rw [onDhRatchet, run_onPart, hrun]⟩

theorem preparePqStep_ok (h : P.Correct) (hcan : session.CanEncrypt) (rng : OsRng) :
    ∃ kemCiphertext kemPublic t, P.preparePqStep.run (session, rng) =
        .ok (kemCiphertext, kemPublic) t ∧
      kemCiphertext.isSome = session.pqDue ∧ kemPublic.isSome = session.pqDue := by
  cases hdue : session.pqDue with
  | false => exact ⟨none, none, _, KeySchedule.preparePqStep_run hdue, rfl, rfl⟩
  | true =>
    obtain ⟨remote, hremote⟩ := Option.isSome_iff_exists.mp (hcan.2 hdue)
    obtain ⟨kemCiphertext, session', rng', hrun, -⟩ := preparePqStep_due hdue hremote
      (h.kemEncapsulate_isSome remote rng.encapsulation.head)
    exact ⟨_, _, _, hrun, rfl, rfl⟩

/-- **A session that can encrypt does.** -/
theorem encryptMessage_ok (h : P.Correct) (hcan : session.CanEncrypt) (plaintext : List UInt8)
    (rng : OsRng) : ∃ message t, (P.encryptMessage plaintext).run (session, rng) = .ok message t ∧
      EncryptedBy P.toPrimitives session plaintext message := by
  obtain ⟨kemCiphertext, kemPublic, t, hprepare, hct, hpk⟩ := preparePqStep_ok h hcan rng
  have hsame : t.1.dhRatchet = session.dhRatchet := (preparePqStep_within _).ok hprepare
  obtain ⟨⟨messageKey, number, dhPublic⟩, ⟨s, rng'⟩, hkey⟩ :=
    encryptMessageKey_ok (P := P.toPrimitives) (s := t) (by rw [hsame]; exact hcan.1)
  -- header and body are encrypted with fresh nonces
  obtain ⟨encryptedHeader, hheader⟩ := Primitives.exists_encrypt_eq h.toCorrect s.sendingHeaderKey
    rng'.nonces.head (MessageHeader.toBytes ⟨dhPublic, number, s.previousChainLength, kemCiphertext,
      kemPublic⟩) []
  obtain ⟨ciphertext, hbody⟩ := Primitives.exists_encrypt_eq h.toCorrect messageKey
    rng'.nonces.tail.head plaintext encryptedHeader
  refine ⟨⟨encryptedHeader, rng'.nonces.head, ciphertext, rng'.nonces.tail.head⟩, ?_, ?_,
    ⟨s.sendingHeaderKey, _, hheader, hct, hpk⟩, ⟨messageKey, hbody⟩⟩
  · exact ({ s with sendingMessageNumber := number + 1 },
      { rng' with nonces := rng'.nonces.tail.tail })
  · rw [Primitives.encryptMessage, run_bind_ok hprepare, run_bind_ok hkey]
    simp only [EStateM.run_bind, KeySchedule.run_modifySession, EStateM.run_get,
      Primitives.encryptHeader, run_generateNonce, hheader, run_check, hbody, EStateM.run_pure]

/-- **No other session does.** -/
theorem encryptMessage_error (hcannot : ¬ session.CanEncrypt) (plaintext : List UInt8)
    (rng : OsRng) : ∃ e t, (P.encryptMessage plaintext).run (session, rng) = .error e t := by
  by_cases hpq : session.pqDue = true ∧ session.pqRatchet.remoteKemPublic = none
  · exact ⟨_, _, encryptMessage_unset hpq.1 hpq.2 plaintext⟩
  · -- the step is taken if it is due, so the sending chain is missing
    have hchain : session.dhRatchet.sendingChain = none := by
      by_contra hsome
      refine hcannot ⟨Option.isSome_iff_ne_none.mpr hsome, fun hdue => ?_⟩
      exact Option.isSome_iff_ne_none.mpr fun hremote => hpq ⟨hdue, hremote⟩
    rw [Primitives.encryptMessage]
    cases hprepare : P.preparePqStep.run (session, rng) with
    | error e t => exact ⟨e, t, run_bind_error hprepare⟩
    | ok result t =>
      have hsame : t.1.dhRatchet = session.dhRatchet := (preparePqStep_within _).ok hprepare
      obtain ⟨e, r, hkey⟩ := encryptMessageKey_error (P := P.toPrimitives) (s := t)
        (by rw [hsame, hchain])
      exact ⟨e, r, by rw [run_bind_ok hprepare, run_bind_error hkey]⟩

theorem EncryptedBy.of_run (h : P.Correct) {t : TripleRatchetSession × OsRng}
    (hrun : (P.encryptMessage plaintext).run (session, rng) = .ok message t) :
    session.CanEncrypt ∧ EncryptedBy P.toPrimitives session plaintext message := by
  by_cases hcan : session.CanEncrypt
  · obtain ⟨message', t', hrun', hby⟩ := encryptMessage_ok h hcan plaintext rng
    obtain ⟨rfl, -⟩ := EStateM.Result.ok.inj (hrun'.symm.trans hrun)
    exact ⟨hcan, hby⟩
  · obtain ⟨e, t', hrun'⟩ := encryptMessage_error (P := P) hcan plaintext rng
    cases hrun'.symm.trans hrun

section Headers

variable {P : Primitives}

theorem preparePqStep_isSome {kemCiphertext : Option KemCiphertext}
    {kemPublic : Option KemPublicKey} {t : TripleRatchetSession × OsRng}
    (hrun : P.preparePqStep.run (session, rng) = .ok (kemCiphertext, kemPublic) t) :
    kemCiphertext.isSome = session.pqDue ∧ kemPublic.isSome = session.pqDue := by
  cases hdue : session.pqDue with
  | false =>
    rw [KeySchedule.preparePqStep_run hdue] at hrun
    cases hrun
    exact ⟨rfl, rfl⟩
  | true =>
    simp only [Primitives.preparePqStep, EStateM.run_bind, EStateM.run_get, hdue, if_true] at hrun
    cases hstep : (onPqRatchet P.initiateStep).run (session, rng) with
    | error e s =>
      rw [hstep] at hrun
      cases hrun
    | ok result s =>
      rw [hstep] at hrun
      cases hrun
      exact ⟨rfl, rfl⟩

/-- **What a session encrypted** carries the KEM fields if a step was due. -/
theorem EncryptedBy.of_ok {t : TripleRatchetSession × OsRng}
    (hrun : (P.encryptMessage plaintext).run (session, rng) = .ok message t) :
    EncryptedBy P session plaintext message := by
  rw [Primitives.encryptMessage] at hrun
  obtain ⟨⟨kemCiphertext, kemPublic⟩, s, hprepare, hrun⟩ := run_bind_eq_ok.mp hrun
  obtain ⟨⟨messageKey, number, dhPublic⟩, ⟨session', rng'⟩, -, hrun⟩ := run_bind_eq_ok.mp hrun
  obtain ⟨hct, hpk⟩ := preparePqStep_isSome hprepare
  simp only [EStateM.run_bind, KeySchedule.run_modifySession, EStateM.run_get,
    Primitives.encryptHeader, run_generateNonce] at hrun
  generalize hheader : (MessageHeader.mk dhPublic number session'.previousChainLength
    kemCiphertext kemPublic) = header at hrun
  cases hsealed : P.encrypt session'.sendingHeaderKey rng'.nonces.head header.toBytes [] with
  | error e =>
    rw [hsealed] at hrun
    cases hrun
  | ok encryptedHeader =>
    rw [hsealed] at hrun
    simp only [EStateM.run_pure, run_generateNonce, run_check] at hrun
    cases hbody : P.encrypt messageKey rng'.nonces.tail.head plaintext encryptedHeader with
    | error e =>
      rw [hbody] at hrun
      cases hrun
    | ok ciphertext =>
      rw [hbody] at hrun
      cases hrun
      refine ⟨⟨_, header, hsealed, ?_, ?_⟩, ⟨_, hbody⟩⟩
      · rw [← hheader]
        exact hct
      · rw [← hheader]
        exact hpk

end Headers

end Pirc.Crypto
