import Pirc.Client.EncryptionManager
import Pirc.Crypto.FailedDecrypt
import Pirc.Crypto.GroupKey

/-!
# Client: group messages that fail

A group message is encrypted for one ready member after the other, and the first failure ends it.
The sessions before it have advanced by then, and the messages for their members are lost.
-/

namespace Pirc.Client

open Crypto KeySchedule Protocol

variable {P : IdentityPrimitives} {session session' : TripleRatchetSession} {rng rng' : OsRng}
  {plaintext : List UInt8} {message : EncryptedMessage}

/-- Someone can be sent a message: there is a session, and it can encrypt. -/
def CanSend (manager : GroupKeyManager) (nickname : Str) : Prop :=
  ∃ session ∈ manager.sessions.lookup nickname, session.CanEncrypt

/-- **A session that advanced once**: it encrypted one message. -/
def AdvancedOnce (P : IdentityPrimitives) (plaintext : List UInt8)
    (before after : Option TripleRatchetSession) (message : EncryptedMessage) : Prop :=
  ∃ session session' rng rng', before = some session ∧ after = some session' ∧
    (P.encryptMessage plaintext).run (session, rng) = .ok message (session', rng')

/-- **A group message is sent cleanly**: there is a message for each ready member and for nobody
else, and just their sessions advanced, each of them once; or it fails, and all sessions are as they
were. -/
def SendsCleanly (P : IdentityPrimitives) (plaintext : List UInt8) (manager : GroupKeyManager)
    (rng : OsRng) : Prop :=
  wp (P.encryptForGroup plaintext)
    (fun messages t => messages.map Prod.fst = manager.readyMembers ∧
      (∀ entry ∈ messages, AdvancedOnce P plaintext (manager.sessions.lookup entry.1)
        (t.1.sessions.lookup entry.1) entry.2) ∧
      ∀ nickname ∉ manager.readyMembers,
        t.1.sessions.lookup nickname = manager.sessions.lookup nickname)
    (fun _ t => ∀ nickname, t.1.sessions.lookup nickname = manager.sessions.lookup nickname)
    (manager, rng)

/-- The first ready member has no session, or one that cannot encrypt and starts no post-quantum
step before it fails. -/
def StopsAtOnce (manager : GroupKeyManager) : Prop :=
  ∀ nickname ∈ manager.readyMembers.head?, ∀ session ∈ manager.sessions.lookup nickname,
    ¬ session.CanEncrypt ∧ ¬ (session.pqDue = true ∧ session.pqRatchet.remoteKemPublic.isSome = true)

/-! ## Sessions -/

theorem encryptMessageKey_eq_ok {P : Primitives} {ratchet ratchet' : DhRatchetState}
    {result : Key × UInt32 × PublicKey}
    (hrun : P.encryptMessageKey.run (ratchet, rng) = .ok result (ratchet', rng')) :
    ratchet'.sendingChain ≠ ratchet.sendingChain := by
  rw [Primitives.encryptMessageKey, run_bind_ok (EStateM.run_get _)] at hrun
  dsimp only at hrun
  rcases hchain : ratchet.sendingChain with - | chain
  · rw [hchain] at hrun
    cases hrun
  · rw [hchain] at hrun
    obtain ⟨-, hstate⟩ := EStateM.Result.ok.inj hrun
    obtain ⟨rfl, -⟩ := Prod.mk.inj hstate
    intro hsame
    exact add_one_ne _ (congrArg SymmetricRatchet.messageNumber (Option.some.inj hsame))

/-- **After a message** the sending chain is another one. -/
theorem encryptMessage_advances
    (hrun : (P.encryptMessage plaintext).run (session, rng) = .ok message (session', rng')) :
    session' ≠ session := by
  rw [Primitives.encryptMessage] at hrun
  obtain ⟨⟨kemCiphertext, kemPublic⟩, ⟨session₁, rng₁⟩, hprepare, hrun⟩ := run_bind_eq_ok.mp hrun
  have hsame : session₁.dhRatchet = session.dhRatchet := (preparePqStep_within _).ok hprepare
  obtain ⟨⟨messageKey, number, dhPublic⟩, ⟨session₂, rng₂⟩, hkey, hrun⟩ := run_bind_eq_ok.mp hrun
  have hadvanced : session₂.dhRatchet.sendingChain ≠ session.dhRatchet.sendingChain := by
    rw [onDhRatchet, run_onPart] at hkey
    rcases hpart : P.encryptMessageKey.run (session₁.dhRatchet, rng₁) with
      ⟨result, ratchet, rng₃⟩ | ⟨e, ratchet, rng₃⟩
    · rw [hpart] at hkey
      cases hkey
      rw [← hsame]
      exact encryptMessageKey_eq_ok hpart
    · rw [hpart] at hkey
      cases hkey
  -- the header and the body are encrypted without touching the ratchet
  have hlast : session'.dhRatchet = session₂.dhRatchet := by
    simp only [EStateM.run_bind, run_modifySession, EStateM.run_get, Primitives.encryptHeader,
      run_generateNonce] at hrun
    rcases hsealed : P.encrypt session₂.sendingHeaderKey rng₂.nonces.head
        (MessageHeader.mk dhPublic number session₂.previousChainLength kemCiphertext
          kemPublic).toBytes [] with e | encryptedHeader
    · rw [hsealed] at hrun
      cases hrun
    · rw [hsealed] at hrun
      simp only [EStateM.run_pure, run_generateNonce, run_check] at hrun
      rcases hbody : P.encrypt messageKey rng₂.nonces.tail.head plaintext encryptedHeader with
        e | ciphertext
      · rw [hbody] at hrun
        cases hrun
      · rw [hbody] at hrun
        cases hrun
        rfl
  rintro rfl
  exact hadvanced (congrArg DhRatchetState.sendingChain hlast).symm

theorem preparePqStep_started {t : TripleRatchetSession × OsRng} {result}
    (hdue : session.pqDue = true) (hrun : P.preparePqStep.run (session, rng) = .ok result t) :
    t.1.dhStepsSincePq ≠ session.dhStepsSincePq := by
  have hpos : session.dhStepsSincePq ≠ 0 := by
    unfold TripleRatchetSession.pqDue at hdue
    rw [Bool.and_eq_true, decide_eq_true_iff, decide_eq_true_iff] at hdue
    obtain ⟨hinterval, hsteps⟩ := hdue
    rintro hzero
    rw [hzero] at hsteps
    exact UInt32.not_lt.mpr hsteps hinterval
  simp only [Primitives.preparePqStep, EStateM.run_bind, EStateM.run_get, hdue, if_true] at hrun
  rcases hstep : (onPqRatchet P.initiateStep).run (session, rng) with ⟨step, s⟩ | ⟨e, s⟩
  · rw [hstep] at hrun
    cases hrun
    exact hpos.symm
  · rw [hstep] at hrun
    cases hrun

theorem encryptMessage_of_noChain {s t : TripleRatchetSession × OsRng} {result}
    (hprepare : P.preparePqStep.run s = .ok result t) (hnone : s.1.dhRatchet.sendingChain = none) :
    ∃ e, (P.encryptMessage plaintext).run s = .error e t := by
  have hsame : t.1.dhRatchet = s.1.dhRatchet := (preparePqStep_within _).ok hprepare
  obtain ⟨session, rng⟩ := t
  have hchain : session.dhRatchet.sendingChain = none := by
    rw [← hnone, ← hsame]
  have hkey : P.encryptMessageKey.run (session.dhRatchet, rng) =
      .error (.ratchet "sending chain not initialized") (session.dhRatchet, rng) := by
    simp only [Primitives.encryptMessageKey, EStateM.run_bind, EStateM.run_get, hchain]
    rfl
  have hpart : (onDhRatchet P.encryptMessageKey).run (session, rng) =
      .error (.ratchet "sending chain not initialized") (session, rng) := by
    rw [onDhRatchet, run_onPart, hkey]
  exact ⟨_, by rw [Primitives.encryptMessage, run_bind_ok hprepare, run_bind_error hpart]⟩

/-- **After a failure** the session is as it was, unless a post-quantum step was started. -/
theorem encryptMessage_unchanged_iff (h : P.Correct) {e : CryptoError}
    (hrun : (P.encryptMessage plaintext).run (session, rng) = .error e (session', rng')) :
    session' = session ↔
      ¬ (session.pqDue = true ∧ session.pqRatchet.remoteKemPublic.isSome = true) := by
  have hcannot : ¬ session.CanEncrypt := by
    intro hcan
    obtain ⟨message, t, hok, -⟩ := encryptMessage_ok h hcan plaintext rng
    cases hok.symm.trans hrun
  rcases hdue : session.pqDue with - | -
  · -- no step is due, so there is no sending chain
    have hnone : session.dhRatchet.sendingChain = none := by
      by_contra hsome
      exact hcannot ⟨Option.isSome_iff_ne_none.mpr hsome, by simp [hdue]⟩
    obtain ⟨e', hfails⟩ := (@encryptMessage_of_noChain P plaintext)
      ((@preparePqStep_run rng) hdue) hnone
    obtain ⟨-, hstate⟩ := EStateM.Result.error.inj (hrun.symm.trans hfails)
    exact iff_of_true (Prod.mk.inj hstate).1 (by simp)
  · rcases hremote : session.pqRatchet.remoteKemPublic with - | remote
    · have hunset := (@encryptMessage_unset P.toPrimitives _ rng) hdue hremote plaintext
      obtain ⟨-, hstate⟩ := EStateM.Result.error.inj (hrun.symm.trans hunset)
      exact iff_of_true (Prod.mk.inj hstate).1 (by simp)
    · have hnone : session.dhRatchet.sendingChain = none := by
        by_contra hsome
        exact hcannot ⟨Option.isSome_iff_ne_none.mpr hsome, by simp [hremote]⟩
      obtain ⟨kemCiphertext, session₁, rng₁, hprepare, -⟩ := preparePqStep_due hdue hremote
        (h.kemEncapsulate_isSome remote rng.encapsulation.head)
      obtain ⟨e', hfails⟩ := (@encryptMessage_of_noChain P plaintext) hprepare hnone
      obtain ⟨-, hstate⟩ := EStateM.Result.error.inj (hrun.symm.trans hfails)
      obtain ⟨rfl, -⟩ := Prod.mk.inj hstate
      refine iff_of_false ?_ (by simp)
      rintro rfl
      exact preparePqStep_started hdue hprepare rfl

/-! ## Members -/

theorem encryptForMember_wp (h : P.Correct) (nickname : Str) (s : GroupKeyManager × OsRng) :
    wp (P.encryptForMember plaintext nickname)
      (fun message t => CanSend s.1 nickname ∧
        AdvancedOnce P plaintext (s.1.sessions.lookup nickname) (t.1.sessions.lookup nickname) message ∧
        ∀ other ≠ nickname, t.1.sessions.lookup other = s.1.sessions.lookup other)
      (fun _ t => ¬ CanSend s.1 nickname ∧
        (∀ other ≠ nickname, t.1.sessions.lookup other = s.1.sessions.lookup other) ∧
        (t.1.sessions.lookup nickname = s.1.sessions.lookup nickname ↔
          ∀ session ∈ s.1.sessions.lookup nickname,
            ¬ (session.pqDue = true ∧ session.pqRatchet.remoteKemPublic.isSome = true))) s := by
  obtain ⟨manager, rng⟩ := s
  unfold wp EStateM.run Primitives.encryptForMember CanSend
  dsimp only
  rcases hlookup : manager.sessions.lookup nickname with - | session
  · exact ⟨by simp, fun _ _ => rfl, by simp [hlookup]⟩
  · dsimp only
    rcases hrun : (P.encryptMessage plaintext).run (session, rng) with
      ⟨message, session', rng'⟩ | ⟨e, session', rng'⟩
    · obtain ⟨hcan, -⟩ := EncryptedBy.of_run h hrun
      refine ⟨⟨session, rfl, hcan⟩, ⟨session, session', rng, rng', rfl, ?_, hrun⟩, fun other hne => ?_⟩
      · exact AList.lookup_insert _
      · exact AList.lookup_insert_ne hne
    · have hcannot : ¬ session.CanEncrypt := by
        intro hcan
        obtain ⟨message, t, hok, -⟩ := encryptMessage_ok h hcan plaintext rng
        cases hok.symm.trans hrun
      refine ⟨?_, fun other hne => AList.lookup_insert_ne hne, ?_⟩
      · rintro ⟨other, hother, hcan⟩
        obtain rfl := Option.some.inj hother
        exact hcannot hcan
      · dsimp only
        rw [AList.lookup_insert, Option.some_inj]
        simpa using encryptMessage_unchanged_iff h hrun

theorem encryptForMembers_wp (h : P.Correct) {nicknames : List Str} (hnodup : nicknames.Nodup)
    (s : GroupKeyManager × OsRng) :
    wp (P.encryptForMembers plaintext nicknames)
      (fun messages t => (∀ nickname ∈ nicknames, CanSend s.1 nickname) ∧
        messages.map Prod.fst = nicknames ∧
        (∀ entry ∈ messages, AdvancedOnce P plaintext (s.1.sessions.lookup entry.1)
          (t.1.sessions.lookup entry.1) entry.2) ∧
        ∀ other ∉ nicknames, t.1.sessions.lookup other = s.1.sessions.lookup other)
      (fun _ t => ¬ (∀ nickname ∈ nicknames, CanSend s.1 nickname) ∧
        ∀ other ∉ nicknames, t.1.sessions.lookup other = s.1.sessions.lookup other) s := by
  induction nicknames generalizing s with
  | nil => exact ⟨by simp, rfl, by simp, fun _ _ => rfl⟩
  | cons nickname nicknames ih =>
    obtain ⟨hfirst, hnodup⟩ := List.nodup_cons.mp hnodup
    rw [Primitives.encryptForMembers, wp_bind]
    refine wp_mono ?_ ?_ (encryptForMember_wp h nickname s)
    · rintro message t ⟨hcan, hadvanced, hothers⟩
      have hne (other : Str) (hother : other ∈ nicknames) : other ≠ nickname := by
        rintro rfl
        exact hfirst hother
      have hcanIff : (∀ other ∈ nicknames, CanSend t.1 other) ↔ ∀ other ∈ nicknames, CanSend s.1 other := by
        refine forall₂_congr fun other hother => ?_
        rw [CanSend, CanSend, hothers other (hne other hother)]
      rw [wp_bind]
      refine wp_mono ?_ ?_ (ih hnodup t)
      · rintro messages r ⟨hall, hnames, hentries, hrest⟩
        refine ⟨List.forall_mem_cons.mpr ⟨hcan, hcanIff.mp hall⟩, ?_, ?_, fun other hother => ?_⟩
        · rw [List.map_cons, hnames]
        · rintro entry hentry
          rcases List.mem_cons.mp hentry with rfl | hmem
          · dsimp only
            rw [hrest nickname hfirst]
            exact hadvanced
          · have hname : entry.1 ∈ nicknames := hnames ▸ List.mem_map_of_mem hmem
            rw [← hothers entry.1 (hne _ hname)]
            exact hentries entry hmem
        · obtain ⟨hnot, hother⟩ := not_or.mp (mt List.mem_cons.mpr hother)
          exact (hrest other hother).trans (hothers other hnot)
      · rintro e r ⟨hnot, hrest⟩
        refine ⟨fun hall => hnot (hcanIff.mpr (List.forall_mem_cons.mp hall).2), fun other hother => ?_⟩
        obtain ⟨hne, hother⟩ := not_or.mp (mt List.mem_cons.mpr hother)
        exact (hrest other hother).trans (hothers other hne)
    · rintro e t ⟨hcannot, hothers, -⟩
      refine ⟨fun hall => hcannot (List.forall_mem_cons.mp hall).1, fun other hother => ?_⟩
      exact hothers other (not_or.mp (mt List.mem_cons.mpr hother)).1

theorem nodup_readyMembers (manager : GroupKeyManager) : manager.readyMembers.Nodup := by
  have hkeys : (manager.memberStates.entries.map Sigma.fst).Nodup := manager.memberStates.nodupKeys
  exact hkeys.sublist (List.filter_sublist.map _)

/-- **The first member** decides about a group message that fails. -/
theorem encryptForMembers_unchanged_iff (h : P.Correct) {manager : GroupKeyManager} {nickname : Str}
    {nicknames : List Str} (hnodup : (nickname :: nicknames).Nodup)
    (hnot : ¬ ∀ other ∈ nickname :: nicknames, CanSend manager other) (rng : OsRng)
    {Q : List (Str × EncryptedMessage) → GroupKeyManager × OsRng → Prop} :
    wp (P.encryptForMembers plaintext (nickname :: nicknames)) Q
      (fun _ t => ∀ other, t.1.sessions.lookup other = manager.sessions.lookup other) (manager, rng) ↔
      ∀ session ∈ manager.sessions.lookup nickname, ¬ session.CanEncrypt ∧
        ¬ (session.pqDue = true ∧ session.pqRatchet.remoteKemPublic.isSome = true) := by
  have hwhole := (@encryptForMembers_wp _ plaintext) h hnodup (manager, rng)
  obtain ⟨hfirst, hrest⟩ := List.nodup_cons.mp hnodup
  have hhead := (@encryptForMember_wp _ plaintext) h nickname (manager, rng)
  rw [Primitives.encryptForMembers] at hwhole ⊢
  unfold wp at hhead hwhole ⊢
  rw [EStateM.run_bind] at hwhole ⊢
  rcases hrun : (P.encryptForMember plaintext nickname).run (manager, rng) with ⟨message, t⟩ | ⟨e, t⟩
  · -- the first session has advanced, and nothing takes that back
    rw [hrun] at hhead hwhole
    obtain ⟨⟨session, hsession, hcan⟩, ⟨before, after, rng₁, rng₂, hbefore, hafter, hencrypt⟩, -⟩ :=
      hhead
    refine iff_of_false ?_ fun hall => (hall session hsession).1 hcan
    have htail := (@encryptForMembers_wp _ plaintext) h hrest t
    unfold wp at htail
    dsimp only at hwhole ⊢
    rw [EStateM.run_bind] at hwhole ⊢
    rcases htailRun : (P.encryptForMembers plaintext nicknames).run t with ⟨messages, r⟩ | ⟨e, r⟩
    · rw [htailRun] at hwhole
      exact absurd hwhole.1 hnot
    · rw [htailRun] at htail
      intro hback
      have hlast := (htail.2 nickname hfirst).symm.trans (hback nickname)
      rw [hafter, hbefore] at hlast
      exact encryptMessage_advances hencrypt (Option.some.inj hlast)
  · rw [hrun] at hhead
    obtain ⟨hcannot, hothers, hsame⟩ := hhead
    dsimp only
    constructor
    · intro hback session hsession
      exact ⟨fun hcan => hcannot ⟨session, hsession, hcan⟩, hsame.mp (hback nickname) session hsession⟩
    · intro hall other
      rcases eq_or_ne other nickname with rfl | hne
      · exact hsame.mpr fun session hsession => (hall session hsession).2
      · exact hothers other hne

/-- **Group messages** are sent cleanly exactly if all ready members can be sent one, or the first
cannot and its failure changes nothing. -/
theorem sendsCleanly_iff (h : P.Correct) (plaintext : List UInt8) (manager : GroupKeyManager)
    (rng : OsRng) :
    SendsCleanly P plaintext manager rng ↔
      StopsAtOnce manager ∨ ∀ nickname ∈ manager.readyMembers, CanSend manager nickname := by
  have hnodup := nodup_readyMembers manager
  unfold SendsCleanly StopsAtOnce Primitives.encryptForGroup
  rw [wp_bind, wp_get]
  dsimp only
  rcases hready : manager.readyMembers with - | ⟨nickname, nicknames⟩
  · rw [if_pos rfl]
    exact iff_of_true (fun _ => rfl) (.inl (by simp))
  rw [if_neg (List.cons_ne_nil _ _)]
  rw [hready] at hnodup
  by_cases hall : ∀ other ∈ nickname :: nicknames, CanSend manager other
  · refine iff_of_true ?_ (.inr hall)
    refine wp_mono ?_ ?_ (encryptForMembers_wp h hnodup (manager, rng))
    · exact fun messages t hsent => hsent.2
    · exact fun e t hfails => absurd hall hfails.1
  · rw [encryptForMembers_unchanged_iff h hnodup hall, or_iff_left hall]
    simp

/-! ## Two members -/

section Toy

open EncryptionManager

def begunSession : TripleRatchetSession := toySchedule.senderSession toyKemPair.ek toyKemPair

/-- The session of a user who was contacted and has heard nothing yet. -/
def contactedSession : TripleRatchetSession := toySchedule.receiverSession toyKemPair

def oneMember : GroupKeyManager := ({} : GroupKeyManager).setSession "alice".toList begunSession

/-- A group with two ready members, of whom the second was heard nothing from. -/
def twoMembers : GroupKeyManager :=
  (({} : GroupKeyManager).setSession "bob".toList contactedSession).setSession "alice".toList
    begunSession

theorem oneMember_sendsCleanly : SendsCleanly toyIdentityPrimitives [1] oneMember toyRng := by
  have hcan : ∀ nickname ∈ oneMember.readyMembers, CanSend oneMember nickname := by
    intro nickname hmem
    have hready : oneMember.readyMembers = ["alice".toList] := by decide
    rw [hready, List.mem_singleton] at hmem
    subst hmem
    exact ⟨begunSession, rfl, by decide⟩
  exact (sendsCleanly_iff toyIdentityPrimitives_correct [1] oneMember toyRng).mpr (.inr hcan)

def ratchetAfterFailure (manager : GroupKeyManager) : Option (Option DhRatchetState) :=
  match (toyIdentityPrimitives.encryptForGroup [1]).run (manager, toyRng) with
  | .ok _ _ => none
  | .error _ (manager, _) =>
    some ((manager.sessions.lookup "alice".toList).map TripleRatchetSession.dhRatchet)

/-- **The first session has advanced** although the group message failed. -/
theorem first_session_advanced :
    (ratchetAfterFailure twoMembers).isSome = true ∧
      ratchetAfterFailure twoMembers ≠
        some ((twoMembers.sessions.lookup "alice".toList).map TripleRatchetSession.dhRatchet) := by
  decide +kernel

end Toy

end Pirc.Client
