import Pirc.Crypto.Network

/-!
# Crypto: replayed messages

Messages arrive in order, and each of them may arrive again at any later time. A duplicate is
refused if no header key opens it, or if the chain it is tried on has used its number. But the
header of a message of the peer's turn before still opens, and the message is then tried on the
chain of the peer's current turn: if that has not come to its number yet, the keys up to there are
used up.
-/

namespace Pirc.Crypto

open KeySchedule

namespace Network

def Replay (c : Network) : NetworkEvent → Prop
  | .send _ _ => False
  | .deliver e i => (e, i) ∈ c.delivered

/-- **In order**: a message that arrives for the first time comes after all those that its sender
wrote before it. -/
def InOrder (c : Network) : NetworkEvent → Prop
  | .send _ _ => True
  | .deliver e i =>
    (e, i) ∈ c.delivered ∨
      ∀ a ≤ e, Party.receiver a = Party.receiver e →
        ∀ j < if a = e then i else c.count a, (a, j) ∈ c.delivered

/-- **The receiving chain refuses a duplicate** of the peer's current turn or the one before: its
number was used, or is too far ahead. -/
def ReplayRefused (c : Network) : NetworkEvent → Prop
  | .send _ _ => True
  | .deliver e i =>
    let turn := c.turn (Party.receiver e)
    (e, i) ∈ c.delivered → e + 1 = turn ∨ e + 3 = turn ∧ 5 ≤ turn →
      Refuses (c.position (turn - 1)) i

instance (c : Network) : (e : NetworkEvent) → Decidable (c.Replay e)
  | .send _ _ => inferInstanceAs (Decidable False)
  | .deliver _ _ => inferInstanceAs (Decidable (_ ∈ _))

instance (c : Network) : (e : NetworkEvent) → Decidable (c.InOrder e)
  | .send _ _ => inferInstanceAs (Decidable True)
  | .deliver _ _ => inferInstanceAs (Decidable (_ ∨ _))

instance (c : Network) : (e : NetworkEvent) → Decidable (c.ReplayRefused e)
  | .send _ _ => inferInstanceAs (Decidable True)
  | .deliver _ _ => inferInstanceAs (Decidable (_ → _))

end Network

/-! ## Keeping up -/

/-- **Up to date**: linked sessions that have decrypted everything that arrived, and skipped
nothing. -/
structure UpToDate (S : KeySchedule) (c : Network) : Prop where
  linked : Linked S c
  sound : c.sound = true
  complete : ∀ p, c.outstanding p = ∅

namespace UpToDate

variable {S : KeySchedule} {c : Network} {N e i : ℕ} {ev : NetworkEvent}

theorem mem_delivered (hc : UpToDate S c) (hlt : e < c.turn (Party.receiver e))
    (hi : i < c.passed (Party.receiver e) e) : (e, i) ∈ c.delivered := by
  by_contra hnew
  have hmem : (e, i) ∈ c.outstanding (Party.receiver e) :=
    Network.mem_outstanding.mpr ⟨⟨hlt, rfl, hi⟩, hnew⟩
  rw [hc.complete] at hmem
  simp at hmem

/-- **Step lemma, in order**: the next message is decrypted to its plaintext. -/
theorem deliver (h : S.P.Committing) (hd : S.DistinctBelow N) (hc : UpToDate S c)
    (hN : c.latest + 5 < N) (hi : i < c.count e) (hnew : (e, i) ∉ c.delivered)
    (horder : c.InOrder (.deliver e i)) : UpToDate S (S.P.deliverLetter c e i) := by
  have ho := hc.linked.ordered
  have hturn := Network.turn_le_latest c (Party.receiver e)
  obtain ⟨hfirst, hle⟩ := ho.le_turn_receiver hi
  have hparity := ho.add_turn_receiver e
  have hbefore : ∀ a ≤ e, Party.receiver a = Party.receiver e →
      ∀ j < if a = e then i else c.count a, (a, j) ∈ c.delivered := horder.resolve_left hnew
  -- what is not passed over is ahead, and next
  have hahead : c.turn (Party.receiver e) ≤ e + 1 := by
    by_contra hgt
    have hpassed : c.passed (Party.receiver e) e = c.count e := by
      rw [Network.passed, if_neg]
      omega
    exact hnew (hc.mem_delivered (by omega) (by omega))
  have hposition : c.position e = i := by
    apply Nat.le_antisymm
    · by_contra hgt
      have hlt : e < c.turn (Party.receiver e) := by
        by_contra hge
        have hzero := Network.position_le (c := c) (e := e) (n := 0) fun j hmem => by
          have hlt := (ho.arrived e j hmem).2
          omega
        omega
      have hpassed : c.passed (Party.receiver e) e = c.position e := by
        rw [Network.passed, if_pos]
        omega
      exact hnew (hc.mem_delivered hlt (by omega))
    · cases i with
      | zero => exact Nat.zero_le _
      | succ i =>
        have hlt := hbefore e le_rfl rfl i (by
          rw [if_pos rfl]
          exact Nat.lt_succ_self i)
        exact Network.lt_position hlt
  have hprevious : c.position (e - 2) = c.count (e - 2) := by
    apply Nat.le_antisymm ho.position_le
    by_cases htwo : 2 ≤ e
    · cases hcount : c.count (e - 2) with
      | zero => exact Nat.zero_le _
      | succ n =>
        have hreceiver : Party.receiver (e - 2) = Party.receiver e := by
          rw [Party.receiver_eq_iff]
          omega
        have hlt := hbefore (e - 2) (by omega) hreceiver n (by
          rw [if_neg (by omega), hcount]
          exact Nat.lt_succ_self n)
        exact Network.lt_position hlt
    · have hzero : e - 2 = 0 := by omega
      rw [hzero, ho.count_zero]
      exact Nat.zero_le _
  have hcomplete : (c.arrive e i).outstanding (Party.receiver e) = ∅ := by
    rcases Nat.lt_or_ge (c.turn (Party.receiver e)) e with hnext | hcurrent
    · have hzero : i = 0 := by
        have hle' := Network.position_le (c := c) (e := e) (n := 0) fun j hmem => by
          have hlt := (ho.arrived e j hmem).2
          omega
        omega
      rw [ho.outstanding_arrive_next hi hnext, hc.complete, hprevious, hzero]
      simp
    · have hturn' : e + 1 = c.turn (Party.receiver e) := by omega
      rw [Network.Ordered.outstanding_arrive_current hturn' hposition.le, hc.complete, hposition]
      simp
  obtain ⟨session', rng', hdeliver, hlinked⟩ :=
    hc.linked.deliver_ahead h hd hi (by omega) hahead hposition.le
      (fun _ p hp => by
        rw [hc.complete] at hp
        simp at hp)
      (by omega) (by omega)
      (by
        rw [hcomplete]
        intro p hp
        simp at hp)
      (by
        rw [hcomplete]
        exact Nat.zero_le _)
  refine ⟨hlinked, ?_, ?_⟩
  · rw [hdeliver]
    simp [hc.sound, hnew]
  · intro p
    rw [hdeliver]
    change (c.arrive e i).outstanding p = ∅
    by_cases hp : p = Party.receiver e
    · rw [hp]
      exact hcomplete
    · rw [Network.Ordered.outstanding_arrive_other hp]
      exact hc.complete p

/-- **Step lemma, again**: a duplicate that the chain refuses fails and changes nothing. -/
theorem replay (h : S.P.Committing) (hd : S.DistinctBelow N) (hc : UpToDate S c)
    (hN : c.latest + 5 < N) (hmem : (e, i) ∈ c.delivered)
    (hrefused : c.ReplayRefused (.deliver e i)) : S.P.deliverLetter c e i = c := by
  have ho := hc.linked.ordered
  have hturn := Network.turn_le_latest c (Party.receiver e)
  have hparity := ho.add_turn_receiver e
  obtain ⟨hi, hlt⟩ := ho.arrived e i hmem
  obtain ⟨hfirst, -⟩ := ho.le_turn_receiver hi
  obtain ⟨letter, hletter, hg⟩ := hc.linked.exists_letter hi
  obtain ⟨error, hrun⟩ := (hc.linked.inTurn (Party.receiver e)).decryptMessage_opened h hd
    (by omega) hg hfirst hlt (by omega)
    (fun p hp => by
      rw [hc.complete] at hp
      simp at hp)
    (hrefused hmem) c.rng
  have hdelivered : insert (e, i) c.delivered = c.delivered := Finset.insert_eq_of_mem hmem
  have hnot : ¬ c.turn (Party.receiver e) < e := by omega
  rw [Linked.deliverLetter_error hletter hrun]
  simp [Network.arrive, hdelivered, hnot, hmem]

/-- **Step lemma**: in order, and with duplicates that the chain refuses, the sessions stay up to
date. -/
theorem step (h : S.P.Committing) (hd : S.DistinctBelow N) (hc : UpToDate S c)
    (hN : c.latest + 5 < N) (henabled : S.P.network.enabled c ev) (horder : c.InOrder ev)
    (hrefused : c.ReplayRefused ev) : UpToDate S (S.P.network.step c ev) := by
  cases ev with
  | send p plaintext =>
    obtain ⟨letter, session', rng', hsend, hlinked⟩ := hc.linked.send h henabled plaintext
    refine ⟨hlinked, ?_, ?_⟩
    · change (S.P.sendLetter c p plaintext).sound = true
      rw [hsend]
      exact hc.sound
    · intro q
      change (S.P.sendLetter c p plaintext).outstanding q = ∅
      rw [hsend]
      change (c.write p letter).outstanding q = ∅
      rw [hc.linked.ordered.outstanding_write]
      exact hc.complete q
  | deliver e i =>
    change UpToDate S (S.P.deliverLetter c e i)
    by_cases hmem : (e, i) ∈ c.delivered
    · rw [hc.replay h hd hN hmem hrefused]
      exact hc
    · exact hc.deliver h hd hN henabled hmem horder

/-- **Run lemma**: the sessions stay up to date, and duplicates change nothing. -/
theorem run (h : S.P.Committing) (hc : UpToDate S c) (hlatest : c.latest = 1) {es : List NetworkEvent}
    (hd : S.DistinctBelow (es.length + 6)) (horder : System.Legal S.P.network Network.InOrder c es)
    (hrefused : System.Legal S.P.network Network.ReplayRefused c es) :
    (∀ n, UpToDate S (S.P.network.exec c (es.take n))) ∧
      S.P.network.exec c (S.P.network.without Network.Replay c es) = S.P.network.exec c es := by
  have hbelow := horder.below (I := Network.Ordered) (μ := fun c => c.latest + 5)
    (N := es.length + 6)
    (fun s e henabled ho => by
      obtain ⟨ho', hle⟩ := ho.step henabled
      exact ⟨ho', by omega⟩)
    hc.linked.ordered (by omega)
  have hlegal := (horder.and hrefused).and hbelow
  have hstep : ∀ s e, S.P.network.enabled s e →
      (s.InOrder e ∧ s.ReplayRefused e) ∧ s.latest + 5 < es.length + 6 → UpToDate S s →
      UpToDate S (S.P.network.step s e) := by
    rintro s e henabled ⟨⟨horder, hrefused⟩, hN⟩ hs
    exact hs.step h hd hN henabled horder hrefused
  constructor
  · intro n
    exact (hlegal.steps_take le_rfl).1.invariant hstep hc
  · refine System.Legal.exec_without ((hlegal.invariant hstep hc).mono ?_)
    rintro s (⟨p, plaintext⟩ | ⟨e, i⟩) ⟨hs, ⟨-, hrefused⟩, hN⟩ hreplay
    · exact absurd hreplay id
    · exact hs.replay h hd hN hreplay hrefused

end UpToDate

/-- **Replays are harmless** as long as the receiving chain refuses them: every message is decrypted
to its plaintext, every duplicate fails, and everything is as it would be without the duplicates. -/
theorem replays_harmless {P : Primitives} (h : P.Committing) (sharedSecret : Key) (dhPair : KeyPair)
    (kemPair : KemKeyPair) (rng : OsRng) :
    ∃ c, P.startNetwork sharedSecret dhPair kemPair rng = .ok c ∧
      ∀ es, (P.keySchedule sharedSecret dhPair rng).DistinctBelow (es.length + 6) →
        System.Legal P.network Network.InOrder c es →
        System.Legal P.network Network.ReplayRefused c es →
        (∀ n, (P.network.exec c (es.take n)).sound = true) ∧
          P.network.exec c (P.network.without Network.Replay c es) = P.network.exec c es := by
  obtain ⟨c, hstart, hlinked, hsound, hempty, hlatest⟩ :=
    startNetwork_linked h.toCorrect sharedSecret dhPair kemPair rng
  refine ⟨c, hstart, ?_⟩
  intro es hd horder hrefused
  have huptodate : UpToDate (P.keySchedule sharedSecret dhPair rng) c := by
    refine ⟨hlinked, hsound, fun p => ?_⟩
    ext ⟨e, i⟩
    have hpassed : c.passed p e = 0 := by
      have hcount := Network.count_eq_zero (hempty e)
      have hposition := hlinked.ordered.position_le (e := e)
      unfold Network.passed
      split_ifs <;> omega
    simp [Network.mem_outstanding, hpassed]
  obtain ⟨hrun, hwithout⟩ := huptodate.run h hlatest hd horder hrefused
  exact ⟨fun n => (hrun n).sound, hwithout⟩

/-! ## A duplicate that does harm -/

section Toy

/-- A message and the answer to it, both of which arrive; two messages and the answer; one
message. -/
def beforeReplay : List NetworkEvent :=
  [.send .alice [0], .deliver 1 0, .send .bob [1], .deliver 2 0,
    .send .alice [2], .send .alice [3], .deliver 3 0, .deliver 3 1, .send .bob [4], .deliver 4 0,
    .send .alice [5], .deliver 5 0]

/-- The second message of the sender's second turn arrives again in its third turn, and then a new
one. -/
def withReplay : List NetworkEvent := beforeReplay ++ [.deliver 3 1, .send .alice [6], .deliver 5 1]

/-- Instead, the first message of that turn arrives again. -/
def firstReplayed : List NetworkEvent := beforeReplay ++ [.deliver 3 0]

/-- **A duplicate does harm**: it fails, but the next message cannot be decrypted any more, which
without it would be. -/
theorem replay_does_harm :
    toyPrimitives.Committing ∧ numberedSchedule.DistinctBelow (withReplay.length + 6) ∧
      ∃ c, toyPrimitives.startNetwork toyKey toyPair toyKemPair numberedRng = .ok c ∧
        System.Legal toyPrimitives.network Network.InOrder c withReplay ∧
        (toyPrimitives.network.exec c (beforeReplay ++ [.deliver 3 1])).sound = true ∧
        (toyPrimitives.network.exec c withReplay).sound = false ∧
        (toyPrimitives.network.exec c
          (toyPrimitives.network.without Network.Replay c withReplay)).sound = true := by
  have hlength : withReplay.length + 6 ≤ 200 := by decide
  exact ⟨toyPrimitives_committing, numberedSchedule_distinct.mono hlength,
    Except.exists_ok (by decide +kernel)⟩

/-- The first message of that turn may arrive again. -/
theorem replays_harmless_first :
    ∃ c, toyPrimitives.startNetwork toyKey toyPair toyKemPair numberedRng = .ok c ∧
      toyPrimitives.network.exec c (toyPrimitives.network.without Network.Replay c firstReplayed) =
        toyPrimitives.network.exec c firstReplayed := by
  obtain ⟨c, hstart, hharmless⟩ :=
    replays_harmless toyPrimitives_committing toyKey toyPair toyKemPair numberedRng
  have horder := Except.of_ok
    (p := fun c => System.Legal toyPrimitives.network Network.InOrder c firstReplayed) hstart
      (by decide +kernel)
  have hrefused := Except.of_ok
    (p := fun c => System.Legal toyPrimitives.network Network.ReplayRefused c firstReplayed) hstart
    (by decide +kernel)
  have hlength : firstReplayed.length + 6 ≤ 200 := by decide
  have hdistinct := numberedSchedule_distinct.mono hlength
  exact ⟨c, hstart, (hharmless _ hdistinct horder hrefused).2⟩

end Toy

end Pirc.Crypto
