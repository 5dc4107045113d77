import Pirc.Crypto.Network

/-!
# Crypto: out-of-order delivery

Messages that arrive at most once, in any order, within the limits on skipped keys. A session keeps
the message keys of everything it skips, but not the header keys it needs to find them: it retains
ten, and never gives one up for a newer one. From then on a message that is overtaken by two turns
of its sender is lost.
-/

namespace Pirc.Crypto

open KeySchedule

namespace Network

/-- **Within the limits**: each message arrives at most once, no skip is longer than `MAX_SKIP`, and
what is outstanding fits into the cache. -/
def WithinLimits (c : Network) : NetworkEvent → Prop
  | .send _ _ => True
  | .deliver e i =>
    (e, i) ∉ c.delivered ∧
      -- the messages before it, and the rest of the turn before
      (c.turn (Party.receiver e) ≤ e + 1 → i + 1 ≤ c.position e + maxSkip.toNat) ∧
      (c.turn (Party.receiver e) < e → c.count (e - 2) ≤ c.position (e - 2) + maxSkip.toNat) ∧
      ((c.arrive e i).outstanding (Party.receiver e)).card ≤ maxSkippedKeys

/-- The numbers of messages fit into 32 bits. -/
def InRange (c : Network) : NetworkEvent → Prop
  | .send p _ => c.count (c.turn p) + 1 < 2 ^ 32
  | .deliver _ _ => True

/-- **The header key of a message is held** when it arrives: at most one later turn of its sender
has begun for its receiver, or it is of one of its sender's first nine turns. -/
def HeaderKeyHeld (c : Network) : NetworkEvent → Prop
  | .send _ _ => True
  | .deliver e _ => c.turn (Party.receiver e) ≤ e + 3 ∨ (e + 1) / 2 ≤ 9

/-- No more than ten turns of its sender have begun for the receiver after the turn of a message. -/
def DelayedAtMostTen (c : Network) : NetworkEvent → Prop
  | .send _ _ => True
  | .deliver e _ => c.turn (Party.receiver e) ≤ e + 1 + 2 * maxRetainedHeaderKeys

instance (c : Network) : (e : NetworkEvent) → Decidable (c.WithinLimits e)
  | .send _ _ => inferInstanceAs (Decidable True)
  | .deliver _ _ => inferInstanceAs (Decidable (_ ∧ _))

instance (c : Network) : (e : NetworkEvent) → Decidable (c.InRange e)
  | .send _ _ => inferInstanceAs (Decidable (_ < _))
  | .deliver _ _ => inferInstanceAs (Decidable True)

instance (c : Network) : (e : NetworkEvent) → Decidable (c.HeaderKeyHeld e)
  | .send _ _ => inferInstanceAs (Decidable True)
  | .deliver _ _ => inferInstanceAs (Decidable (_ ∨ _))

instance (c : Network) : (e : NetworkEvent) → Decidable (c.DelayedAtMostTen e)
  | .send _ _ => inferInstanceAs (Decidable True)
  | .deliver _ _ => inferInstanceAs (Decidable (_ ≤ _))

variable {c : Network} {p : Party} {e i N : ℕ}

theorem Ordered.numbered (ho : c.Ordered) (hshort : ∀ e, c.count e < 2 ^ 32) (hN : c.turn p ≤ N) :
    Numbered N (c.outstanding p) := by
  rintro ⟨e, i⟩ hmem
  obtain ⟨⟨hlt, -, hi⟩, -⟩ := mem_outstanding.mp hmem
  have hcount := hshort e
  have hposition := ho.position_le (e := e)
  unfold passed at hi
  constructor
  · exact hlt.trans_le hN
  · split_ifs at hi <;> dsimp only <;> omega

end Network

theorem mem_heldTurns_current {m e : ℕ} (hfirst : 0 < e) (hm : e + 1 = m) : e ∈ heldTurns m := by
  obtain ⟨e, rfl⟩ : ∃ t, e = t + 1 := ⟨e - 1, by omega⟩
  subst hm
  cases e with
  | zero => simp [heldTurns, previousTurn, receivingTurn]
  | succ e =>
    have hreceiving : receivingTurn (e + 1 + 1 + 1) = e + 1 + 1 := by
      change max (e + 1 + 1) 2 = e + 1 + 1
      omega
    simp [heldTurns, hreceiving]

/-! ## Keeping all messages -/

/-- **In touch**: linked sessions that have decrypted everything that arrived. -/
structure InTouch (S : KeySchedule) (c : Network) : Prop where
  linked : Linked S c
  sound : c.sound = true
  short : ∀ e, c.count e < 2 ^ 32

namespace InTouch

variable {S : KeySchedule} {c : Network} {N : ℕ} {ev : NetworkEvent}

/-- **Step lemma**: within the limits, an event keeps the sessions in touch if the header key of the
message that arrives is held. -/
theorem step (h : S.P.Committing) (hd : S.DistinctBelow N) (hc : InTouch S c)
    (hN : c.latest + 5 < N) (henabled : S.P.network.enabled c ev) (hlimits : c.WithinLimits ev)
    (hrange : c.InRange ev) (hheld : c.HeaderKeyHeld ev) : InTouch S (S.P.network.step c ev) := by
  have ho := hc.linked.ordered
  cases ev with
  | send p plaintext =>
    obtain ⟨letter, session', rng', hsend, hlinked⟩ := hc.linked.send h henabled plaintext
    have hcount : ∀ e, (S.P.sendLetter c p plaintext).count e = (c.write p letter).count e := by
      intro e
      rw [hsend]
      rfl
    refine ⟨hlinked, ?_, ?_⟩
    · change (S.P.sendLetter c p plaintext).sound = true
      rw [hsend]
      exact hc.sound
    · intro e
      change (S.P.sendLetter c p plaintext).count e < _
      rw [hcount, Network.count_write]
      have hshort := hc.short e
      have hnew : c.count (c.turn p) + 1 < 2 ^ 32 := hrange
      split_ifs with he
      · rw [he]
        exact hnew
      · exact hshort
  | deliver e i =>
    obtain ⟨hnew, hskip, hrest, hroom⟩ := hlimits
    have hi : i < c.count e := henabled
    have hmax : maxSkip.toNat = 1000 := rfl
    have hturn := Network.turn_le_latest c (Party.receiver e)
    have hshort := hc.short e
    obtain ⟨hfirst, hle⟩ := ho.le_turn_receiver hi
    have hparity := ho.add_turn_receiver e
    have ho' := ho.arrive hi
    have hturn' : (c.arrive e i).turn (Party.receiver e) ≤ N := by
      rw [Network.turn_arrive]
      split_ifs <;> omega
    -- every message is ahead of those that arrived, or was skipped
    have hdelivered : ∃ session' rng',
        S.P.deliverLetter c e i =
          { c.arrive e i with
            session := Function.update c.session (Party.receiver e) session'
            rng := rng'
            sound := c.sound && (e, i) ∉ c.delivered } ∧
        Linked S (S.P.deliverLetter c e i) := by
      by_cases hahead : c.turn (Party.receiver e) ≤ e + 1 ∧ c.position e ≤ i
      · obtain ⟨hturn_le, hposition⟩ := hahead
        have hskip' := hskip hturn_le
        refine hc.linked.deliver_ahead h hd hi (by omega) hturn_le hposition ?_ (by omega) ?_
          (ho'.numbered hc.short hturn') hroom
        · intro hcurrent
          refine Linked.slot_ne hd (ho.numbered hc.short (by omega)) (by omega) (by omega) ?_
          intro hmem
          obtain ⟨⟨-, -, hpassed⟩, -⟩ := Network.mem_outstanding.mp hmem
          rw [Network.passed, if_pos hcurrent.symm] at hpassed
          omega
        · intro hlt _
          have hrest' := hrest hlt
          exact ⟨hc.short (e - 2), by omega⟩
      · have hlt : e < c.turn (Party.receiver e) := by
          by_contra hge
          have hposition := Network.position_le (c := c) (e := e) (n := 0) fun j hmem => by
            have hlt := (ho.arrived e j hmem).2
            omega
          omega
        have hmem : (e, i) ∈ c.outstanding (Party.receiver e) := by
          refine Network.mem_outstanding.mpr ⟨⟨hlt, rfl, ?_⟩, hnew⟩
          unfold Network.passed
          split_ifs <;> omega
        have hheldTurns : e ∈ heldTurns (c.turn (Party.receiver e)) := by
          rcases Nat.lt_or_ge (e + 1) (c.turn (Party.receiver e)) with hold | hcurrent
          · have hparity' : (c.turn (Party.receiver e) + e) % 2 = 1 := by omega
            exact (mem_heldTurns_iff hfirst hold hparity').mpr hheld
          · exact mem_heldTurns_current hfirst (by omega)
        exact hc.linked.deliver_late h hd (by omega) hmem hi hheldTurns
          (ho.numbered hc.short (by omega))
    obtain ⟨session', rng', hdeliver, hlinked⟩ := hdelivered
    refine ⟨hlinked, ?_, ?_⟩
    · change (S.P.deliverLetter c e i).sound = true
      rw [hdeliver]
      simp [hc.sound, hnew]
    · intro e'
      change (S.P.deliverLetter c e i).count e' < _
      rw [hdeliver]
      exact hc.short e'

/-- **A message whose header key is not held** is lost. -/
theorem lost (h : S.P.Committing) (hd : S.DistinctBelow N) (hc : InTouch S c)
    (hN : c.latest + 5 < N) (henabled : S.P.network.enabled c ev) (hlimits : c.WithinLimits ev)
    (hlost : ¬ c.HeaderKeyHeld ev) : (S.P.network.step c ev).sound = false := by
  cases ev with
  | send p plaintext => exact absurd trivial hlost
  | deliver e i =>
    have ho := hc.linked.ordered
    have hi : i < c.count e := henabled
    have hturn := Network.turn_le_latest c (Party.receiver e)
    have hparity := ho.add_turn_receiver e
    obtain ⟨hfirst, hle⟩ := ho.le_turn_receiver hi
    have hnot : ¬ (c.turn (Party.receiver e) ≤ e + 3 ∨ (e + 1) / 2 ≤ 9) := hlost
    have hparity' : (c.turn (Party.receiver e) + e) % 2 = 1 := by omega
    apply hc.linked.deliver_lost h hd (by omega) (by omega) hi hlimits.1
    rw [mem_heldTurns_iff hfirst (by omega) hparity']
    exact hnot

end InTouch

/-- **Out-of-order delivery**: as long as message numbers are in range, everything that arrives once
and within the limits is decrypted to its plaintext exactly if the header keys of all messages are
held when they arrive. -/
theorem out_of_order_sound_iff {P : Primitives} (h : P.Committing) (sharedSecret : Key)
    (dhPair : KeyPair) (kemPair : KemKeyPair) (rng : OsRng) :
    ∃ c, P.startNetwork sharedSecret dhPair kemPair rng = .ok c ∧
      ∀ es, (P.keySchedule sharedSecret dhPair rng).DistinctBelow (es.length + 6) →
        System.Legal P.network Network.WithinLimits c es →
        System.Legal P.network Network.InRange c es →
        ((∀ n, (P.network.exec c (es.take n)).sound = true) ↔
          System.Legal P.network Network.HeaderKeyHeld c es) := by
  obtain ⟨c, hstart, hlinked, hsound, hempty, hlatest⟩ :=
    startNetwork_linked h.toCorrect sharedSecret dhPair kemPair rng
  refine ⟨c, hstart, ?_⟩
  intro es hd hlimits hrange
  have hintouch : InTouch (P.keySchedule sharedSecret dhPair rng) c := by
    refine ⟨hlinked, hsound, fun e => ?_⟩
    rw [Network.count_eq_zero (hempty e)]
    exact Nat.two_pow_pos 32
  -- the parties get at most one turn further with each event
  have hbelow := hlimits.below (I := Network.Ordered) (μ := fun c => c.latest + 5)
    (N := es.length + 6)
    (fun s e henabled ho => by
      obtain ⟨ho', hle⟩ := ho.step henabled
      exact ⟨ho', by omega⟩)
    hlinked.ordered (by omega)
  apply ((hlimits.and hrange).and hbelow).forall_take_iff
    (P := InTouch (P.keySchedule sharedSecret dhPair rng)) (Q := fun c => c.sound = true)
  · rintro s e henabled ⟨⟨hlimits, hrange⟩, hN⟩ hs hheld
    exact hs.step h hd hN henabled hlimits hrange hheld
  · rintro s e henabled ⟨⟨hlimits, -⟩, hN⟩ hs hsound
    by_contra hlost
    have hfail := hs.lost h hd hN henabled hlimits hlost
    exact Bool.false_ne_true (hfail.symm.trans hsound)
  · exact fun s hs => hs.sound
  · exact hintouch

/-! ## A message that is lost -/

section Toy

/-- A message of one turn and the answer of the next, both of which arrive. -/
def exchange (e : ℕ) : List NetworkEvent :=
  [.send .alice [0], .deliver e 0, .send .bob [1], .deliver (e + 1) 0]

/-- Nine exchanges, a tenth in which the sender's second message is late, and two more before it
arrives. -/
def lateMessage : List NetworkEvent :=
  (List.range 9).flatMap (fun j => exchange (2 * j + 1)) ++
    [.send .alice [0], .send .alice [2], .deliver 19 0, .send .bob [1], .deliver 20 0] ++
    exchange 21 ++ [.send .alice [0], .deliver 23 0, .deliver 19 1]

theorem numberedSchedule_late : numberedSchedule.DistinctBelow (lateMessage.length + 6) := by
  have hlength : lateMessage.length + 6 ≤ 200 := by decide
  exact numberedSchedule_distinct.mono hlength

/-- **A message is lost**: all are in order but the last, which comes two turns late. -/
theorem late_message_lost :
    toyPrimitives.Committing ∧ numberedSchedule.DistinctBelow (lateMessage.length + 6) ∧
      ∃ c, toyPrimitives.startNetwork toyKey toyPair toyKemPair numberedRng = .ok c ∧
        System.Legal toyPrimitives.network Network.WithinLimits c lateMessage ∧
        System.Legal toyPrimitives.network Network.InRange c lateMessage ∧
        System.Legal toyPrimitives.network Network.DelayedAtMostTen c lateMessage ∧
        (toyPrimitives.network.exec c lateMessage.dropLast).sound = true ∧
        (toyPrimitives.network.exec c lateMessage).sound = false :=
  ⟨toyPrimitives_committing, numberedSchedule_late, Except.exists_ok (by decide +kernel)⟩

/-- The toy sessions lose the message exactly because its header key is not held. -/
theorem out_of_order_sound_iff_late :
    ∃ c, toyPrimitives.startNetwork toyKey toyPair toyKemPair numberedRng = .ok c ∧
      ((∀ n, (toyPrimitives.network.exec c (lateMessage.take n)).sound = true) ↔
        System.Legal toyPrimitives.network Network.HeaderKeyHeld c lateMessage) := by
  obtain ⟨c, hstart, hiff⟩ :=
    out_of_order_sound_iff toyPrimitives_committing toyKey toyPair toyKemPair numberedRng
  have hlimits := Except.of_ok
    (p := fun c => System.Legal toyPrimitives.network Network.WithinLimits c lateMessage) hstart
      (by decide +kernel)
  have hrange := Except.of_ok
    (p := fun c => System.Legal toyPrimitives.network Network.InRange c lateMessage) hstart
      (by decide +kernel)
  exact ⟨c, hstart, hiff lateMessage numberedSchedule_late hlimits hrange⟩

end Toy

end Pirc.Crypto
