import Pirc.Crypto.Conversation
import Pirc.Crypto.Reception

/-!
# Crypto: messages on an open network

Two sessions built from matching keys, and all messages they ever sent. The network may deliver any
of them at any time, also late, never, or again. Post-quantum steps are switched off.

The messages of a turn are numbered. Those to a party that it passed over, because a message with a
higher number or of a later turn arrived before, are outstanding: their keys are the ones it has to
keep.
-/

namespace Pirc.Crypto

/-! ## Networks -/

/-- Whose turn it is: the sender's are odd. -/
def Party.ofTurn (e : ℕ) : Party := if e % 2 = 1 then .alice else .bob

def Party.receiver (e : ℕ) : Party := (Party.ofTurn e).peer

structure Letter where
  message : EncryptedMessage
  plaintext : List UInt8

/-- A network. The messages of each turn are kept in the order they were sent in. A party's turn
begins when the first message of its peer's turn arrives. `sound` says that every message was
encrypted, that each one that arrived for the first time was decrypted to its plaintext, and each
other one refused. -/
structure Network where
  session : Party → TripleRatchetSession
  rng : OsRng
  letters : ℕ → List Letter := fun _ => []
  delivered : Finset (ℕ × ℕ) := ∅
  turn : Party → ℕ := fun p => if p = .alice then 1 else 0
  sound : Bool := true

/-- A party writes, or message `i` of turn `e` arrives. -/
inductive NetworkEvent
  | send (p : Party) (plaintext : List UInt8)
  | deliver (e i : ℕ)

namespace Network

variable (c : Network)

/-- One more message of a party's turn. -/
def write (p : Party) (letter : Letter) : Network :=
  { c with letters := Function.update c.letters (c.turn p) (c.letters (c.turn p) ++ [letter]) }

/-- A message has arrived; the first one of a turn begins its receiver's next one. -/
def arrive (e i : ℕ) : Network :=
  { c with
    delivered := insert (e, i) c.delivered
    turn := Function.update c.turn (Party.receiver e)
      (if c.turn (Party.receiver e) < e then e + 1 else c.turn (Party.receiver e)) }

end Network

namespace Primitives

variable (P : Primitives)

def sendLetter (c : Network) (p : Party) (plaintext : List UInt8) : Network :=
  match (P.encryptMessage plaintext).run (c.session p, c.rng) with
  | .ok message (session, rng) =>
    { c.write p ⟨message, plaintext⟩ with session := Function.update c.session p session, rng := rng }
  | .error _ (session, rng) =>
    { c with session := Function.update c.session p session, rng := rng, sound := false }

def deliverLetter (c : Network) (e i : ℕ) : Network :=
  match (c.letters e)[i]? with
  | none => c
  | some letter =>
    let p := Party.receiver e
    match (P.decryptMessage letter.message).run (c.session p, c.rng) with
    | .ok plaintext (session, rng) =>
      { c.arrive e i with
        session := Function.update c.session p session
        rng := rng
        sound := c.sound && (e, i) ∉ c.delivered && plaintext = letter.plaintext }
    | .error _ (session, rng) =>
      { c.arrive e i with
        session := Function.update c.session p session
        rng := rng
        sound := c.sound && (e, i) ∈ c.delivered }

/-- The network: the receiver writes once it has heard something, and messages arrive in any
order. -/
def network : System Network NetworkEvent where
  enabled c
    | .send p _ => 0 < c.turn p
    | .deliver e i => i < (c.letters e).length
  step c
    | .send p plaintext => P.sendLetter c p plaintext
    | .deliver e i => P.deliverLetter c e i

instance (c : Network) (e : NetworkEvent) : Decidable (P.network.enabled c e) :=
  match e with
  | .send p _ => inferInstanceAs (Decidable (0 < c.turn p))
  | .deliver e i => inferInstanceAs (Decidable (i < (c.letters e).length))

/-- Two sessions built from matching keys, with post-quantum steps switched off. -/
def startNetwork (sharedSecret : Key) (dhPair : KeyPair) (kemPair : KemKeyPair) (rng : OsRng) :
    Except CryptoError Network :=
  match P.start sharedSecret dhPair kemPair rng with
  | .ok c =>
    .ok { session := fun p => { c.session p with pqStepInterval := 0 }, rng := c.rng }
  | .error e => .error e

end Primitives

/-! ## Parties and turns -/

namespace Party

theorem ofTurn_eq_iff {a b : ℕ} : ofTurn a = ofTurn b ↔ a % 2 = b % 2 := by
  unfold ofTurn
  split_ifs with ha hb
  · simp
    omega
  · simp
    omega
  · simp
    omega
  · simp
    omega

theorem ofTurn_succ (e : ℕ) : ofTurn (e + 1) = receiver e := by
  unfold receiver ofTurn
  rcases Nat.mod_two_eq_zero_or_one e with h | h
  · have hsucc : (e + 1) % 2 = 1 := by omega
    simp [h, hsucc, peer]
  · have hsucc : ¬ (e + 1) % 2 = 1 := by omega
    simp [h, hsucc, peer]

@[simp] theorem peer_receiver (e : ℕ) : (receiver e).peer = ofTurn e := peer_peer _

theorem receiver_eq_ofTurn {a b : ℕ} : receiver a = ofTurn b ↔ (a + b) % 2 = 1 := by
  rw [← ofTurn_succ, ofTurn_eq_iff]
  omega

theorem receiver_eq_iff {a b : ℕ} : receiver a = receiver b ↔ a % 2 = b % 2 := by
  rw [← ofTurn_succ b, receiver_eq_ofTurn]
  omega

theorem peer_eq_iff {p q : Party} : p.peer = q ↔ q ≠ p := by
  cases p <;> cases q <;> simp [peer]

end Party

/-! ## What was skipped -/

namespace Network

variable (c : Network)

/-- How many messages a turn has so far. -/
def count (e : ℕ) : ℕ := (c.letters e).length

/-- One more than the highest number that arrived of a turn. -/
def position (e : ℕ) : ℕ := (c.delivered.filter fun p => p.1 = e).sup fun p => p.2 + 1

/-- How many messages of a turn its receiver has passed, whether they arrived or not: all of a turn
that is over for it. -/
def passed (p : Party) (e : ℕ) : ℕ := if e + 1 = c.turn p then c.position e else c.count e

/-- What a party skipped and may still come. -/
def outstanding (p : Party) : Finset (ℕ × ℕ) :=
  (((Finset.range (c.turn p)).filter fun e => Party.receiver e = p).biUnion fun e =>
    KeySchedule.span e 0 (c.passed p e)) \ c.delivered

variable {c} {p q : Party} {e i : ℕ}

theorem mem_outstanding :
    (e, i) ∈ c.outstanding p ↔
      (e < c.turn p ∧ Party.receiver e = p ∧ i < c.passed p e) ∧ (e, i) ∉ c.delivered := by
  simp only [outstanding, Finset.mem_sdiff, Finset.mem_biUnion, Finset.mem_filter,
    Finset.mem_range, KeySchedule.mem_span]
  constructor
  · rintro ⟨⟨a, ⟨hlt, hreceiver⟩, rfl, -, hi⟩, hnew⟩
    exact ⟨⟨hlt, hreceiver, hi⟩, hnew⟩
  · rintro ⟨⟨hlt, hreceiver, hi⟩, hnew⟩
    exact ⟨⟨e, ⟨hlt, hreceiver⟩, rfl, Nat.zero_le i, hi⟩, hnew⟩

theorem lt_position (h : (e, i) ∈ c.delivered) : i < c.position e := by
  have hle := Finset.le_sup (f := fun p : ℕ × ℕ => p.2 + 1)
    (Finset.mem_filter.mpr ⟨h, rfl⟩ : (e, i) ∈ c.delivered.filter fun p => p.1 = e)
  exact hle

theorem position_le {n : ℕ} (h : ∀ i, (e, i) ∈ c.delivered → i < n) : c.position e ≤ n := by
  apply Finset.sup_le
  rintro ⟨a, i⟩ hmem
  obtain ⟨hdelivered, rfl⟩ := Finset.mem_filter.mp hmem
  exact h i hdelivered

theorem count_eq_zero (h : c.letters e = []) : c.count e = 0 := by
  rw [count, h]
  rfl

/-! ## Bookkeeping -/

@[simp] theorem count_write (c : Network) (p : Party) (letter : Letter) (e : ℕ) :
    (c.write p letter).count e = if e = c.turn p then c.count e + 1 else c.count e := by
  unfold count write
  by_cases he : e = c.turn p
  · subst he
    simp
  · simp [he]

@[simp] theorem position_arrive (c : Network) (e i a : ℕ) :
    (c.arrive e i).position a = if a = e then max (c.position e) (i + 1) else c.position a := by
  unfold position arrive
  rw [Finset.filter_insert]
  by_cases he : a = e
  · subst he
    rw [if_pos rfl, if_pos rfl, Finset.sup_insert, max_comm]
  · rw [if_neg (Ne.symm he), if_neg he]

theorem turn_arrive (c : Network) (e i : ℕ) (p : Party) :
    (c.arrive e i).turn p =
      if p = Party.receiver e ∧ c.turn p < e then e + 1 else c.turn p := by
  by_cases hp : p = Party.receiver e
  · subst hp
    simp [arrive]
  · simp [arrive, hp]

/-- **Order**: the parties take turns, and write in them; what arrived was written, and has begun
its receiver's next turn. -/
structure Ordered (c : Network) : Prop where
  owner : ∀ p, Party.ofTurn (c.turn p) = p
  neighbours : ∀ p, c.turn p = c.turn p.peer + 1 ∨ c.turn p.peer = c.turn p + 1
  written : ∀ e, 0 < c.count e → 0 < e ∧ e ≤ c.turn (Party.ofTurn e)
  arrived : ∀ e i, (e, i) ∈ c.delivered → i < c.count e ∧ e < c.turn (Party.receiver e)

namespace Ordered

theorem count_of_lt (ho : Ordered c) (hlt : c.turn (Party.ofTurn e) < e) : c.count e = 0 := by
  by_contra hne
  obtain ⟨-, hle⟩ := ho.written e (by omega)
  omega

theorem count_zero (ho : Ordered c) : c.count 0 = 0 := by
  by_contra hne
  obtain ⟨hpos, -⟩ := ho.written 0 (by omega)
  omega

theorem position_le (ho : Ordered c) : c.position e ≤ c.count e :=
  Network.position_le fun i hi => (ho.arrived e i hi).1

theorem add_turn_receiver (ho : Ordered c) (e : ℕ) : (e + c.turn (Party.receiver e)) % 2 = 1 := by
  rw [← Party.receiver_eq_ofTurn]
  exact (ho.owner (Party.receiver e)).symm

theorem le_turn_receiver (ho : Ordered c) (hi : i < c.count e) :
    0 < e ∧ e ≤ c.turn (Party.receiver e) + 1 := by
  obtain ⟨hpos, hle⟩ := ho.written e (by omega)
  have hneighbours := ho.neighbours (Party.receiver e)
  rw [Party.peer_receiver] at hneighbours
  exact ⟨hpos, by omega⟩

theorem write (ho : Ordered c) (hturn : 0 < c.turn p) (letter : Letter) :
    Ordered (c.write p letter) where
  owner := ho.owner
  neighbours := ho.neighbours
  written e he := by
    rw [count_write] at he
    split_ifs at he with heq
    · rw [heq]
      exact ⟨hturn, by rw [ho.owner]; exact le_rfl⟩
    · exact ho.written e he
  arrived e i hmem := by
    obtain ⟨hi, hlt⟩ := ho.arrived e i hmem
    refine ⟨?_, hlt⟩
    rw [count_write]
    split_ifs <;> omega

theorem le_turn_arrive (p : Party) : c.turn p ≤ (c.arrive e i).turn p := by
  rw [turn_arrive]
  split_ifs with h
  · omega
  · exact le_rfl

theorem arrive (ho : Ordered c) (hi : i < c.count e) : Ordered (c.arrive e i) where
  owner p := by
    rw [turn_arrive]
    split_ifs with h
    · rw [Party.ofTurn_succ, h.1]
    · exact ho.owner p
  neighbours p := by
    obtain ⟨-, hle⟩ := ho.written e (by omega)
    have hneighbours := ho.neighbours (Party.receiver e)
    rw [Party.peer_receiver] at hneighbours
    have hother : Party.ofTurn e ≠ Party.receiver e := (Party.peer_ne _).symm
    have hreceiver : (c.arrive e i).turn (Party.receiver e) =
        (c.arrive e i).turn (Party.ofTurn e) + 1 ∨
      (c.arrive e i).turn (Party.ofTurn e) = (c.arrive e i).turn (Party.receiver e) + 1 := by
      simp only [turn_arrive, hother, false_and, if_false, true_and]
      split_ifs <;> omega
    by_cases hp : p = Party.receiver e
    · rw [hp, Party.peer_receiver]
      exact hreceiver
    · have hpeer : Party.receiver e = p.peer := (Party.peer_eq_iff.mpr (Ne.symm hp)).symm
      have hself : Party.ofTurn e = p := by
        rw [← Party.peer_receiver, hpeer, Party.peer_peer]
      rw [hself, hpeer] at hreceiver
      exact hreceiver.symm
  written e' he' := by
    obtain ⟨hpos, hle⟩ := ho.written e' he'
    exact ⟨hpos, hle.trans (le_turn_arrive _)⟩
  arrived e' i' hmem := by
    rcases Finset.mem_insert.mp hmem with heq | hmem
    · obtain ⟨rfl, rfl⟩ := Prod.mk.inj heq
      refine ⟨hi, ?_⟩
      rw [turn_arrive]
      have hparity := ho.add_turn_receiver e'
      split_ifs with h
      · exact Nat.lt_succ_self e'
      · simp only [true_and] at h
        omega
    · obtain ⟨hi', hlt⟩ := ho.arrived e' i' hmem
      exact ⟨hi', hlt.trans_le (le_turn_arrive _)⟩

theorem outstanding_write (ho : Ordered c) (letter : Letter) (q : Party) :
    (c.write p letter).outstanding q = c.outstanding q := by
  have howner := ho.owner p
  have hneighbours := ho.neighbours p
  -- a turn that is being written in is not over for its receiver
  have hpassed : ∀ e, e < c.turn q → Party.receiver e = q →
      (c.write p letter).passed q e = c.passed q e := by
    intro e hlt hq
    unfold passed
    rw [count_write]
    have hturn : (c.write p letter).turn = c.turn := rfl
    have hposition : (c.write p letter).position e = c.position e := rfl
    rw [hturn, hposition]
    split_ifs with hcurrent hwriting
    · rfl
    · exfalso
      subst hwriting
      rw [Party.receiver, howner] at hq
      subst hq
      omega
    · rfl
  ext ⟨e, i⟩
  rw [mem_outstanding, mem_outstanding]
  constructor
  · rintro ⟨⟨hlt, hq, hi⟩, hnew⟩
    rw [hpassed e hlt hq] at hi
    exact ⟨⟨hlt, hq, hi⟩, hnew⟩
  · rintro ⟨⟨hlt, hq, hi⟩, hnew⟩
    rw [← hpassed e hlt hq] at hi
    exact ⟨⟨hlt, hq, hi⟩, hnew⟩

theorem outstanding_arrive_other (hq : q ≠ Party.receiver e) :
    (c.arrive e i).outstanding q = c.outstanding q := by
  have hturn : (c.arrive e i).turn q = c.turn q := by
    rw [turn_arrive, if_neg]
    exact fun h => hq h.1
  ext ⟨e', i'⟩
  rw [mem_outstanding, mem_outstanding, hturn]
  have hother : Party.receiver e' = q → e' ≠ e := by
    rintro hq' rfl
    exact hq hq'.symm
  have hpassed : Party.receiver e' = q → (c.arrive e i).passed q e' = c.passed q e' := by
    intro hq'
    unfold passed
    rw [hturn, position_arrive, if_neg (hother hq')]
    rfl
  have hdelivered : Party.receiver e' = q →
      ((e', i') ∈ (c.arrive e i).delivered ↔ (e', i') ∈ c.delivered) := by
    intro hq'
    have hne : (e', i') ≠ (e, i) := fun heq => hother hq' (congrArg Prod.fst heq)
    simp [Network.arrive, hne]
  constructor
  · rintro ⟨⟨hlt, hq', hi⟩, hnew⟩
    rw [hpassed hq'] at hi
    rw [hdelivered hq'] at hnew
    exact ⟨⟨hlt, hq', hi⟩, hnew⟩
  · rintro ⟨⟨hlt, hq', hi⟩, hnew⟩
    rw [← hpassed hq'] at hi
    rw [← hdelivered hq'] at hnew
    exact ⟨⟨hlt, hq', hi⟩, hnew⟩

/-- **The first message of a turn that arrives** leaves the rest of the turn before outstanding, and
the messages before it. -/
theorem outstanding_arrive_next (ho : Ordered c) (hi : i < c.count e)
    (hnext : c.turn (Party.receiver e) < e) :
    (c.arrive e i).outstanding (Party.receiver e) =
      c.outstanding (Party.receiver e) ∪ KeySchedule.span (e - 2) (c.position (e - 2))
        (c.count (e - 2)) ∪ KeySchedule.span e 0 i := by
  have hturn : c.turn (Party.receiver e) + 1 = e := by
    have hle := ho.le_turn_receiver hi
    omega
  have hturn' : (c.arrive e i).turn (Party.receiver e) = e + 1 := by
    rw [turn_arrive, if_pos ⟨rfl, hnext⟩]
  have hposition : c.position e = 0 := by
    have hle := Network.position_le (c := c) (e := e) (n := 0) fun i' hmem => by
      have hlt := (ho.arrived e i' hmem).2
      omega
    omega
  ext ⟨a, j⟩
  have hcount : (c.arrive e i).count a = c.count a := rfl
  have hdelivered : (a, j) ∈ (c.arrive e i).delivered ↔ (a, j) = (e, i) ∨ (a, j) ∈ c.delivered :=
    Finset.mem_insert
  rw [Finset.mem_union, Finset.mem_union, mem_outstanding, mem_outstanding, hturn', hdelivered,
    passed, passed, hturn', hcount, position_arrive]
  simp only [KeySchedule.mem_span, Prod.mk.injEq, Party.receiver_eq_iff]
  have hposition_lt : (a, j) ∈ c.delivered → j < c.position a := lt_position
  have harrived := ho.arrived a j
  rcases lt_trichotomy a e with hlt | rfl | hgt
  · have hne : a ≠ e := by omega
    have hsucc : ¬ a + 1 = e + 1 := by omega
    by_cases hlast : a + 2 = e
    · -- the rest of the turn before
      have hsub : a = e - 2 := by omega
      have hcurrent : a + 1 = c.turn (Party.receiver e) := by omega
      have hle := ho.position_le (e := a)
      subst hsub
      rw [if_neg hsucc, if_pos hcurrent]
      constructor
      · rintro ⟨⟨-, hparity, hj⟩, hnot⟩
        by_cases hj' : j < c.position (e - 2)
        · exact .inl (.inl ⟨⟨by omega, hparity, hj'⟩, fun h => hnot (.inr h)⟩)
        · exact .inl (.inr ⟨rfl, by omega, hj⟩)
      · rintro ((⟨⟨-, hparity, hj⟩, hnot⟩ | ⟨-, hj, hj'⟩) | ⟨heq, -, -⟩)
        · refine ⟨⟨by omega, hparity, by omega⟩, ?_⟩
          rintro (⟨heq, -⟩ | hmem)
          · omega
          · exact hnot hmem
        · refine ⟨⟨by omega, by omega, hj'⟩, ?_⟩
          rintro (⟨heq, -⟩ | hmem)
          · omega
          · have hpassed := hposition_lt hmem
            omega
        · omega
    · have hcurrent : a % 2 = e % 2 → ¬ a + 1 = c.turn (Party.receiver e) := by omega
      have hspan : ¬ (a = e - 2 ∧ c.position (e - 2) ≤ j ∧ j < c.count (e - 2)) := by
        rintro ⟨heq, -, hj⟩
        have hzero : e - 2 = 0 := by omega
        rw [hzero, ho.count_zero] at hj
        omega
      simp only [hsucc, if_false, hne, false_and, false_or, or_false, hspan]
      constructor
      · rintro ⟨⟨-, hparity, hj⟩, hnot⟩
        rw [if_neg (hcurrent hparity)]
        exact ⟨⟨by omega, hparity, hj⟩, hnot⟩
      · rintro ⟨⟨hlt', hparity, hj⟩, hnot⟩
        rw [if_neg (hcurrent hparity)] at hj
        exact ⟨⟨by omega, hparity, hj⟩, hnot⟩
  · have hspan : ¬ a = a - 2 := by omega
    have hnot : (a, j) ∉ c.delivered := by
      intro hmem
      have hlt := (harrived hmem).2
      omega
    have hold : ¬ a < c.turn (Party.receiver a) := by omega
    simp only [if_true, hposition, hold, hnot, hspan, false_and, false_or, or_false, true_and,
      Nat.zero_le]
    omega
  · have hold : ¬ a < c.turn (Party.receiver e) := by omega
    have hnew : ¬ a < e + 1 := by omega
    have hspan : ¬ a = e - 2 := by omega
    have hspan' : ¬ a = e := by omega
    simp only [hold, hnew, hspan, hspan', false_and, or_self]

/-- **A message ahead in its receiver's current turn** leaves those before it outstanding. -/
theorem outstanding_arrive_current (hcurrent : e + 1 = c.turn (Party.receiver e))
    (hi : c.position e ≤ i) :
    (c.arrive e i).outstanding (Party.receiver e) =
      c.outstanding (Party.receiver e) ∪ KeySchedule.span e (c.position e) i := by
  have hturn' : (c.arrive e i).turn (Party.receiver e) = c.turn (Party.receiver e) := by
    rw [turn_arrive, if_neg]
    omega
  ext ⟨a, j⟩
  have hcount : (c.arrive e i).count a = c.count a := rfl
  have hdelivered : (a, j) ∈ (c.arrive e i).delivered ↔ (a, j) = (e, i) ∨ (a, j) ∈ c.delivered :=
    Finset.mem_insert
  rw [Finset.mem_union, mem_outstanding, mem_outstanding, hturn', hdelivered, passed, passed,
    hturn', hcount, position_arrive]
  simp only [KeySchedule.mem_span, Prod.mk.injEq]
  by_cases ha : a = e
  · subst ha
    have hposition_lt : (a, j) ∈ c.delivered → j < c.position a := lt_position
    have hlt : a < c.turn (Party.receiver a) := by omega
    simp only [hcurrent, if_true, hlt, true_and]
    constructor
    · rintro ⟨hj, hnot⟩
      by_cases hj' : j < c.position a
      · exact .inl ⟨hj', fun h => hnot (.inr h)⟩
      · exact .inr ⟨by omega, by
          by_contra hge
          exact hnot (.inl (by omega))⟩
    · rintro (⟨hj, hnot⟩ | ⟨hj, hj'⟩)
      · refine ⟨by omega, ?_⟩
        rintro (heq | hmem)
        · omega
        · exact hnot hmem
      · refine ⟨by omega, ?_⟩
        rintro (heq | hmem)
        · omega
        · have hpassed := hposition_lt hmem
          omega
  · simp only [ha, if_false, false_and, false_or, or_false]

/-- **A late message** is not outstanding any more. -/
theorem outstanding_arrive_late (hlt : e < c.turn (Party.receiver e))
    (hi : i < c.passed (Party.receiver e) e) :
    (c.arrive e i).outstanding (Party.receiver e) =
      (c.outstanding (Party.receiver e)).erase (e, i) := by
  have hturn' : (c.arrive e i).turn (Party.receiver e) = c.turn (Party.receiver e) := by
    rw [turn_arrive, if_neg]
    omega
  have hpassed : ∀ a, (c.arrive e i).passed (Party.receiver e) a = c.passed (Party.receiver e) a := by
    intro a
    have hcount : (c.arrive e i).count a = c.count a := rfl
    unfold passed at hi ⊢
    rw [hturn', hcount, position_arrive]
    split_ifs with hcurrent heq
    · subst heq
      rw [if_pos hcurrent] at hi
      omega
    · rfl
    · rfl
  ext ⟨a, j⟩
  have hdelivered : (a, j) ∈ (c.arrive e i).delivered ↔ (a, j) = (e, i) ∨ (a, j) ∈ c.delivered :=
    Finset.mem_insert
  rw [Finset.mem_erase, mem_outstanding, mem_outstanding, hturn', hdelivered, hpassed]
  tauto

end Ordered

end Network

/-! ## Linked sessions -/

theorem getElem?_concat {α : Type} {l : List α} {a b : α} {i : ℕ} (h : (l ++ [a])[i]? = some b) :
    l[i]? = some b ∨ i = l.length ∧ b = a := by
  rcases lt_trichotomy i l.length with hlt | rfl | hgt
  · left
    rwa [List.getElem?_append_left hlt] at h
  · right
    rw [List.getElem?_concat_length] at h
    exact ⟨rfl, (Option.some.inj h).symm⟩
  · rw [List.getElem?_eq_none] at h
    · cases h
    · rw [List.length_append, List.length_singleton]
      omega

open KeySchedule

/-- **Linked sessions**: both have the keys of their turns and of the messages they skipped, and all
messages are genuine. -/
structure Linked (S : KeySchedule) (c : Network) : Prop where
  ordered : c.Ordered
  rng : c.rng.x25519 = S.secrets.drop (max (c.turn .alice) (c.turn .bob) + 1)
  inTurn : ∀ p, S.InTurn (c.session p) (c.turn p) (c.count (c.turn p)) (c.count (c.turn p - 2))
    (c.position (c.turn p - 1)) (c.outstanding p)
  off : ∀ p, (c.session p).pqStepInterval = 0
  genuine : ∀ e i letter, (c.letters e)[i]? = some letter →
    S.Genuine e i (c.count (e - 2)) letter.message letter.plaintext

namespace Linked

variable {S : KeySchedule} {c : Network} {p : Party} {e i N : ℕ}

theorem max_turn (c : Network) (p : Party) :
    max (c.turn .alice) (c.turn .bob) = max (c.turn p) (c.turn p.peer) := by
  cases p
  · rfl
  · exact max_comm _ _

/-- **Step lemma, writing**: a party that has a turn encrypts a genuine message. -/
theorem send (h : S.P.Correct) (hl : Linked S c) (hturn : 0 < c.turn p) (plaintext : List UInt8) :
    ∃ letter session' rng',
      S.P.sendLetter c p plaintext =
        { c.write p letter with session := Function.update c.session p session', rng := rng' } ∧
      Linked S (S.P.sendLetter c p plaintext) := by
  obtain ⟨m, hm⟩ : ∃ m, c.turn p = m + 1 := ⟨c.turn p - 1, by omega⟩
  have hat := hl.inTurn p
  have hdue : (c.session p).pqDue = false := by
    simp [TripleRatchetSession.pqDue, hl.off p]
  rw [hm] at hat
  obtain ⟨message, session', rng', hrun, hrng, hat', hg, hpq⟩ :=
    hat.encryptMessage_run h hdue plaintext c.rng
  have hsend : S.P.sendLetter c p plaintext =
      { c.write p ⟨message, plaintext⟩ with
        session := Function.update c.session p session', rng := rng' } := by
    unfold Primitives.sendLetter
    rw [hrun]
  refine ⟨⟨message, plaintext⟩, session', rng', hsend, ?_⟩
  rw [hsend]
  have ho := hl.ordered
  have hneighbours := ho.neighbours p
  have ho' := ho.write hturn ⟨message, plaintext⟩
  have hcount := Network.count_write c p ⟨message, plaintext⟩
  have houtstanding := ho.outstanding_write (p := p) ⟨message, plaintext⟩
  constructor
  · exact ⟨ho'.owner, ho'.neighbours, ho'.written, ho'.arrived⟩
  · exact hrng.trans hl.rng
  · intro q
    change S.InTurn (Function.update c.session p session' q) (c.turn q)
      ((c.write p ⟨message, plaintext⟩).count (c.turn q))
      ((c.write p ⟨message, plaintext⟩).count (c.turn q - 2)) (c.position (c.turn q - 1))
      ((c.write p ⟨message, plaintext⟩).outstanding q)
    rw [hcount, hcount, houtstanding]
    by_cases hq : q = p
    · subst hq
      have hbefore : c.turn q - 2 ≠ c.turn q := by omega
      rw [Function.update_self, if_pos rfl, if_neg hbefore, hm]
      exact hat'
    · rw [Party.peer_eq_iff.mpr hq] at hneighbours
      have hne : c.turn q ≠ c.turn p := by omega
      have hbefore : c.turn q - 2 ≠ c.turn p := by omega
      rw [Function.update_of_ne hq, if_neg hne, if_neg hbefore]
      exact hl.inTurn q
  · exact hpq.interval hl.off
  · intro e i letter hletter
    change S.Genuine e i ((c.write p ⟨message, plaintext⟩).count (e - 2)) _ _
    change (Function.update c.letters (c.turn p)
      (c.letters (c.turn p) ++ [⟨message, plaintext⟩]) e)[i]? = some letter at hletter
    -- a party does not write in its turn before any more
    have hbefore : (c.write p ⟨message, plaintext⟩).count (e - 2) = c.count (e - 2) := by
      rw [hcount]
      split_ifs with heq
      · exfalso
        have hne : e ≠ c.turn p := by omega
        rw [Function.update_of_ne hne] at hletter
        have hwritten := ho.written e (List.length_pos_of_mem (List.mem_of_getElem? hletter))
        have hparty : Party.ofTurn e = p := by
          rw [← ho.owner p, Party.ofTurn_eq_iff, ← heq]
          omega
        rw [hparty] at hwritten
        omega
      · rfl
    rw [hbefore]
    by_cases he : e = c.turn p
    · subst he
      rw [Function.update_self] at hletter
      rcases getElem?_concat hletter with hold | ⟨rfl, rfl⟩
      · exact hl.genuine _ i letter hold
      · rw [hm]
        have hindex : (c.letters (m + 1)).length = c.count (m + 1) := rfl
        rw [hindex]
        exact hg
    · rw [Function.update_of_ne he] at hletter
      exact hl.genuine e i letter hletter

/-! ## Messages that arrive -/

/-- **A message that is opened** keeps the sessions linked, if its receiver's session is as it
should be. -/
theorem arrive (hl : Linked S c) (hi : i < c.count e) {session' : TripleRatchetSession}
    {rng' : OsRng} {sound : Bool} {t : ℕ} (ht : (c.arrive e i).turn (Party.receiver e) = t)
    (hrng : rng'.x25519 = S.secrets.drop (max t (c.turn (Party.ofTurn e)) + 1))
    (hat : S.InTurn session' t (c.count t) (c.count (t - 2)) ((c.arrive e i).position (t - 1))
      ((c.arrive e i).outstanding (Party.receiver e))) (hoff : session'.pqStepInterval = 0) :
    Linked S
      { c.arrive e i with
        session := Function.update c.session (Party.receiver e) session'
        rng := rng'
        sound := sound } := by
  have ho := hl.ordered
  have ho' := ho.arrive hi
  have hother : ∀ q, q ≠ Party.receiver e → (c.arrive e i).turn q = c.turn q := by
    intro q hq
    rw [Network.turn_arrive, if_neg]
    exact fun h => hq h.1
  constructor
  · exact ⟨ho'.owner, ho'.neighbours, ho'.written, ho'.arrived⟩
  · change rng'.x25519 = S.secrets.drop
      (max ((c.arrive e i).turn .alice) ((c.arrive e i).turn .bob) + 1)
    rw [max_turn _ (Party.receiver e), ht, Party.peer_receiver, hother _ (Party.peer_ne _).symm]
    exact hrng
  · intro q
    change S.InTurn (Function.update c.session (Party.receiver e) session' q)
      ((c.arrive e i).turn q) (c.count ((c.arrive e i).turn q))
      (c.count ((c.arrive e i).turn q - 2))
      ((c.arrive e i).position ((c.arrive e i).turn q - 1)) ((c.arrive e i).outstanding q)
    by_cases hq : q = Party.receiver e
    · subst hq
      rw [Function.update_self, ht]
      exact hat
    · -- nothing changes for the sender
      have hparity := ho.owner q
      have hposition : (c.arrive e i).position (c.turn q - 1) = c.position (c.turn q - 1) := by
        rw [Network.position_arrive, if_neg]
        rintro rfl
        have hfirst := ho.written _ (Nat.zero_lt_of_lt hi)
        have hsucc : c.turn q - 1 + 1 = c.turn q := by omega
        apply hq
        rw [← Party.ofTurn_succ, hsucc, hparity]
      rw [Function.update_of_ne hq, hother q hq, hposition,
        Network.Ordered.outstanding_arrive_other hq]
      exact hl.inTurn q
  · intro q
    change (Function.update c.session (Party.receiver e) session' q).pqStepInterval = 0
    by_cases hq : q = Party.receiver e
    · rw [hq, Function.update_self]
      exact hoff
    · rw [Function.update_of_ne hq]
      exact hl.off q
  · exact hl.genuine

theorem exists_letter (hl : Linked S c) (hi : i < c.count e) :
    ∃ letter, (c.letters e)[i]? = some letter ∧
      S.Genuine e i (c.count (e - 2)) letter.message letter.plaintext := by
  have hletter : (c.letters e)[i]? = some ((c.letters e).get ⟨i, hi⟩) := List.getElem?_eq_getElem hi
  exact ⟨_, hletter, hl.genuine e i _ hletter⟩

section Delivery

variable {letter : Letter} {session' : TripleRatchetSession} {rng' : OsRng}

theorem deliverLetter_ok {P : Primitives} {c : Network} (hletter : (c.letters e)[i]? = some letter)
    (hrun : (P.decryptMessage letter.message).run (c.session (Party.receiver e), c.rng) =
      .ok letter.plaintext (session', rng')) :
    P.deliverLetter c e i =
      { c.arrive e i with
        session := Function.update c.session (Party.receiver e) session'
        rng := rng'
        sound := c.sound && (e, i) ∉ c.delivered } := by
  unfold Primitives.deliverLetter
  rw [hletter]
  simp [hrun]

theorem deliverLetter_error {P : Primitives} {c : Network} {error : CryptoError}
    (hletter : (c.letters e)[i]? = some letter)
    (hrun : (P.decryptMessage letter.message).run (c.session (Party.receiver e), c.rng) =
      .error error (session', rng')) :
    P.deliverLetter c e i =
      { c.arrive e i with
        session := Function.update c.session (Party.receiver e) session'
        rng := rng'
        sound := c.sound && (e, i) ∈ c.delivered } := by
  unfold Primitives.deliverLetter
  rw [hletter]
  simp [hrun]

theorem slot_ne (hd : S.DistinctBelow N) {items : Finset (ℕ × ℕ)} (hnumbered : Numbered N items)
    (he : e < N) (hi : i < 2 ^ 32) (hnew : (e, i) ∉ items) :
    ∀ p ∈ items, S.slot p ≠ S.slot (e, i) := by
  intro p hp heq
  obtain rfl := slot_inj hd (hnumbered p hp) ⟨he, hi⟩ heq
  exact hnew hp

/-- **Step lemma, a message ahead**: it is decrypted to its plaintext, and the keys of those it
passes are kept. -/
theorem deliver_ahead (h : S.P.Committing) (hd : S.DistinctBelow N) (hl : Linked S c)
    (hi : i < c.count e) (hN : c.turn (Party.receiver e) + 5 ≤ N)
    (hahead : c.turn (Party.receiver e) ≤ e + 1) (hposition : c.position e ≤ i)
    (hmiss : c.turn (Party.receiver e) = e + 1 →
      ∀ p ∈ c.outstanding (Party.receiver e), S.slot p ≠ S.slot (e, i))
    (hskip : c.position e < i → i + 1 < 2 ^ 32 ∧ i + 1 - c.position e ≤ 1000)
    (hrest : c.turn (Party.receiver e) < e → c.position (e - 2) < c.count (e - 2) →
      c.count (e - 2) < 2 ^ 32 ∧ c.count (e - 2) - c.position (e - 2) ≤ 1000)
    (hnumbered : Numbered N ((c.arrive e i).outstanding (Party.receiver e)))
    (hroom : ((c.arrive e i).outstanding (Party.receiver e)).card ≤ maxSkippedKeys) :
    ∃ session' rng',
      S.P.deliverLetter c e i =
        { c.arrive e i with
          session := Function.update c.session (Party.receiver e) session'
          rng := rng'
          sound := c.sound && (e, i) ∉ c.delivered } ∧
      Linked S (S.P.deliverLetter c e i) := by
  have ho := hl.ordered
  obtain ⟨letter, hletter, hg⟩ := hl.exists_letter hi
  obtain ⟨hfirst, hle⟩ := ho.le_turn_receiver hi
  have hparity := ho.add_turn_receiver e
  have hat := hl.inTurn (Party.receiver e)
  have hoff := hl.off (Party.receiver e)
  have hpeer := ho.neighbours (Party.receiver e)
  have hwritten := ho.written e (Nat.zero_lt_of_lt hi)
  rw [Party.peer_receiver] at hpeer
  have hrng := hl.rng
  rw [max_turn c (Party.receiver e), Party.peer_receiver] at hrng
  rcases Nat.lt_or_ge (c.turn (Party.receiver e)) e with hnext | hcurrent
  · -- the first of its turn
    obtain ⟨m, rfl⟩ : ∃ m, e = m + 1 := ⟨e - 1, by omega⟩
    have hm : c.turn (Party.receiver (m + 1)) = m := by omega
    have hbefore : m + 1 - 2 = m - 1 := by omega
    have hzero : c.position (m + 1) = 0 := by
      have hle' := Network.position_le (c := c) (e := m + 1) (n := 0) fun j hmem => by
        have hlt := (ho.arrived (m + 1) j hmem).2
        omega
      omega
    have houtstanding := ho.outstanding_arrive_next hi hnext
    have hturn : (c.arrive (m + 1) i).turn (Party.receiver (m + 1)) = m + 2 := by
      rw [Network.turn_arrive, if_pos ⟨rfl, hnext⟩]
    rw [hm] at hat hrng
    rw [hbefore] at hg houtstanding hrest
    rw [houtstanding] at hnumbered hroom
    rw [hzero] at hskip
    have hmax : max m (c.turn (Party.ofTurn (m + 1))) + 1 = m + 2 := by omega
    rw [hmax] at hrng
    obtain ⟨session', rng', hrun, hrng', hat', hoff'⟩ := hat.decryptMessage_next h hd (by omega) hg
      ho.position_le
      (fun hlt => by
        obtain ⟨hbound, hcount⟩ := hrest hnext hlt
        have hwrittenBefore := ho.written (m - 1) (by omega)
        exact ⟨by omega, hbound, hcount⟩)
      hskip hnumbered hroom hrng
    have hdeliver := deliverLetter_ok hletter hrun
    refine ⟨session', rng', hdeliver, ?_⟩
    rw [hdeliver]
    have hmax' : max (m + 2) (c.turn (Party.ofTurn (m + 1))) + 1 = m + 3 := by omega
    have hnone : c.count (m + 2) = 0 := by
      apply ho.count_of_lt
      rw [Party.ofTurn_succ]
      omega
    have hlast : (c.arrive (m + 1) i).position (m + 2 - 1) = i + 1 := by
      have hsub : m + 2 - 1 = m + 1 := by omega
      rw [hsub, Network.position_arrive, if_pos rfl, hzero]
      omega
    apply hl.arrive hi hturn
    · rw [hmax']
      exact hrng'
    · rw [hnone, hlast, houtstanding]
      exact hat'
    · rw [hoff', hoff]
  · -- a message of the turn before its receiver's
    obtain ⟨m, rfl⟩ : ∃ m, e = m + 1 := ⟨e - 1, by omega⟩
    have hm : c.turn (Party.receiver (m + 1)) = m + 2 := by omega
    have houtstanding := Network.Ordered.outstanding_arrive_current (i := i) hm.symm hposition
    have hturn : (c.arrive (m + 1) i).turn (Party.receiver (m + 1)) = m + 2 := by
      rw [Network.turn_arrive, if_neg]
      · exact hm
      · omega
    have hsub : m + 2 - 1 = m + 1 := by omega
    rw [hm, hsub] at hat
    rw [hm] at hrng
    rw [houtstanding] at hnumbered hroom
    obtain ⟨session', hrun, hat', hpq⟩ := hat.decryptMessage_current h hd (by omega) hg hposition
      (hmiss hm) hskip hnumbered hroom c.rng
    have hdeliver := deliverLetter_ok hletter hrun
    refine ⟨session', c.rng, hdeliver, ?_⟩
    rw [hdeliver]
    have hlast : (c.arrive (m + 1) i).position (m + 2 - 1) = i + 1 := by
      rw [hsub, Network.position_arrive, if_pos rfl]
      omega
    apply hl.arrive hi hturn hrng
    · rw [hlast, houtstanding]
      exact hat'
    · rw [hpq.2, hoff]

/-- **Step lemma, a late message** whose header key is held: it is decrypted to its plaintext. -/
theorem deliver_late (h : S.P.Committing) (hd : S.DistinctBelow N) (hl : Linked S c)
    (hN : c.turn (Party.receiver e) + 3 ≤ N)
    (hmem : (e, i) ∈ c.outstanding (Party.receiver e)) (hi : i < c.count e)
    (hheld : e ∈ heldTurns (c.turn (Party.receiver e)))
    (hnumbered : Numbered N (c.outstanding (Party.receiver e))) :
    ∃ session' rng',
      S.P.deliverLetter c e i =
        { c.arrive e i with
          session := Function.update c.session (Party.receiver e) session'
          rng := rng'
          sound := c.sound && (e, i) ∉ c.delivered } ∧
      Linked S (S.P.deliverLetter c e i) := by
  obtain ⟨letter, hletter, hg⟩ := hl.exists_letter hi
  obtain ⟨⟨hlt, -, hpassed⟩, -⟩ := Network.mem_outstanding.mp hmem
  have hat := hl.inTurn (Party.receiver e)
  have hturn : (c.arrive e i).turn (Party.receiver e) = c.turn (Party.receiver e) := by
    rw [Network.turn_arrive, if_neg]
    omega
  obtain ⟨session', hrun, hat', hpq⟩ := hat.decryptMessage_cached h hd hN hg (by omega) hmem hheld
    (fun p hp heq => slot_inj hd (hnumbered p hp) (hnumbered _ hmem) heq) c.rng
  have hdeliver := deliverLetter_ok hletter hrun
  refine ⟨session', c.rng, hdeliver, ?_⟩
  rw [hdeliver]
  have hrng := hl.rng
  rw [max_turn c (Party.receiver e), Party.peer_receiver] at hrng
  apply hl.arrive hi hturn hrng
  · -- the message is not ahead of those that arrived
    have hposition : (c.arrive e i).position (c.turn (Party.receiver e) - 1) =
        c.position (c.turn (Party.receiver e) - 1) := by
      rw [Network.position_arrive]
      split_ifs with heq
      · have hcurrent : e + 1 = c.turn (Party.receiver e) := by omega
        rw [Network.passed, if_pos hcurrent] at hpassed
        rw [heq]
        omega
      · rfl
    rw [hposition, Network.Ordered.outstanding_arrive_late hlt hpassed]
    exact hat'
  · rw [hpq.2, hl.off]

theorem deliver_lost (h : S.P.Committing) (hd : S.DistinctBelow N) (hl : Linked S c)
    (hN : c.turn (Party.receiver e) + 3 ≤ N) (he : e < N) (hi : i < c.count e)
    (hnew : (e, i) ∉ c.delivered) (hlost : e ∉ heldTurns (c.turn (Party.receiver e))) :
    (S.P.deliverLetter c e i).sound = false := by
  obtain ⟨letter, hletter, hg⟩ := hl.exists_letter hi
  have hrun := (hl.inTurn (Party.receiver e)).decryptMessage_lost h hd hN hg he hlost c.rng
  rw [deliverLetter_error hletter hrun]
  simp [hnew]

end Delivery

end Linked

/-! ## Runs -/

namespace Network

variable {P : Primitives} {c : Network}

/-- How far the parties have got. -/
def latest (c : Network) : ℕ := max (c.turn .alice) (c.turn .bob)

theorem turn_le_latest (c : Network) (p : Party) : c.turn p ≤ c.latest := by
  cases p
  · exact le_max_left _ _
  · exact le_max_right _ _

theorem latest_le {n : ℕ} (h : ∀ p, c.turn p ≤ n) : c.latest ≤ n := max_le (h .alice) (h .bob)

/-- **Step lemma**: whatever happens, the parties take turns, and get at most one turn further. -/
theorem Ordered.step (ho : c.Ordered) {e : NetworkEvent} (henabled : P.network.enabled c e) :
    (P.network.step c e).Ordered ∧ (P.network.step c e).latest ≤ c.latest + 1 := by
  cases e with
  | send p plaintext =>
    change (P.sendLetter c p plaintext).Ordered ∧ (P.sendLetter c p plaintext).latest ≤ _
    unfold Primitives.sendLetter
    cases (P.encryptMessage plaintext).run (c.session p, c.rng) with
    | ok message state =>
      have ho' := ho.write henabled ⟨message, plaintext⟩
      exact ⟨⟨ho'.owner, ho'.neighbours, ho'.written, ho'.arrived⟩, Nat.le_succ _⟩
    | error error state =>
      exact ⟨⟨ho.owner, ho.neighbours, ho.written, ho.arrived⟩, Nat.le_succ _⟩
  | deliver e i =>
    have hi : i < c.count e := henabled
    have ho' := ho.arrive hi
    obtain ⟨-, hle⟩ := ho.written e (Nat.zero_lt_of_lt hi)
    have hlatest : (c.arrive e i).latest ≤ c.latest + 1 := by
      apply latest_le
      intro p
      have hp := turn_le_latest c p
      have hsender := turn_le_latest c (Party.ofTurn e)
      rw [turn_arrive]
      split_ifs <;> omega
    have hletter : (c.letters e)[i]? = some ((c.letters e).get ⟨i, hi⟩) :=
      List.getElem?_eq_getElem hi
    change (P.deliverLetter c e i).Ordered ∧ (P.deliverLetter c e i).latest ≤ _
    unfold Primitives.deliverLetter
    rw [hletter]
    dsimp only
    cases (P.decryptMessage _).run (c.session (Party.receiver e), c.rng) with
    | ok plaintext state =>
      exact ⟨⟨ho'.owner, ho'.neighbours, ho'.written, ho'.arrived⟩, hlatest⟩
    | error error state =>
      exact ⟨⟨ho'.owner, ho'.neighbours, ho'.written, ho'.arrived⟩, hlatest⟩

end Network

namespace KeySchedule

variable (S : KeySchedule)

theorem senderSession_inTurn (kemPublic : KemPublicKey) (kemPair : KemKeyPair) (interval : UInt32) :
    S.InTurn { S.senderSession kemPublic kemPair with pqStepInterval := interval } 1 0 0 0 ∅ where
  dhAt := ⟨rfl, rfl, rfl, rfl, rfl⟩
  sendingKey _ := rfl
  nextSending := rfl
  receivingKey := rfl
  nextReceiving := rfl
  previousKey := rfl
  retained := rfl
  caches := Stores.empty _ _
  passed p hp := by simp at hp
  sent := rfl
  sentBefore := rfl

theorem receiverSession_inTurn (kemPair : KemKeyPair) (interval : UInt32) :
    S.InTurn { S.receiverSession kemPair with pqStepInterval := interval } 0 0 0 0 ∅ where
  dhAt := ⟨rfl, rfl, rfl, rfl, rfl⟩
  sendingKey hm := absurd hm (lt_irrefl 0)
  nextSending := rfl
  receivingKey := rfl
  nextReceiving := rfl
  previousKey := rfl
  retained := rfl
  caches := Stores.empty _ _
  passed p hp := by simp at hp
  sent := rfl
  sentBefore := rfl

end KeySchedule

/-- **Sessions built from matching keys are linked.** -/
theorem startNetwork_linked {P : Primitives} (h : P.Correct) (sharedSecret : Key) (dhPair : KeyPair)
    (kemPair : KemKeyPair) (rng : OsRng) :
    ∃ c, P.startNetwork sharedSecret dhPair kemPair rng = .ok c ∧
      Linked (P.keySchedule sharedSecret dhPair rng) c ∧ c.sound = true ∧
      (∀ e, c.letters e = []) ∧ c.latest = 1 := by
  have hstart : P.startNetwork sharedSecret dhPair kemPair rng =
      .ok
        { session := fun p =>
            { (if p = .alice then
                (P.keySchedule sharedSecret dhPair rng).senderSession kemPair.ek
                  (P.kemGenerate rng.mlKem.head)
              else (P.keySchedule sharedSecret dhPair rng).receiverSession kemPair) with
              pqStepInterval := 0 }
          rng := { rng with x25519 := rng.x25519.tail, mlKem := rng.mlKem.tail } } := by
    unfold Primitives.startNetwork
    rw [start_eq h]
  refine ⟨_, hstart, ?_, rfl, fun _ => rfl, rfl⟩
  constructor
  · constructor
    · intro p
      cases p <;> rfl
    · intro p
      cases p
      · exact .inl rfl
      · exact .inr rfl
    · intro e he
      exact absurd he (lt_irrefl 0)
    · intro e i hmem
      simp at hmem
  · rfl
  · intro p
    cases p with
    | alice => exact senderSession_inTurn _ _ _ 0
    | bob => exact receiverSession_inTurn _ _ 0
  · intro p
    cases p <;> rfl
  · intro e i letter hletter
    cases hletter

/-! ## Concrete keys -/

section Toy

open KeySchedule

def numberedRng : OsRng :=
  { toyRng with x25519 := fun n => fill 32 fun j => if j = 0 then .ofNat (n + 1) else 0 }

def numberedSchedule : KeySchedule := toyPrimitives.keySchedule toyKey toyPair numberedRng

theorem numberedSchedule_header (m : ℕ) : numberedSchedule.header m = toySchedule.header m := by
  have hroot : ∀ m, numberedSchedule.root m = toySchedule.root m := by
    intro m
    induction m with
    | zero => rfl
    | succ m ih =>
      change (toyPrimitives.nextKeys (numberedSchedule.root m) _).1 =
        (toyPrimitives.nextKeys (toySchedule.root m) _).1
      rw [ih]
      rfl
  match m with
  | 0 => rfl
  | 1 => rfl
  | 2 => rfl
  | m + 3 =>
    change (toyPrimitives.nextKeys (numberedSchedule.root m) _).2.2 =
      (toyPrimitives.nextKeys (toySchedule.root m) _).2.2
    rw [hroot]
    rfl

theorem toySchedule_header_second (m : ℕ) :
    (toySchedule.header m).val.getD 1 0 = if m = 0 then 1 else if m = 1 then 0 else 2 := by
  match m with
  | 0 => decide
  | 1 => decide
  | 2 => decide
  | m + 3 => rfl

theorem numberedSchedule_distinct : numberedSchedule.DistinctBelow 200 where
  header a ha b hb heq := by
    rw [numberedSchedule_header, numberedSchedule_header] at heq
    have hsecond := congrArg (fun key : Key => key.val.getD 1 0) heq
    have hfirst := congrArg (fun key : Key => key.val.headD 0) heq
    simp only [toySchedule_header_second] at hsecond
    match a, b with
    | 0, 0 => rfl
    | 0, 1 => exact absurd hsecond (by decide)
    | 0, b + 2 => exact absurd hsecond (by simp)
    | 1, 0 => exact absurd hsecond (by decide)
    | 1, 1 => rfl
    | 1, b + 2 => exact absurd hsecond (by simp)
    | a + 2, 0 => exact absurd hsecond (by simp)
    | a + 2, 1 => exact absurd hsecond (by simp)
    | a + 2, b + 2 =>
      simp only [toySchedule_header] at hfirst
      have hnat := congrArg UInt8.toNat hfirst
      simp only [UInt8.toNat_ofNat'] at hnat
      omega
  dhPublic a ha b hb heq := by
    have hbyte : ∀ m, (numberedSchedule.dhPublic m).val.headD 0 = .ofNat m := by
      intro m
      cases m <;> rfl
    have hfirst := congrArg (fun key : PublicKey => key.val.headD 0) heq
    simp only [hbyte] at hfirst
    have hnat := congrArg UInt8.toNat hfirst
    simp only [UInt8.toNat_ofNat'] at hnat
    omega

end Toy

end Pirc.Crypto
