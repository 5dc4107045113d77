import Pirc.Crypto.Conversation

/-!
# Crypto: the counters of a chain

A chain counts its messages in 32 bits, and the number of a message comes from a remote header. 
With overflow checks an addition that does not fit panics, without them it wraps; `Ratchets` has the
chain as it is without.  Here it is with a parameter for the build, so that both can be held against
what the counters stand for.
-/

namespace Pirc.Crypto

/-! ## Additions -/

/-- Out of range, an addition of a debug build panics and one of a release build wraps. -/
inductive Build
  | checked | wrapping
  deriving DecidableEq

/-- An addition of counters. -/
def Build.add (build : Build) (x y : UInt32) : Except CryptoError UInt32 :=
  if build = .checked ∧ 2 ^ 32 ≤ x.toNat + y.toNat then .error (.panicked "attempt to add with overflow")
  else .ok (x + y)

theorem Build.add_wrapping (x y : UInt32) : Build.wrapping.add x y = .ok (x + y) := by
  simp [Build.add]

theorem Build.add_of_lt (build : Build) {x y : UInt32} (h : x.toNat + y.toNat < 2 ^ 32) :
    build.add x y = .ok (x + y) := by
  have hfits : ¬ (build = .checked ∧ 2 ^ 32 ≤ x.toNat + y.toNat) := fun hover => by omega
  rw [Build.add, if_neg hfits]

theorem Build.add_of_le {x y : UInt32} (h : 2 ^ 32 ≤ x.toNat + y.toNat) :
    Build.checked.add x y = .error (.panicked "attempt to add with overflow") :=
  if_pos ⟨rfl, h⟩

/-! ## The chain in a build -/

namespace Primitives

variable (P : Primitives) (build : Build)

def advanceIn : CryptoM SymmetricRatchet Key := do
  let (ratchet, rng) ← get
  let (newChainKey, messageKey) := P.kdfChain ratchet.chainKey []
  set ({ ratchet with chainKey := newChainKey }, rng)
  let messageNumber ← check (build.add ratchet.messageNumber 1)
  set ({ chainKey := newChainKey, messageNumber := messageNumber : SymmetricRatchet }, rng)
  return messageKey

def advanceNIn : ℕ → CryptoM SymmetricRatchet (List (UInt32 × Key))
  | 0 => return []
  | n + 1 => do
    let (ratchet, _) ← get
    let messageKey ← P.advanceIn build
    let keys ← advanceNIn n
    return (ratchet.messageNumber, messageKey) :: keys

/-- Skip to a message, collecting the keys up to its own. -/
def skipToIn (target : UInt32) : CryptoM SymmetricRatchet (List (UInt32 × Key)) := do
  let (ratchet, _) ← get
  if target < ratchet.messageNumber then
    throw (.ratchet ("cannot skip backwards: current " ++ toString ratchet.messageNumber ++
      ", target " ++ toString target))
  else
    let skipCount ← check (build.add (target - ratchet.messageNumber) 1)
    if maxSkip < skipCount then
      throw (.ratchet ("skip distance " ++ toString skipCount ++ " exceeds MAX_SKIP (" ++
        toString maxSkip ++ ")"))
    else P.advanceNIn build skipCount.toNat

/-- Receiving, in a build. -/
def receiveMessageKeyIn (msgNum : UInt32) : CryptoM DhRatchetState (Key × List (UInt32 × Key)) := do
  let (ratchet, _) ← get
  match ratchet.receivingChain with
  | none => throw (.ratchet "receiving chain not initialized")
  | some chain =>
    if msgNum < chain.messageNumber then
      throw (.ratchet ("message number " ++ toString msgNum ++ " already consumed (current: " ++
        toString chain.messageNumber ++ ")"))
    else if msgNum = chain.messageNumber then
      let messageKey ← onReceivingChain chain (P.advanceIn build)
      return (messageKey, [])
    else
      let keys ← onReceivingChain chain (P.skipToIn build msgNum)
      match keys.getLast? with
      | some (_, messageKey) => return (messageKey, keys.dropLast)
      | none => throw (.panicked "skip_to always returns at least one key")

end Primitives

variable {P : Primitives} {build : Build} {chain : SymmetricRatchet} {target : UInt32} {rng : OsRng}

theorem advanceIn_run (P : Primitives) (build : Build) (chain : SymmetricRatchet) (rng : OsRng)
    (h : build = .wrapping ∨ chain.messageNumber.toNat + 1 < 2 ^ 32) :
    (P.advanceIn build).run (chain, rng) = .ok (P.advance chain).1 ((P.advance chain).2, rng) := by
  have hadd : build.add chain.messageNumber 1 = .ok (chain.messageNumber + 1) := by
    rcases h with rfl | h
    · exact Build.add_wrapping _ _
    · exact build.add_of_lt h
  simp only [Primitives.advanceIn, EStateM.run_bind, EStateM.run_get, EStateM.run_set, run_check, hadd]
  rfl

theorem messageNumber_advance (P : Primitives) (chain : SymmetricRatchet) :
    (P.advance chain).2.messageNumber = chain.messageNumber + 1 := rfl

theorem advanceNIn_run : ∀ {n : ℕ} {chain : SymmetricRatchet},
    build = .wrapping ∨ chain.messageNumber.toNat + n < 2 ^ 32 →
    (P.advanceNIn build n).run (chain, rng) =
      .ok (P.advanceN n chain).1 ((P.advanceN n chain).2, rng)
  | 0, _, _ => rfl
  | n + 1, chain, h => by
    have hone : (1 : UInt32).toNat = 1 := rfl
    have hstep := advanceIn_run P build chain rng
      (h.imp_right fun h => by omega)
    have hnext : build = .wrapping ∨ (P.advance chain).2.messageNumber.toNat + n < 2 ^ 32 := by
      refine h.imp_right fun h => ?_
      rw [messageNumber_advance, UInt32.toNat_add, hone, Nat.mod_eq_of_lt (by omega)]
      omega
    have ih := advanceNIn_run hnext
    simp only [Primitives.advanceNIn, EStateM.run_bind, EStateM.run_get, hstep, ih]
    rfl

/-! ## Without checks -/

/-- **A build without checks** skips as the model of the ratchets does. -/
theorem skipToIn_wrapping (target : UInt32) : P.skipToIn .wrapping target = P.skipTo target := by
  funext ⟨chain, rng⟩
  change (P.skipToIn .wrapping target).run (chain, rng) = (P.skipTo target).run (chain, rng)
  simp only [Primitives.skipToIn, Primitives.skipTo, EStateM.run_bind, EStateM.run_get]
  by_cases hback : target < chain.messageNumber
  · simp only [if_pos hback]
  simp only [if_neg hback, EStateM.run_bind, run_check, Build.add_wrapping]
  by_cases hfar : maxSkip < target - chain.messageNumber + 1
  · simp only [if_pos hfar]
  · simp only [if_neg hfar, advanceNIn_run (.inl rfl)]
    rfl

theorem receiveMessageKeyIn_wrapping (msgNum : UInt32) :
    P.receiveMessageKeyIn .wrapping msgNum = P.receiveMessageKey msgNum := by
  funext ⟨ratchet, rng⟩
  change (P.receiveMessageKeyIn .wrapping msgNum).run (ratchet, rng) =
    (P.receiveMessageKey msgNum).run (ratchet, rng)
  simp only [Primitives.receiveMessageKeyIn, Primitives.receiveMessageKey, EStateM.run_bind,
    EStateM.run_get, skipToIn_wrapping]
  cases ratchet.receivingChain with
  | none => rfl
  | some chain =>
    by_cases hback : msgNum < chain.messageNumber
    · simp only [if_pos hback]
    by_cases hnext : msgNum = chain.messageNumber
    · simp only [if_neg hback, if_pos hnext, EStateM.run_bind, EStateM.run_set,
        Primitives.onReceivingChain, run_onPart, advanceIn_run P .wrapping chain rng (.inl rfl)]
    · have hahead {α : Type} (a b c : CryptoM DhRatchetState α) :
          (if msgNum < chain.messageNumber then a
            else if msgNum = chain.messageNumber then b else c) = c := by
        rw [if_neg hback, if_neg hnext]
      exact congrArg (EStateM.run · (ratchet, rng)) ((hahead _ _ _).trans (hahead _ _ _).symm)

/-! ## Refused or exact -/

/-- The keys up to a message ahead, one for each step, and the chain after them. -/
def Primitives.keysTo (P : Primitives) (chain : SymmetricRatchet) (target : UInt32) :
    List (UInt32 × Key) × SymmetricRatchet :=
  P.advanceN (target.toNat - chain.messageNumber.toNat + 1) chain

/-- A message behind the chain, or too far ahead of it. -/
def Refused (chain : SymmetricRatchet) (target : UInt32) : Prop :=
  target.toNat < chain.messageNumber.toNat ∨
    maxSkip.toNat < target.toNat - chain.messageNumber.toNat + 1

instance (chain : SymmetricRatchet) (target : UInt32) : Decidable (Refused chain target) :=
  inferInstanceAs (Decidable (_ ∨ _))

/-- **Skipping is safe and exact**: in every build the message is refused and the chain left as it
was, or the keys up to its own are given, numbered in order, and the chain stands behind it. -/
structure SkipsExactly (P : Primitives) (chain : SymmetricRatchet) (target : UInt32) (rng : OsRng) :
    Prop where
  skip_refused : Refused chain target → ∀ build, ∃ text,
    (P.skipToIn build target).run (chain, rng) = .error (.ratchet text) (chain, rng)
  skip : ¬ Refused chain target → ∀ build, (P.skipToIn build target).run (chain, rng) =
    .ok (P.keysTo chain target).1 ((P.keysTo chain target).2, rng)
  receive_refused : Refused chain target → ∀ build (ratchet : DhRatchetState),
    ratchet.receivingChain = some chain → ∃ text,
      (P.receiveMessageKeyIn build target).run (ratchet, rng) = .error (.ratchet text) (ratchet, rng)
  receive : ¬ Refused chain target → ∀ build (ratchet : DhRatchetState),
    ratchet.receivingChain = some chain → ∃ key skipped,
      skipped ++ [(target, key)] = (P.keysTo chain target).1 ∧
        (P.receiveMessageKeyIn build target).run (ratchet, rng) = .ok (key, skipped)
          ({ ratchet with receivingChain := some (P.keysTo chain target).2 }, rng)
  numbers : ¬ Refused chain target → (P.keysTo chain target).1.map (·.1.toNat) =
    List.range' chain.messageNumber.toNat (target.toNat - chain.messageNumber.toNat + 1)
  messageNumber : ¬ Refused chain target → (P.keysTo chain target).2.messageNumber.toNat = target.toNat + 1

section Exact

theorem numbers_advanceN (P : Primitives) : ∀ (n : ℕ) (chain : SymmetricRatchet),
    chain.messageNumber.toNat + n < 2 ^ 32 →
    (P.advanceN n chain).1.map (·.1.toNat) = List.range' chain.messageNumber.toNat n ∧
      (P.advanceN n chain).2.messageNumber.toNat = chain.messageNumber.toNat + n
  | 0, _, _ => ⟨rfl, rfl⟩
  | n + 1, chain, h => by
    have hone : (1 : UInt32).toNat = 1 := rfl
    have hnext : (P.advance chain).2.messageNumber.toNat = chain.messageNumber.toNat + 1 := by
      rw [messageNumber_advance, UInt32.toNat_add, hone, Nat.mod_eq_of_lt (by omega)]
    obtain ⟨hnumbers, hlast⟩ := numbers_advanceN P n (P.advance chain).2 (by omega)
    rw [hnext] at hnumbers hlast
    rw [List.range'_succ, ← hnumbers]
    exact ⟨rfl, by
      rw [Primitives.advanceN]
      dsimp only
      omega⟩

theorem exists_keysTo (h : chain.messageNumber.toNat ≤ target.toNat) (hfits : target.toNat + 1 < 2 ^ 32) :
    ∃ key skipped, (P.keysTo chain target).1 = skipped ++ [(target, key)] := by
  have hlength := P.length_advanceN (target.toNat - chain.messageNumber.toNat + 1) chain
  obtain ⟨hnumbers, -⟩ := numbers_advanceN P
    (target.toNat - chain.messageNumber.toNat + 1) chain (by omega)
  cases hkeys : (P.keysTo chain target).1 using List.reverseRecOn with
  | nil =>
    rw [Primitives.keysTo] at hkeys
    rw [hkeys] at hlength
    cases hlength
  | append_singleton skipped last =>
    rw [Primitives.keysTo] at hkeys
    rw [hkeys, List.range'_concat, List.map_append] at hnumbers
    have hlast := congrArg List.getLast? hnumbers
    simp only [List.map_cons, List.map_nil, List.getLast?_append, List.getLast?_singleton,
      Option.some_or, Option.some.injEq] at hlast
    obtain ⟨number, key⟩ := last
    have hnumber : number = target := by
      rw [← UInt32.toNat_inj]
      dsimp only at hlast
      omega
    exact ⟨key, skipped, by rw [hnumber]⟩

theorem skipToIn_refused (h : Refused chain target) (hzero : chain.messageNumber ≠ 0 ∨
    target.toNat + 1 < 2 ^ 32) (build : Build) (rng : OsRng) :
    ∃ text, (P.skipToIn build target).run (chain, rng) = .error (.ratchet text) (chain, rng) := by
  by_cases hback : target < chain.messageNumber
  · simp only [Primitives.skipToIn, EStateM.run_bind, EStateM.run_get, hback, if_true]
    exact ⟨_, rfl⟩
  · have hle := UInt32.not_lt.mp hback
    have hleNat := UInt32.le_iff_toNat_le.mp hle
    have hone : (1 : UInt32).toNat = 1 := rfl
    have hlt := target.toNat_lt
    have hpos : chain.messageNumber.toNat ≠ 0 ∨ target.toNat + 1 < 2 ^ 32 :=
      hzero.imp_left fun hne heq => hne (UInt32.toNat_inj.mp heq)
    have hsub : (target - chain.messageNumber).toNat = target.toNat - chain.messageNumber.toNat :=
      UInt32.toNat_sub_of_le _ _ hle
    have hadd := build.add_of_lt (x := target - chain.messageNumber) (y := 1) (by omega)
    have hfar : maxSkip < target - chain.messageNumber + 1 := by
      rw [UInt32.lt_iff_toNat_lt, UInt32.toNat_add, hsub, hone, Nat.mod_eq_of_lt (by omega)]
      exact h.resolve_left (by omega)
    simp only [Primitives.skipToIn, EStateM.run_bind, EStateM.run_get, hback, if_false, run_check,
      hadd, hfar, if_true]
    exact ⟨_, rfl⟩

theorem skipToIn_run (h : ¬ Refused chain target) (hfits : target.toNat + 1 < 2 ^ 32)
    (build : Build) (rng : OsRng) :
    (P.skipToIn build target).run (chain, rng) =
      .ok (P.keysTo chain target).1 ((P.keysTo chain target).2, rng) := by
  rw [Refused, not_or, not_lt, not_lt] at h
  have hone : (1 : UInt32).toNat = 1 := rfl
  have hle : chain.messageNumber ≤ target := UInt32.le_iff_toNat_le.mpr h.1
  have hback : ¬ target < chain.messageNumber := UInt32.not_lt.mpr hle
  have hsub : (target - chain.messageNumber).toNat = target.toNat - chain.messageNumber.toNat :=
    UInt32.toNat_sub_of_le _ _ hle
  have hadd := build.add_of_lt (x := target - chain.messageNumber) (y := 1) (by omega)
  have hcount : (target - chain.messageNumber + 1).toNat =
      target.toNat - chain.messageNumber.toNat + 1 := by
    rw [UInt32.toNat_add, hsub, hone, Nat.mod_eq_of_lt (by omega)]
  have hnear : ¬ maxSkip < target - chain.messageNumber + 1 := by
    rw [UInt32.lt_iff_toNat_lt, hcount]
    exact not_lt.mpr h.2
  simp only [Primitives.skipToIn, EStateM.run_bind, EStateM.run_get, hback, if_false, run_check,
    hadd, hnear, hcount]
  exact advanceNIn_run (.inr (by omega))

theorem receiveMessageKeyIn_refused (h : Refused chain target) (hzero : chain.messageNumber ≠ 0 ∨
    target.toNat + 1 < 2 ^ 32) (build : Build) {ratchet : DhRatchetState}
    (hchain : ratchet.receivingChain = some chain) (rng : OsRng) :
    ∃ text, (P.receiveMessageKeyIn build target).run (ratchet, rng) =
      .error (.ratchet text) (ratchet, rng) := by
  by_cases hback : target < chain.messageNumber
  · simp only [Primitives.receiveMessageKeyIn, EStateM.run_bind, EStateM.run_get, hchain, hback, if_true]
    exact ⟨_, rfl⟩
  · obtain ⟨text, hskip⟩ := skipToIn_refused (P := P) h hzero build rng
    -- the chain's next message is never too far ahead
    have hne : target ≠ chain.messageNumber := by
      rintro rfl
      have hmax : maxSkip.toNat = 1000 := rfl
      rcases h with h | h <;> omega
    have hsame : { ratchet with receivingChain := some chain } = ratchet := by
      rw [← hchain]
    simp only [Primitives.receiveMessageKeyIn, EStateM.run_bind, EStateM.run_get, hchain, hback,
      if_false, hne, Primitives.onReceivingChain, run_onPart, hskip, hsame]
    exact ⟨_, rfl⟩

theorem receiveMessageKeyIn_run (h : ¬ Refused chain target) (hfits : target.toNat + 1 < 2 ^ 32)
    (build : Build) {ratchet : DhRatchetState} (hchain : ratchet.receivingChain = some chain)
    (rng : OsRng) :
    ∃ key skipped, skipped ++ [(target, key)] = (P.keysTo chain target).1 ∧
      (P.receiveMessageKeyIn build target).run (ratchet, rng) = .ok (key, skipped)
        ({ ratchet with receivingChain := some (P.keysTo chain target).2 }, rng) := by
  have hskip := skipToIn_run (P := P) h hfits build rng
  rw [Refused, not_or, not_lt, not_lt] at h
  have hback : ¬ target < chain.messageNumber :=
    UInt32.not_lt.mpr (UInt32.le_iff_toNat_le.mpr h.1)
  by_cases hnow : target = chain.messageNumber
  · subst hnow
    have hstep := advanceIn_run P build chain rng (.inr hfits)
    refine ⟨(P.advance chain).1, [], by simp [Primitives.keysTo, Primitives.advanceN], ?_⟩
    simp only [Primitives.receiveMessageKeyIn, EStateM.run_bind, EStateM.run_get, hchain, hback,
      if_false, if_true, Primitives.onReceivingChain, run_onPart, hstep]
    simp [Primitives.keysTo, Primitives.advanceN]
  · obtain ⟨key, skipped, hkeys⟩ := exists_keysTo (P := P) h.1 hfits
    refine ⟨key, skipped, hkeys.symm, ?_⟩
    simp only [Primitives.receiveMessageKeyIn, EStateM.run_bind, EStateM.run_get, hchain, hback,
      if_false, hnow, Primitives.onReceivingChain, run_onPart, hskip, hkeys, List.getLast?_append,
      List.getLast?_singleton, Option.some_or, List.dropLast_concat]
    rfl

theorem skipToIn_count_overflow (hzero : chain.messageNumber = 0)
    (hlast : 2 ^ 32 ≤ target.toNat + 1) (rng : OsRng) :
    (P.skipToIn .checked target).run (chain, rng) =
      .error (.panicked "attempt to add with overflow") (chain, rng) := by
  have hback : ¬ target < chain.messageNumber := by
    rw [hzero, UInt32.lt_iff_toNat_lt]
    exact Nat.not_lt_zero _
  have hadd : Build.checked.add (target - chain.messageNumber) 1 =
      .error (.panicked "attempt to add with overflow") := by
    rw [hzero, UInt32.sub_zero]
    exact Build.add_of_le hlast
  simp only [Primitives.skipToIn, EStateM.run_bind, EStateM.run_get, hback, if_false, run_check, hadd]

/-- **Skipping is safe and exact** exactly unless the message has the last number of 32 bits and is
within reach, or the chain is at its start: then the next number overflows, or the count of skipped
messages. -/
theorem skipsExactly_iff (P : Primitives) (chain : SymmetricRatchet) (target : UInt32)
    (rng : OsRng) : SkipsExactly P chain target rng ↔
      target.toNat + 1 < 2 ^ 32 ∨ (chain.messageNumber ≠ 0 ∧ Refused chain target) := by
  constructor
  · intro h
    by_contra hnot
    rw [not_or, not_lt, not_and_or, not_not] at hnot
    obtain ⟨hlast, hnot⟩ := hnot
    by_cases hrefused : Refused chain target
    · have hzero : chain.messageNumber = 0 := hnot.resolve_right (not_not.mpr hrefused)
      obtain ⟨text, hrun⟩ := h.skip_refused hrefused .checked
      rw [skipToIn_count_overflow hzero hlast] at hrun
      cases hrun
    · have hnumber := h.messageNumber hrefused
      have hlt := (P.keysTo chain target).2.messageNumber.toNat_lt
      omega
  · intro h
    have hzero : chain.messageNumber ≠ 0 ∨ target.toNat + 1 < 2 ^ 32 := h.symm.imp_left And.left
    have hfits : ¬ Refused chain target → target.toNat + 1 < 2 ^ 32 := fun hnot =>
      h.resolve_right fun hrefused => hnot hrefused.2
    have hnumbers : ¬ Refused chain target → chain.messageNumber.toNat +
        (target.toNat - chain.messageNumber.toNat + 1) = target.toNat + 1 := by
      intro hnot
      rw [Refused, not_or, not_lt] at hnot
      omega
    refine ⟨fun hr build => skipToIn_refused hr hzero build rng,
      fun hr build => skipToIn_run hr (hfits hr) build rng,
      fun hr build ratchet hchain => receiveMessageKeyIn_refused hr hzero build hchain rng,
      fun hr build ratchet hchain => receiveMessageKeyIn_run hr (hfits hr) build hchain rng,
      fun hr => (numbers_advanceN P _ chain ?_).1, fun hr => ?_⟩
    · rw [hnumbers hr]
      exact hfits hr
    · rw [← hnumbers hr]
      exact (numbers_advanceN P _ chain (by rw [hnumbers hr]; exact hfits hr)).2

/-- **The last number of 32 bits, at the start of a chain**: it is far out of reach, but the error
is not that it is. -/
theorem not_skipsExactly_last :
    ¬ ∀ (P : Primitives) (chain : SymmetricRatchet) (target : UInt32) (rng : OsRng),
      SkipsExactly P chain target rng := by
  intro h
  have hexactly := h toyPrimitives { chainKey := toyKey } 0xffffffff toyRng
  obtain ⟨text, hrun⟩ := hexactly.skip_refused (by decide) .checked
  rw [skipToIn_count_overflow rfl (by decide)] at hrun
  cases hrun

end Exact

end Pirc.Crypto
