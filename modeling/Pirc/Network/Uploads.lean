import Pirc.Lib.Run
import Pirc.Network.Chunks

/-!
# Network: uploads in chunks

Several senders each send one text after the other in chunks, and may stop in the middle of one. The
chunks of a text that was given up stay where they are until those of another text overwrite them.
-/

namespace Pirc.Network

open Protocol

/-! ## Senders and their texts -/

/-- What keeps the chunks of several senders apart. Two keys with one fold are one sender, and
headers have numbers from one to a total of 64 bits. -/
structure Reassembler (κ ι σ : Type) [DecidableEq ι] where
  fold : κ → ι
  /-- One more chunk: the text once all are there. -/
  add : σ → κ → Str → ℕ → ℕ → Option Str × σ
  /-- The chunks of a sender that wait. -/
  waiting : σ → ι → Option ChunkBuffer
  add_fst : ∀ s k chunk n total, 1 ≤ n → n ≤ total → total < 2 ^ 64 →
    (add s k chunk n total).1 = (addChunk (waiting s (fold k)) chunk n total).1
  waiting_add : ∀ s k chunk n total i, 1 ≤ n → n ≤ total → total < 2 ^ 64 →
    waiting (add s k chunk n total).2 i =
      if fold k = i then (addChunk (waiting s (fold k)) chunk n total).2 else waiting s i

/-- The chunks of a text. -/
structure Upload where
  pieces : List Str
  nonempty : 0 < pieces.length
  bounded : pieces.length < 2 ^ 64

def Upload.data (upload : Upload) : Str := upload.pieces.flatten

variable {κ ι σ : Type} [DecidableEq ι]

/-- What is kept, the text that each sender is at with the number of its chunks that were sent, the
texts that were sent to their end, and the texts that were put together. -/
structure Uploading (ι σ : Type) where
  store : σ
  current : ι → Option (Upload × ℕ) := fun _ => none
  completed : List (ι × Str) := []
  returned : List (ι × Str) := []

inductive UploadEvent (κ : Type)
  /-- A sender begins a text; what it was at is given up. -/
  | start (k : κ) (upload : Upload)
  /-- A sender sends the next chunk of the text it is at. -/
  | send (k : κ)

variable (R : Reassembler κ ι σ)

/-- **Uploads in chunks**, of any senders in any order. -/
def uploading : System (Uploading ι σ) (UploadEvent κ) where
  enabled s e :=
    match e with
    | .start _ _ => True
    | .send k => ∃ upload sent, s.current (R.fold k) = some (upload, sent) ∧ sent < upload.pieces.length
  step s e :=
    match e with
    | .start k upload => { s with current := Function.update s.current (R.fold k) (some (upload, 0)) }
    | .send k =>
      match s.current (R.fold k) with
      | none => s
      | some (upload, sent) =>
        match upload.pieces[sent]? with
        | none => s
        | some piece =>
          let (text, store) := R.add s.store k piece (sent + 1) upload.pieces.length
          { store := store
            current := Function.update s.current (R.fold k) (some (upload, sent + 1))
            completed :=
              if sent + 1 = upload.pieces.length then s.completed ++ [(R.fold k, upload.data)]
              else s.completed
            returned := s.returned ++ (text.map fun text => (R.fold k, text)).toList }

/-! ## What waits -/

/-- **The chunks of a sender that wait.** -/
structure Waits (buffer : Option ChunkBuffer) (current : Option (Upload × ℕ)) : Prop where
  /-- At least one is missing, and those before it are there. -/
  held : ∀ held, buffer = some held → ∃ texts total, texts.length < total ∧ held = .holding texts total
  /-- Of the text that the sender is at there is what was sent. -/
  own : ∀ upload sent, current = some (upload, sent) → 0 < sent → sent < upload.pieces.length →
    ∃ texts, buffer = some (.holding texts upload.pieces.length) ∧ sent ≤ texts.length ∧
      texts.length < upload.pieces.length ∧ texts.take sent = upload.pieces.take sent

variable {buffer : Option ChunkBuffer} {upload : Upload} {sent : ℕ} {current : Option (Upload × ℕ)}

theorem Waits.resume (h : Waits buffer (some (upload, sent))) (hsent : sent < upload.pieces.length) :
    ∃ texts, Pirc.Network.resume buffer upload.pieces.length = .holding texts upload.pieces.length ∧
      sent ≤ texts.length ∧ texts.length < upload.pieces.length ∧
      texts.take sent = upload.pieces.take sent := by
  obtain ⟨hheld, hcurrent⟩ := h
  -- it is empty, or holds chunks of some text with this total
  have hany : ∃ texts, Pirc.Network.resume buffer upload.pieces.length =
      .holding texts upload.pieces.length ∧ texts.length < upload.pieces.length := by
    cases buffer with
    | none =>
      refine ⟨[], ?_, upload.nonempty⟩
      exact if_neg (not_not_intro rfl)
    | some held =>
      obtain ⟨texts, total, hlt, rfl⟩ := hheld held rfl
      by_cases htotal : total = upload.pieces.length
      · subst htotal
        exact ⟨texts, if_neg (not_not_intro rfl), hlt⟩
      · exact ⟨[], if_pos htotal, upload.nonempty⟩
  rcases Nat.eq_zero_or_pos sent with rfl | hpos
  · obtain ⟨texts, hresume, hlt⟩ := hany
    exact ⟨texts, hresume, Nat.zero_le _, hlt, rfl⟩
  · obtain ⟨texts, rfl, hle, hlt, hsame⟩ := hcurrent _ _ rfl hpos hsent
    exact ⟨texts, if_neg (not_not_intro rfl), hle, hlt, hsame⟩

/-- **The next chunk**: the last one gives the text, and no other gives anything. -/
theorem Waits.send (h : Waits buffer (some (upload, sent))) (hsent : sent < upload.pieces.length) :
    (addChunk buffer upload.pieces[sent] (sent + 1) upload.pieces.length).1 =
        (if sent + 1 = upload.pieces.length then some upload.data else none) ∧
      Waits (addChunk buffer upload.pieces[sent] (sent + 1) upload.pieces.length).2
        (some (upload, sent + 1)) := by
  obtain ⟨texts, hresume, hle, hlt, hsame⟩ := h.resume hsent
  rw [addChunk_holding hsent hresume hle hlt hsame]
  by_cases hlast : sent + 1 = upload.pieces.length
  · rw [if_pos hlast, if_pos hlast]
    refine ⟨rfl, ⟨fun held hheld => (by cases hheld), ?_⟩⟩
    intro upload' sent' heq _ hmore
    cases heq
    exact absurd hlast hmore.ne
  · rw [if_neg hlast, if_neg hlast]
    have hlen : (upload.pieces.take (sent + 1) ++ texts.drop (sent + 1)).length <
        upload.pieces.length := by
      simp
      omega
    refine ⟨rfl, ⟨?_, ?_⟩⟩
    · intro held hheld
      cases hheld
      exact ⟨_, _, hlen, rfl⟩
    · intro upload' sent' heq _ _
      cases heq
      refine ⟨_, rfl, ?_, hlen, ?_⟩
      · simp
        omega
      · rw [List.take_left' (List.length_take_of_le hsent)]

theorem Waits.start (h : Waits buffer current) (upload : Upload) : Waits buffer (some (upload, 0)) := by
  refine ⟨h.held, ?_⟩
  intro upload' sent' heq hpos
  cases heq
  exact absurd hpos (lt_irrefl 0)

/-! ## Runs -/

/-- What waits is right for every sender, and what was put together is what was sent to its end. -/
def Uploading.Sound (s : Uploading ι σ) : Prop :=
  (∀ i, Waits (R.waiting s.store i) (s.current i)) ∧ s.returned = s.completed

variable {R}

theorem sound_step {s : Uploading ι σ} {e : UploadEvent κ} (hs : s.Sound R)
    (henabled : (uploading R).enabled s e) : ((uploading R).step s e).Sound R := by
  obtain ⟨hwaits, hreturned⟩ := hs
  cases e with
  | start k upload =>
    refine ⟨fun i => ?_, hreturned⟩
    change Waits (R.waiting s.store i) (Function.update s.current (R.fold k) (some (upload, 0)) i)
    by_cases hi : R.fold k = i
    · subst hi
      rw [Function.update_self]
      exact (hwaits _).start upload
    · rw [Function.update_of_ne (Ne.symm hi)]
      exact hwaits i
  | send k =>
    obtain ⟨upload, sent, hcurrent, hsent⟩ := henabled
    have hk := hwaits (R.fold k)
    rw [hcurrent] at hk
    obtain ⟨htext, hnext⟩ := hk.send hsent
    have hone : 1 ≤ sent + 1 := Nat.le_add_left 1 sent
    have hfst := R.add_fst s.store k upload.pieces[sent] (sent + 1) upload.pieces.length hone hsent
      upload.bounded
    rw [htext] at hfst
    simp only [uploading, hcurrent, List.getElem?_eq_getElem hsent]
    refine ⟨fun i => ?_, ?_⟩
    · dsimp only
      rw [R.waiting_add s.store k _ _ _ i hone hsent upload.bounded]
      by_cases hi : R.fold k = i
      · subst hi
        rw [if_pos rfl, Function.update_self]
        exact hnext
      · rw [if_neg hi, Function.update_of_ne (Ne.symm hi)]
        exact hwaits i
    · dsimp only
      rw [hfst, hreturned]
      split_ifs
      · rfl
      · exact List.append_nil _

/-- **What was put together are the texts that were sent to their end, each once.** -/
theorem uploads_returned {store : σ} (hnone : ∀ i, R.waiting store i = none) {s : Uploading ι σ}
    (hrun : System.Steps (uploading R) System.Free { store := store } s) : s.returned = s.completed := by
  have hsound : s.Sound R := by
    refine hrun.invariant (fun s e henabled _ hs => sound_step hs henabled) ⟨fun i => ?_, rfl⟩
    rw [hnone i]
    exact ⟨fun held hheld => (by cases hheld), fun upload sent heq => (by cases heq)⟩
  exact hsound.2

end Pirc.Network
