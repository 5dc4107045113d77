import Mathlib.Tactic

/-!
# Incremental framing

A decoder reads frames off a buffer that is filled chunk by chunk. Where it finds the first frame
by a cut that more input does not move, what it yields does not depend on the chunks.

## Main results

* `Framing.WellFramed.drain_append`: frames are read off one after the other
* `Framing.feed_eq`: feeding a well-framed stream in chunks gives what reading it at once gives
-/

universe u v

/-- A decoder: one call gives a result, or `none` when it needs more input, and the buffer it
leaves. -/
abbrev Decoder (β : Type u) (ρ : Type v) := List β → Option ρ × List β

namespace Decoder

variable {β : Type u} {ρ : Type v}

/-- Call the decoder until it needs more input, at most `fuel` times. -/
def drainN (decode : Decoder β ρ) : ℕ → List β → Option (List ρ × List β)
  | 0, _ => none
  | fuel + 1, buf =>
    match decode buf with
    | (none, rest) => some ([], rest)
    | (some r, rest) => (drainN decode fuel rest).map fun out => (r :: out.1, out.2)

/-- Call the decoder until it needs more input. A decoder that takes something off the buffer in
every call but the last gets there; `none` is for one that never does. -/
def drain (decode : Decoder β ρ) (buf : List β) : Option (List ρ × List β) :=
  decode.drainN (buf.length + 1) buf

/-- The decoder is called after each chunk of a list, until it asks for more. -/
def feed (decode : Decoder β ρ) : List β → List (List β) → Option (List ρ × List β)
  | buf, [] => some ([], buf)
  | buf, chunk :: chunks =>
    (decode.drain (buf ++ chunk)).bind fun out =>
      (feed decode out.2 chunks).map fun out' => (out.1 ++ out'.1, out'.2)

end Decoder

/-- A way to read frames off a stream. -/
structure Framing (β : Type u) (ρ : Type v) where
  /-- The length of the first complete frame. -/
  cut : List β → Option ℕ
  /-- The result for a complete frame. -/
  handle : List β → ρ
  /-- The result for a buffer that has no complete frame and is too long already. -/
  overlong : List β → Option ρ
  overlong_nil : overlong [] = none
  cut_pos : ∀ {buf n}, cut buf = some n → 0 < n ∧ n ≤ buf.length
  cut_append : ∀ {buf n} (more : List β), cut buf = some n → cut (buf ++ more) = some n

namespace Framing

variable {β : Type u} {ρ : Type v} (F : Framing β ρ)

/-- The first frame is taken off the buffer; an overlong buffer is left as it is. -/
def decode : Decoder β ρ := fun buf =>
  match F.cut buf with
  | some n => (some (F.handle (buf.take n)), buf.drop n)
  | none => (F.overlong buf, buf)

/-- **Well-framed streams**: complete frames, none of which looks overlong while it arrives. -/
inductive WellFramed : List β → Prop
  | nil : WellFramed []
  | cons {frame rest : List β} (hcut : F.cut frame = some frame.length)
      (hshort : ∀ p, p <+: frame → F.cut p = none → F.overlong p = none)
      (h : WellFramed rest) : WellFramed (frame ++ rest)

variable {F}

/-! ## Draining a buffer -/

theorem drainN_of_cut {fuel n : ℕ} {buf : List β} (h : F.cut buf = some n) :
    F.decode.drainN (fuel + 1) buf =
      (F.decode.drainN fuel (buf.drop n)).map fun out => (F.handle (buf.take n) :: out.1, out.2) := by
  simp only [Decoder.drainN, decode, h]

theorem drainN_of_idle {fuel : ℕ} {buf : List β} (h : F.cut buf = none)
    (ho : F.overlong buf = none) : F.decode.drainN (fuel + 1) buf = some ([], buf) := by
  simp only [Decoder.drainN, decode, h, ho]

theorem drainN_of_overlong {buf : List β} {r : ρ} (h : F.cut buf = none)
    (ho : F.overlong buf = some r) (fuel : ℕ) : F.decode.drainN fuel buf = none := by
  induction fuel with
  | zero => rfl
  | succ fuel ih => simp only [Decoder.drainN, decode, h, ho, ih, Option.map_none]

theorem drainN_eq {j k : ℕ} {buf : List β} (hj : buf.length < j) (hk : buf.length < k) :
    F.decode.drainN j buf = F.decode.drainN k buf := by
  induction j generalizing k buf with
  | zero => omega
  | succ j ih =>
    obtain ⟨k, rfl⟩ : ∃ l, k = l + 1 := ⟨k - 1, by omega⟩
    cases hcut : F.cut buf with
    | some n =>
      obtain ⟨hpos, hle⟩ := F.cut_pos hcut
      have hlen : (buf.drop n).length = buf.length - n := List.length_drop
      have hrest : F.decode.drainN j (buf.drop n) = F.decode.drainN k (buf.drop n) := by
        apply ih
        · omega
        · omega
      rw [drainN_of_cut hcut, drainN_of_cut hcut, hrest]
    | none =>
      cases ho : F.overlong buf with
      | none => rw [drainN_of_idle hcut ho, drainN_of_idle hcut ho]
      | some r => rw [drainN_of_overlong hcut ho, drainN_of_overlong hcut ho]

theorem drain_of_cut {n : ℕ} {buf : List β} (h : F.cut buf = some n) :
    F.decode.drain buf =
      (F.decode.drain (buf.drop n)).map fun out => (F.handle (buf.take n) :: out.1, out.2) := by
  have hlen : (buf.drop n).length < buf.length := by
    obtain ⟨hpos, hle⟩ := F.cut_pos h
    rw [List.length_drop]
    omega
  have hfuel : F.decode.drainN buf.length (buf.drop n) = F.decode.drain (buf.drop n) :=
    drainN_eq hlen (Nat.lt_succ_self _)
  rw [Decoder.drain, drainN_of_cut h, hfuel]

theorem drain_of_idle {buf : List β} (h : F.cut buf = none) (ho : F.overlong buf = none) :
    F.decode.drain buf = some ([], buf) := drainN_of_idle h ho

theorem cut_nil : F.cut [] = none := by
  by_contra hsome
  obtain ⟨n, hn⟩ := Option.ne_none_iff_exists'.mp hsome
  have hpos := F.cut_pos hn
  simp only [List.length_nil] at hpos
  omega

@[simp] theorem drain_nil : F.decode.drain [] = some ([], []) := drain_of_idle cut_nil F.overlong_nil

/-! ## Well-framed streams -/

theorem drain_frame_append {frame : List β} (hcut : F.cut frame = some frame.length)
    (rest : List β) :
    F.decode.drain (frame ++ rest) =
      (F.decode.drain rest).map fun out => (F.handle frame :: out.1, out.2) := by
  rw [drain_of_cut (F.cut_append rest hcut), List.drop_left, List.take_left]

theorem drain_part {frame p : List β} (hcut : F.cut frame = some frame.length)
    (hshort : ∀ p, p <+: frame → F.cut p = none → F.overlong p = none) (hp : p <+: frame)
    (hlt : p.length < frame.length) : F.decode.drain p = some ([], p) := by
  have hnone : F.cut p = none := by
    by_contra hsome
    obtain ⟨n, hn⟩ := Option.ne_none_iff_exists'.mp hsome
    obtain ⟨more, rfl⟩ := hp
    -- the part would be cut where the frame is, which is past its end
    have hsame := F.cut_append more hn
    rw [hcut] at hsame
    have hle := (F.cut_pos hn).2
    have hlen := Option.some_inj.mp hsame
    omega
  exact drain_of_idle hnone (hshort p hp hnone)

namespace WellFramed

variable {s t : List β}

theorem append (hs : F.WellFramed s) (ht : F.WellFramed t) : F.WellFramed (s ++ t) := by
  induction hs with
  | nil => exact ht
  | cons hcut hshort _ ih =>
    rw [List.append_assoc]
    exact .cons hcut hshort ih

theorem flatten {frames : List (List β)} (h : ∀ f ∈ frames, F.WellFramed f) :
    F.WellFramed frames.flatten := by
  induction frames with
  | nil => exact .nil
  | cons f frames ih =>
    rw [List.flatten_cons]
    have hf := h f List.mem_cons_self
    exact hf.append (ih fun g hg => h g (List.mem_cons_of_mem f hg))

theorem drain_append (hs : F.WellFramed s) (t : List β) :
    ∃ results, F.decode.drain s = some (results, []) ∧
      F.decode.drain (s ++ t) = (F.decode.drain t).map fun out => (results ++ out.1, out.2) := by
  induction hs with
  | nil =>
    refine ⟨[], ?_, ?_⟩
    · exact drain_nil
    · simp
  | @cons frame rest hcut hshort _ ih =>
    obtain ⟨results, hrest, htail⟩ := ih
    refine ⟨F.handle frame :: results, ?_, ?_⟩
    · rw [drain_frame_append hcut, hrest]
      rfl
    · rw [List.append_assoc, drain_frame_append hcut, htail, Option.map_map]
      rfl

/-- **A part of a well-framed stream** drains to a buffer that waits for more, and what follows
continues a well-framed stream. -/
theorem drain_isPrefix {p q : List β} (hs : F.WellFramed s) (hpq : p ++ q = s) :
    ∃ results buf, F.decode.drain p = some (results, buf) ∧ F.decode.drain buf = some ([], buf) ∧
      F.WellFramed (buf ++ q) ∧
      F.decode.drain s = (F.decode.drain (buf ++ q)).map fun out => (results ++ out.1, out.2) := by
  induction hs generalizing p with
  | nil =>
    obtain ⟨rfl, rfl⟩ := List.append_eq_nil_iff.mp hpq
    exact ⟨[], [], drain_nil, drain_nil, .nil, by simp⟩
  | @cons frame rest hcut hshort hrest ih =>
    rcases Nat.lt_or_ge p.length frame.length with hlt | hge
    · -- the part ends inside the first frame
      have hp : p <+: frame :=
        List.prefix_of_prefix_length_le ⟨q, hpq⟩ (List.prefix_append frame rest) hlt.le
      have hidle := drain_part hcut hshort hp hlt
      refine ⟨[], p, hidle, hidle, ?_, ?_⟩
      · rw [hpq]
        exact .cons hcut hshort hrest
      · rw [hpq]
        simp
    · -- the first frame is complete
      obtain ⟨p', rfl⟩ : frame <+: p :=
        List.prefix_of_prefix_length_le (List.prefix_append frame rest) ⟨q, hpq⟩ hge
      have hpq' : p' ++ q = rest := by
        rw [List.append_assoc] at hpq
        exact List.append_cancel_left hpq
      obtain ⟨results, buf, hdrain, hidle, hwf, hall⟩ := ih hpq'
      refine ⟨F.handle frame :: results, buf, ?_, hidle, hwf, ?_⟩
      · rw [drain_frame_append hcut, hdrain]
        rfl
      · rw [drain_frame_append hcut, hall, Option.map_map]
        rfl

end WellFramed

/-- **Framing does not depend on chunking**: a well-framed stream that arrives in chunks, after what
is in the buffer, gives what reading it at once gives. -/
theorem feed_eq {s buf : List β} {chunks : List (List β)} (hs : F.WellFramed s)
    (hidle : F.decode.drain buf = some ([], buf)) (hsplit : buf ++ chunks.flatten = s) :
    F.decode.feed buf chunks = F.decode.drain s := by
  induction chunks generalizing s buf with
  | nil =>
    rw [List.flatten_nil, List.append_nil] at hsplit
    rw [← hsplit, hidle]
    rfl
  | cons chunk chunks ih =>
    have hpart : (buf ++ chunk) ++ chunks.flatten = s := by
      rw [← hsplit, List.flatten_cons, List.append_assoc]
    obtain ⟨results, buf', hdrain, hidle', hwf, hall⟩ := hs.drain_isPrefix hpart
    rw [Decoder.feed, hdrain, hall, ← ih hwf hidle' rfl]
    rfl

end Framing
