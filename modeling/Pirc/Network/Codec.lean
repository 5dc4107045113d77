import Pirc.Protocol.Parser
import Pirc.Lib.Framing

/-!
# Network: the codec

`codec.rs`: messages as lines on a byte stream, and back.
-/

namespace Pirc.Network

open Protocol

inductive NetworkError
  | protocol (error : ProtocolError)
  deriving DecidableEq

def utf8FaultText (bytes : List UInt8) : Str :=
  match utf8Fault 0 bytes with
  | some (index, some n) =>
    "invalid utf-8 sequence of ".toList ++ decimal n ++ " bytes from index ".toList ++ decimal index
  | some (index, none) => "incomplete utf-8 byte sequence from index ".toList ++ decimal index
  | none => []

namespace PircCodec

/-- Write a message and the end of its line at the end of a buffer. -/
def encode (item : Message) (dst : List UInt8) : Except NetworkError (List UInt8) :=
  let wire := item.toWire
  let totalLen := (utf8 wire).length + 2
  if maxMessageLen < totalLen then
    .error (.protocol (.messageTooLong totalLen maxMessageLen))
  else .ok (dst ++ utf8 wire ++ [13, 10])

/-- The length of the first complete line, its end included. -/
def frameLen (src : List UInt8) : Option ℕ := (pairAt 13 10 src).map (· + 2)

def decodeFrame (frame : List UInt8) : Except NetworkError Message :=
  if maxMessageLen < frame.length then
    .error (.protocol (.messageTooLong frame.length maxMessageLen))
  else
    match fromUtf8? frame with
    | none => .error (.protocol (.unknownCommand ("invalid UTF-8: ".toList ++ utf8FaultText frame)))
    | some line =>
      match parse line with
      | .ok m => .ok m
      | .error e => .error (.protocol e)

/-- One call of the decoder: an oversized line is taken off the buffer with an error, an oversized
buffer without a line end stays. -/
def decode (src : List UInt8) : Except NetworkError (Option Message) × List UInt8 :=
  match frameLen src with
  | none =>
    if maxMessageLen < src.length then
      (.error (.protocol (.messageTooLong src.length maxMessageLen)), src)
    else (.ok none, src)
  | some n => ((decodeFrame (src.take n)).map some, src.drop n)

/-- A call of the decoder as a result, or none when it needs more input. -/
def next : Decoder UInt8 (Except NetworkError Message) := fun src =>
  match decode src with
  | (.ok none, src) => (none, src)
  | (.ok (some m), src) => (some (.ok m), src)
  | (.error e, src) => (some (.error e), src)

/-! ## Frames -/

/-- The frames of the codec. -/
def framing : Framing UInt8 (Except NetworkError Message) where
  cut := frameLen
  handle := decodeFrame
  overlong buf :=
    if maxMessageLen < buf.length then
      some (.error (.protocol (.messageTooLong buf.length maxMessageLen)))
    else none
  overlong_nil := rfl
  cut_pos {buf n} h := by
    obtain ⟨m, hm, rfl⟩ := Option.map_eq_some_iff.mp h
    have hle := pairAt_add_two_le hm
    omega
  cut_append {buf n} more h := by
    obtain ⟨m, hm, rfl⟩ := Option.map_eq_some_iff.mp h
    rw [frameLen, pairAt_append more hm]
    rfl

theorem next_eq : next = framing.decode := by
  ext1 src
  unfold next decode Framing.decode
  have hcut : framing.cut src = frameLen src := rfl
  rw [hcut]
  cases frameLen src with
  | some n =>
    have hhandle : framing.handle (src.take n) = decodeFrame (src.take n) := rfl
    dsimp only
    rw [hhandle]
    cases decodeFrame (src.take n) with
    | ok m => rfl
    | error e => rfl
  | none =>
    have hoverlong : framing.overlong src =
        if maxMessageLen < src.length then
          some (.error (.protocol (.messageTooLong src.length maxMessageLen))) else none := rfl
    dsimp only
    rw [hoverlong]
    split_ifs
    · rfl
    · rfl

/-- **Lines are frames**: bytes that end a line, in at most 512 bytes, are well framed, with further
line ends inside or not. -/
theorem wellFramed_line {l : List UInt8} (hlen : l.length + 2 ≤ maxMessageLen) :
    framing.WellFramed (l ++ [13, 10]) := by
  have hshort : ∀ {frame : List UInt8}, frame.length ≤ maxMessageLen →
      ∀ p, p <+: frame → framing.cut p = none → framing.overlong p = none := by
    intro frame hframe p hp _
    have hle := hp.length_le
    exact if_neg (by omega)
  induction hn : l.length using Nat.strong_induction_on generalizing l with
  | _ n ih =>
    cases hpair : pairAt 13 10 l with
    | none =>
      -- the end of the line is the only one
      have hcut : framing.cut (l ++ [13, 10]) = some (l ++ [13, 10]).length := by
        have hfirst := pairAt_append_pair (by decide) hpair
        change frameLen _ = _
        rw [frameLen, hfirst, List.length_append]
        rfl
      have hframed := Framing.WellFramed.cons hcut (hshort (by simpa using hlen)) .nil
      rwa [List.append_nil] at hframed
    | some k =>
      have hk := pairAt_add_two_le hpair
      have hsplit : l ++ [13, 10] = l.take (k + 2) ++ (l.drop (k + 2) ++ [13, 10]) := by
        rw [← List.append_assoc, List.take_append_drop]
      have hcut : framing.cut (l.take (k + 2)) = some (l.take (k + 2)).length := by
        change frameLen _ = _
        rw [frameLen, pairAt_take hpair, List.length_take_of_le hk]
        rfl
      have htake : (l.take (k + 2)).length ≤ maxMessageLen := by
        rw [List.length_take]
        omega
      have hdrop : (l.drop (k + 2)).length = l.length - (k + 2) := List.length_drop
      rw [hsplit]
      exact .cons hcut (hshort htake) (ih _ (by omega) (by omega) rfl)

/-! ## Reading back what is written -/

theorem encode_eq_ok {m : Message} {bytes : List UInt8} (h : encode m [] = .ok bytes) :
    (utf8 m.toWire).length + 2 ≤ maxMessageLen ∧ bytes = utf8 m.toWire ++ [13, 10] := by
  unfold encode at h
  dsimp only at h
  split_ifs at h with hlen
  rw [Except.ok.injEq, List.nil_append] at h
  exact ⟨by omega, h.symm⟩

theorem utf8_lineEnd (s : Str) : utf8 s ++ [13, 10] = utf8 (s ++ ['\r', '\n']) := by
  rw [utf8_append]
  rfl

theorem frameLen_encode {m : Message} (hline : m.Lineless) {bytes : List UInt8}
    (h : encode m [] = .ok bytes) : frameLen bytes = some bytes.length := by
  obtain ⟨-, rfl⟩ := encode_eq_ok h
  have hnone : pairAt 13 10 (utf8 m.toWire) = none :=
    pairAt_utf8_eq_none (by decide) (by decide) hline.pairAt_toWire
  rw [frameLen, pairAt_append_pair (by decide) hnone, List.length_append]
  rfl

/-- **What is read off a written message**: the message, with its parameters as they are read
back, and nothing is left. -/
theorem decode_encode {m : Message} (h : m.WellFormed) (hline : m.Lineless) {bytes : List UInt8}
    (henc : encode m [] = .ok bytes) :
    decode bytes = (.ok (some { m with params := received m.params }), []) := by
  have hframe := frameLen_encode hline henc
  obtain ⟨hlen, hbytes⟩ := encode_eq_ok henc
  have hlength : bytes.length ≤ maxMessageLen := by
    rw [hbytes, List.length_append]
    exact hlen
  have hline' : bytes = utf8 (m.toWire ++ ['\r', '\n']) := hbytes.trans (utf8_lineEnd _)
  have hparse := parse_toWire h (hline' ▸ hlength)
  have hresult : decodeFrame bytes = .ok { m with params := received m.params } := by
    unfold decodeFrame
    rw [if_neg (by omega), hline', fromUtf8?_utf8]
    simp only [hparse]
  simp only [decode, hframe, List.take_length, List.drop_length, hresult]
  rfl

/-- **Round trip**: a written message is read back exactly unless it has fifteen parameters and the
last is written after a colon. -/
theorem decode_encode_iff {m : Message} (h : m.WellFormed) (hline : m.Lineless)
    {bytes : List UInt8} (henc : encode m [] = .ok bytes) :
    decode bytes = (.ok (some m), []) ↔
      ¬ (m.params.length = maxParams ∧ ∃ last, m.params.getLast? = some last ∧ needsColon last) := by
  rw [← received_eq_iff, decode_encode h hline henc]
  constructor
  · intro heq
    simp only [Prod.mk.injEq, Except.ok.injEq, Option.some.injEq, and_true] at heq
    exact congrArg Message.params heq
  · intro heq
    rw [heq]

def fourteen : List Str := "abcdefghijklmn".toList.map fun c => [c]

theorem encode_of_le {m : Message} (h : (utf8 m.toWire).length + 2 ≤ maxMessageLen) :
    encode m [] = .ok (utf8 m.toWire ++ [13, 10]) := by
  unfold encode
  dsimp only
  rw [if_neg (by omega), List.nil_append]

theorem wellFormed_fourteen (last : Str) :
    Message.WellFormed { command := .privmsg, params := fourteen ++ [last] } where
  prefix_ p hp := by cases hp
  numeric code h := by cases h
  length := by
    have hlen : fourteen.length = 14 := by decide
    rw [List.length_append, hlen, List.length_singleton]
    exact le_rfl
  plain p hp := by
    rw [List.dropLast_concat] at hp
    have hplain : ∀ p ∈ fourteen, p ≠ [] ∧ ' ' ∉ p ∧ p.head? ≠ some ':' := by decide
    exact ⟨(hplain p hp).1, (hplain p hp).2.1, (hplain p hp).2.2⟩

theorem decode_encode_iff_fifteen :
    let m : Message := { command := .privmsg, params := fourteen ++ ["hello".toList] }
    decode (utf8 m.toWire ++ [13, 10]) = (.ok (some m), []) := by
  intro m
  have hline : m.Lineless := by
    unfold Message.Lineless
    decide +kernel
  have henc := encode_of_le (m := m) (by decide +kernel)
  refine (decode_encode_iff (wellFormed_fourteen _) hline henc).mpr ?_
  decide +kernel

/-- With a space in it, the fifteenth parameter comes back with its colon. -/
theorem decode_fifteenth_colon :
    ¬ ∀ (m : Message) (bytes : List UInt8), m.WellFormed → m.Lineless →
      encode m [] = .ok bytes → decode bytes = (.ok (some m), []) := by
  intro h
  have hline : Message.Lineless
      { command := .privmsg, params := fourteen ++ ["hello world".toList] } := by
    unfold Message.Lineless
    decide +kernel
  have henc := encode_of_le
    (m := { command := .privmsg, params := fourteen ++ ["hello world".toList] })
    (by decide +kernel)
  have hsame := h _ _ (wellFormed_fourteen _) hline henc
  rw [decode_encode (wellFormed_fourteen _) hline henc] at hsame
  simp only [Prod.mk.injEq, Except.ok.injEq, Option.some.injEq, and_true] at hsame
  exact absurd (congrArg Message.params hsame) (by decide +kernel)

/-! ## Streams of messages -/

/-- What is read off a frame when nothing else is in the buffer. -/
def readAlone (frame : List UInt8) : List (Except NetworkError Message) :=
  ((next.drain frame).map Prod.fst).getD []

theorem wellFramed_encode {m : Message} {frame : List UInt8} (h : encode m [] = .ok frame) :
    framing.WellFramed frame := by
  obtain ⟨hlen, rfl⟩ := encode_eq_ok h
  exact wellFramed_line hlen

theorem drain_readAlone {frame : List UInt8} (h : framing.WellFramed frame) :
    next.drain frame = some (readAlone frame, []) := by
  obtain ⟨results, hdrain, -⟩ := h.drain_append []
  rw [readAlone, next_eq, hdrain]
  rfl

theorem drain_flatten {frames : List (List UInt8)} (h : ∀ f ∈ frames, framing.WellFramed f) :
    next.drain frames.flatten = some (frames.flatMap readAlone, []) := by
  induction frames with
  | nil =>
    rw [next_eq]
    exact Framing.drain_nil
  | cons f frames ih =>
    have hf := h f List.mem_cons_self
    have hrest := ih fun g hg => h g (List.mem_cons_of_mem f hg)
    obtain ⟨results, hdrain, hall⟩ := hf.drain_append frames.flatten
    have halone := drain_readAlone hf
    rw [next_eq] at halone hrest ⊢
    rw [hdrain] at halone
    obtain ⟨rfl, -⟩ := Prod.mk.inj (Option.some.inj halone)
    rw [List.flatten_cons, hall, hrest, List.flatMap_cons]
    rfl

/-- A frame of a message without line ends gives one result and leaves nothing. -/
theorem readAlone_encode {m : Message} (hline : m.Lineless) {frame : List UInt8}
    (h : encode m [] = .ok frame) :
    next frame = (some (decodeFrame frame), []) ∧ readAlone frame = [decodeFrame frame] := by
  have hcut : framing.cut frame = some frame.length := frameLen_encode hline h
  have hdrain := Framing.drain_frame_append hcut []
  rw [List.append_nil, Framing.drain_nil] at hdrain
  constructor
  · rw [next_eq, Framing.decode, hcut]
    simp only [List.take_length, List.drop_length]
    rfl
  · rw [readAlone, next_eq, hdrain]
    rfl

/-- **Framing does not depend on chunking**: a stream of written messages that arrives in chunks
gives what its frames give alone, in order, and leaves nothing. A frame without line ends inside
gives one result alone. -/
theorem decode_chunks {ms : List Message} {frames chunks : List (List UInt8)}
    (henc : List.Forall₂ (fun m f => encode m [] = .ok f) ms frames)
    (hsplit : chunks.flatten = frames.flatten) :
    next.feed [] chunks = some (frames.flatMap readAlone, []) ∧
      (∀ f ∈ frames, next.drain f = some (readAlone f, [])) ∧
      List.Forall₂ (fun m f => m.Lineless →
        ∃ r, next f = (some r, []) ∧ readAlone f = [r]) ms frames := by
  have hframes : ∀ f ∈ frames, framing.WellFramed f := by
    clear hsplit
    induction henc with
    | nil =>
      intro f hf
      cases hf
    | cons hm _ ih =>
      intro f hf
      rcases List.mem_cons.mp hf with rfl | hmem
      · exact wellFramed_encode hm
      · exact ih f hmem
  refine ⟨?_, ?_, ?_⟩
  · have hidle : framing.decode.drain [] = some ([], []) := Framing.drain_nil
    have hall := drain_flatten hframes
    rw [next_eq] at hall ⊢
    rw [Framing.feed_eq (Framing.WellFramed.flatten hframes) hidle hsplit, hall]
  · intro f hf
    exact drain_readAlone (hframes f hf)
  · refine henc.imp ?_
    intro m f hm hline
    exact ⟨_, readAlone_encode hline hm⟩

def pingPong : List Message :=
  [{ command := .ping, params := ["a".toList] }, { command := .pong, params := ["b".toList] }]

def pingPongFrames : List (List UInt8) := [utf8 "PING a\r\n".toList, utf8 "PONG b\r\n".toList]

/-- They arrive in two chunks, the first of which ends between the two bytes of a line end. -/
theorem decode_chunks_pingPong :
    next.feed [] [pingPongFrames.flatten.take 7, pingPongFrames.flatten.drop 7] =
      some (pingPongFrames.flatMap readAlone, []) := by
  have henc : List.Forall₂ (fun m f => encode m [] = .ok f) pingPong pingPongFrames :=
    .cons (by decide +kernel) (.cons (by decide +kernel) .nil)
  exact (decode_chunks henc (by simp)).1

end PircCodec

end Pirc.Network
