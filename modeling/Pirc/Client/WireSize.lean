import Pirc.Client.App
import Pirc.Crypto.Encryption
import Pirc.Server.PircCommands

/-!
# Client: encrypted messages on the wire

An encrypted message has a header of its own, two authentication tags and two nonces, and is written
in base64. Nothing looks at its length before the codec does: the client's, and the server's once
the sender's prefix is there.
-/

namespace Pirc.Client

open Crypto Protocol Network Server

def encryptedMsg (peer : Str) (encrypted : EncryptedMessage) : Message :=
  { command := .pirc .encrypted, params := [peer, Base64.encode encrypted.toBytes] }

def Accepted (msg : Message) : Prop := (PircCodec.encode msg []).isOk = true

instance (msg : Message) : Decidable (Accepted msg) := inferInstanceAs (Decidable (_ = true))

/-- **An encrypted message fits**: the client's codec accepts it, and the server's accepts it with
the sender's prefix. -/
def Fits (sender : UserSession) (peer : Str) (encrypted : EncryptedMessage) : Prop :=
  Accepted (encryptedMsg peer encrypted) ∧
    Accepted (relayed sender (.pirc .encrypted) (encryptedMsg peer encrypted).params)

def AddsTag (P : Primitives) : Prop :=
  ∀ key nonce plaintext aad ciphertext, P.aesEncrypt key nonce plaintext aad = some ciphertext →
    ciphertext.length = plaintext.length + tagSize

/-- The bytes of the relayed line for a text of `n` bytes: the prefix, the command, the peer and the
encrypted text in base64, with the end of the line. -/
def relayedLen (sender : UserSession) (peer : Str) (n : ℕ) : ℕ :=
  (utf8 sender.nickname.name).length + (utf8 sender.username).length +
    (utf8 sender.hostname).length + (utf8 peer).length + (n + 105 + 2) / 3 * 4 + 22

/-! ## Lengths -/

section Lengths

variable {P : Primitives} {session : TripleRatchetSession} {rng : OsRng} {text peer : Str}
  {encrypted : EncryptedMessage} {t : TripleRatchetSession × OsRng} {sender : UserSession}

theorem AddsTag.length_encrypt (h : AddsTag P) {key : Key} {nonce : Nonce}
    {plaintext aad ciphertext : List UInt8} (hrun : P.encrypt key nonce plaintext aad = .ok ciphertext) :
    ciphertext.length = plaintext.length + tagSize := by
  unfold Primitives.encrypt at hrun
  rcases haes : P.aesEncrypt key nonce plaintext aad with - | c
  · rw [haes] at hrun
    cases hrun
  · rw [haes] at hrun
    cases hrun
    exact h _ _ _ _ _ haes

theorem length_fieldBytes {n : ℕ} (field : Option (Bytes n)) :
    (fieldBytes field).length = if field.isSome then n else 0 := by
  rcases field with - | bytes
  · rfl
  · exact bytes.2

theorem length_header {header : MessageHeader} {due : Bool}
    (hct : header.kemCiphertext.isSome = due) (hpk : header.kemPublic.isSome = due) :
    header.toBytes.length = if due then 2313 else 41 := by
  have hdh : header.dhPublic.val.length = 32 := header.dhPublic.2
  simp only [MessageHeader.toBytes, List.length_append, length_fieldBytes, length_beBytes, hct, hpk,
    hdh, List.length_singleton]
  rcases due
  · rfl
  · rfl

/-- **The bytes of an encrypted message.** -/
theorem length_toBytes (h : AddsTag P) {plaintext : List UInt8}
    (hrun : (P.encryptMessage plaintext).run (session, rng) = .ok encrypted t) :
    encrypted.toBytes.length = plaintext.length + if session.pqDue then 2377 else 105 := by
  obtain ⟨⟨key, header, hheader, hct, hpk⟩, key', hbody⟩ := EncryptedBy.of_ok hrun
  have hheaderLen := h.length_encrypt hheader
  have hbodyLen := h.length_encrypt hbody
  rw [length_header hct hpk] at hheaderLen
  have hnonce : encrypted.headerNonce.val.length = 12 := encrypted.headerNonce.2
  have hnonce' : encrypted.bodyNonce.val.length = 12 := encrypted.bodyNonce.2
  simp only [EncryptedMessage.toBytes, List.length_append, length_beBytes, hheaderLen, hbodyLen,
    hnonce, hnonce', tagSize]
  split_ifs
  · omega
  · omega

theorem length_utf8_encode (bytes : List UInt8) :
    (utf8 (Base64.encode bytes)).length = (bytes.length + 2) / 3 * 4 := by
  have hascii : ∀ s : Str, (∀ c ∈ s, Base64.Plain c) → (utf8 s).length = s.length := by
    intro s hs
    induction s with
    | nil => rfl
    | cons c s ih =>
      have hfirst := utf8EncodeChar_of_ascii (hs c List.mem_cons_self).1
      rw [utf8_cons, hfirst, List.length_append, ih fun c hc => hs c (List.mem_cons_of_mem _ hc)]
      simp [Nat.add_comm]
  rw [hascii _ fun c hc => Base64.plain_of_mem_encode hc, Base64.length_encode]

/-! ## Lines -/

theorem accepted_iff {msg : Message} :
    Accepted msg ↔ (utf8 msg.toWire).length + 2 ≤ maxMessageLen := by
  unfold Accepted PircCodec.encode
  dsimp only
  split_ifs with hlong
  · exact iff_of_false Bool.false_ne_true (by omega)
  · exact iff_of_true rfl (by omega)

theorem needsColon_encode {bytes : List UInt8} (h : bytes ≠ []) :
    needsColon (Base64.encode bytes) = false := by
  have hplain : ∀ c ∈ Base64.encode bytes, Base64.Plain c := fun c => Base64.plain_of_mem_encode
  have hlength := Base64.length_encode bytes
  have hpos := List.length_pos_of_ne_nil h
  rcases hencode : Base64.encode bytes with - | ⟨c, rest⟩
  · rw [hencode, List.length_nil] at hlength
    omega
  · rw [hencode] at hplain
    have hspace : ' ' ∉ c :: rest := fun hmem => (hplain _ hmem).2.1 rfl
    have hcolon : c ≠ ':' := (hplain c List.mem_cons_self).2.2
    simp [needsColon, hspace, hcolon]

theorem length_encryptedMsg (hne : encrypted.toBytes ≠ []) :
    (utf8 (encryptedMsg peer encrypted).toWire).length =
      (utf8 peer).length + (encrypted.toBytes.length + 2) / 3 * 4 + 16 := by
  have hname : (utf8 (Message.commandToWire (.pirc .encrypted))).length = 14 := by decide
  simp only [encryptedMsg, Message.toWire, Message.paramsToWire, needsColon_encode hne, List.nil_append,
    utf8_append, List.length_append, hname, Bool.false_eq_true, if_false, utf8_cons,
    length_utf8_encode, List.cons_append]
  have hspace : (String.utf8EncodeChar ' ').length = 1 := by decide
  omega

theorem length_relayed :
    (utf8 (relayed sender (.pirc .encrypted) (encryptedMsg peer encrypted).params).toWire).length =
      (utf8 sender.nickname.name).length + (utf8 sender.username).length +
        (utf8 sender.hostname).length + (utf8 (encryptedMsg peer encrypted).toWire).length + 4 := by
  have hwire : (relayed sender (.pirc .encrypted) (encryptedMsg peer encrypted).params).toWire =
      (':' :: sender.userPrefix.toWire ++ [' ']) ++ (encryptedMsg peer encrypted).toWire := by
    simp [relayed, encryptedMsg, Message.toWire]
  have hcolon : (String.utf8EncodeChar ':').length = 1 := rfl
  have hbang : (String.utf8EncodeChar '!').length = 1 := rfl
  have hat : (String.utf8EncodeChar '@').length = 1 := rfl
  have hspace : (String.utf8EncodeChar ' ').length = 1 := rfl
  rw [hwire]
  simp only [UserSession.userPrefix, Prefix.toWire, utf8_append, utf8_cons, List.length_append,
    List.cons_append, utf8_nil, List.length_nil, hcolon, hbang, hat, hspace]
  ring

/-- **Encrypted messages fit** exactly if no post-quantum step is due, and the line that the server
writes has room for the base64. -/
theorem fits_iff (h : AddsTag P)
    (hrun : (P.encryptMessage (utf8 text)).run (session, rng) = .ok encrypted t) (sender : UserSession)
    (peer : Str) :
    Fits sender peer encrypted ↔
      session.pqDue = false ∧ relayedLen sender peer (utf8 text).length ≤ maxMessageLen := by
  have hlength := length_toBytes h hrun
  have hne : encrypted.toBytes ≠ [] := by
    intro hnil
    rw [hnil, List.length_nil] at hlength
    split_ifs at hlength
  unfold Fits relayedLen
  rw [accepted_iff, accepted_iff, length_relayed, length_encryptedMsg hne, hlength]
  have hmax : maxMessageLen = 512 := rfl
  rcases hdue : session.pqDue with - | -
  · simp only [Bool.false_eq_true, if_false, true_and]
    omega
  · simp only [if_true, Bool.true_eq_false, false_and, iff_false]
    omega

end Lengths

/-! ## Long texts -/

section Toy

def taggingPrimitives : Primitives :=
  { toyPrimitives with
    aesEncrypt := fun key _ plaintext _ => some (key.val.take tagSize ++ plaintext)
    aesDecrypt := fun key _ ciphertext _ =>
      if ciphertext.take tagSize = key.val.take tagSize then some (ciphertext.drop tagSize) else none }

theorem taggingPrimitives_addsTag : AddsTag taggingPrimitives := by
  intro key nonce plaintext aad ciphertext haes
  obtain rfl : key.val.take tagSize ++ plaintext = ciphertext := Option.some.inj haes
  have hkey : key.val.length = 32 := key.2
  rw [List.length_append, List.length_take, hkey]
  unfold tagSize
  omega

def taggedSession : TripleRatchetSession :=
  (taggingPrimitives.keySchedule toyKey toyPair toyRng).senderSession toyKemPair.ek toyKemPair

def aliceSession : UserSession :=
  { connectionId := 1, nickname := alice, username := "al".toList, realname := "Alice".toList,
    hostname := "host".toList, signonTime := 0, lastActive := 0 }

def sealed (text : Str) : Option EncryptedMessage :=
  match (taggingPrimitives.encryptMessage (utf8 text)).run (taggedSession, toyRng) with
  | .ok encrypted _ => some encrypted
  | .error _ _ => none

theorem short_text_fits :
    ∃ encrypted t, (taggingPrimitives.encryptMessage (utf8 "hi".toList)).run
        (taggedSession, toyRng) = .ok encrypted t ∧ Fits aliceSession "bob".toList encrypted := by
  have hsome : (sealed "hi".toList).isSome = true := by decide +kernel
  unfold sealed at hsome
  rcases hrun : (taggingPrimitives.encryptMessage (utf8 "hi".toList)).run (taggedSession, toyRng) with
    ⟨encrypted, t⟩ | ⟨e, t⟩
  · have hfits := (fits_iff taggingPrimitives_addsTag hrun aliceSession "bob".toList).mpr
      ⟨by decide, by decide⟩
    exact ⟨encrypted, t, rfl, hfits⟩
  · rw [hrun] at hsome
    cases hsome

def longText : Str := List.replicate 300 'a'

/-- **A long text** fits a line as it is, but the codec of its sender refuses it encrypted. -/
theorem long_text_refused :
    Accepted (App.privmsg "bob".toList longText) ∧ (sealed longText).isSome = true ∧
      ∀ encrypted ∈ sealed longText, ¬ Accepted (encryptedMsg "bob".toList encrypted) := by
  decide +kernel

end Toy

end Pirc.Client
