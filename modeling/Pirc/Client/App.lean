import Pirc.Client.EncryptionManager
import Pirc.Lib.Base64
import Pirc.Network.Codec
import Pirc.Network.Uploads

/-!
# Client: private messages of the app

`app/encryption.rs`: how the app sends private messages, and what it does with the messages of key
exchanges and the encrypted messages that arrive. What is shown on the screen, other than the
messages that were decrypted, and what is kept on disk is not modelled. A connection takes whatever
the codec accepts.
-/

namespace Pirc.Client

open Crypto Protocol Network

def keyExchangeChunkSize : ℕ := 400

/-- The app; its connection is what was written on it. The decrypted messages are shown in the order
they came. -/
structure App where
  connection : Option (List Message) := none
  encryption : EncryptionManager
  rng : OsRng
  chunkBufs : Str → Option ChunkBuffer := fun _ => none
  received : List (Str × List UInt8) := []

/-- The messages that carry the data of a key exchange: one, or as many chunks as it takes. The data
is base64, whose bytes are its characters. -/
def keyExchangeMessages (target data : Str) : List Message :=
  if data.length ≤ keyExchangeChunkSize then
    [{ command := .pirc .keyExchange, params := [target, data] }]
  else
    (numbered (chunks keyExchangeChunkSize data)).map fun (chunk, n, total) =>
      { command := .pirc .keyExchange, params := [target, chunkHeader n total, chunk] }

namespace App

variable (P : IdentityPrimitives) (app : App)

/-! ## Writing -/

def written : List Message := app.connection.getD []

/-- Write a message, if there is a connection; false if the codec refuses it. -/
def send (msg : Message) : Bool × App :=
  match app.connection with
  | none => (true, app)
  | some written =>
    match PircCodec.encode msg [] with
    | .ok _ => (true, { app with connection := some (written ++ [msg]) })
    | .error _ => (false, app)

/-- Write messages up to the first that is refused. -/
def sendAll (app : App) : List Message → Bool × App
  | [] => (true, app)
  | msg :: msgs =>
    match app.send msg with
    | (true, app) => sendAll app msgs
    | (false, app) => (false, app)

def sendChunkedKeyExchange (target data : Str) : Bool × App :=
  app.sendAll (keyExchangeMessages target data)

def sendEncryptedMessage (peer : Str) (encrypted : EncryptedMessage) : App :=
  (app.send
    { command := .pirc .encrypted, params := [peer, Base64.encode encrypted.toBytes] }).2

def onEncryption {α : Type} (x : CryptoM EncryptionManager α) : Except CryptoError α × App :=
  match x.run (app.encryption, app.rng) with
  | .ok a (manager, rng) => (.ok a, { app with encryption := manager, rng := rng })
  | .error e (manager, rng) => (.error e, { app with encryption := manager, rng := rng })

/-! ## Key exchanges -/

def uploadPreKeyBundle : App :=
  (app.sendChunkedKeyExchange ['*']
    (Base64.encode (KeyExchangeMessage.bundle (app.encryption.createPreKeyBundle P)).toBytes)).2

def handleRequestBundle (requester : Str) : App :=
  (app.sendChunkedKeyExchange requester
    (Base64.encode (KeyExchangeMessage.bundle (app.encryption.createPreKeyBundle P)).toBytes)).2

/-- A bundle that we requested, or not: our half of the exchange, and the messages that waited for
it. -/
def handleBundleResponse (peer : Str) (bundle : PreKeyBundle) : App :=
  match app.onEncryption (EncryptionManager.handleBundleResponse P peer bundle) with
  | (.error _, app) => app
  | (.ok (init, encryptedQueued), app) =>
    match app.sendChunkedKeyExchange peer
        (Base64.encode (KeyExchangeMessage.initMessage init).toBytes) with
    | (false, app) => app
    | (true, app) =>
      encryptedQueued.foldl (fun app encrypted => app.sendEncryptedMessage peer encrypted) app

def handleInitMessage (peer : Str) (init : X3DHInitMessage) : App :=
  match app.onEncryption (EncryptionManager.handleInitMessage P peer init) with
  | (.ok .complete, app) =>
    (app.send { command := .pirc .keyExchangeComplete, params := [peer] }).2
  | (_, app) => app

def handleKeyExchangeComplete (peer : Str) : App :=
  { app with encryption := app.encryption.handleComplete peer }

def handleKeyExchangeMessage (sender data : Str) : App :=
  match (Base64.decode data).map P.parseKeyExchange with
  | some (.ok .requestBundle) => app.handleRequestBundle P sender
  | some (.ok (.bundle bundle)) => app.handleBundleResponse P sender bundle
  | some (.ok (.initMessage init)) => app.handleInitMessage P sender init
  | some (.ok .complete) => app.handleKeyExchangeComplete sender
  | _ => app

def handleEncryptedMessage (sender data : Str) : App :=
  match (Base64.decode data).map EncryptedMessage.fromBytes with
  | some (.ok encrypted) =>
    match app.onEncryption (EncryptionManager.decrypt P sender encrypted) with
    | (.ok plaintext, app) => { app with received := app.received ++ [(sender, plaintext)] }
    | (.error _, app) => app
  | _ => app

/-- The data that a message of a key exchange completes, if it does: a chunk does only with all the
others. -/
def assemble (sender : Str) : List Str → Option Str × App
  | _ :: header :: chunk :: _ =>
    match parseChunkHeader header with
    | some (n, total) =>
      let (data, buffer) := addChunk (app.chunkBufs sender) chunk n total
      (data, { app with chunkBufs := Function.update app.chunkBufs sender buffer })
    | none => (some header, app)
  | [_, data] => (some data, app)
  | _ => (none, app)

/-- A message that arrives; false if it is not one of another user about encryption. -/
def handlePircMessage (msg : Message) : Bool × App :=
  match msg.prefix_ with
  | some (.user nick _ _) =>
    let sender := nick.name
    match msg.command with
    | .pirc .keyExchange =>
      match app.assemble sender msg.params with
      | (some data, app) => (true, app.handleKeyExchangeMessage P sender data)
      | (none, app) => (true, app)
    | .pirc .keyExchangeComplete => (true, app.handleKeyExchangeComplete sender)
    | .pirc .encrypted =>
      match msg.params[1]? with
      | some data => (true, app.handleEncryptedMessage P sender data)
      | none => (true, app)
    | _ => (false, app)
  | _ => (false, app)

/-! ## Private messages -/

def queueMessage (peer text : Str) : App :=
  { app with encryption := (app.encryption.queueMessage peer (utf8 text)).2 }

def initiateKeyExchange (peer : Str) (queuedMessage : Option Str) : App :=
  if app.encryption.hasPendingExchange peer then
    queuedMessage.elim app fun text => app.queueMessage peer text
  else
    let (message, manager) := app.encryption.initiateKeyExchange peer
    let app := { app with encryption := manager }
    match app.send
        { command := .pirc .keyExchange, params := [peer, Base64.encode message.toBytes] } with
    | (false, app) => app
    | (true, app) => queuedMessage.elim app fun text => app.queueMessage peer text

/-- Encrypt and send a message, or queue it; false if there is a session but it cannot encrypt. -/
def sendPrivateMessage (peer text : Str) : Bool × App :=
  if app.encryption.hasSession peer then
    match app.onEncryption (EncryptionManager.encrypt P peer (utf8 text)) with
    | (.ok encrypted, app) => (true, app.sendEncryptedMessage peer encrypted)
    | (.error _, app) => (false, app)
  else if app.encryption.hasPendingExchange peer then (true, app.queueMessage peer text)
  else (true, app.initiateKeyExchange peer (some text))

def privmsg (target text : Str) : Message := { command := .privmsg, params := [target, text] }

/-- `/msg` and `/query`: without encryption the text is sent as it is. -/
def handlePrivateMsgCommand (target message : Str) : App :=
  if app.connection.isNone then app
  else
    match app.sendPrivateMessage P target message with
    | (true, app) => app
    | (false, app) => (app.send (privmsg target message)).2

def handleEncryptionReset (nick : Str) : App :=
  { app with encryption := app.encryption.removeSession nick }

/-! ## What arrives in chunks -/

/-- The app keeps the chunks of its peers apart. -/
def keyExchangeReassembler : Reassembler Str Str App where
  fold := id
  add app sender chunk n total := app.assemble sender [[], chunkHeader n total, chunk]
  waiting := App.chunkBufs
  add_fst app sender chunk n total hn hle htotal := by
    simp [assemble, parseChunkHeader_chunkHeader hn hle htotal]
  waiting_add app sender chunk n total peer hn hle htotal := by
    simp [assemble, parseChunkHeader_chunkHeader hn hle htotal, Function.update_apply, eq_comm]

/-- **Key exchanges in chunks**: what the app puts together is what its peers sent to the end, each
once. -/
theorem keyExchanges_assembled {app : App} (hnone : ∀ sender, app.chunkBufs sender = none)
    {s : Uploading Str App}
    (hrun : System.Steps (uploading keyExchangeReassembler) System.Free { store := app } s) :
    s.returned = s.completed :=
  uploads_returned hnone hrun

/-- The message, as the server relays it. -/
def fromUser (nick : Nickname) (user host : Str) (msg : Message) : Message :=
  { msg with prefix_ := some (.user nick user host) }

/-- The user has something to say to a peer, and the bundle of a peer comes. -/
def contacts (peer text : Str) (bundle : PreKeyBundle) : App :=
  (app.initiateKeyExchange peer (some text)).handleBundleResponse P peer bundle

end App

def toyApp : App :=
  { connection := some [], encryption := EncryptionManager.toyManager, rng := toyRng }

end Pirc.Client
