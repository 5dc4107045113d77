import Pirc.Raft.Handlers
import Pirc.Network.Codec

/-!
# Raft: messages on the wire

`to_protocol_message` and `from_protocol_message` of `raft/rpc.rs`: a Raft message travels as the
JSON text of one `PIRC CLUSTER RAFT` message, through the codec of the network layer and its limit
of 512 bytes a line.

`serde_json` is a parameter: how it writes a command, and how it reads a message. Around the command
it writes what it documents: structures as objects with their fields in order, enumerations as an
object with the variant's name, identifiers as numbers, bytes as an array of numbers.
-/

namespace Pirc.Raft

open Protocol Network

variable {T : Type}

/-! ## JSON -/

def commaSeparated : List Str → Str
  | [] => []
  | [s] => s
  | s :: next :: rest => s ++ ',' :: commaSeparated (next :: rest)

def jsonObject (fields : List (String × Str)) : Str :=
  "\x7b".toList ++
    commaSeparated (fields.map fun f => "\"".toList ++ f.1.toList ++ "\":".toList ++ f.2) ++
    "\x7d".toList

def jsonArray (values : List Str) : Str := "[".toList ++ commaSeparated values ++ "]".toList

def jsonBool (b : Bool) : Str := if b then "true".toList else "false".toList

/-- How `serde_json` writes commands and reads messages; a failure has a text. -/
structure SerdeJson (T : Type) where
  command : T → Str
  fromStr : Str → Except Str (RaftMessage T)

def LogEntry.toJson (J : SerdeJson T) (e : LogEntry T) : Str :=
  jsonObject [("term", decimal e.term), ("index", decimal e.index), ("command", J.command e.command)]

/-- The JSON text of a message (`serde_json::to_string`). -/
def RaftMessage.toJson (J : SerdeJson T) : RaftMessage T → Str
  | .requestVote req =>
    jsonObject [("RequestVote", jsonObject
      [("term", decimal req.term), ("candidate_id", decimal req.candidateId),
        ("last_log_index", decimal req.lastLogIndex),
        ("last_log_term", decimal req.lastLogTerm)])]
  | .requestVoteResponse resp =>
    jsonObject [("RequestVoteResponse", jsonObject
      [("term", decimal resp.term), ("vote_granted", jsonBool resp.voteGranted)])]
  | .appendEntries req =>
    jsonObject [("AppendEntries", jsonObject
      [("term", decimal req.term), ("leader_id", decimal req.leaderId),
        ("prev_log_index", decimal req.prevLogIndex), ("prev_log_term", decimal req.prevLogTerm),
        ("entries", jsonArray (req.entries.map (LogEntry.toJson J))),
        ("leader_commit", decimal req.leaderCommit)])]
  | .appendEntriesResponse resp =>
    jsonObject [("AppendEntriesResponse", jsonObject
      [("term", decimal resp.term), ("success", jsonBool resp.success),
        ("match_index", decimal resp.matchIndex)])]
  | .installSnapshot req =>
    jsonObject [("InstallSnapshot", jsonObject
      [("term", decimal req.term), ("leader_id", decimal req.leaderId),
        ("last_included_index", decimal req.lastIncludedIndex),
        ("last_included_term", decimal req.lastIncludedTerm), ("offset", decimal req.offset),
        ("data", jsonArray (req.data.map fun b => decimal b.toNat)),
        ("done", jsonBool req.done)])]
  | .installSnapshotResponse resp =>
    jsonObject [("InstallSnapshotResponse", jsonObject [("term", decimal resp.term)])]

/-! ## Protocol messages -/

/-- Why a protocol message is not a Raft message: it has no payload, its payload is not read, or it
is another command (`expected PIRC CLUSTER RAFT`). -/
inductive RaftError
  | missingPayload
  | invalidJson (text : Str)
  | unexpectedCommand (command : Command)
  deriving DecidableEq

/-- Encode a Raft message into a protocol message. Writing these types as JSON does not fail. -/
def RaftMessage.toProtocolMessage (J : SerdeJson T) (msg : RaftMessage T) :
    Except RaftError Message :=
  .ok { command := .pirc .clusterRaft, params := [msg.toJson J] }

def RaftMessage.fromProtocolMessage (J : SerdeJson T) (m : Message) :
    Except RaftError (RaftMessage T) :=
  match m.command with
  | .pirc .clusterRaft =>
    match m.params.head? with
    | none => .error .missingPayload
    | some payload =>
      match J.fromStr payload with
      | .ok msg => .ok msg
      | .error text => .error (.invalidJson text)
  | command => .error (.unexpectedCommand command)

/-- **Delivery**: the message is written, read as one frame and understood as it was meant. -/
def Deliverable (J : SerdeJson T) (msg : RaftMessage T) : Prop :=
  ∃ m bytes m', msg.toProtocolMessage J = .ok m ∧ PircCodec.encode m [] = .ok bytes ∧
    PircCodec.decode bytes = (.ok (some m'), []) ∧
    RaftMessage.fromProtocolMessage J m' = .ok msg

/-! ## No line ends in JSON -/

section Lines

theorem notMem_commaSeparated : ∀ {values : List Str}, (∀ v ∈ values, '\r' ∉ v) →
    '\r' ∉ commaSeparated values
  | [], _ => List.not_mem_nil
  | [s], h => h s List.mem_cons_self
  | s :: next :: rest, h => by
    have ih := notMem_commaSeparated fun v hv => h v (List.mem_cons_of_mem s hv)
    have hs := h s List.mem_cons_self
    rw [commaSeparated, List.mem_append, List.mem_cons]
    rintro (hmem | hcomma | hmem)
    · exact hs hmem
    · exact absurd hcomma (by decide)
    · exact ih hmem

theorem notMem_jsonObject {fields : List (String × Str)}
    (h : ∀ f ∈ fields, '\r' ∉ f.1.toList ∧ '\r' ∉ f.2) : '\r' ∉ jsonObject fields := by
  have hfields : '\r' ∉ commaSeparated
      (fields.map fun f => "\"".toList ++ f.1.toList ++ "\":".toList ++ f.2) := by
    apply notMem_commaSeparated
    intro v hv
    obtain ⟨f, hf, rfl⟩ := List.mem_map.mp hv
    simp [h f hf]
  simp only [jsonObject, List.mem_append, not_or]
  exact ⟨⟨by decide, hfields⟩, by decide⟩

theorem notMem_jsonArray {values : List Str} (h : ∀ v ∈ values, '\r' ∉ v) :
    '\r' ∉ jsonArray values := by
  simp [jsonArray, notMem_commaSeparated h]

theorem notMem_decimal (n : ℕ) : '\r' ∉ decimal n := by
  intro hmem
  have hdigit := Nat.isDigit_of_mem_toDigits (by decide) le_rfl hmem
  exact absurd hdigit (by decide)

theorem notMem_jsonBool (b : Bool) : '\r' ∉ jsonBool b := by
  cases b
  all_goals decide

theorem RaftMessage.notMem_toJson {J : SerdeJson T} (h : ∀ c, '\r' ∉ J.command c)
    (msg : RaftMessage T) : '\r' ∉ msg.toJson J := by
  have hentry : ∀ e : LogEntry T, '\r' ∉ e.toJson J := by
    intro e
    apply notMem_jsonObject
    simp [notMem_decimal, h]
  have hentries : ∀ es : List (LogEntry T), '\r' ∉ jsonArray (es.map (LogEntry.toJson J)) := by
    intro es
    apply notMem_jsonArray
    intro v hv
    obtain ⟨e, -, rfl⟩ := List.mem_map.mp hv
    exact hentry e
  have hdata : ∀ bs : List UInt8, '\r' ∉ jsonArray (bs.map fun b => decimal b.toNat) := by
    intro bs
    apply notMem_jsonArray
    intro v hv
    obtain ⟨b, -, rfl⟩ := List.mem_map.mp hv
    exact notMem_decimal _
  cases msg with
  | _ msg =>
    apply notMem_jsonObject
    simp only [List.mem_singleton, forall_eq]
    refine ⟨by decide, notMem_jsonObject ?_⟩
    simp [notMem_decimal, notMem_jsonBool, hentries, hdata]

end Lines

/-! ## Delivery -/

section Delivery

variable {J : SerdeJson T} {msg : RaftMessage T}

def RaftMessage.carrier (J : SerdeJson T) (msg : RaftMessage T) : Message :=
  { command := .pirc .clusterRaft, params := [msg.toJson J] }

/-- The bytes of the line that carries a JSON text: the keywords, the text, after a colon where it
needs one, and the end of the line. -/
theorem length_carrier (J : SerdeJson T) (msg : RaftMessage T) :
    (utf8 (msg.carrier J).toWire).length + 2 =
      20 + (if needsColon (msg.toJson J) then 1 else 0) + (utf8 (msg.toJson J)).length := by
  have hkeywords : (utf8 (Message.commandToWire (.pirc .clusterRaft))).length = 17 := by
    decide +kernel
  have hspace : (String.utf8EncodeChar ' ').length = 1 := by decide
  have hcolon : (String.utf8EncodeChar ':').length = 1 := by decide
  simp only [RaftMessage.carrier, Message.toWire, Message.paramsToWire, List.nil_append]
  split_ifs
  · simp only [utf8_append, utf8_cons, List.length_append, hkeywords, hspace, hcolon]
    omega
  · simp only [utf8_append, utf8_cons, List.length_append, hkeywords, hspace]
    omega

theorem RaftMessage.carrier_wellFormed (J : SerdeJson T) (msg : RaftMessage T) :
    (msg.carrier J).WellFormed where
  prefix_ p hp := by cases hp
  numeric code h := by cases h
  length := by
    simp only [carrier, List.length_singleton]
    decide
  plain p hp := by cases hp

/-- **A message is deliverable exactly when its line fits** into 512 bytes, where `serde_json` reads
back what it wrote and escapes control characters. -/
theorem deliverable_iff (hread : J.fromStr (msg.toJson J) = .ok msg)
    (hescape : ∀ c, '\r' ∉ J.command c) :
    Deliverable J msg ↔
      (utf8 (msg.toJson J)).length + (if needsColon (msg.toJson J) then 1 else 0) ≤ 492 := by
  have hlen := length_carrier J msg
  constructor
  · rintro ⟨m, bytes, m', hm, henc, -, -⟩
    obtain rfl : msg.carrier J = m := Except.ok.inj hm
    have hfits := (PircCodec.encode_eq_ok henc).1
    unfold maxMessageLen at hfits
    omega
  · intro hfits
    have henc := PircCodec.encode_of_le (m := msg.carrier J) (by
      unfold maxMessageLen
      omega)
    have hline : (msg.carrier J).Lineless := by
      intro s hs
      obtain rfl : s = msg.toJson J := List.mem_singleton.mp hs
      have hnone := pairAt_append_of_notMem (b := '\n') (msg.notMem_toJson hescape) [] rfl
      rwa [List.append_nil] at hnone
    have hdecode := PircCodec.decode_encode (msg.carrier_wellFormed J) hline henc
    have hreceived : received (msg.carrier J).params = (msg.carrier J).params := by
      apply received_of_length
      simp only [RaftMessage.carrier, List.length_singleton]
      decide
    rw [hreceived] at hdecode
    refine ⟨_, _, _, rfl, henc, hdecode, ?_⟩
    simp only [RaftMessage.fromProtocolMessage, RaftMessage.carrier, List.head?_cons, hread]

theorem length_commaSeparated : ∀ {values : List Str}, (∀ v ∈ values, v ≠ []) →
    2 * values.length ≤ (commaSeparated values).length + 1
  | [], _ => Nat.zero_le _
  | [s], h => by
    have hpos := List.length_pos_of_ne_nil (h s List.mem_cons_self)
    simp only [commaSeparated, List.length_singleton]
    omega
  | s :: next :: rest, h => by
    have ih := length_commaSeparated fun v hv => h v (List.mem_cons_of_mem s hv)
    have hpos := List.length_pos_of_ne_nil (h s List.mem_cons_self)
    simp only [commaSeparated, List.length_cons, List.length_append] at ih ⊢
    omega

theorem length_le_jsonObject {fields : List (String × Str)} {f : String × Str} (hf : f ∈ fields) :
    f.2.length ≤ (jsonObject fields).length := by
  have hjoin : ∀ {values : List Str} {v : Str}, v ∈ values →
      v.length ≤ (commaSeparated values).length := by
    intro values v hv
    induction values using commaSeparated.induct with
    | case1 => cases hv
    | case2 s => rw [List.mem_singleton.mp hv, commaSeparated]
    | case3 s next rest ih =>
      rw [commaSeparated, List.length_append, List.length_cons]
      rcases List.mem_cons.mp hv with rfl | hmem
      · omega
      · have hrest := ih hmem
        omega
  have hmem : "\"".toList ++ f.1.toList ++ "\":".toList ++ f.2 ∈
      fields.map fun f => "\"".toList ++ f.1.toList ++ "\":".toList ++ f.2 :=
    List.mem_map_of_mem hf
  have hle := hjoin hmem
  simp only [jsonObject, List.length_append] at hle ⊢
  omega

/-- **Snapshot chunks do not fit**: the bytes are written as numbers with commas, so a chunk of 246
bytes is longer than a line. -/
theorem not_deliverable_of_length {req : InstallSnapshot} (h : 246 ≤ req.data.length) :
    ¬ Deliverable J (.installSnapshot req) := by
  rintro ⟨m, bytes, m', hm, henc, -, -⟩
  obtain rfl : (RaftMessage.installSnapshot req).carrier J = m := Except.ok.inj hm
  have hfits := (PircCodec.encode_eq_ok henc).1
  rw [length_carrier] at hfits
  have hchars := length_le_length_utf8 ((RaftMessage.installSnapshot req).toJson J)
  have hdata : 2 * req.data.length + 1 ≤
      (jsonArray (req.data.map fun b => decimal b.toNat)).length := by
    have hvalues : ∀ v ∈ req.data.map (fun b => decimal b.toNat), v ≠ [] := by
      intro v hv
      obtain ⟨b, -, rfl⟩ := List.mem_map.mp hv
      exact Nat.toDigits_ne_nil
    have hle := length_commaSeparated hvalues
    rw [List.length_map] at hle
    simp only [jsonArray, List.length_append]
    have hopen : ("[".toList).length = 1 := by decide
    have hclose : ("]".toList).length = 1 := by decide
    omega
  have hinner : (jsonArray (req.data.map fun b => decimal b.toNat)).length ≤
      ((RaftMessage.installSnapshot req).toJson J).length := by
    rw [RaftMessage.toJson]
    refine le_trans ?_ (length_le_jsonObject List.mem_cons_self)
    refine length_le_jsonObject (f := ("data", jsonArray (req.data.map fun b => decimal b.toNat))) ?_
    simp
  unfold maxMessageLen at hfits
  omega

end Delivery

section Numbers

def numberJson (msg : RaftMessage ℕ) : SerdeJson ℕ :=
  let J : SerdeJson ℕ := { command := decimal, fromStr := fun _ => .error [] }
  { J with
    fromStr := fun s =>
      if s = msg.toJson J then .ok msg else .error "expected value at line 1 column 1".toList }

theorem numberJson_fromStr (msg : RaftMessage ℕ) :
    (numberJson msg).fromStr (msg.toJson (numberJson msg)) = .ok msg := by
  have hsame : msg.toJson (numberJson msg) =
      msg.toJson { command := decimal, fromStr := fun _ => .error [] } := by
    cases msg
    all_goals rfl
  rw [hsame]
  exact if_pos rfl

/-- A vote request is delivered. -/
theorem deliverable_iff_requestVote :
    Deliverable (numberJson (.requestVote ⟨5, 1, 10, 4⟩)) (.requestVote ⟨5, 1, 10, 4⟩) :=
  (deliverable_iff (numberJson_fromStr _) notMem_decimal).mpr (by decide +kernel)

def snapshotHolder : RaftNode ℕ :=
  RaftNode.new { nodeId := 1, peers := [2] }
    { disk := { snapshot := some ⟨1, 1, List.replicate 300 0⟩ } }

def wholeChunk : InstallSnapshot := ⟨0, 1, 1, 1, 0, List.replicate 300 0, true⟩

/-- What a node sends need not be deliverable: here a snapshot in one chunk of 300 bytes, far below
the chunk size. -/
theorem snapshot_chunk_undeliverable :
    ¬ ∀ (J : SerdeJson ℕ) (node : RaftNode ℕ) (peer : NodeId) (msg : RaftMessage ℕ),
      J.fromStr (msg.toJson J) = .ok msg → (∀ c, '\r' ∉ J.command c) →
      (peer, msg) ∈ (node.sendSnapshotToPeer peer).outbound → Deliverable J msg := by
  intro h
  have hsent : (2, RaftMessage.installSnapshot wholeChunk) ∈
      (snapshotHolder.sendSnapshotToPeer 2).outbound := by
    decide +kernel
  have hdelivered := h _ _ 2 _ (numberJson_fromStr _) notMem_decimal hsent
  refine not_deliverable_of_length ?_ hdelivered
  rw [wholeChunk, List.length_replicate]
  decide

end Numbers

end Pirc.Raft
