import Pirc.Lib.Decimal
import Pirc.Protocol.Message

/-!
# Network: texts in chunks

Client and server send a text that does not fit one message in chunks, numbered `n/total` from one,
and put such chunks together again (`app/encryption.rs`, `handler.rs` and `prekey_store.rs`, which
do it in the same way).
-/

namespace Pirc.Network

open Protocol

/-! ## Chunks and their numbers -/

/-- A list in pieces of `size`, the last maybe shorter (`slice::chunks`). -/
def chunks {α : Type} (size : ℕ) (l : List α) : List (List α) :=
  (List.range ((l.length + size - 1) / size)).map fun i => (l.drop (i * size)).take size

/-- The number of a chunk, and of how many. -/
def chunkHeader (n total : ℕ) : Str := decimal n ++ '/' :: decimal total

/-- `str::parse` for `usize`, which has 64 bits. -/
def parseUsize (s : Str) : Option ℕ := (Decimal.parse 64 s).toOption

/-- The numbers of a chunk header, if it is one. -/
def parseChunkHeader (s : Str) : Option (ℕ × ℕ) := do
  let n ← parseUsize (s.takeWhile (· ≠ '/'))
  -- there is a slash, and the total is after the first one
  guard ('/' ∈ s)
  let total ← parseUsize (s.dropWhile (· ≠ '/')).tail
  if 1 ≤ n ∧ 1 ≤ total ∧ n ≤ total then some (n, total) else none

/-! ## Putting chunks together -/

/-- Chunks that wait for the others. -/
structure ChunkBuffer where
  chunks : List (Option Str)
  total : ℕ
  deriving DecidableEq

def ChunkBuffer.empty (total : ℕ) : ChunkBuffer := ⟨List.replicate total none, total⟩

/-- One more chunk: the text once all are there. Another total begins anew. -/
def addChunk (buffer : Option ChunkBuffer) (chunk : Str) (n total : ℕ) :
    Option Str × Option ChunkBuffer :=
  let entry := buffer.getD (.empty total)
  let entry := if entry.total ≠ total then .empty total else entry
  let entry :=
    if 1 ≤ n ∧ n ≤ total then { entry with chunks := entry.chunks.set (n - 1) (some chunk) } else entry
  if entry.chunks.all Option.isSome then
    (some (entry.chunks.map (·.getD [])).flatten, none)
  else (none, some entry)

def numbered (pieces : List Str) : List (Str × ℕ × ℕ) :=
  pieces.mapIdx fun i piece => (piece, i + 1, pieces.length)

/-! ## Round trips -/

/-- **The chunks of a list are the list.** -/
theorem chunks_flatten {α : Type} {size : ℕ} (hsize : 0 < size) (l : List α) :
    (chunks size l).flatten = l := by
  have hlead : ∀ k, ((List.range k).map fun i => (l.drop (i * size)).take size).flatten =
      l.take (k * size) := by
    intro k
    induction k with
    | zero => simp
    | succ k ih =>
      rw [List.range_succ, List.map_append, List.flatten_append, ih, Nat.succ_mul, List.take_add]
      simp
  unfold chunks
  rw [hlead, List.take_of_length_le]
  have hdiv := Nat.div_add_mod (l.length + size - 1) size
  have hmod := Nat.mod_lt (l.length + size - 1) hsize
  rw [Nat.mul_comm]
  omega

theorem isDigit_of_mem_decimal {n : ℕ} {c : Char} (h : c ∈ decimal n) : c.isDigit = true :=
  Decimal.isDigit_of_mem_toDigits h

/-- A header is read as it was written. -/
theorem parseChunkHeader_chunkHeader {n total : ℕ} (hn : 1 ≤ n) (hle : n ≤ total)
    (htotal : total < 2 ^ 64) : parseChunkHeader (chunkHeader n total) = some (n, total) := by
  have hslash : ∀ c ∈ decimal n, c ≠ '/' := by
    rintro c hc rfl
    exact absurd (isDigit_of_mem_decimal hc) (by decide)
  have htake : (chunkHeader n total).takeWhile (· ≠ '/') = decimal n := by
    rw [chunkHeader, List.takeWhile_append_of_pos (by simpa using hslash)]
    simp
  have hdrop : (chunkHeader n total).dropWhile (· ≠ '/') = '/' :: decimal total := by
    rw [chunkHeader, List.dropWhile_append_of_pos (by simpa using hslash)]
    simp
  have hread : ∀ m < 2 ^ 64, parseUsize (decimal m) = some m := fun m hm =>
    congrArg Except.toOption (Decimal.parse_toDigits hm)
  rw [parseChunkHeader, htake, hdrop, List.tail_cons, hread n (hle.trans_lt htotal), hread total htotal]
  simp [chunkHeader, hn, hle, hn.trans hle]

/-- The first places hold texts, and the others wait. -/
def ChunkBuffer.holding (texts : List Str) (total : ℕ) : ChunkBuffer :=
  ⟨texts.map some ++ List.replicate (total - texts.length) none, total⟩

/-- The buffer that a chunk goes to: another total begins anew. -/
def resume (buffer : Option ChunkBuffer) (total : ℕ) : ChunkBuffer :=
  let entry := buffer.getD (.empty total)
  if entry.total ≠ total then .empty total else entry

theorem set_holding {pieces texts : List Str} {k total : ℕ} (hk : k < pieces.length)
    (hle : k ≤ texts.length) (hlt : texts.length < total) (hsame : texts.take k = pieces.take k) :
    (ChunkBuffer.holding texts total).chunks.set k (some pieces[k]) =
      (ChunkBuffer.holding (pieces.take (k + 1) ++ texts.drop (k + 1)) total).chunks := by
  have hlead : pieces.take (k + 1) = texts.take k ++ [pieces[k]] := by
    rw [hsame, List.take_succ_eq_append_getElem hk]
  unfold ChunkBuffer.holding
  dsimp only
  rw [hlead]
  rcases hle.eq_or_lt with rfl | hheld
  · -- the first place that waits
    have hrest : total - texts.length = total - (texts.length + 1) + 1 := by omega
    rw [List.set_append_right _ _ (by simp), hrest, List.replicate_succ]
    simp
  · have hlen : (texts.take k ++ [pieces[k]] ++ texts.drop (k + 1)).length = texts.length := by
      simp
      omega
    rw [hlen, List.set_append_left _ _ (by simpa using hheld), ← List.map_set,
      List.set_eq_take_append_cons_drop, if_pos hheld, List.append_assoc]
    rfl

/-- **One more chunk** in order, where chunks of an earlier text may still be held: the last one
gives the text, since it and all before it are the text's own. -/
theorem addChunk_holding {pieces texts : List Str} {k : ℕ} (hk : k < pieces.length)
    {buffer : Option ChunkBuffer} (hbuffer : resume buffer pieces.length = .holding texts pieces.length)
    (hle : k ≤ texts.length) (hlt : texts.length < pieces.length)
    (hsame : texts.take k = pieces.take k) :
    addChunk buffer pieces[k] (k + 1) pieces.length =
      if k + 1 = pieces.length then (some pieces.flatten, none)
      else (none, some (.holding (pieces.take (k + 1) ++ texts.drop (k + 1)) pieces.length)) := by
  have hrange : 1 ≤ k + 1 ∧ k + 1 ≤ pieces.length := ⟨Nat.le_add_left 1 k, hk⟩
  have hset := set_holding hk hle hlt hsame
  unfold resume at hbuffer
  unfold addChunk
  dsimp only at hbuffer ⊢
  rw [hbuffer]
  simp only [if_pos hrange, Nat.add_sub_cancel, hset]
  by_cases hlast : k + 1 = pieces.length
  · -- the last chunk: nothing is missing, and nothing of an earlier text is left
    have hdrop : texts.drop (k + 1) = [] := List.drop_of_length_le (by omega)
    have hall : (ChunkBuffer.holding (pieces.take (k + 1) ++ texts.drop (k + 1))
        pieces.length).chunks = pieces.map some := by
      simp [ChunkBuffer.holding, hlast]
      omega
    have hget : (pieces.map (some : Str → Option Str)).map (·.getD []) = pieces := by
      rw [List.map_map]
      exact List.map_id _
    rw [hall, if_pos (by simp), if_pos hlast, hget]
  · have hmissing : ∀ held : List Str, held.length < pieces.length →
        ¬ (ChunkBuffer.holding held pieces.length).chunks.all Option.isSome = true := by
      intro held hheld
      have hpos : pieces.length - held.length ≠ 0 := by omega
      simp [ChunkBuffer.holding, hpos]
    rw [if_neg (hmissing _ (by simp; omega)), if_neg hlast]
    rfl

end Pirc.Network
