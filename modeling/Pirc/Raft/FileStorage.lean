import Pirc.Lib.Decimal
import Pirc.Lib.Files
import Pirc.Network.Codec
import Pirc.Raft.State
import Pirc.Server.Channel

/-!
# Raft: snapshots on disk

The snapshot part of `raft/file_storage.rs`. A snapshot is two files, the data and its metadata,
each replaced by way of a temporary file. A crash can leave the new data next to the old metadata.
-/

namespace Pirc.Raft

open Protocol (Str decimal)
open Network (utf8FaultText)

/-! ## Numbers in text -/

/-- `u64::from_str`. -/
def parseU64 (s : Str) : Except Decimal.ParseIntError UInt64 := (Decimal.parse 64 s).map UInt64.ofNat

/-- The lines of a text (`str::lines`): a line ends in a line feed, perhaps after a carriage return,
or with the text. -/
def lines : Str → List Str
  | [] => []
  | '\r' :: '\n' :: cs => [] :: lines cs
  | c :: cs =>
    if c = '\n' then [] :: lines cs
    else
      match lines cs with
      | [] => [[c]]
      | line :: rest => (c :: line) :: rest

namespace FileStorage

/-! ## Files -/

def snapshotFile : String := "snapshot.bin"

def snapshotMetaFile : String := "snapshot.meta"

/-- Write to a temporary file, sync it, and rename it over the target. -/
def atomicWrite (path : String) (data : List UInt8) : List FileOp :=
  FileOp.replace (".tmp." ++ path) path data

def metaText (lastIncludedIndex lastIncludedTerm : UInt64) : Str :=
  decimal lastIncludedIndex.toNat ++ '\n' :: decimal lastIncludedTerm.toNat

/-- The file operations of `save_snapshot`. -/
def saveSnapshot (snapshot : List UInt8) (lastIncludedIndex lastIncludedTerm : UInt64) :
    List FileOp :=
  atomicWrite snapshotFile snapshot ++
    atomicWrite snapshotMetaFile (utf8 (metaText lastIncludedIndex lastIncludedTerm))

def parseMetaNumber (name : String) (line : Str) : Except StorageError UInt64 :=
  match parseU64 (Server.trim line) with
  | .ok n => .ok n
  | .error e =>
    .error (.corrupted ("snapshot meta " ++ name ++ " not a number: " ++ e.text))

def parseMeta (metaData : List UInt8) : Except StorageError (UInt64 × UInt64) :=
  match fromUtf8? metaData with
  | none =>
    .error (.corrupted
      ("snapshot meta not valid UTF-8: " ++ String.ofList (utf8FaultText metaData)))
  | some text =>
    match lines text with
    | [] => .error (.corrupted "snapshot meta missing index line")
    | [_] => .error (.corrupted "snapshot meta missing term line")
    | indexStr :: termStr :: _ =>
      match parseMetaNumber "index" indexStr with
      | .error e => .error e
      | .ok index =>
        match parseMetaNumber "term" termStr with
        | .error e => .error e
        | .ok term => .ok (index, term)

/-- What `load_snapshot` reads. -/
def loadSnapshot (files : Files) :
    Except StorageError (Option (List UInt8 × UInt64 × UInt64)) :=
  match files.read snapshotMetaFile with
  | none => .ok none
  | some metaData =>
    match files.read snapshotFile with
    | none => .ok none
    | some snapshotData =>
      match parseMeta metaData with
      | .error e => .error e
      | .ok (index, term) => .ok (some (snapshotData, index, term))

/-! ## Reading metadata back -/

section Metadata

variable {text : Str}

theorem parseU64_decimal (n : UInt64) : parseU64 (decimal n.toNat) = .ok n := by
  have hread : Decimal.parse 64 (decimal n.toNat) = .ok n.toNat := Decimal.parse_toDigits n.toNat_lt
  rw [parseU64, hread]
  exact congrArg Except.ok UInt64.ofNat_toNat

theorem not_isWhitespace_of_isDigit {c : Char} (h : c.isDigit = true) :
    Server.isWhitespace c = false := by
  have hbounds : 48 ≤ c.toNat ∧ c.toNat ≤ 57 := by
    simp only [Char.isDigit, Bool.and_eq_true, decide_eq_true_eq, UInt32.le_iff_toNat_le] at h
    exact h
  simp only [Server.isWhitespace, Bool.or_eq_false_iff, Bool.and_eq_false_iff,
    decide_eq_false_iff_not]
  omega

theorem trim_of_isDigit (h : ∀ c ∈ text, c.isDigit = true) : Server.trim text = text := by
  have hdrop : ∀ l : Str, (∀ c ∈ l, c.isDigit = true) → l.dropWhile Server.isWhitespace = l := by
    intro l hl
    cases l with
    | nil => rfl
    | cons c cs =>
      rw [List.dropWhile_cons, not_isWhitespace_of_isDigit (hl c List.mem_cons_self)]
      rfl
  unfold Server.trim
  rw [hdrop text h, hdrop _ fun c hc => h c (List.mem_reverse.mp hc), List.reverse_reverse]

theorem lines_append_newline (rest : Str) (h : ∀ c ∈ text, c.isDigit = true) :
    lines (text ++ '\n' :: rest) = text :: lines rest := by
  induction text with
  | nil => simp [lines]
  | cons c text ih =>
    have hc := h c List.mem_cons_self
    have hnewline : c ≠ '\n' := by
      rintro rfl
      cases hc
    have hreturn : c ≠ '\r' := by
      rintro rfl
      cases hc
    rw [List.cons_append, lines]
    · rw [if_neg hnewline, ih fun d hd => h d (List.mem_cons_of_mem c hd)]
    · intro cs heq
      exact absurd heq hreturn

theorem lines_of_isDigit (h : ∀ c ∈ text, c.isDigit = true) (hne : text ≠ []) :
    lines text = [text] := by
  induction text with
  | nil => exact absurd rfl hne
  | cons c text ih =>
    have hc := h c List.mem_cons_self
    have hnewline : c ≠ '\n' := by
      rintro rfl
      cases hc
    have hreturn : c ≠ '\r' := by
      rintro rfl
      cases hc
    rw [lines]
    · rw [if_neg hnewline]
      cases text with
      | nil => rfl
      | cons d text =>
        rw [ih (fun e he => h e (List.mem_cons_of_mem c he)) (List.cons_ne_nil d text)]
    · intro cs heq
      exact absurd heq hreturn

/-- **Metadata is read back as it was written.** -/
theorem parseMeta_metaText (index term : UInt64) :
    parseMeta (utf8 (metaText index term)) = .ok (index, term) := by
  have hindex : ∀ c ∈ decimal index.toNat, c.isDigit = true := fun c => Decimal.isDigit_of_mem_toDigits
  have hterm : ∀ c ∈ decimal term.toNat, c.isDigit = true := fun c => Decimal.isDigit_of_mem_toDigits
  have hnumber : ∀ (name : String) (n : UInt64),
      parseMetaNumber name (decimal n.toNat) = .ok n := by
    intro name n
    have hdigit : ∀ c ∈ decimal n.toNat, c.isDigit = true := fun c => Decimal.isDigit_of_mem_toDigits
    rw [parseMetaNumber, trim_of_isDigit hdigit, parseU64_decimal]
  rw [parseMeta, fromUtf8?_utf8]
  dsimp only
  rw [metaText, lines_append_newline _ hindex, lines_of_isDigit hterm Nat.toDigits_ne_nil]
  dsimp only
  rw [hnumber, hnumber]

end Metadata

/-! ## Crashes -/

section Crashes

variable {files files' : Files} {d : List UInt8} {i t : UInt64}

/-- **Crash atomicity** of saving a snapshot: whatever operation a crash interrupts, what is loaded
afterwards is what was stored before, or the new snapshot. -/
def CrashAtomic (files : Files) (d : List UInt8) (i t : UInt64) : Prop :=
  ∀ n files', (FileOp.run files ((saveSnapshot d i t).take n)).Survives files' →
    loadSnapshot files' = loadSnapshot files ∨ loadSnapshot files' = .ok (some (d, i, t))

theorem loadSnapshot_congr (hmeta : files'.read snapshotMetaFile = files.read snapshotMetaFile)
    (hdata : files'.read snapshotFile = files.read snapshotFile) :
    loadSnapshot files' = loadSnapshot files := by
  rw [loadSnapshot, loadSnapshot, hmeta, hdata]

/-- The files a save cut short leaves: the temporary ones aside, nothing is changed, or the data is
new, or both are. -/
inductive Left (files : Files) (d : List UInt8) (i t : UInt64) (files' : Files) : Prop
  | old (hdata : files' snapshotFile = files snapshotFile)
      (hmeta : files' snapshotMetaFile = files snapshotMetaFile)
  | mixed (hdata : files' snapshotFile = some ⟨d, true⟩)
      (hmeta : files' snapshotMetaFile = files snapshotMetaFile)
  | new (hdata : files' snapshotFile = some ⟨d, true⟩)
      (hmeta : files' snapshotMetaFile = some ⟨utf8 (metaText i t), true⟩)

/-- **A save cut short** after any number of operations. -/
theorem left_take (files : Files) (d : List UInt8) (i t : UInt64) (n : ℕ) :
    Left files d i t (FileOp.run files ((saveSnapshot d i t).take n)) := by
  have hlen : (atomicWrite snapshotFile d).length = 4 := rfl
  rw [saveSnapshot, List.take_append, hlen, FileOp.run_append]
  -- the four operations on the data file come first, then those on the metadata file
  rcases FileOp.exec_take_replace files (".tmp." ++ snapshotFile) snapshotFile d n with
    ⟨hlt, hsame⟩ | ⟨hle, hdone, hsame⟩
  · rw [show n - 4 = 0 by omega, List.take_zero]
    exact .old (hsame _ (by decide)) (hsame _ (by decide))
  · have hmeta := hsame snapshotMetaFile (by decide) (by decide)
    rcases FileOp.exec_take_replace
      (FileOp.run files ((atomicWrite snapshotFile d).take n)) (".tmp." ++ snapshotMetaFile)
      snapshotMetaFile (utf8 (metaText i t)) (n - 4) with ⟨-, hsame'⟩ | ⟨-, hdone', hsame'⟩
    · exact .mixed ((hsame' _ (by decide)).trans hdone) ((hsame' _ (by decide)).trans hmeta)
    · exact .new ((hsame' _ (by decide) (by decide)).trans hdone) hdone'

theorem read_of_survives {left : Files} (hsurvives : left.Survives files') {name : String}
    {file : Option File} (hfile : left name = file)
    (hsynced : ∀ f, file = some f → f.synced = true) :
    files'.read name = file.map File.data := by
  rw [hsurvives.read_eq fun f hf => hsynced f (hfile.symm.trans hf), Files.read, hfile]

/-- **When saving a snapshot is crash-atomic**: no metadata is stored yet, or the stored data is the
new one already, or the stored metadata is. -/
theorem crashAtomic_iff (hdurable : files.Durable) {stored : Option (List UInt8 × UInt64 × UInt64)}
    (hstored : loadSnapshot files = .ok stored) :
    CrashAtomic files d i t ↔
      files.read snapshotMetaFile = none ∨ files.read snapshotFile = some d ∨
      ∃ m, files.read snapshotMetaFile = some m ∧ parseMeta m = .ok (i, t) := by
  constructor
  · intro hatomic
    by_contra hnot
    rw [not_or, not_or] at hnot
    obtain ⟨hmeta, hdata, hparse⟩ := hnot
    obtain ⟨m, hm⟩ := Option.ne_none_iff_exists'.mp hmeta
    -- the crash right after the data file is renamed
    have hsurvives : (FileOp.run files ((saveSnapshot d i t).take 4)).Survives
        (FileOp.run files ((saveSnapshot d i t).take 4)) :=
      (FileOp.durable_replace hdurable _ _ _).survives
    have hafter : (FileOp.run files ((saveSnapshot d i t).take 4)).read snapshotFile = some d ∧
        (FileOp.run files ((saveSnapshot d i t).take 4)).read snapshotMetaFile = some m := by
      rcases FileOp.exec_take_replace files (".tmp." ++ snapshotFile) snapshotFile d 4 with
        ⟨hlt, -⟩ | ⟨-, hdone, hsame⟩
      · omega
      · refine ⟨congrArg (Option.map File.data) hdone, ?_⟩
        exact (congrArg (Option.map File.data) (hsame snapshotMetaFile (by decide) (by decide))).trans
          hm
    have hload : ∀ index term, parseMeta m = .ok (index, term) →
        loadSnapshot (FileOp.run files ((saveSnapshot d i t).take 4)) =
          .ok (some (d, index, term)) := by
      intro index term hp
      rw [loadSnapshot, hafter.2, hafter.1]
      dsimp only
      rw [hp]
    have hresult := hatomic 4 _ hsurvives
    cases hp : parseMeta m with
    | error e =>
      -- unreadable metadata is an error as soon as there is data
      have herror : loadSnapshot (FileOp.run files ((saveSnapshot d i t).take 4)) = .error e := by
        rw [loadSnapshot, hafter.2, hafter.1]
        dsimp only
        rw [hp]
      rw [herror, hstored] at hresult
      rcases hresult with hresult | hresult
      · cases hresult
      · cases hresult
    | ok x =>
      obtain ⟨index, term⟩ := x
      rw [hload index term hp] at hresult
      rcases hresult with hresult | hresult
      · -- the data would have to be the stored one
        rw [loadSnapshot, hm] at hresult
        cases hd : files.read snapshotFile with
        | none =>
          rw [hd] at hresult
          cases hresult
        | some d₀ =>
          rw [hd] at hresult
          dsimp only at hresult
          rw [hp] at hresult
          cases hresult
          exact hdata hd
      · cases hresult
        exact hparse ⟨m, hm, hp⟩
  · intro hcond n files' hsurvives
    have hold : ∀ name f, files name = some f → f.synced = true := hdurable
    cases left_take files d i t n with
    | old hdata hmeta =>
      refine .inl (loadSnapshot_congr ?_ ?_)
      · exact read_of_survives hsurvives hmeta (hold _)
      · exact read_of_survives hsurvives hdata (hold _)
    | mixed hdata hmeta =>
      have hreadMeta := read_of_survives hsurvives hmeta (hold _)
      have hreadData : files'.read snapshotFile = some d :=
        read_of_survives hsurvives hdata (by rintro f ⟨⟩; rfl)
      rcases hcond with hnone | hsame | ⟨m, hm, hparse⟩
      · left
        have hnone' : files'.read snapshotMetaFile = none := hreadMeta.trans hnone
        rw [loadSnapshot, loadSnapshot, hnone', hnone]
      · exact .inl (loadSnapshot_congr hreadMeta (hreadData.trans hsame.symm))
      · right
        have hm' : files'.read snapshotMetaFile = some m := hreadMeta.trans hm
        rw [loadSnapshot, hm', hreadData]
        dsimp only
        rw [hparse]
    | new hdata hmeta =>
      right
      have hreadMeta : files'.read snapshotMetaFile = some (utf8 (metaText i t)) :=
        read_of_survives hsurvives hmeta (by rintro f ⟨⟩; rfl)
      have hreadData : files'.read snapshotFile = some d :=
        read_of_survives hsurvives hdata (by rintro f ⟨⟩; rfl)
      rw [loadSnapshot, hreadMeta, hreadData]
      dsimp only
      rw [parseMeta_metaText]

end Crashes

def storedFour : Files :=
  FileOp.run (fun _ => none) (saveSnapshot [10, 20] 4 1)

theorem durable_saveSnapshot {files : Files} (h : files.Durable) (d : List UInt8) (i t : UInt64) :
    (FileOp.run files (saveSnapshot d i t)).Durable := by
  rw [saveSnapshot, FileOp.run_append]
  exact FileOp.durable_replace (FileOp.durable_replace h _ _ _) _ _ _

theorem durable_storedFour : storedFour.Durable := by
  apply durable_saveSnapshot
  intro name file hfile
  cases hfile

theorem loadSnapshot_storedFour : loadSnapshot storedFour = .ok (some ([10, 20], 4, 1)) := by
  decide +kernel

/-- The first snapshot saved on empty storage. -/
theorem crashAtomic_iff_first : CrashAtomic (fun _ => none) [10, 20] 4 1 :=
  (crashAtomic_iff (fun _ _ h => by cases h) rfl).mpr (.inl rfl)

/-- A crash between the two files of a later snapshot: its data is loaded with the metadata of the
earlier one. -/
theorem mixed_snapshot : ¬ ∀ (files : Files), files.Durable →
    ∀ stored, loadSnapshot files = .ok stored → ∀ (d : List UInt8) (i t : UInt64),
      CrashAtomic files d i t := by
  intro hall
  have hatomic := hall storedFour durable_storedFour _ loadSnapshot_storedFour [10, 20, 30] 9 2
  have hdurable : (FileOp.run storedFour ((saveSnapshot [10, 20, 30] 9 2).take 4)).Durable :=
    FileOp.durable_replace durable_storedFour _ _ _
  have hload : loadSnapshot (FileOp.run storedFour ((saveSnapshot [10, 20, 30] 9 2).take 4)) =
      .ok (some ([10, 20, 30], 4, 1)) := by
    decide +kernel
  have hresult := hatomic 4 _ hdurable.survives
  rw [hload, loadSnapshot_storedFour] at hresult
  exact absurd hresult (by decide)

end FileStorage

end Pirc.Raft
