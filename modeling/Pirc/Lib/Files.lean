import Mathlib.Tactic

/-!
# Files and crashes

Files under names, the operations a program writes them with, and what a crash can leave of them.
What was written to a file and not synced since may be lost or mangled by a crash; a rename is
atomic and durable.

## Main results

* `FileOp.exec_take_replace`: cut short anywhere, a replacement has either touched the temporary
  file only, or is done
-/

structure File where
  data : List UInt8
  synced : Bool
  deriving DecidableEq

/-- The files, by name. -/
abbrev Files := String → Option File

/-- Operations on files. -/
inductive FileOp
  | create (name : String)
  | writeAll (name : String) (data : List UInt8)
  | syncAll (name : String)
  | rename (source target : String)
  deriving DecidableEq

namespace Files

def read (files : Files) (name : String) : Option (List UInt8) := (files name).map File.data

def Durable (files : Files) : Prop := ∀ name file, files name = some file → file.synced = true

/-- **What a crash can leave**: durable files are as they were, a file that is not durable holds
anything or is gone, and nothing appears. -/
structure Survives (files files' : Files) : Prop where
  durable : files'.Durable
  synced : ∀ name file, files name = some file → file.synced = true → files' name = some file
  missing : ∀ name, files name = none → files' name = none

end Files

namespace FileOp

/-- What an operation does when it succeeds. Operations on a file that is not there do nothing. -/
def exec (files : Files) : FileOp → Files
  | create name => Function.update files name (some { data := [], synced := false })
  | writeAll name data =>
    match files name with
    | some file => Function.update files name (some { data := file.data ++ data, synced := false })
    | none => files
  | syncAll name =>
    match files name with
    | some file => Function.update files name (some { file with synced := true })
    | none => files
  | rename source target =>
    match files source with
    | some file => Function.update (Function.update files source none) target (some file)
    | none => files

def run (files : Files) (ops : List FileOp) : Files := ops.foldl exec files

/-- The operations that replace a file: write a temporary one, sync it, rename it. -/
def replace (tmp name : String) (data : List UInt8) : List FileOp :=
  [create tmp, writeAll tmp data, syncAll tmp, rename tmp name]

end FileOp

namespace Files

variable {files files' : Files} {name : String}

theorem Survives.read_eq (h : files.Survives files')
    (hsynced : ∀ file, files name = some file → file.synced = true) :
    files'.read name = files.read name := by
  unfold Files.read
  cases hfile : files name with
  | none => rw [h.missing name hfile]
  | some file => rw [h.synced name file hfile (hsynced file hfile)]

theorem Durable.survives (h : files.Durable) : files.Survives files :=
  ⟨h, fun _ _ hfile _ => hfile, fun _ hnone => hnone⟩

end Files

namespace FileOp

theorem run_append (files : Files) (ops ops' : List FileOp) :
    run files (ops ++ ops') = run (run files ops) ops' := List.foldl_append

/-- **A replacement cut short** after `n` operations has touched the temporary file only, or it is
done: the file holds the data, durably, and all others are as they were. -/
theorem exec_take_replace (files : Files) (tmp name : String) (data : List UInt8) (n : ℕ) :
    (n < 4 ∧ ∀ other, other ≠ tmp → run files ((replace tmp name data).take n) other = files other) ∨
    (4 ≤ n ∧ run files ((replace tmp name data).take n) name = some ⟨data, true⟩ ∧
      ∀ other, other ≠ tmp → other ≠ name →
        run files ((replace tmp name data).take n) other = files other) := by
  rcases n with _ | _ | _ | _ | n
  · exact .inl ⟨by omega, fun other _ => rfl⟩
  · refine .inl ⟨by omega, ?_⟩
    intro other hother
    simp [replace, run, exec, hother]
  · refine .inl ⟨by omega, ?_⟩
    intro other hother
    simp [replace, run, exec, hother]
  · refine .inl ⟨by omega, ?_⟩
    intro other hother
    simp [replace, run, exec, hother]
  · refine .inr ⟨by omega, ?_, ?_⟩
    · simp [replace, run, exec]
    · intro other hother hname
      simp [replace, run, exec, hother, hname]

/-- A replacement that is done leaves nothing that a crash could touch. -/
theorem durable_replace {files : Files} (h : files.Durable) (tmp name : String)
    (data : List UInt8) : (run files (replace tmp name data)).Durable := by
  intro other file hfile
  by_cases hname : other = name
  · subst hname
    have hnew : (⟨data, true⟩ : File) = file := by simpa [replace, run, exec] using hfile
    rw [← hnew]
  · by_cases htmp : other = tmp
    · subst htmp
      simp [replace, run, exec, hname] at hfile
    · refine h other file ?_
      simpa [replace, run, exec, hname, htmp] using hfile

end FileOp
