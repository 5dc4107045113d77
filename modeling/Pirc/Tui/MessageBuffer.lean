import Pirc.Lib.Run
import Pirc.Protocol.Message

/-!
# Terminal interface: message buffers

`tui/message_buffer.rs`: the lines of a channel, of which the oldest is dropped when there are too
many, and the part of them that is in view. The view is told by how many lines are below it.
-/

namespace Pirc.Tui

open Protocol (Str)

inductive LineType
  | message | action | notice | join | part | quit | kick | mode | topic | system | error
  deriving DecidableEq

/-- A line of a channel. -/
structure BufferLine where
  timestamp : Str
  sender : Option Str
  content : Str
  lineType : LineType
  deriving DecidableEq

/-- The lines of a channel, and how many of them are below the view. -/
structure MessageBuffer where
  messages : List BufferLine := []
  capacity : ℕ
  scrollOffset : ℕ := 0
  unreadCount : ℕ := 0
  hasActivity : Bool := false
  deriving DecidableEq

namespace MessageBuffer

variable (buf : MessageBuffer)

def new (capacity : ℕ) : MessageBuffer := { capacity := capacity }

/-- **A new line.** -/
def pushMessage (line : BufferLine) : MessageBuffer :=
  let wasAtCapacity := buf.capacity ≤ buf.messages.length
  let buf :=
    if wasAtCapacity ∧ 0 < buf.capacity then
      { buf with
        messages := buf.messages.drop 1
        -- an old message was removed
        scrollOffset := if 0 < buf.scrollOffset then buf.scrollOffset - 1 else buf.scrollOffset }
    else buf
  { buf with
    messages := if 0 < buf.capacity then buf.messages ++ [line] else buf.messages
    unreadCount := buf.unreadCount + 1
    hasActivity := true }

/-- **The lines in view**, of which there are at most so many. -/
def messagesInView (visibleLines : ℕ) : List BufferLine :=
  let len := buf.messages.length
  if len = 0 ∨ visibleLines = 0 then []
  else
    let stop := len - buf.scrollOffset
    let start := stop - visibleLines
    (buf.messages.drop start).take (stop - start)

def scrollUp (lines : ℕ) : MessageBuffer :=
  let maxOffset := buf.messages.length - 1
  { buf with scrollOffset := min ((buf.scrollOffset + lines) % 2 ^ 64) maxOffset }

def scrollDown (lines : ℕ) : MessageBuffer := { buf with scrollOffset := buf.scrollOffset - lines }

def scrollToBottom : MessageBuffer := { buf with scrollOffset := 0 }

def isAtBottom : Bool := buf.scrollOffset = 0

def markRead : MessageBuffer := { buf with unreadCount := 0, hasActivity := false }

def clear : MessageBuffer :=
  { buf with messages := [], scrollOffset := 0, unreadCount := 0, hasActivity := false }

/-! ## Runs -/

/-- The public methods that change a buffer. -/
inductive Call
  | pushMessage (line : BufferLine)
  | scrollUp (lines : ℕ)
  | scrollDown (lines : ℕ)
  | scrollToBottom
  | clear

def system : System MessageBuffer Call where
  enabled _ _ := True
  step buf
    | .pushMessage line => buf.pushMessage line
    | .scrollUp lines => buf.scrollUp lines
    | .scrollDown lines => buf.scrollDown lines
    | .scrollToBottom => buf.scrollToBottom
    | .clear => buf.clear

/-- The newest line in view. -/
def newest (visibleLines : ℕ) : Option BufferLine := (buf.messagesInView visibleLines).getLast?

/-- The buffer is full, so that a new line takes the place of the oldest one. -/
def Full : Prop := buf.capacity ≤ buf.messages.length

/-- The index of the newest line in view. -/
def position : ℕ := buf.messages.length - buf.scrollOffset - 1

/-- A new line drops the newest one in view. -/
def EvictsNewest : Prop := buf.Full ∧ buf.position = 0

/-- **The view is kept**: the newest line in view is the same before and after a new line, unless it
is gone. -/
def KeepsView (line : BufferLine) (visibleLines : ℕ) : Prop :=
  buf.EvictsNewest ∨ (buf.pushMessage line).newest visibleLines = buf.newest visibleLines

/-- Below the newest line in view is an equal one: the next one or, where the buffer is full, the
one behind it, which may be the new line. -/
def NextIsEqual (line : BufferLine) : Prop :=
  if buf.capacity ≤ buf.messages.length then
    (buf.messages ++ [line])[buf.position + 2]? = buf.messages[buf.position]?
  else buf.messages[buf.position + 1]? = buf.messages[buf.position]?

instance : Decidable buf.Full := inferInstanceAs (Decidable (_ ≤ _))

instance : Decidable buf.EvictsNewest := inferInstanceAs (Decidable (_ ∧ _))

instance (line : BufferLine) : Decidable (buf.NextIsEqual line) := by
  unfold NextIsEqual
  infer_instance

instance (line : BufferLine) (visibleLines : ℕ) : Decidable (buf.KeepsView line visibleLines) :=
  inferInstanceAs (Decidable (_ ∨ _))

/-! ## What holds in every run -/

/-- The offset leaves a line in view, and the lines are not too many. -/
structure Within : Prop where
  offset : buf.scrollOffset ≤ buf.messages.length - 1
  length : buf.messages.length ≤ buf.capacity

variable {buf}

theorem within_new (capacity : ℕ) : (new capacity).Within := ⟨le_rfl, Nat.zero_le _⟩

theorem pushMessage_full (hfull : buf.Full) (hcapacity : 0 < buf.capacity) (line : BufferLine) :
    buf.pushMessage line =
      { buf with
        messages := buf.messages.drop 1 ++ [line]
        scrollOffset := buf.scrollOffset - 1
        unreadCount := buf.unreadCount + 1
        hasActivity := true } := by
  have hoffset : (if 0 < buf.scrollOffset then buf.scrollOffset - 1 else buf.scrollOffset) =
      buf.scrollOffset - 1 := by
    split_ifs with h
    · rfl
    · omega
  have hcond : buf.capacity ≤ buf.messages.length ∧ 0 < buf.capacity := ⟨hfull, hcapacity⟩
  unfold pushMessage
  simp only [if_pos hcond, if_pos hcapacity, hoffset]

theorem pushMessage_room (hfull : ¬ buf.Full) (line : BufferLine) :
    buf.pushMessage line =
      { buf with
        messages := buf.messages ++ [line]
        unreadCount := buf.unreadCount + 1
        hasActivity := true } := by
  have hcapacity : 0 < buf.capacity := Nat.zero_lt_of_lt (Nat.lt_of_not_le hfull)
  have hcond : ¬ (buf.capacity ≤ buf.messages.length ∧ 0 < buf.capacity) := fun h => hfull h.1
  unfold pushMessage
  simp only [if_neg hcond, if_pos hcapacity]

theorem Within.pushMessage (h : buf.Within) (line : BufferLine) : (buf.pushMessage line).Within := by
  obtain ⟨hoffset, hlength⟩ := h
  by_cases hfull : buf.Full
  · rcases Nat.eq_zero_or_pos buf.capacity with hzero | hcapacity
    · -- nothing is ever kept
      have hnone : buf.messages = [] := List.length_eq_zero_iff.mp (by omega)
      have hpush : (buf.pushMessage line).messages = [] ∧
          (buf.pushMessage line).scrollOffset = buf.scrollOffset := by
        unfold MessageBuffer.pushMessage
        simp [hzero, hnone]
      constructor
      · rw [hpush.1, hpush.2]
        simpa [hnone] using hoffset
      · rw [hpush.1]
        exact Nat.zero_le _
    · rw [pushMessage_full hfull hcapacity]
      unfold Full at hfull
      constructor
      · simp only [List.length_append, List.length_drop, List.length_singleton]
        omega
      · simp only [List.length_append, List.length_drop, List.length_singleton]
        omega
  · rw [pushMessage_room hfull]
    unfold Full at hfull
    constructor
    · simp only [List.length_append, List.length_singleton]
      omega
    · simp only [List.length_append, List.length_singleton]
      omega

theorem Within.step (h : buf.Within) (c : Call) : (system.step buf c).Within := by
  cases c with
  | pushMessage line => exact h.pushMessage line
  | scrollUp lines => exact ⟨Nat.min_le_right _ _, h.length⟩
  | scrollDown lines => exact ⟨(Nat.sub_le _ _).trans h.offset, h.length⟩
  | scrollToBottom => exact ⟨Nat.zero_le _, h.length⟩
  | clear => exact ⟨le_rfl, Nat.zero_le _⟩

theorem within_of_steps {capacity : ℕ} (h : system.Steps System.Free (new capacity) buf) : buf.Within :=
  h.invariant (fun _ c _ _ hwithin => hwithin.step c) (within_new capacity)

/-! ## The view -/

/-- **The newest line in view** is the one at its position. -/
theorem newest_eq {visibleLines : ℕ} (hview : 0 < visibleLines)
    (hoffset : buf.scrollOffset ≤ buf.messages.length - 1) :
    buf.newest visibleLines = buf.messages[buf.position]? := by
  unfold newest messagesInView position
  dsimp only
  split_ifs with hnone
  · rcases hnone with hnone | hnone
    · rw [List.length_eq_zero_iff.mp hnone]
      rfl
    · exact absurd hnone hview.ne'
  · have hlength : buf.messages.length ≠ 0 := fun h => hnone (.inl h)
    generalize hstop : buf.messages.length - buf.scrollOffset = stop
    have hpos : 0 < stop := by omega
    have hle : stop ≤ buf.messages.length := by omega
    rw [List.getLast?_eq_getElem?, List.length_take, List.length_drop, Nat.min_eq_left (by omega),
      List.getElem?_take_of_lt (by omega), List.getElem?_drop]
    congr 1
    omega

theorem newest_pushMessage {visibleLines : ℕ} (h : buf.Within) (hview : 0 < visibleLines)
    (hscrolled : 0 < buf.scrollOffset) (line : BufferLine) :
    (buf.pushMessage line).newest visibleLines =
      if buf.capacity ≤ buf.messages.length then (buf.messages ++ [line])[buf.position + 2]?
      else buf.messages[buf.position + 1]? := by
  rw [newest_eq hview (h.pushMessage line).offset]
  obtain ⟨hoffset, hlength⟩ := h
  split_ifs with hfull
  · rw [pushMessage_full hfull (by omega)]
    unfold position
    dsimp only
    have hdrop : buf.messages.drop 1 ++ [line] = (buf.messages ++ [line]).drop 1 :=
      (List.drop_append_of_le_length (by omega)).symm
    rw [hdrop, List.getElem?_drop, List.length_drop, List.length_append, List.length_singleton]
    congr 1
    omega
  · rw [pushMessage_room hfull]
    unfold position
    dsimp only
    rw [List.length_append, List.length_singleton, List.getElem?_append_left (by omega)]
    congr 1
    omega

/-- **A view is kept only by the accident of equal lines**, where its newest line is not gone. -/
theorem keepsView_iff {capacity visibleLines : ℕ} {line : BufferLine}
    (hrun : system.Steps System.Free (new capacity) buf) (hscrolled : 0 < buf.scrollOffset)
    (hview : 0 < visibleLines) :
    buf.KeepsView line visibleLines ↔ buf.EvictsNewest ∨ buf.NextIsEqual line := by
  have hwithin := within_of_steps hrun
  unfold KeepsView NextIsEqual
  rw [newest_pushMessage hwithin hview hscrolled, newest_eq hview hwithin.offset]
  split_ifs with hfull
  · rfl
  · rfl

section Examples

def lineOf (content : String) : BufferLine := ⟨[], none, content.toList, .system⟩

def scrolledCalls (contents : List String) (n : ℕ) : List Call :=
  contents.map (fun content => .pushMessage (lineOf content)) ++ [.scrollUp n]

theorem scrolledCalls_steps (capacity : ℕ) (contents : List String) (n : ℕ) :
    system.Steps System.Free (new capacity) (system.exec (new capacity) (scrolledCalls contents n)) :=
  (System.legal_free (fun _ _ => trivial) _ _).steps

/-- The next line is the same text once more. -/
theorem kept_of_equal_lines :
    (system.exec (new 10) (scrolledCalls ["one", "two", "two"] 1)).KeepsView (lineOf "three") 5 :=
  (keepsView_iff (scrolledCalls_steps 10 _ 1) (by decide) (by decide)).mpr (.inr (by decide))

/-- **The view moves by two lines** when a message comes to a full buffer. -/
theorem view_not_kept :
    ¬ ∀ (capacity visibleLines : ℕ) (buf : MessageBuffer) (line : BufferLine),
      system.Steps System.Free (new capacity) buf → 0 < buf.scrollOffset → 0 < visibleLines →
        buf.KeepsView line visibleLines := by
  intro h
  have hkept := h 5 2 _ (lineOf "msg5")
    (scrolledCalls_steps 5 ["msg0", "msg1", "msg2", "msg3", "msg4"] 3) (by decide) (by decide)
  exact absurd hkept (by decide)

end Examples

end MessageBuffer

end Pirc.Tui
