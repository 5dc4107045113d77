import Pirc.Lib.Positions
import Pirc.Tui.MessageBuffer

/-!
# Terminal interface: the buffers

`tui/buffer_manager.rs`: the buffers that are open, in the order of their tabs, and which of them is
active, by its position. Calls that take positions panic where these are not in range.
-/

namespace Pirc.Tui

open Protocol (Str)

/-- What a buffer shows. -/
inductive BufferId
  | status
  | channel (name : Str)
  | query (nick : Str)
  deriving DecidableEq

def BufferId.toStr : BufferId → Str
  | status => "Status".toList
  | channel name => name
  | query nick => nick

/-- A buffer with its messages. -/
structure BufferEntry where
  id : BufferId
  messages : MessageBuffer
  label : Str
  deriving DecidableEq

def BufferEntry.new (id : BufferId) (scrollback : ℕ) : BufferEntry := ⟨id, .new scrollback, id.toStr⟩

def BufferEntry.markRead (e : BufferEntry) : BufferEntry := { e with messages := e.messages.markRead }

/-- The buffers, the position of the active one, and how many lines new ones have. -/
structure BufferManager where
  buffers : List BufferEntry
  activeIndex : ℕ
  defaultScrollback : ℕ

namespace BufferManager

def new (defaultScrollback : ℕ) : BufferManager where
  buffers := [.new .status defaultScrollback]
  activeIndex := 0
  defaultScrollback := defaultScrollback

variable (m : BufferManager)

def findIndex (id : BufferId) : Option ℕ := m.buffers.findIdx? (·.id = id)

def pushNew (id : BufferId) : BufferManager :=
  { m with buffers := m.buffers ++ [.new id m.defaultScrollback] }

/-- Indexing panics past the end. -/
def markReadAt (index : ℕ) : Option BufferManager :=
  if index < m.buffers.length then some { m with buffers := m.buffers.modify index .markRead } else none

/-- Make the buffer at a position the active one, and mark it as read. -/
def activate (index : ℕ) : Option BufferManager := { m with activeIndex := index }.markReadAt index

/-- Open a buffer and show it. -/
def openBuffer (id : BufferId) : Option BufferManager := do
  let (index, m) :=
    match m.findIndex id with
    | some index => (index, m)
    | none => (m.buffers.length, m.pushNew id)
  let m ← m.markReadAt m.activeIndex
  m.activate index

/-- Says whether the buffer is new. -/
def ensureOpen (id : BufferId) : Bool × BufferManager :=
  if (m.findIndex id).isSome then (false, m) else (true, m.pushNew id)

/-- **Close a buffer.** If it was active, the next one is, or else the last one. -/
def close (id : BufferId) : Option (Bool × BufferManager) :=
  if id = .status then some (false, m)
  else
    match m.findIndex id with
    | none => some (false, m)
    | some index => do
      let buffers := m.buffers.eraseIdx index
      if m.activeIndex = index then
        let activeIndex := if buffers.length ≤ m.activeIndex then buffers.length - 1 else m.activeIndex
        let m ← { m with buffers := buffers }.activate activeIndex
        pure (true, m)
      else if index < m.activeIndex then
        pure (true, { m with buffers := buffers, activeIndex := m.activeIndex - 1 })
      else pure (true, { m with buffers := buffers })

def get (id : BufferId) : Option MessageBuffer := (m.buffers.find? (·.id = id)).map BufferEntry.messages

def activeId : Option BufferId := m.buffers[m.activeIndex]?.map BufferEntry.id

/-- Says whether there is such a buffer. -/
def switchTo (id : BufferId) : Option (Bool × BufferManager) :=
  match m.findIndex id with
  | none => some (false, m)
  | some index => (m.activate index).map (true, ·)

def switchNext : Option BufferManager :=
  if m.buffers.length = 0 then none else m.activate ((m.activeIndex + 1) % m.buffers.length)

def switchPrev : Option BufferManager :=
  if m.activeIndex = 0 then m.activate (m.buffers.length - 1) else m.activate (m.activeIndex - 1)

def switchByIndex (index : ℕ) : Option (Bool × BufferManager) :=
  if m.buffers.length ≤ index then some (false, m) else (m.activate index).map (true, ·)

/-- **Move a buffer**, but for the first one. -/
def reorder (start stop : ℕ) : Bool × BufferManager :=
  if start = 0 ∨ stop = 0 then (false, m)
  else if m.buffers.length ≤ start ∨ m.buffers.length ≤ stop then (false, m)
  else if start = stop then (true, m)
  else
    let activeIndex :=
      if m.activeIndex = start then stop
      else if start < stop then
        if start < m.activeIndex ∧ m.activeIndex ≤ stop then m.activeIndex - 1 else m.activeIndex
      else if stop ≤ m.activeIndex ∧ m.activeIndex < start then m.activeIndex + 1
      else m.activeIndex
    (true, { m with buffers := moveIdx m.buffers start stop, activeIndex := activeIndex })

def BufferEntry.push (line : BufferLine) (isActiveTarget : Bool) (e : BufferEntry) : BufferEntry :=
  let e := { e with messages := e.messages.pushMessage line }
  if isActiveTarget then e.markRead else e

def pushLine (id : BufferId) (line : BufferLine) (isActiveTarget : Bool) : BufferManager :=
  match m.findIndex id with
  | some index => { m with buffers := m.buffers.modify index (BufferEntry.push line isActiveTarget) }
  | none => m

/-- **A line for a buffer.** Buffers of queries are opened where there is none. -/
def pushTo (id : BufferId) (line : BufferLine) : BufferManager :=
  let isActiveTarget := m.findIndex id = some m.activeIndex
  if (m.findIndex id).isSome then m.pushLine id line isActiveTarget
  else
    match id with
    | .query _ => (m.pushNew id).pushLine id line isActiveTarget
    | .status | .channel _ => m

def channelNames : List Str :=
  m.buffers.filterMap fun e =>
    match e.id with
    | .channel name => some name
    | .status | .query _ => none

/-! ## Calls -/

/-- What is done with the buffers. -/
inductive Call
  | openBuffer (id : BufferId)
  | ensureOpen (id : BufferId)
  | close (id : BufferId)
  | switchTo (id : BufferId)
  | switchNext
  | switchPrev
  | switchByIndex (index : ℕ)
  | reorder (start stop : ℕ)
  | pushTo (id : BufferId) (line : BufferLine)

/-- A call; `none` is a panic. -/
def step : Call → Option BufferManager
  | .openBuffer id => m.openBuffer id
  | .ensureOpen id => some (m.ensureOpen id).2
  | .close id => (m.close id).map Prod.snd
  | .switchTo id => (m.switchTo id).map Prod.snd
  | .switchNext => m.switchNext
  | .switchPrev => m.switchPrev
  | .switchByIndex index => (m.switchByIndex index).map Prod.snd
  | .reorder start stop => some (m.reorder start stop).2
  | .pushTo id line => some (m.pushTo id line)

/-- Several calls, one after the other. -/
def run (calls : List Call) : Option BufferManager := calls.foldlM step m

/-! ## The invariant -/

def ids : List BufferId := m.buffers.map BufferEntry.id

/-- The first buffer is the one for the status, and all are different. -/
structure Ordered : Prop where
  head : m.ids.head? = some .status
  nodup : m.ids.Nodup

/-- **The invariant**: besides, there is an active buffer, and it is read. -/
structure Valid : Prop extends m.Ordered where
  active : m.activeIndex < m.buffers.length
  read : ∀ e, m.buffers[m.activeIndex]? = some e → e.messages.unreadCount = 0

/-- **What a call leaves alone.** -/
def Frame (m : BufferManager) : Call → BufferManager → Prop
  | .close id, m' => m.activeId ≠ some id → m'.activeId = m.activeId
  | .ensureOpen _, m' => m'.activeId = m.activeId
  | .reorder _ _, m' => m'.activeId = m.activeId ∧ m'.buffers.Perm m.buffers
  | .pushTo id _, m' => m'.activeId = m.activeId ∧ ∀ other ≠ id, m'.get other = m.get other
  | .openBuffer _, _ | .switchTo _, _ | .switchNext, _ | .switchPrev, _ | .switchByIndex _, _ => True

variable {m} {m' : BufferManager} {id other : BufferId} {index : ℕ} {line : BufferLine}

/-! ## Searches -/

theorem activeId_eq : m.activeId = m.ids[m.activeIndex]? := by
  rw [activeId, ids, List.getElem?_map]

theorem of_findIndex (h : m.findIndex id = some index) :
    index < m.buffers.length ∧ m.ids[index]? = some id := by
  obtain ⟨hlt, hid, -⟩ := List.findIdx?_eq_some_iff_getElem.mp h
  refine ⟨hlt, ?_⟩
  rw [ids, List.getElem?_map, List.getElem?_eq_getElem hlt]
  exact congrArg some (of_decide_eq_true hid)

theorem notMem_ids (h : m.findIndex id = none) : id ∉ m.ids := by
  intro hmem
  obtain ⟨e, he, hid⟩ := List.mem_map.mp hmem
  have hne := List.findIdx?_eq_none_iff.mp h e he
  simp [hid] at hne

theorem Ordered.index_pos (h : m.Ordered) (hfind : m.findIndex id = some index)
    (hid : id ≠ .status) : 0 < index := by
  rcases Nat.eq_zero_or_pos index with rfl | hpos
  · have hstatus := h.head
    rw [List.head?_eq_getElem?, (of_findIndex hfind).2] at hstatus
    exact absurd (Option.some.inj hstatus) hid
  · exact hpos

/-! ## Changes of one buffer -/

theorem ids_modify {f : BufferEntry → BufferEntry} (hf : ∀ e, (f e).id = e.id) :
    ({ m with buffers := m.buffers.modify index f } : BufferManager).ids = m.ids := by
  apply List.ext_getElem?
  intro i
  simp only [ids, List.getElem?_map, List.getElem?_modify]
  cases m.buffers[i]? with
  | none => rfl
  | some e =>
    simp only [Option.map_some]
    split_ifs
    · exact congrArg some (hf e)
    · rfl

theorem find?_modify {f : BufferEntry → BufferEntry} {p : BufferEntry → Bool} :
    ∀ (l : List BufferEntry) (i : ℕ), (∀ e, l[i]? = some e → p e = false ∧ p (f e) = false) →
      (l.modify i f).find? p = l.find? p
  | [], i, _ => by rw [List.modify_nil]
  | e :: l, 0, h => by
    obtain ⟨hbefore, hafter⟩ := h e rfl
    rw [List.modify_zero_cons, List.find?_cons, List.find?_cons, hbefore, hafter]
  | e :: l, i + 1, h => by
    rw [List.modify_succ_cons, List.find?_cons, List.find?_cons, find?_modify l i h]

theorem Ordered.of_ids (h : m.Ordered) (hids : m'.ids = m.ids) : m'.Ordered :=
  ⟨hids ▸ h.head, hids ▸ h.nodup⟩

theorem Ordered.pushNew (h : m.Ordered) (hfind : m.findIndex id = none) : (m.pushNew id).Ordered := by
  have hids : (m.pushNew id).ids = m.ids ++ [id] := List.map_append
  constructor
  · rw [hids, List.head?_append, h.head]
    rfl
  · rw [hids]
    exact List.nodup_append.mpr ⟨h.nodup, List.nodup_singleton _, fun a ha b hb hab =>
      notMem_ids hfind (List.mem_singleton.mp hb ▸ hab ▸ ha)⟩

theorem Valid.pushNew (h : m.Valid) (hfind : m.findIndex id = none) : (m.pushNew id).Valid where
  toOrdered := h.toOrdered.pushNew hfind
  active := by
    unfold BufferManager.pushNew
    rw [List.length_append]
    exact Nat.lt_add_right _ h.active
  read e he := by
    unfold BufferManager.pushNew at he
    rw [List.getElem?_append_left h.active] at he
    exact h.read e he

theorem activeId_pushNew (h : m.activeIndex < m.buffers.length) : (m.pushNew id).activeId = m.activeId := by
  unfold activeId BufferManager.pushNew
  rw [List.getElem?_append_left h]

theorem get_pushNew (hne : other ≠ id) : (m.pushNew id).get other = m.get other := by
  unfold get BufferManager.pushNew
  have hnone : [BufferEntry.new id m.defaultScrollback].find? (·.id = other) = none := by
    simp [BufferEntry.new, hne.symm]
  rw [List.find?_append, hnone, Option.or_none]

/-! ## The active buffer -/

theorem markReadAt_ordered (h : m.Ordered) (hindex : index < m.buffers.length) :
    ∃ m', m.markReadAt index = some m' ∧ m'.Ordered ∧ m'.buffers.length = m.buffers.length := by
  refine ⟨_, if_pos hindex, h.of_ids (ids_modify fun _ => rfl), ?_⟩
  exact List.length_modify _ _ _

/-- **A buffer that is switched to is active and read.** -/
theorem activate_valid (h : m.Ordered) (hindex : index < m.buffers.length) :
    ∃ m', m.activate index = some m' ∧ m'.Valid := by
  refine ⟨_, if_pos hindex, ⟨h.of_ids (ids_modify fun _ => rfl), ?_, ?_⟩⟩
  · simpa using hindex
  · intro e he
    dsimp only at he
    rw [List.getElem?_modify_eq] at he
    obtain ⟨e', -, rfl⟩ := Option.map_eq_some_iff.mp he
    rfl

theorem Ordered.eraseIdx (h : m.Ordered) (hpos : 0 < index) (activeIndex : ℕ) :
    ({ m with
      buffers := m.buffers.eraseIdx index, activeIndex := activeIndex } : BufferManager).Ordered := by
  have hids : (m.buffers.eraseIdx index).map BufferEntry.id = m.ids.eraseIdx index :=
    (List.eraseIdx_map ..).symm
  constructor
  · unfold ids
    rw [hids, List.head?_eq_getElem?, List.getElem?_eraseIdx_of_lt hpos, ← List.head?_eq_getElem?]
    exact h.head
  · unfold ids
    rw [hids]
    exact h.nodup.eraseIdx index

theorem Valid.pushLine (h : m.Valid) (id : BufferId) (line : BufferLine) {isActiveTarget : Bool}
    (htarget : m.findIndex id = some m.activeIndex → isActiveTarget = true) :
    (m.pushLine id line isActiveTarget).Valid := by
  unfold BufferManager.pushLine
  cases hfind : m.findIndex id with
  | none => exact h
  | some index =>
    have hid : ∀ e, (BufferEntry.push line isActiveTarget e).id = e.id := by
      intro e
      unfold BufferEntry.push
      dsimp only
      split_ifs
      · rfl
      · rfl
    refine ⟨h.toOrdered.of_ids (ids_modify hid), ?_, ?_⟩
    · simpa using h.active
    · intro e he
      dsimp only at he
      rw [List.getElem?_modify] at he
      obtain ⟨e', he', rfl⟩ := Option.map_eq_some_iff.mp he
      split_ifs with hindex
      · -- the line is for the active buffer
        subst hindex
        rw [htarget hfind]
        rfl
      · exact h.read e' he'

theorem activeId_pushLine (id : BufferId) (line : BufferLine) (isActiveTarget : Bool) :
    (m.pushLine id line isActiveTarget).activeId = m.activeId := by
  unfold BufferManager.pushLine
  cases m.findIndex id with
  | none => rfl
  | some index =>
    rw [activeId_eq, activeId_eq, ids_modify]
    intro e
    unfold BufferEntry.push
    dsimp only
    split_ifs
    · rfl
    · rfl

theorem get_pushLine (hne : other ≠ id) (line : BufferLine) (isActiveTarget : Bool) :
    (m.pushLine id line isActiveTarget).get other = m.get other := by
  unfold BufferManager.pushLine
  cases hfind : m.findIndex id with
  | none => rfl
  | some index =>
    unfold get
    dsimp only
    rw [find?_modify]
    intro e he
    have hid := (of_findIndex hfind).2
    rw [ids, List.getElem?_map, he] at hid
    have heq : e.id = id := Option.some.inj hid
    unfold BufferEntry.push
    dsimp only
    split_ifs
    · simp [BufferEntry.markRead, heq, hne.symm]
    · simp [heq, hne.symm]

/-! ## Every call -/

theorem valid_new (scrollback : ℕ) : (new scrollback).Valid where
  head := rfl
  nodup := List.nodup_singleton _
  active := Nat.one_pos
  read e he := by
    cases he
    rfl

theorem Valid.openBuffer (h : m.Valid) (id : BufferId) : ∃ m', m.openBuffer id = some m' ∧ m'.Valid := by
  unfold BufferManager.openBuffer
  cases hfind : m.findIndex id with
  | some index =>
    obtain ⟨marked, hmarked, hordered, hlength⟩ := markReadAt_ordered h.toOrdered h.active
    obtain ⟨m', hm', hvalid⟩ := activate_valid hordered (hlength ▸ (of_findIndex hfind).1)
    exact ⟨m', by simp [hmarked, hm'], hvalid⟩
  | none =>
    have hpushed := h.pushNew hfind
    have hnew : m.buffers.length < (m.pushNew id).buffers.length := by
      unfold BufferManager.pushNew
      rw [List.length_append]
      exact Nat.lt_succ_self _
    obtain ⟨marked, hmarked, hordered, hlength⟩ := markReadAt_ordered hpushed.toOrdered hpushed.active
    obtain ⟨m', hm', hvalid⟩ := activate_valid hordered (hlength ▸ hnew)
    exact ⟨m', by simp [hmarked, hm'], hvalid⟩

theorem Valid.ensureOpen (h : m.Valid) (id : BufferId) :
    (m.ensureOpen id).2.Valid ∧ (m.ensureOpen id).2.activeId = m.activeId := by
  unfold BufferManager.ensureOpen
  cases hfind : m.findIndex id with
  | some index => exact ⟨h, rfl⟩
  | none => exact ⟨h.pushNew hfind, activeId_pushNew h.active⟩

theorem Valid.close (h : m.Valid) (id : BufferId) :
    ∃ r, m.close id = some r ∧ r.2.Valid ∧ (m.activeId ≠ some id → r.2.activeId = m.activeId) := by
  unfold BufferManager.close
  split_ifs with hstatus
  · exact ⟨_, rfl, h, fun _ => rfl⟩
  · cases hfind : m.findIndex id with
    | none => exact ⟨_, rfl, h, fun _ => rfl⟩
    | some index =>
      obtain ⟨hlt, hid⟩ := of_findIndex hfind
      have hpos := h.toOrdered.index_pos hfind hstatus
      have hlength := List.length_eraseIdx_of_lt hlt
      dsimp only
      by_cases hactive : m.activeIndex = index
      · rw [if_pos hactive]
        have hrange : (if (m.buffers.eraseIdx index).length ≤ m.activeIndex then
            (m.buffers.eraseIdx index).length - 1 else m.activeIndex) <
              (m.buffers.eraseIdx index).length := by
          split_ifs <;> omega
        obtain ⟨m', hm', hvalid⟩ := activate_valid (h.toOrdered.eraseIdx hpos m.activeIndex) hrange
        refine ⟨(true, m'), by simp [hm'], hvalid, fun hne => ?_⟩
        rw [activeId_eq, hactive, hid] at hne
        exact absurd rfl hne
      · -- the active buffer is where it was among the others
        have hkept := getElem?_erasedTo m.buffers hactive
        have hrange : erasedTo index m.activeIndex < (m.buffers.eraseIdx index).length := by
          have hin := h.active
          unfold erasedTo
          split_ifs <;> omega
        have hvalid : ({ m with
            buffers := m.buffers.eraseIdx index
            activeIndex := erasedTo index m.activeIndex } : BufferManager).Valid :=
          ⟨h.toOrdered.eraseIdx hpos _, hrange, fun e he => h.read e (hkept ▸ he)⟩
        have hactiveId : ({ m with
            buffers := m.buffers.eraseIdx index
            activeIndex := erasedTo index m.activeIndex } : BufferManager).activeId = m.activeId :=
          congrArg (Option.map BufferEntry.id) hkept
        rw [if_neg hactive]
        unfold erasedTo at hvalid hactiveId
        split_ifs at hvalid hactiveId ⊢ with hbelow
        · exact ⟨_, rfl, hvalid, fun _ => hactiveId⟩
        · exact ⟨_, rfl, hvalid, fun _ => hactiveId⟩

theorem Valid.switchTo (h : m.Valid) (id : BufferId) : ∃ r, m.switchTo id = some r ∧ r.2.Valid := by
  unfold BufferManager.switchTo
  cases hfind : m.findIndex id with
  | none => exact ⟨_, rfl, h⟩
  | some index =>
    obtain ⟨m', hm', hvalid⟩ := activate_valid h.toOrdered (of_findIndex hfind).1
    exact ⟨(true, m'), by simp [hm'], hvalid⟩

theorem Valid.switchNext (h : m.Valid) : ∃ m', m.switchNext = some m' ∧ m'.Valid := by
  have hpos : 0 < m.buffers.length := Nat.zero_lt_of_lt h.active
  obtain ⟨m', hm', hvalid⟩ := activate_valid h.toOrdered (Nat.mod_lt (m.activeIndex + 1) hpos)
  refine ⟨m', ?_, hvalid⟩
  rw [BufferManager.switchNext, if_neg hpos.ne', hm']

theorem Valid.switchPrev (h : m.Valid) : ∃ m', m.switchPrev = some m' ∧ m'.Valid := by
  have hactive := h.active
  unfold BufferManager.switchPrev
  split_ifs with hzero
  · exact activate_valid h.toOrdered (by omega)
  · exact activate_valid h.toOrdered (by omega)

theorem Valid.switchByIndex (h : m.Valid) (index : ℕ) :
    ∃ r, m.switchByIndex index = some r ∧ r.2.Valid := by
  unfold BufferManager.switchByIndex
  split_ifs with hout
  · exact ⟨_, rfl, h⟩
  · obtain ⟨m', hm', hvalid⟩ := activate_valid h.toOrdered (Nat.lt_of_not_le hout)
    exact ⟨(true, m'), by simp [hm'], hvalid⟩

theorem Valid.reorder (h : m.Valid) (start stop : ℕ) :
    (m.reorder start stop).2.Valid ∧ (m.reorder start stop).2.activeId = m.activeId ∧
      (m.reorder start stop).2.buffers.Perm m.buffers := by
  unfold BufferManager.reorder
  by_cases hzero : start = 0 ∨ stop = 0
  · rw [if_pos hzero]
    exact ⟨h, rfl, .refl _⟩
  rw [if_neg hzero]
  by_cases hout : m.buffers.length ≤ start ∨ m.buffers.length ≤ stop
  · rw [if_pos hout]
    exact ⟨h, rfl, .refl _⟩
  rw [if_neg hout]
  by_cases hsame : start = stop
  · rw [if_pos hsame]
    exact ⟨h, rfl, .refl _⟩
  rw [if_neg hsame]
  have hstart : start < m.buffers.length := by omega
  have hstop : stop < m.buffers.length := by omega
  have hperm := moveIdx_perm hstart hstop
  have hkept := getElem?_movedTo hstart hstop h.active
  refine ⟨⟨⟨?_, ?_⟩, ?_, ?_⟩, congrArg (Option.map BufferEntry.id) hkept, hperm⟩
  · have hhead := h.head
    unfold ids at hhead ⊢
    rw [List.head?_map] at hhead ⊢
    dsimp only
    rw [head?_moveIdx (by omega) (by omega) hstart]
    exact hhead
  · exact (hperm.map BufferEntry.id).nodup_iff.mpr h.nodup
  · dsimp only
    rw [length_moveIdx hstart hstop]
    exact movedTo_lt hstart hstop h.active
  · exact fun e he => h.read e (hkept ▸ he)

theorem Valid.pushTo (h : m.Valid) (id : BufferId) (line : BufferLine) :
    (m.pushTo id line).Valid ∧ (m.pushTo id line).activeId = m.activeId ∧
      ∀ other ≠ id, (m.pushTo id line).get other = m.get other := by
  unfold BufferManager.pushTo
  cases hfind : m.findIndex id with
  | some index =>
    refine ⟨h.pushLine id line fun hactive => ?_, activeId_pushLine ..,
      fun other hne => get_pushLine hne ..⟩
    exact decide_eq_true (hfind ▸ hactive)
  | none =>
    cases id with
    | status => exact ⟨h, rfl, fun _ _ => rfl⟩
    | channel name => exact ⟨h, rfl, fun _ _ => rfl⟩
    | query nick =>
      have hpushed := h.pushNew hfind
      refine ⟨hpushed.pushLine _ line fun hactive => ?_, ?_, fun other hne => ?_⟩
      · -- the new buffer is not the active one
        have hactiveId := (of_findIndex hactive).2
        rw [← activeId_eq, activeId_pushNew h.active, activeId_eq] at hactiveId
        exact absurd (List.mem_of_getElem? hactiveId) (notMem_ids hfind)
      · exact (activeId_pushLine ..).trans (activeId_pushNew h.active)
      · exact (get_pushLine hne ..).trans (get_pushNew hne)

/-- **One call** does not panic, keeps the invariant, and leaves alone what it says. -/
theorem step_valid (h : m.Valid) (c : Call) : ∃ m', m.step c = some m' ∧ m'.Valid ∧ m.Frame c m' := by
  cases c with
  | openBuffer id =>
    obtain ⟨m', hm', hvalid⟩ := h.openBuffer id
    exact ⟨m', hm', hvalid, trivial⟩
  | ensureOpen id => exact ⟨_, rfl, h.ensureOpen id⟩
  | close id =>
    obtain ⟨r, hr, hvalid, hactive⟩ := h.close id
    exact ⟨r.2, by rw [step, hr]; rfl, hvalid, hactive⟩
  | switchTo id =>
    obtain ⟨r, hr, hvalid⟩ := h.switchTo id
    exact ⟨r.2, by rw [step, hr]; rfl, hvalid, trivial⟩
  | switchNext =>
    obtain ⟨m', hm', hvalid⟩ := h.switchNext
    exact ⟨m', hm', hvalid, trivial⟩
  | switchPrev =>
    obtain ⟨m', hm', hvalid⟩ := h.switchPrev
    exact ⟨m', hm', hvalid, trivial⟩
  | switchByIndex index =>
    obtain ⟨r, hr, hvalid⟩ := h.switchByIndex index
    exact ⟨r.2, by rw [step, hr]; rfl, hvalid, trivial⟩
  | reorder start stop => exact ⟨_, rfl, h.reorder start stop⟩
  | pushTo id line => exact ⟨_, rfl, h.pushTo id line⟩

theorem run_valid (h : m.Valid) (calls : List Call) : ∃ m', m.run calls = some m' ∧ m'.Valid := by
  induction calls generalizing m with
  | nil => exact ⟨m, rfl, h⟩
  | cons c calls ih =>
    obtain ⟨next, hnext, hvalid, -⟩ := step_valid h c
    obtain ⟨m', hm', hvalid'⟩ := ih hvalid
    refine ⟨m', ?_, hvalid'⟩
    rw [run, List.foldlM_cons, hnext]
    exact hm'

/-- **The invariant holds in every run**, no call panics, and each one leaves alone what it says. -/
theorem buffers_kept (scrollback : ℕ) (calls : List Call) :
    ∃ m, (new scrollback).run calls = some m ∧ m.Valid ∧
      ∀ c, ∃ m', m.step c = some m' ∧ m'.Valid ∧ m.Frame c m' := by
  obtain ⟨m, hm, hvalid⟩ := run_valid (valid_new scrollback) calls
  exact ⟨m, hm, hvalid, fun c => step_valid hvalid c⟩

end BufferManager

end Pirc.Tui
