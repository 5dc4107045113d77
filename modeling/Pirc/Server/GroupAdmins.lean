import Pirc.Lib.Run
import Pirc.Server.GroupRegistry

/-!
# Server: the admin of a group

Whoever creates a group is its admin, and an admin who leaves hands over to the member who is there
for the longest time. A group therefore has one admin for as long as it exists, whoever else comes
and goes.
-/

namespace Pirc.Server

open Protocol

namespace ServerGroup

variable {g g' : ServerGroup} {nickname nick successor : Str}

/-- Each member is listed under its nickname, and one of them is an admin. -/
structure Led (g : ServerGroup) : Prop where
  keyed : ∀ nick member, g.members.get nick = some member → member.nickname = nick
  admin : ∃! nick, ∃ member, g.members.get nick = some member ∧ member.isAdmin = true

def HasAdmin (g : ServerGroup) (nick : Str) : Prop :=
  ∃ member, g.members.get nick = some member ∧ member.isAdmin = true

def without (g : ServerGroup) (nickname : Str) : ServerGroup :=
  { g with members := g.members.remove nickname }

theorem get_without : (g.without nickname).members.get nick =
    if nick = nickname then none else g.members.get nick := by
  rw [without, FoldMap.get_remove]
  simp only [eq_comm]

/-- **The successor** of an admin who leaves: another member, and none of the others is there for a
longer time. -/
def Succeeds (g : ServerGroup) (leaver successor : Str) : Prop :=
  ∃ member, successor ≠ leaver ∧ g.members.get successor = some member ∧
    ∀ nick other, nick ≠ leaver → g.members.get nick = some other → member.joinedAt ≤ other.joinedAt

theorem Led.contains (h : g.Led) : ∃ nick, g.contains nick = true := by
  obtain ⟨nick, ⟨member, hmember, -⟩, -⟩ := h.admin
  exact ⟨nick, FoldMap.contains_iff.mpr ⟨member, hmember⟩⟩

theorem Led.congr (h : g.Led) (hsame : ∀ nick, g'.members.get nick = g.members.get nick) : g'.Led where
  keyed := by
    intro nick member hmember
    rw [hsame] at hmember
    exact h.keyed nick member hmember
  admin := by
    simp only [hsame]
    exact h.admin

theorem succeeds_of_longestTenuredMember {member : ServerGroupMember}
    (hkeyed : ∀ nick member, g.members.get nick = some member → member.nickname = nick)
    (h : (g.without nickname).longestTenuredMember nickname = some member) :
    g.Succeeds nickname member.nickname := by
  have hmin := List.argmin_eq_some_iff.mp h
  obtain ⟨hmem, hne⟩ := List.mem_filter.mp hmin.1
  have hne : member.nickname ≠ nickname := of_decide_eq_true hne
  obtain ⟨entry, hentry, rfl⟩ := List.mem_map.mp hmem
  -- an entry that is left is one of the group
  have hget := FoldMap.get_of_mem hentry
  rw [get_without] at hget
  split_ifs at hget
  have hname := hkeyed _ _ hget
  refine ⟨entry.2, hne, hname ▸ hget, ?_⟩
  intro nick other hnick hother
  refine hmin.2.1 other (List.mem_filter.mpr ⟨?_, ?_⟩)
  · have hleft : (g.without nickname).members.get nick = some other := by
      rw [get_without, if_neg hnick, hother]
    obtain ⟨key, -, hmem⟩ := FoldMap.get_eq_some.mp hleft
    exact List.mem_map.mpr ⟨(key, other), hmem, rfl⟩
  · rw [decide_eq_true_eq, hkeyed nick other hother]
    exact hnick

theorem exists_longestTenuredMember
    (hkeyed : ∀ nick member, g.members.get nick = some member → member.nickname = nick)
    (h : ¬ (g.without nickname).isEmpty) :
    ∃ member, (g.without nickname).longestTenuredMember nickname = some member := by
  obtain ⟨nick, member, hmember⟩ := FoldMap.exists_lookup_of_not_isEmpty h
  have hget : (g.without nickname).members.get nick = some member := hmember
  rw [get_without] at hget
  split_ifs at hget with hnick
  refine Option.ne_none_iff_exists'.mp fun hnone => ?_
  have hempty := List.argmin_eq_none.mp hnone
  have hmem : member ∈ (g.without nickname).members.values := by
    obtain ⟨key, -, hmem⟩ := FoldMap.lookup_eq_some.mp hmember
    exact List.mem_map.mpr ⟨(key, member), hmem, rfl⟩
  refine List.filter_eq_nil_iff.mp hempty member hmem ?_
  rw [decide_eq_true_eq, hkeyed nick member hget]
  exact hnick

/-! ## What the operations do to a group -/

theorem led_single {id : GroupId} {name : Str} {now : ℕ} :
    (⟨id, name, nick, (∅ : FoldMap _ _).insert nick ⟨nick, now, true⟩⟩ : ServerGroup).Led where
  keyed := by
    intro other member hmember
    rw [FoldMap.get_insert] at hmember
    split_ifs at hmember with heq
    · cases hmember
      exact heq
    · cases hmember
  admin := by
    refine ⟨nick, ⟨⟨nick, now, true⟩, by simp, rfl⟩, ?_⟩
    rintro other ⟨member, hmember, -⟩
    rw [FoldMap.get_insert] at hmember
    split_ifs at hmember with heq
    · exact heq.symm
    · cases hmember

theorem Led.insert {now : ℕ} (h : g.Led) (hnew : g.members.contains nickname = false) :
    ({ g with members := g.members.insert nickname ⟨nickname, now, false⟩ } : ServerGroup).Led := by
  have hnone := FoldMap.contains_eq_false.mp hnew
  refine ⟨?_, ?_⟩
  · intro nick member hmember
    rw [FoldMap.get_insert] at hmember
    split_ifs at hmember with heq
    · cases hmember
      exact heq
    · exact h.keyed nick member hmember
  · obtain ⟨admin, ⟨member, hmember, hadmin⟩, hunique⟩ := h.admin
    refine ⟨admin, ⟨member, ?_, hadmin⟩, ?_⟩
    · rw [FoldMap.get_insert, if_neg, hmember]
      rintro rfl
      cases hnone.symm.trans hmember
    · rintro nick ⟨other, hother, hother'⟩
      rw [FoldMap.get_insert] at hother
      split_ifs at hother with heq
      · cases hother
        cases hother'
      · exact hunique nick ⟨other, hother, hother'⟩

theorem Led.without (h : g.Led) (hleaver : ¬ g.HasAdmin nickname) : (g.without nickname).Led := by
  refine ⟨?_, ?_⟩
  · intro nick member hmember
    rw [get_without] at hmember
    split_ifs at hmember
    exact h.keyed nick member hmember
  · obtain ⟨admin, ⟨member, hmember, hadmin⟩, hunique⟩ := h.admin
    refine ⟨admin, ⟨member, ?_, hadmin⟩, ?_⟩
    · rw [get_without, if_neg, hmember]
      rintro rfl
      exact hleaver ⟨member, hmember, hadmin⟩
    · rintro nick ⟨other, hother, hother'⟩
      rw [get_without] at hother
      split_ifs at hother
      exact hunique nick ⟨other, hother, hother'⟩

theorem Led.handOver (h : g.Led) (hleaver : g.HasAdmin nickname)
    (hsucc : g.Succeeds nickname successor) : ((g.without nickname).makeAdmin successor).Led := by
  obtain ⟨member, hne, hmember, -⟩ := hsucc
  refine ⟨?_, ?_⟩
  · intro nick other hother
    rw [makeAdmin, FoldMap.get_modify, get_without] at hother
    rcases eq_or_ne nick nickname with rfl | hnick
    · simp at hother
    rw [if_neg hnick] at hother
    split_ifs at hother
    · obtain ⟨old, hold, rfl⟩ := Option.map_eq_some_iff.mp hother
      exact h.keyed nick old hold
    · exact h.keyed nick other hother
  · refine ⟨successor, ⟨{ member with isAdmin := true }, ?_, rfl⟩, ?_⟩
    · rw [makeAdmin, FoldMap.get_modify, if_pos rfl, get_without, if_neg hne, hmember]
      rfl
    · -- the leaver was the only admin
      rintro nick ⟨other, hother, hadmin⟩
      rw [makeAdmin, FoldMap.get_modify, get_without] at hother
      rcases eq_or_ne nick nickname with rfl | hnick
      · simp at hother
      rw [if_neg hnick] at hother
      by_contra hother'
      rw [if_neg (Ne.symm hother')] at hother
      exact hnick (h.admin.unique ⟨other, hother, hadmin⟩ hleaver)

end ServerGroup

namespace GroupRegistry

variable {r : GroupRegistry} {group other : GroupId} {nickname : Str} {g : ServerGroup}

def AllLed (r : GroupRegistry) : Prop := ∀ group g, r.groups.get group = some g → g.Led

/-- The same groups with the same members, in another order: a hash map is iterated in any order. -/
def SameContent (r r' : GroupRegistry) : Prop :=
  r'.nextId = r.nextId ∧ ∀ group, Option.Rel (fun g g' => g'.id = g.id ∧ g'.name = g.name ∧
    g'.creator = g.creator ∧ ∀ nick, g'.members.get nick = g.members.get nick)
    (r.groups.get group) (r'.groups.get group)

def setGroup (r : GroupRegistry) (group : GroupId) (g : ServerGroup) : GroupRegistry :=
  { r with groups := r.groups.insert group g }

@[simp] theorem get_setGroup :
    (r.setGroup group g).groups.get other = if group = other then some g else r.groups.get other :=
  FoldMap.get_insert ..

theorem AllLed.setGroup (h : r.AllLed) (hled : g.Led) : (r.setGroup group g).AllLed := by
  intro other g' hg'
  rw [get_setGroup] at hg'
  split_ifs at hg'
  · cases hg'
    exact hled
  · exact h other g' hg'

theorem AllLed.createGroup {name creator : Str} {now : ℕ} (h : r.AllLed) :
    (r.createGroup name creator now).2.AllLed := by
  intro group g hg
  rw [GroupRegistry.createGroup, FoldMap.get_insert] at hg
  split_ifs at hg
  · cases hg
    exact ServerGroup.led_single
  · exact h group g hg

theorem AllLed.addMember {now : ℕ} (h : r.AllLed) : (r.addMember group nickname now).2.AllLed := by
  unfold GroupRegistry.addMember
  rcases hgroup : r.groups.get group with - | joined
  · exact h
  rcases hnew : joined.members.contains nickname with - | -
  · intro other g hg
    simp only [hnew, Bool.false_eq_true, if_false, FoldMap.get_insert] at hg
    split_ifs at hg
    · cases hg
      exact (h group joined hgroup).insert hnew
    · exact h other g hg
  · simpa only [hnew, if_true] using h

theorem wasAdmin_iff : (g.members.get nickname).any ServerGroupMember.isAdmin = true ↔
    g.HasAdmin nickname := by
  rw [Option.any_eq_true]
  rfl

/-- **What is left of a group** once a nickname is removed from it: nothing, if nobody else was in
it; the others, led by whoever led them; or the others and the successor of the admin. -/
inductive Leaves (r : GroupRegistry) (group : GroupId) (g : ServerGroup) (nickname : Str) :
    Option RemoveMemberResult × GroupRegistry → Prop
  | destroyed (result : RemoveMemberResult) (hresult : result.groupDestroyed = true)
      (halone : ∀ nick, g.contains nick = true → nick = nickname) :
      Leaves r group g nickname (some result, { r with groups := r.groups.remove group })
  | ordinary (result : RemoveMemberResult) (hresult : result.newAdmin = none)
      (hleaver : ¬ g.HasAdmin nickname) :
      Leaves r group g nickname (some result, r.setGroup group (g.without nickname))
  | admin (result : RemoveMemberResult) (successor : Str) (hresult : result.newAdmin = some successor)
      (hleaver : g.HasAdmin nickname) (hsucc : g.Succeeds nickname successor) :
      Leaves r group g nickname
        (some result, r.setGroup group ((g.without nickname).makeAdmin successor))

theorem leaves_removeMember (h : g.Led) (hg : r.groups.get group = some g) (nickname : Str) :
    r.Leaves group g nickname (r.removeMember group nickname) := by
  unfold removeMember
  rw [hg]
  change r.Leaves group g nickname (if (g.without nickname).isEmpty then _ else _)
  split_ifs with hempty hwas
  · refine .destroyed _ rfl ?_
    intro nick hnick
    obtain ⟨member, hmember⟩ := FoldMap.contains_iff.mp hnick
    by_contra hne
    have hleft : (g.without nickname).members.get nick = some member := by
      rw [ServerGroup.get_without, if_neg hne, hmember]
    cases hleft.symm.trans (FoldMap.isEmpty_iff.mp hempty nick)
  · obtain ⟨member, hmember⟩ := ServerGroup.exists_longestTenuredMember h.keyed hempty
    rw [show ({ g with members := g.members.remove nickname } : ServerGroup).longestTenuredMember
      nickname = some member from hmember]
    exact .admin ⟨_, _, _⟩ member.nickname rfl (wasAdmin_iff.mp hwas)
      (ServerGroup.succeeds_of_longestTenuredMember h.keyed hmember)
  · exact .ordinary ⟨_, none, _⟩ rfl fun hleaver => hwas (wasAdmin_iff.mpr hleaver)

theorem AllLed.removeMember (h : r.AllLed) : (r.removeMember group nickname).2.AllLed := by
  rcases hgroup : r.groups.get group with - | g
  · simpa only [GroupRegistry.removeMember, hgroup] using h
  have hled := h group g hgroup
  have hleaves := leaves_removeMember hled hgroup nickname
  revert hleaves
  generalize r.removeMember group nickname = after
  intro hleaves
  cases hleaves with
  | destroyed =>
    intro other g' hg'
    rw [FoldMap.get_remove] at hg'
    split_ifs at hg'
    exact h other g' hg'
  | ordinary _ _ hleaver => exact h.setGroup (hled.without hleaver)
  | admin _ _ _ hleaver hsucc => exact h.setGroup (hled.handOver hleaver hsucc)

theorem AllLed.reorder {r' : GroupRegistry} (h : r.AllLed) (hsame : r.SameContent r') : r'.AllLed := by
  intro group g' hg'
  have hrel := hsame.2 group
  rw [hg'] at hrel
  rcases hg : r.groups.get group with - | g
  · rw [hg] at hrel
    cases hrel
  · rw [hg] at hrel
    cases hrel with
    | some hmembers => exact (h group g hg).congr hmembers.2.2.2

/-- **An admin hands over**: the group is destroyed with its last member, or a member who is there
for the longest time takes over. -/
def HandsOver (r : GroupRegistry) (group : GroupId) (g : ServerGroup) (leaver : Str) : Prop :=
  ∃ result, (r.removeMember group leaver).1 = some result ∧
    ((result.groupDestroyed = true ∧ ∀ nick, g.contains nick = true → nick = leaver) ∨
      ∃ successor, result.newAdmin = some successor ∧ g.Succeeds leaver successor ∧
        ∃ g', (r.removeMember group leaver).2.groups.get group = some g' ∧ g'.HasAdmin successor)

theorem handsOver (h : g.Led) (hg : r.groups.get group = some g) (hadmin : g.HasAdmin nickname) :
    r.HandsOver group g nickname := by
  have hleaves := leaves_removeMember h hg nickname
  unfold HandsOver
  revert hleaves
  generalize r.removeMember group nickname = after
  intro hleaves
  cases hleaves with
  | destroyed result hresult halone => exact ⟨result, rfl, .inl ⟨hresult, halone⟩⟩
  | ordinary _ _ hleaver => exact absurd hadmin hleaver
  | admin result successor hresult hleaver hsucc =>
    refine ⟨result, rfl, .inr ⟨successor, hresult, hsucc, _, get_setGroup.trans (if_pos rfl), ?_⟩⟩
    obtain ⟨member, hne, hmember, -⟩ := hsucc
    refine ⟨{ member with isAdmin := true }, ?_, rfl⟩
    rw [ServerGroup.makeAdmin, FoldMap.get_modify, if_pos rfl, ServerGroup.get_without, if_neg hne,
      hmember]
    rfl

end GroupRegistry

/-! ## Runs -/

inductive GroupEvent
  | createGroup (name creator : Str) (now : ℕ)
  | addMember (group : GroupId) (nickname : Str) (now : ℕ)
  | removeMember (group : GroupId) (nickname : Str)
  /-- A hash map goes through its entries in another order. -/
  | reorder (groups : GroupRegistry)

/-- **The groups of a server**, with their operations in any order. -/
def groupEvents : System GroupRegistry GroupEvent where
  enabled r event :=
    match event with
    | .reorder groups => r.SameContent groups
    | _ => True
  step r event :=
    match event with
    | .createGroup name creator now => (r.createGroup name creator now).2
    | .addMember group nickname now => (r.addMember group nickname now).2
    | .removeMember group nickname => (r.removeMember group nickname).2
    | .reorder groups => groups

theorem allLed_step (r : GroupRegistry) (event : GroupEvent) (henabled : groupEvents.enabled r event)
    (h : r.AllLed) : (groupEvents.step r event).AllLed := by
  cases event with
  | createGroup => exact h.createGroup
  | addMember => exact h.addMember
  | removeMember => exact h.removeMember
  | reorder => exact h.reorder henabled

/-- **Every group has one admin** in every run: the group has a member, each member is listed under
its nickname, exactly one of them is an admin, and an admin who leaves hands over to whoever is
there for the longest time. -/
theorem groups_led {r : GroupRegistry} (h : groupEvents.Steps System.Free {} r) {group : GroupId}
    {g : ServerGroup} (hg : r.groups.get group = some g) :
    (∃ nick, g.contains nick = true) ∧
      (∀ nick member, g.members.get nick = some member → member.nickname = nick) ∧
      (∃! nick, g.HasAdmin nick) ∧
      ∀ leaver, g.HasAdmin leaver → r.HandsOver group g leaver := by
  have hled : r.AllLed := by
    refine h.invariant (fun r event henabled _ => allLed_step r event henabled) ?_
    intro group g hg
    cases hg
  have hg' := hled group g hg
  exact ⟨hg'.contains, hg'.keyed, hg'.admin, fun leaver => GroupRegistry.handsOver hg' hg⟩

/-- Alice creates a group, Bob enters it, and Carol with an earlier time. -/
def threeInGroup : List GroupEvent :=
  [.createGroup "chat".toList "alice".toList 5, .addMember 1 "bob".toList 9,
    .addMember 1 "carol".toList 7]

theorem groups_led_threeInGroup : ∃ g,
    (groupEvents.exec {} threeInGroup).groups.get 1 = some g ∧ (∃ nick, g.contains nick = true) ∧
      (∀ nick member, g.members.get nick = some member → member.nickname = nick) ∧
      (∃! nick, g.HasAdmin nick) ∧
      ∀ leaver, g.HasAdmin leaver → (groupEvents.exec {} threeInGroup).HandsOver 1 g leaver := by
  have hlegal : groupEvents.Legal System.Free {} threeInGroup :=
    ⟨trivial, trivial, trivial, trivial, trivial, trivial, trivial⟩
  exact ⟨_, rfl, groups_led hlegal.steps rfl⟩

example : ((groupEvents.exec {} threeInGroup).removeMember 1 "alice".toList).1 =
    some ⟨["carol".toList, "bob".toList], some "carol".toList, false⟩ := by decide

end Pirc.Server
