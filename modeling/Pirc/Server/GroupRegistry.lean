import Mathlib.Data.List.MinMax
import Pirc.Lib.Decimal
import Pirc.Server.Registry

/-!
# Server: groups

`group_registry.rs`: the groups of a server, each with its members by nickname. A nickname is text
here: two casings of it are two members, and what becomes of its user is not looked at.

## Main results

* `isMember_createGroup`, `isMember_addMember`, `isMember_removeMember`: what the operations do to
  membership
-/

namespace Pirc.Server

open Protocol

abbrev GroupId := UInt64

def GroupId.parse (text : Str) : Option GroupId := (Decimal.parse 64 text).toOption.map .ofNat

structure ServerGroupMember where
  nickname : Str
  joinedAt : ℕ
  isAdmin : Bool
  deriving DecidableEq

/-- A group, with its members and its creator. -/
structure ServerGroup where
  id : GroupId
  name : Str
  creator : Str
  members : FoldMap (fun nick : Str => nick) ServerGroupMember

namespace ServerGroup

def isEmpty (group : ServerGroup) : Bool := group.members.isEmpty

def contains (group : ServerGroup) (nickname : Str) : Bool := group.members.contains nickname

def longestTenuredMember (group : ServerGroup) (exclude : Str) : Option ServerGroupMember :=
  (group.members.values.filter fun member => member.nickname ≠ exclude).argmin
    ServerGroupMember.joinedAt

def makeAdmin (group : ServerGroup) (nickname : Str) : ServerGroup :=
  { group with
    members := group.members.modify nickname fun member => { member with isAdmin := true } }

end ServerGroup

structure RemoveMemberResult where
  remaining : List Str
  newAdmin : Option Str
  groupDestroyed : Bool
  deriving DecidableEq

/-- All groups by their numbers. -/
structure GroupRegistry where
  groups : FoldMap (fun group : GroupId => group) ServerGroup := ∅
  nextId : GroupId := 1

namespace GroupRegistry

/-- A new group with its creator as its only member. -/
def createGroup (r : GroupRegistry) (name creator : Str) (now : ℕ) : GroupId × GroupRegistry :=
  let id := r.nextId
  let members : FoldMap (fun nick : Str => nick) ServerGroupMember :=
    (∅ : FoldMap _ _).insert creator ⟨creator, now, true⟩
  (id, { groups := r.groups.insert id ⟨id, name, creator, members⟩, nextId := id + 1 })

def exists_ (r : GroupRegistry) (group : GroupId) : Bool := r.groups.contains group

def isMember (r : GroupRegistry) (group : GroupId) (nickname : Str) : Bool :=
  (r.groups.get group).any fun g => g.contains nickname

/-- Another member of a group that exists. -/
def addMember (r : GroupRegistry) (group : GroupId) (nickname : Str) (now : ℕ) :
    Bool × GroupRegistry :=
  match r.groups.get group with
  | none => (false, r)
  | some g =>
    if g.members.contains nickname then (false, r)
    else
      (true, { r with
        groups := r.groups.insert group
          { g with members := g.members.insert nickname ⟨nickname, now, false⟩ } })

/-- Remove a member. An admin hands over to the member who is there for the longest time, and a
group without members is removed. -/
def removeMember (r : GroupRegistry) (group : GroupId) (nickname : Str) :
    Option RemoveMemberResult × GroupRegistry :=
  match r.groups.get group with
  | none => (none, r)
  | some g =>
    let wasAdmin := (g.members.get nickname).any ServerGroupMember.isAdmin
    let g := { g with members := g.members.remove nickname }
    if g.isEmpty then
      (some ⟨[], none, true⟩, { r with groups := r.groups.remove group })
    else
      let newAdmin :=
        if wasAdmin then (g.longestTenuredMember nickname).map ServerGroupMember.nickname else none
      let g := newAdmin.elim g g.makeAdmin
      (some ⟨g.members.keys, newAdmin, false⟩, { r with groups := r.groups.insert group g })

def members (r : GroupRegistry) (group : GroupId) : List Str :=
  (r.groups.get group).elim [] fun g => g.members.keys

def groupName (r : GroupRegistry) (group : GroupId) : Option Str :=
  (r.groups.get group).map ServerGroup.name

def groupsForMember (r : GroupRegistry) (nickname : Str) : List GroupId :=
  (r.groups.entries.filter fun entry => entry.2.contains nickname).map Prod.fst

/-! ## Membership -/

variable {r : GroupRegistry} {group other : GroupId} {nickname nick : Str}

theorem mem_groupsForMember :
    group ∈ r.groupsForMember nickname ↔ r.isMember group nickname = true := by
  unfold groupsForMember isMember
  rw [List.mem_map]
  constructor
  · rintro ⟨entry, hentry, rfl⟩
    obtain ⟨hmem, hcontains⟩ := List.mem_filter.mp hentry
    rw [FoldMap.get_of_mem hmem]
    exact hcontains
  · intro hmember
    rcases hgroup : r.groups.get group with - | g
    · rw [hgroup] at hmember
      cases hmember
    · rw [hgroup] at hmember
      obtain ⟨key, rfl, hmem⟩ := FoldMap.get_eq_some.mp hgroup
      exact ⟨(key, g), List.mem_filter.mpr ⟨hmem, hmember⟩, rfl⟩

@[simp] theorem contains_insert {members : FoldMap (fun nick : Str => nick) ServerGroupMember}
    {member : ServerGroupMember} : (members.insert nickname member).contains nick =
      (members.contains nick || decide (nick = nickname)) := by
  rw [FoldMap.contains, FoldMap.get, FoldMap.lookup_insert, FoldMap.contains, FoldMap.get]
  rcases eq_or_ne nickname nick with rfl | hne
  · simp
  · simp [hne, hne.symm]

@[simp] theorem contains_remove {members : FoldMap (fun nick : Str => nick) ServerGroupMember} :
    (members.remove nickname).contains nick =
      (members.contains nick && !decide (nick = nickname)) := by
  rw [FoldMap.contains, FoldMap.get, FoldMap.lookup_remove, FoldMap.contains, FoldMap.get]
  rcases eq_or_ne nickname nick with rfl | hne
  · simp
  · simp [hne, hne.symm]

@[simp] theorem contains_modify {members : FoldMap (fun nick : Str => nick) ServerGroupMember}
    {f : ServerGroupMember → ServerGroupMember} :
    (members.modify nickname f).contains nick = members.contains nick := by
  rw [FoldMap.contains, FoldMap.get, FoldMap.lookup_modify, FoldMap.contains, FoldMap.get]
  split_ifs
  · simp
  · rfl

theorem isMember_insert {g : ServerGroup} {id : GroupId} :
    ({ groups := r.groups.insert group g, nextId := id } : GroupRegistry).isMember other nick =
      if other = group then g.contains nick else r.isMember other nick := by
  unfold isMember
  rw [FoldMap.get, FoldMap.lookup_insert]
  rcases eq_or_ne group other with rfl | hne
  · simp
  · simp [hne, hne.symm, FoldMap.get]

@[simp] theorem isMember_createGroup {name : Str} {now : ℕ} :
    (r.createGroup name nickname now).2.isMember other nick =
      if other = r.nextId then decide (nick = nickname) else r.isMember other nick := by
  unfold createGroup
  rw [isMember_insert, ServerGroup.contains, contains_insert]
  rfl

theorem isMember_remove {id : GroupId} :
    ({ groups := r.groups.remove group, nextId := id } : GroupRegistry).isMember other nick =
      (r.isMember other nick && !decide (other = group)) := by
  unfold isMember
  rw [FoldMap.get, FoldMap.lookup_remove]
  rcases eq_or_ne group other with rfl | hne
  · simp
  · simp [hne, hne.symm, FoldMap.get]

theorem isMember_of_get {g : ServerGroup} (h : r.groups.get group = some g) :
    r.isMember group nick = g.contains nick := by
  rw [isMember, h, Option.any_some]

theorem isMember_of_none (h : r.groups.get group = none) : r.isMember group nick = false := by
  rw [isMember, h, Option.any_none]

@[simp] theorem isMember_addMember {now : ℕ} :
    (r.addMember group nickname now).2.isMember other nick =
      (r.isMember other nick ||
        (decide (other = group ∧ nick = nickname) && r.exists_ group)) := by
  unfold addMember
  rcases hgroup : r.groups.get group with - | g
  · simp [exists_, FoldMap.contains, hgroup]
  · have hexists : r.exists_ group = true := by
      simp [exists_, FoldMap.contains, hgroup]
    rcases hmember : g.members.contains nickname with - | -
    · simp only [hmember, Bool.false_eq_true, if_false, isMember_insert, ServerGroup.contains,
        contains_insert, hexists]
      rcases eq_or_ne other group with rfl | hne
      · simp [isMember_of_get hgroup, ServerGroup.contains]
      · simp [hne]
    · -- the member is there
      simp only [hmember, if_true, hexists]
      rcases eq_or_ne other group with rfl | hne
      · rcases eq_or_ne nick nickname with rfl | hne
        · simp [isMember_of_get hgroup, ServerGroup.contains, hmember]
        · simp [hne]
      · simp [hne]

theorem contains_elim_makeAdmin {g : ServerGroup} (successor : Option Str) :
    (successor.elim g g.makeAdmin).contains nick = g.contains nick := by
  rcases successor with - | successor
  · rfl
  · exact contains_modify

theorem removeMember_of_none {groups : GroupRegistry}
    (h : r.removeMember group nickname = (none, groups)) : groups = r := by
  unfold removeMember at h
  split at h
  · cases h
    rfl
  · dsimp only at h
    split_ifs at h
    all_goals cases h

@[simp] theorem isMember_removeMember :
    (r.removeMember group nickname).2.isMember other nick =
      (r.isMember other nick && !decide (other = group ∧ nick = nickname)) := by
  rcases hgroup : r.groups.get group with - | g
  · rcases eq_or_ne other group with rfl | hne
    · simp [removeMember, hgroup, isMember_of_none hgroup]
    · simp [removeMember, hgroup, hne]
  · by_cases hempty : ({ g with members := g.members.remove nickname } : ServerGroup).isEmpty
    · -- nobody else is in the group
      have hnone : (g.members.remove nickname).contains nick = false :=
        FoldMap.contains_eq_false.mpr (FoldMap.isEmpty_iff.mp hempty _)
      simp only [removeMember, hgroup, if_pos hempty, isMember_remove]
      rcases eq_or_ne other group with rfl | hne
      · rw [contains_remove] at hnone
        simpa [isMember_of_get hgroup, ServerGroup.contains] using hnone
      · simp [hne]
    · simp only [removeMember, hgroup, if_neg hempty, isMember_insert,
        contains_elim_makeAdmin]
      rcases eq_or_ne other group with rfl | hne
      · simp [isMember_of_get hgroup, ServerGroup.contains]
      · simp [hne]

end GroupRegistry

end Pirc.Server
