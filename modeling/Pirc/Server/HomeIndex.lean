import Pirc.Server.Migration

/-!
# Server: the index of home nodes, both ways

The users of a node are looked up in a reverse index, which is written apart from the index of home
nodes. A user who takes the nickname of a user on another node is listed on its own node, and the
nickname stays listed on the other: the name is then moved together with the users of a node it is
not on.
-/

namespace Pirc.Server

open Protocol
open Raft (NodeId)

namespace UserNodeIndex

variable {index : UserNodeIndex} {nickname oldNick newNick : Str} {node other : NodeId}

/-- **The reverse index is exact**: a user is listed where it has its home, and nowhere else, and no
node has an empty list. -/
structure Exact (index : UserNodeIndex) : Prop where
  listed : ∀ node nickname, lowercase nickname ∈ index.usersOnNode node ↔
    index.home (lowercase nickname) = some node
  once : ∀ nickname node other, lowercase nickname ∈ index.usersOnNode node →
    lowercase nickname ∈ index.usersOnNode other → node = other
  nonempty : ∀ node users, index.nodeToUsers.get node = some users → users ≠ ∅

theorem exact_mk (hlisted : ∀ node nickname, lowercase nickname ∈ index.usersOnNode node ↔
      index.home (lowercase nickname) = some node)
    (hnonempty : ∀ node users, index.nodeToUsers.get node = some users → users ≠ ∅) : index.Exact where
  listed := hlisted
  once := by
    intro nickname node other hnode hother
    rw [hlisted] at hnode hother
    exact Option.some.inj (hnode.symm.trans hother)
  nonempty := hnonempty

/-! ## Lists -/

def Listing (nodeToUsers : FoldMap (fun node : NodeId => node) (Finset Str)) : Prop :=
  ∀ node users, nodeToUsers.get node = some users → users ≠ ∅

variable {nodeToUsers : FoldMap (fun node : NodeId => node) (Finset Str)}

theorem Listing.insert {users : Finset Str} (h : Listing nodeToUsers) (husers : users ≠ ∅) :
    Listing (nodeToUsers.insert node users) := by
  intro other users' hget
  rw [FoldMap.get_insert] at hget
  split_ifs at hget
  · cases hget
    exact husers
  · exact h other users' hget

theorem Listing.unlist {key : Str} (h : Listing nodeToUsers) :
    Listing (unlist nodeToUsers node key) := by
  unfold UserNodeIndex.unlist
  rcases nodeToUsers.get node with - | users
  · exact h
  · dsimp only
    split_ifs with hempty
    · intro other users' hget
      rw [FoldMap.get_remove] at hget
      split_ifs at hget
      exact h other users' hget
    · exact h.insert hempty

/-! ## What the operations do to the lists -/

theorem usersOnNode_setHomeNode : (index.setHomeNode nickname node).usersOnNode other =
    if other = node then insert (lowercase nickname) (index.usersOnNode node)
    else if index.home (lowercase nickname) = some other then
      (index.usersOnNode other).erase (lowercase nickname)
    else index.usersOnNode other := by
  unfold setHomeNode usersOnNode home
  rw [FoldMap.get_insert]
  rcases hhome : index.userToNode.get (lowercase nickname) with - | old
  · rcases eq_or_ne other node with rfl | hne
    · simp
    · simp [hne, hne.symm]
  · dsimp only
    rcases eq_or_ne old node with rfl | hmoved
    · rw [if_neg (not_not.mpr rfl)]
      rcases eq_or_ne other old with rfl | hne
      · simp
      · simp [hne, hne.symm]
    · rw [if_pos hmoved]
      rcases eq_or_ne other node with rfl | hne
      · rw [if_pos rfl, if_pos rfl, Option.getD_some, usersOnNode_unlist, if_neg hmoved.symm]
      · rw [if_neg hne.symm, if_neg hne, usersOnNode_unlist]
        simp only [Option.some.injEq, eq_comm]

theorem home_setHomeNode (key : Str) : (index.setHomeNode nickname node).home key =
    if lowercase nickname = key then some node else index.home key := by
  unfold setHomeNode
  rw [home_insert]

theorem exact_setHomeNode (h : index.Exact) (nickname : Str) (node : NodeId) :
    (index.setHomeNode nickname node).Exact := by
  refine exact_mk ?_ ?_
  · intro other user
    rw [usersOnNode_setHomeNode, home_setHomeNode]
    rcases eq_or_ne (lowercase nickname) (lowercase user) with heq | hne
    · rw [if_pos heq, heq, Option.some.injEq]
      split_ifs with hother hhome
      · simp [hother]
      · simp [Ne.symm hother]
      · rw [h.listed]
        exact iff_of_false hhome (Ne.symm hother)
    · rw [if_neg hne, ← h.listed other user]
      split_ifs with hother
      · rw [hother, Finset.mem_insert]
        exact or_iff_right (Ne.symm hne)
      · rw [Finset.mem_erase]
        exact and_iff_right (Ne.symm hne)
      · rfl
  · have hunlisted : ∀ old, Listing (unlist index.nodeToUsers old (lowercase nickname)) :=
      fun old => Listing.unlist h.nonempty
    have hany : ∀ nodeToUsers, Listing nodeToUsers → Listing (nodeToUsers.insert node
        (insert (lowercase nickname) ((nodeToUsers.get node).getD ∅))) :=
      fun nodeToUsers hlisting => hlisting.insert ((Finset.insert_nonempty _ _).ne_empty)
    unfold setHomeNode
    dsimp only
    rcases index.userToNode.get (lowercase nickname) with - | old
    · exact hany _ h.nonempty
    · dsimp only
      split_ifs
      · exact hany _ (hunlisted old)
      · exact hany _ h.nonempty

theorem exact_removeUser (h : index.Exact) (nickname : Str) : (index.removeUser nickname).Exact := by
  unfold removeUser
  dsimp only
  rcases hhome : index.userToNode.get (lowercase nickname) with - | node
  · exact h
  refine exact_mk ?_ (Listing.unlist h.nonempty)
  intro other user
  dsimp only
  rw [home_remove, usersOnNode, usersOnNode_unlist]
  rcases eq_or_ne (lowercase nickname) (lowercase user) with heq | hne
  · rw [if_pos heq, ← heq]
    split_ifs with hother
    · simp
    · refine iff_of_false ?_ (by simp)
      intro hlisted
      exact hother (Option.some.inj (((h.listed other nickname).mp hlisted).symm.trans hhome))
  · rw [if_neg hne, ← h.listed other user]
    split_ifs
    · rw [Finset.mem_erase]
      exact and_iff_right (Ne.symm hne)
    · rfl

/-! ## Renames -/

theorem renameUser_of_none (h : index.home (lowercase oldNick) = none) :
    index.renameUser oldNick newNick = index := by
  unfold renameUser
  dsimp only
  rw [show index.userToNode.get (lowercase oldNick) = none from h]

theorem renameUser_of_some (h : index.home (lowercase oldNick) = some node) :
    index.renameUser oldNick newNick =
      { userToNode := (index.userToNode.remove (lowercase oldNick)).insert (lowercase newNick) node
        nodeToUsers := index.nodeToUsers.modify node
          fun users => insert (lowercase newNick) (users.erase (lowercase oldNick)) } := by
  unfold renameUser
  dsimp only
  rw [show index.userToNode.get (lowercase oldNick) = some node from h]

theorem home_renameUser (h : index.home (lowercase oldNick) = some node) (key : Str) :
    (index.renameUser oldNick newNick).home key =
      if lowercase newNick = key then some node
      else if lowercase oldNick = key then none
      else index.home key := by
  rw [renameUser_of_some h]
  simp only [home, FoldMap.get_insert, FoldMap.get_remove]

theorem usersOnNode_renameUser (hexact : index.Exact) (h : index.home (lowercase oldNick) = some node) :
    (index.renameUser oldNick newNick).usersOnNode other =
      if other = node then insert (lowercase newNick) ((index.usersOnNode node).erase (lowercase oldNick))
      else index.usersOnNode other := by
  -- the user is listed at home, so that there is a list to change
  have hlisted := (hexact.listed node oldNick).mpr h
  rw [renameUser_of_some h]
  simp only [usersOnNode, FoldMap.get_modify] at hlisted ⊢
  rcases husers : index.nodeToUsers.get node with - | users
  · simp [husers] at hlisted
  · rcases eq_or_ne other node with rfl | hne
    · simp [husers]
    · simp [hne, hne.symm]

def SeparateRename (index : UserNodeIndex) (oldNick newNick : Str) : Prop :=
  ∀ node other, index.home (lowercase oldNick) = some node →
    index.home (lowercase newNick) = some other → node = other

/-- **A rename keeps the reverse index exact** if and only if it takes the nickname of no user on
another node. -/
theorem exact_renameUser_iff (h : index.Exact) (oldNick newNick : Str) :
    (index.renameUser oldNick newNick).Exact ↔ index.SeparateRename oldNick newNick := by
  rcases hhome : index.home (lowercase oldNick) with - | node
  · rw [renameUser_of_none hhome]
    refine iff_of_true h ?_
    intro node other hnode
    cases hhome.symm.trans hnode
  constructor
  · intro hexact node' other hnode hother
    cases hhome.symm.trans hnode
    by_contra hne
    -- the old entry of the nickname is still there
    have hstale : lowercase newNick ∈ (index.renameUser oldNick newNick).usersOnNode other := by
      rw [usersOnNode_renameUser h hhome, if_neg (Ne.symm hne)]
      exact (h.listed other newNick).mpr hother
    have hnew := (hexact.listed other newNick).mp hstale
    rw [home_renameUser hhome, if_pos rfl] at hnew
    exact hne (Option.some.inj hnew)
  · intro hseparate
    refine exact_mk ?_ ?_
    · intro other user
      rw [usersOnNode_renameUser h hhome, home_renameUser hhome]
      rcases eq_or_ne (lowercase newNick) (lowercase user) with heq | hnew
      · rw [if_pos heq, ← heq, Option.some.injEq]
        split_ifs with hother
        · simp [hother]
        · refine iff_of_false ?_ (Ne.symm hother)
          intro hlisted
          exact hother (hseparate node other hhome ((h.listed other newNick).mp hlisted)).symm
      rw [if_neg hnew]
      rcases eq_or_ne (lowercase oldNick) (lowercase user) with heq | hold
      · rw [if_pos heq, ← heq]
        refine iff_of_false ?_ (by simp)
        split_ifs with hother
        · simp [heq, Ne.symm hnew]
        · intro hlisted
          exact hother (Option.some.inj (((h.listed other oldNick).mp hlisted).symm.trans hhome))
      · rw [if_neg hold, ← h.listed other user]
        split_ifs with hother
        · rw [hother, Finset.mem_insert, Finset.mem_erase]
          simp [Ne.symm hnew, Ne.symm hold]
        · rfl
    · intro other users hget
      have hsame := h.nonempty other
      rw [renameUser_of_some hhome] at hget
      simp only [FoldMap.get_modify] at hget
      split_ifs at hget
      · obtain ⟨before, -, rfl⟩ := Option.map_eq_some_iff.mp hget
        exact (Finset.insert_nonempty _ _).ne_empty
      · exact hsame users hget

/-- **A command renames nobody onto a user of another node.** -/
def Separate (index : UserNodeIndex) : ClusterCommand → Prop
  | .nickChanged oldNick newNick => index.SeparateRename oldNick newNick
  | _ => True

theorem exact_update_iff (h : index.Exact) (command : ClusterCommand) :
    (index.update command).Exact ↔ index.Separate command := by
  unfold update
  split
  · exact iff_of_true (exact_setHomeNode h _ _) trivial
  · exact iff_of_true (exact_setHomeNode h _ _) trivial
  · exact iff_of_true (exact_removeUser h _) trivial
  · exact iff_of_true (exact_removeUser h _) trivial
  · exact exact_renameUser_iff h _ _
  · next hnick =>
    refine iff_of_true h ?_
    unfold Separate
    split
    · exact absurd rfl (hnick _ _)
    · trivial

theorem exact_empty : Exact {} := exact_mk (fun _ _ => by simp [usersOnNode, home]) (by
  intro node users hget
  cases hget)

end UserNodeIndex

/-! ## Runs -/

/-- **The index**, with any committed commands. -/
def homeIndexSystem : System UserNodeIndex ClusterCommand where
  enabled _ _ := True
  step := UserNodeIndex.update

/-- **Where the reverse index is exact**: in all states of a run, exactly if no command of the run
renames a user onto a user of another node. -/
theorem homeIndex_exact_iff (commands : List ClusterCommand) :
    (∀ n, (homeIndexSystem.exec {} (commands.take n)).Exact) ↔
      homeIndexSystem.Legal (fun index command => index.Separate command) {} commands := by
  have hlegal : homeIndexSystem.Legal System.Free {} commands := by
    generalize ({} : UserNodeIndex) = index
    induction commands generalizing index with
    | nil => trivial
    | cons command commands ih => exact ⟨trivial, trivial, ih _⟩
  exact System.forall_take_iff_of_step (I := fun _ => True) (P := UserNodeIndex.Exact) 
    (fun _ _ _ _ => trivial) (fun index command _ _ h => UserNodeIndex.exact_update_iff h command)
      hlegal trivial
    UserNodeIndex.exact_empty

/-- Alice is on one node, Bob on another, and Alice takes Bob's nickname. -/
def aliceTakesBob : List ClusterCommand :=
  [.userMigrated "alice".toList 3 1, .userMigrated "bob".toList 3 2,
    .nickChanged "alice".toList "Bob".toList]

/-- **A nickname on two nodes**: Bob is listed on Alice's node, where he is, and on his former
node. -/
theorem not_exact_renamed :
    ¬ (homeIndexSystem.exec {} aliceTakesBob).Exact ∧
    (homeIndexSystem.exec {} aliceTakesBob).home "bob".toList = some 1 ∧
    "bob".toList ∈ (homeIndexSystem.exec {} aliceTakesBob).usersOnNode 1 ∧
    "bob".toList ∈ (homeIndexSystem.exec {} aliceTakesBob).usersOnNode 2 := by
  refine ⟨?_, by decide, by decide, by decide⟩
  intro h
  exact absurd ((h.listed 2 "bob".toList).mp (by decide)) (by decide)

end Pirc.Server
