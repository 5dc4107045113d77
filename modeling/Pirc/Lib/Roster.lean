import Mathlib.Logic.Relation
import Mathlib.Data.Set.Basic
import Mathlib.Tactic

/-!
# Rosters

People who are present, and rooms with people in them. A room is open or not; an open room has a
set of occupants. People arrive, enter rooms, leave them and depart, and a room that its last
occupant leaves is closed.

## Main results

* `Roster.sound_of_move`, `Roster.sound_of_moves`: moves keep rosters sound
* `Roster.outside_leaveAll`: leaving every room one is in leads outside
* `Roster.not_sound_depart`: departing from inside a room does not
-/

universe u v

/-- Who is present, and the occupants of each open room. -/
@[ext]
structure Roster (ι : Type u) (κ : Type v) where
  present : Set ι
  rooms : κ → Option (Set ι)

namespace Roster

variable {ι : Type u} {κ : Type v} {r r' : Roster ι κ} {i : ι} {k : κ}

/-- **Soundness**: no open room is empty, and whoever is in a room is present. -/
def Sound (r : Roster ι κ) : Prop :=
  ∀ k o, r.rooms k = some o → o.Nonempty ∧ o ⊆ r.present

def Outside (r : Roster ι κ) (i : ι) : Prop := ∀ k o, r.rooms k = some o → i ∉ o

def arrive (r : Roster ι κ) (i : ι) : Roster ι κ := { r with present := insert i r.present }

def depart (r : Roster ι κ) (i : ι) : Roster ι κ := { r with present := r.present \ {i} }

section Rooms

variable [DecidableEq κ]

/-- Someone enters a room, which opens if it is closed. -/
def enter (r : Roster ι κ) (i : ι) (k : κ) : Roster ι κ :=
  { r with rooms := fun k' => if k = k' then some (insert i ((r.rooms k).getD ∅)) else r.rooms k' }

open Classical in
/-- The room with these occupants, which is closed if there are none. -/
noncomputable def room (o : Set ι) : Option (Set ι) := if o = ∅ then none else some o

/-- Someone leaves a room, which closes behind the last occupant. -/
noncomputable def leave (r : Roster ι κ) (i : ι) (k : κ) : Roster ι κ :=
  { r with
    rooms := fun k' =>
      if k = k' then (r.rooms k).bind fun o => room (o \ {i}) else r.rooms k' }

/-- **The moves.** Whoever enters a room is present, and whoever departs is in none. -/
inductive Move : Roster ι κ → Roster ι κ → Prop
  | arrive (r : Roster ι κ) (i : ι) : Move r (r.arrive i)
  | depart (r : Roster ι κ) (i : ι) (h : r.Outside i) : Move r (r.depart i)
  | enter (r : Roster ι κ) (i : ι) (k : κ) (h : i ∈ r.present) : Move r (r.enter i k)
  | leave (r : Roster ι κ) (i : ι) (k : κ) : Move r (r.leave i k)

abbrev Moves : Roster ι κ → Roster ι κ → Prop := Relation.ReflTransGen Move

theorem room_eq_some {o o' : Set ι} : room o = some o' ↔ o = o' ∧ o.Nonempty := by
  unfold room
  split_ifs with h
  · simp [h]
  · simp [Set.nonempty_iff_ne_empty, h]

/-- **A move keeps the roster sound.** -/
theorem sound_of_move (h : Move r r') (hr : r.Sound) : r'.Sound := by
  intro k' o ho
  cases h with
  | arrive i =>
    obtain ⟨hne, hsub⟩ := hr k' o ho
    exact ⟨hne, hsub.trans (Set.subset_insert _ _)⟩
  | depart i hout =>
    obtain ⟨hne, hsub⟩ := hr k' o ho
    refine ⟨hne, ?_⟩
    intro j hj
    refine ⟨hsub hj, ?_⟩
    rintro rfl
    exact hout k' o ho hj
  | enter i k hi =>
    dsimp only [enter] at ho
    split_ifs at ho with hk
    · subst hk
      obtain rfl := Option.some_inj.mp ho
      refine ⟨Set.insert_nonempty _ _, Set.insert_subset hi ?_⟩
      cases hroom : r.rooms k with
      | none => exact Set.empty_subset _
      | some o => exact (hr k o hroom).2
    · exact hr k' o ho
  | leave i k =>
    dsimp only [leave] at ho
    split_ifs at ho with hk
    · subst hk
      obtain ⟨o', hroom, hopen⟩ := Option.bind_eq_some_iff.mp ho
      obtain ⟨rfl, hne⟩ := room_eq_some.mp hopen
      exact ⟨hne, Set.sdiff_subset.trans (hr k o' hroom).2⟩
    · exact hr k' o ho

theorem sound_of_moves (h : Moves r r') (hr : r.Sound) : r'.Sound := by
  induction h with
  | refl => exact hr
  | tail _ hmove ih => exact sound_of_move hmove ih

noncomputable def leaveAll (r : Roster ι κ) (i : ι) (ks : List κ) : Roster ι κ :=
  ks.foldl (fun r k => r.leave i k) r

theorem moves_leaveAll (ks : List κ) : Moves r (r.leaveAll i ks) := by
  induction ks generalizing r with
  | nil => exact .refl
  | cons k ks ih => exact .head (.leave r i k) ih

theorem outside_leaveAll {ks : List κ} (h : ∀ k o, r.rooms k = some o → i ∈ o → k ∈ ks) :
    (r.leaveAll i ks).Outside i := by
  induction ks generalizing r with
  | nil =>
    intro k o ho hi
    cases h k o ho hi
  | cons k ks ih =>
    apply ih
    intro k' o ho hi
    dsimp only [leave] at ho
    split_ifs at ho with hk
    · -- the room that was left first does not have them any more
      obtain ⟨o', -, hopen⟩ := Option.bind_eq_some_iff.mp ho
      obtain ⟨rfl, -⟩ := room_eq_some.mp hopen
      exact absurd rfl hi.2
    · rcases List.mem_cons.mp (h k' o ho hi) with rfl | hmem
      · exact absurd rfl hk
      · exact hmem

end Rooms

theorem not_sound_depart (h : ¬ r.Outside i) : ¬ (r.depart i).Sound := by
  intro hsound
  apply h
  intro k o ho hi
  exact ((hsound k o ho).2 hi).2 rfl

end Roster
