import Pirc.Lib.Glob
import Pirc.Server.UserCommands

/-!
# Server: host masks as globs

The mask of an operator is a mask of the host alone, in which a star stands for any text. The
matching looks for the first part at the beginning of the host, for the last at its end and for the
others between, each as early as it can stand.
-/

namespace Pirc.Server

open Protocol

/-- **What a host mask stands for**: the host is the mask with some text for each star. -/
def HostMaskMatches (host mask : Str) : Prop :=
  Glob.Matches (mask.map (Glob.starPiece '*')) host

/-- What is left of a host behind the parts in the middle of a mask, each placed as early as it
can be. -/
def placeParts : List Str → Str → Option Str
  | [], host => some host
  | part :: parts, host =>
    match findText part host with
    | some i => placeParts parts (host.drop (i + part.length))
    | none => none

/-- **There is room for the last part** of a mask: what the parts before it leave is as long. -/
def HasRoom (host mask : Str) : Prop :=
  match mask.splitOn '*' with
  | [] | [_] => True
  | first :: second :: rest =>
    ∀ left ∈ placeParts (second :: rest).dropLast (host.drop first.length),
      ((second :: rest).getLast (List.cons_ne_nil second rest)).length ≤ left.length

instance (host mask : Str) : Decidable (HasRoom host mask) := by
  unfold HasRoom
  split <;> infer_instance

/-! ## Finding a part -/

variable {part host s w : Str} {parts : List Str} {i : ℕ}

theorem findText_nil (host : Str) : findText [] host = some 0 := by
  cases host <;> rfl

theorem exists_of_findText (h : findText part host = some i) :
    ∃ s, s.length = i ∧ host = s ++ part ++ host.drop (i + part.length) := by
  induction host generalizing i with
  | nil =>
    unfold findText at h
    split_ifs at h with hempty
    cases h
    rw [List.isEmpty_iff] at hempty
    exact ⟨[], rfl, by rw [hempty]; rfl⟩
  | cons x host ih =>
    unfold findText at h
    split_ifs at h with hprefix
    · cases h
      obtain ⟨w, hw⟩ := List.isPrefixOf_iff_prefix.mp hprefix
      refine ⟨[], rfl, ?_⟩
      rw [← hw, Nat.zero_add, List.drop_left, List.nil_append]
    · obtain ⟨j, hj, rfl⟩ := Option.map_eq_some_iff.mp h
      obtain ⟨s, hs, heq⟩ := ih hj
      refine ⟨x :: s, by rw [List.length_cons, hs], ?_⟩
      rw [show j + 1 + part.length = j + part.length + 1 by omega, List.drop_succ_cons,
        List.cons_append, List.cons_append, ← heq]

theorem findText_le (part s w : Str) : ∃ i ≤ s.length, findText part (s ++ part ++ w) = some i := by
  induction s with
  | nil =>
    refine ⟨0, le_rfl, ?_⟩
    cases part with
    | nil => exact findText_nil w
    | cons x part =>
      have hprefix : (x :: part).isPrefixOf (x :: part ++ w) :=
        List.isPrefixOf_iff_prefix.mpr (List.prefix_append _ _)
      exact if_pos hprefix
  | cons x s ih =>
    obtain ⟨i, hi, hfind⟩ := ih
    rw [List.cons_append, List.cons_append, findText]
    split_ifs
    · exact ⟨0, Nat.zero_le _, rfl⟩
    · exact ⟨i + 1, Nat.succ_le_succ hi, by rw [hfind]; rfl⟩

/-! ## The parts in the middle -/

/-- **As early as possible is good enough**: the parts stand in the host in order, the last of them
at its end, exactly if the last is at the end of what the others leave. -/
theorem behind_iff_placeParts (last : Str) :
    Glob.Behind (parts ++ [last]) host ↔ ∃ left, placeParts parts host = some left ∧ last <:+ left := by
  induction parts generalizing host with
  | nil =>
    simp only [List.nil_append, Glob.Behind, placeParts]
    constructor
    · rintro ⟨s, _, rfl, rfl⟩
      exact ⟨_, rfl, s, (List.append_nil _).symm⟩
    · rintro ⟨_, hleft, s, rfl⟩
      cases hleft
      exact ⟨s, [], (List.append_nil _).symm, rfl⟩
  | cons part parts ih =>
    constructor
    · rintro ⟨s, w, rfl, hbehind⟩
      obtain ⟨i, hi, hfind⟩ := findText_le part s w
      -- what is left behind the place found ends in what is left behind the one given
      have hdrop : ∃ c, (s ++ part ++ w).drop (i + part.length) = c ++ w := by
        refine ⟨(s ++ part).drop (i + part.length), List.drop_append_of_le_length ?_⟩
        rw [List.length_append]
        omega
      obtain ⟨c, hc⟩ := hdrop
      have hnext : Glob.Behind (parts ++ [last]) (c ++ w) := by
        cases parts with
        | nil => exact Glob.Behind.append hbehind c
        | cons => exact Glob.Behind.append hbehind c
      rw [placeParts, hfind]
      dsimp only
      rw [hc]
      exact ih.mp hnext
    · rintro ⟨left, hleft, hlast⟩
      rw [placeParts] at hleft
      split at hleft
      · next i hfind =>
        obtain ⟨s, -, hhost⟩ := exists_of_findText hfind
        exact ⟨s, _, hhost, ih.mpr ⟨left, hleft, hlast⟩⟩
      · cases hleft

theorem middlePartsMatch_eq (parts : List Str) (host : Str) :
    middlePartsMatch parts host = (placeParts parts host).isSome := by
  induction parts generalizing host with
  | nil => rfl
  | cons part parts ih =>
    unfold middlePartsMatch placeParts
    split_ifs with hempty
    · rw [List.isEmpty_iff.mp hempty, findText_nil]
      exact ih host
    · cases findText part host with
      | none => rfl
      | some i => exact ih _

theorem placeParts_suffix {left : Str} (h : placeParts parts host = some left) : left <:+ host := by
  induction parts generalizing host with
  | nil =>
    cases h
    exact List.suffix_rfl
  | cons part parts ih =>
    rw [placeParts] at h
    split at h
    · exact (ih h).trans (List.drop_suffix _ _)
    · cases h

/-! ## The whole mask -/

theorem star_notMem_of_mem_splitOn {mask part : Str} (h : part ∈ mask.splitOn '*') : '*' ∉ part := by
  induction mask generalizing part with
  | nil =>
    obtain rfl : part = [] := by simpa [List.splitOn_nil] using h
    exact List.not_mem_nil
  | cons x mask ih =>
    rw [List.splitOn_cons_eq_if_modifyHead] at h
    split_ifs at h with hx
    · rcases List.mem_cons.mp h with rfl | hpart
      · exact List.not_mem_nil
      · exact ih hpart
    · cases hparts : mask.splitOn '*' with
      | nil => exact absurd hparts (List.splitOn_ne_nil _ _)
      | cons first rest =>
        rw [hparts] at h ih
        rcases List.mem_cons.mp h with rfl | hpart
        · have hne : '*' ≠ x := fun heq => hx (by rw [← heq]; rfl)
          rw [List.mem_cons, not_or]
          exact ⟨hne, ih List.mem_cons_self⟩
        · exact ih (List.mem_cons_of_mem _ hpart)

/-- **The hosts that a mask stands for**: whatever it stands for is accepted, and what is accepted
it stands for, if there is room for its last part. -/
theorem hostMaskMatches_iff (host mask : Str) :
    HostMaskMatches host mask ↔ hostMatchesMask host mask = true ∧ HasRoom host mask := by
  have hmask : ['*'].intercalate (mask.splitOn '*') = mask := List.intercalate_splitOn '*'
  have hfree : ∀ part ∈ mask.splitOn '*', '*' ∉ part := fun _ => star_notMem_of_mem_splitOn
  unfold HostMaskMatches hostMatchesMask HasRoom
  match hparts : mask.splitOn '*' with
  | [] => exact absurd hparts (List.splitOn_ne_nil _ _)
  | [only] =>
    -- a mask without a star is its only part
    rw [hparts] at hmask hfree
    rw [List.intercalate_singleton] at hmask
    rw [← hmask, Glob.matches_map_starPiece (hfree _ List.mem_cons_self)]
    simp
  | first :: second :: rest =>
    rw [hparts] at hmask hfree
    dsimp only
    generalize hlast : (second :: rest).getLast (by simp) = last
    have htail : second :: rest = (second :: rest).dropLast ++ [last] := by
      rw [← hlast, List.dropLast_append_getLast]
    rw [← hmask, Glob.matches_intercalate hfree, middlePartsMatch_eq]
    generalize (second :: rest).dropLast = middle at htail
    simp only [htail, behind_iff_placeParts, Bool.and_eq_true, Bool.or_eq_true, List.isEmpty_iff,
      List.isPrefixOf_iff_prefix, List.isSuffixOf_iff_suffix]
    constructor
    · rintro ⟨w, rfl, left, hleft, hsuffix⟩
      have hend : last <:+ first ++ w :=
        (hsuffix.trans (placeParts_suffix hleft)).trans (List.suffix_append _ _)
      rw [List.drop_left, hleft]
      refine ⟨⟨⟨List.prefix_append _ _, .inr hend⟩, rfl⟩, ?_⟩
      rintro _ ⟨⟩
      exact hsuffix.length_le
    · rintro ⟨⟨⟨⟨w, rfl⟩, hend⟩, hplaced⟩, hroom⟩
      rw [List.drop_left] at hplaced hroom
      obtain ⟨left, hleft⟩ := Option.isSome_iff_exists.mp hplaced
      refine ⟨w, rfl, left, hleft, ?_⟩
      rcases hend with rfl | hend
      · exact List.nil_suffix
      · have hsuffix := (placeParts_suffix hleft).trans (List.suffix_append first w)
        exact List.suffix_of_suffix_length_le hend hsuffix (hroom left hleft)

def hostPart (mask : Str) : Str := ((mask.dropWhile (· ≠ '@')).drop 1)

/-- A mask with a user is not matched by its host: there is no user in the host to match. -/
theorem user_in_mask_not_matched :
    HostMaskMatches "localhost".toList (hostPart "*@localhost".toList) ∧
      hostMatchesMask "localhost".toList "*@localhost".toList = false := by
  constructor
  · rw [hostMaskMatches_iff]
    decide
  · decide

end Pirc.Server
