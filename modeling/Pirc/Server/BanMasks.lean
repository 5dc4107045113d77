import Pirc.Lib.Glob
import Pirc.Server.Channel

/-!
# Server: ban masks as globs

What the masks of bans stand for, and where the matching of them goes wrong: the scan compares an
element of the mask with the target before it asks whether that element is a star, so that a star
which faces a star of the target is taken for that one character.
-/

namespace Pirc.Server

open Protocol

def anyByte : UInt8 := '?'.toUInt8

def starByte : UInt8 := '*'.toUInt8

/-- **What a mask stands for**: the target is the mask with some bytes for each `*` and one for each
`?`, both without regard to case. -/
def MaskMatches (mask target : Str) : Prop :=
  Glob.Matches ((utf8 (lowercase mask)).map (Glob.piece anyByte starByte)) (utf8 (lowercase target))

def globFuel (p t : List UInt8) : ℕ := (p.length + 2) * (t.length + 2) * (p.length + t.length + 2)

/-- A `*` of the target comes to face a `*` of the mask while they are matched. -/
def starFacesStar (mask target : Str) : Bool :=
  let p := utf8 (lowercase mask)
  let t := utf8 (lowercase target)
  Glob.meets anyByte starByte (globFuel p t) p t none

/-! ## The loop -/

theorem globLoop_eq_scan (fuel : ℕ) (pattern text : List UInt8)
    (star : Option (List UInt8 × List UInt8)) :
    globLoop fuel pattern text star = Glob.scan anyByte starByte fuel pattern text star := by
  induction fuel generalizing pattern text star with
  | zero => rfl
  | succ fuel ih =>
    cases text with
    | nil => rfl
    | cons x text =>
      cases pattern with
      | nil =>
        match star with
        | none | some (_, []) => rfl
        | some (afterStar, _ :: starText) => exact ih ..
      | cons p rest =>
        match star with
        | none | some (_, []) | some (_, _ :: _) =>
          simp only [globLoop, Glob.scan, ih]
          rfl

theorem globMatch_eq_scan (pattern text : Str) :
    globMatch pattern text =
      Glob.scan anyByte starByte (globFuel (utf8 pattern) (utf8 text)) (utf8 pattern) (utf8 text)
        none :=
  globLoop_eq_scan ..

theorem cost_lt_globFuel (p t : List UInt8) :
    Glob.cost p.length t.length p none < globFuel p t := by
  have hcost : Glob.cost p.length t.length p none + 1
      = (p.length + 1) * (t.length + 1) * (p.length + 1) := by
    simp only [Glob.cost]
    ring
  have hle : (p.length + 1) * (t.length + 1) * (p.length + 1) ≤ globFuel p t :=
    Nat.mul_le_mul (Nat.mul_le_mul (by omega) (by omega)) (by omega)
  omega

/-! ## Stars among the bytes -/

theorem utf8_star_cons (s : Str) : utf8 ('*' :: s) = starByte :: utf8 s := rfl

theorem starByte_mem_utf8 {s : Str} : starByte ∈ utf8 s ↔ '*' ∈ s := by
  constructor
  · intro h
    obtain ⟨c, hc, hbyte⟩ := List.mem_flatMap.mp h
    exact eq_of_ascii_mem_utf8EncodeChar (a := '*') (by decide) hbyte ▸ hc
  · intro h
    obtain ⟨x, y, rfl⟩ := List.append_of_mem h
    rw [utf8_append, utf8_star_cons]
    exact List.mem_append_right _ List.mem_cons_self

theorem lowercase_star (s : Str) : lowercase ('*' :: s) = '*' :: lowercase s := rfl

theorem lowercase_append (s t : Str) : lowercase (s ++ t) = lowercase s ++ lowercase t :=
  List.map_append

theorem toLower_eq_star {c : Char} (h : c.toLower = '*') : c = '*' := by
  by_cases hupper : c.val ≥ 'A'.val ∧ c.val ≤ 'Z'.val
  · have hval : c.toLower.val = c.val + ('a'.val - 'A'.val) := by
      unfold Char.toLower
      rw [dif_pos hupper]
    rw [h] at hval
    have hnat := congrArg UInt32.toNat hval
    simp [UInt32.le_iff_toNat_le] at hupper hnat
    omega
  · unfold Char.toLower at h
    rwa [dif_neg hupper] at h

theorem star_mem_lowercase {s : Str} : '*' ∈ lowercase s ↔ '*' ∈ s := by
  unfold lowercase
  rw [List.mem_map]
  constructor
  · rintro ⟨c, hc, hstar⟩
    exact toLower_eq_star hstar ▸ hc
  · intro h
    exact ⟨'*', h, rfl⟩

theorem starByte_mem {s : Str} : starByte ∈ utf8 (lowercase s) ↔ '*' ∈ s :=
  starByte_mem_utf8.trans star_mem_lowercase

theorem utf8_lowercase_append_star (x y : Str) :
    utf8 (lowercase (x ++ '*' :: y))
      = utf8 (lowercase x) ++ starByte :: utf8 (lowercase y) := by
  rw [lowercase_append, lowercase_star, utf8_append, utf8_star_cons]

/-! ## Which masks and targets are matched as globs -/

variable {mask target : Str}

/-- **Sound**: whoever the matching finds banned, the mask is for. -/
theorem maskMatches_of_matchesBanMask (h : matchesBanMask mask target = true) :
    MaskMatches mask target := by
  rw [matchesBanMask, globMatch_eq_scan] at h
  exact Glob.matches_of_scan h

theorem anyByte_ne_starByte : anyByte ≠ starByte := by decide

/-- **Right where no star faces a star.** -/
theorem matchesBanMask_iff_of_not_faces (h : starFacesStar mask target = false) :
    matchesBanMask mask target = true ↔ MaskMatches mask target := by
  rw [matchesBanMask, globMatch_eq_scan]
  exact Glob.scan_iff anyByte_ne_starByte _ _ (cost_lt_globFuel ..) h

theorem starFacesStar_of_target (h : '*' ∉ target) : starFacesStar mask target = false :=
  Glob.meets_eq_false (.inr ⟨mt starByte_mem.mp h, fun _ hs => by cases hs⟩)

theorem starFacesStar_of_mask (h : '*' ∉ mask) : starFacesStar mask target = false :=
  Glob.meets_eq_false (.inl ⟨mt starByte_mem.mp h, fun _ hs => by cases hs⟩)

/-- **A target with a star** goes free of a mask that is for it. -/
theorem exists_mask_of_star (h : '*' ∈ target) :
    ∃ mask, MaskMatches mask target ∧ matchesBanMask mask target = false := by
  obtain ⟨x, y, rfl⟩ := List.append_of_mem h
  unfold MaskMatches matchesBanMask
  simp only [globMatch_eq_scan, utf8_lowercase_append_star]
  cases y with
  | nil =>
    have hbytes : utf8 (lowercase (x ++ ['*', '?'])) = utf8 (lowercase x) ++ [starByte, anyByte] :=
      utf8_lowercase_append_star x ['?']
    obtain ⟨hmatch, hscan⟩ := Glob.matches_not_scan_any anyByte_ne_starByte (utf8 (lowercase x))
    refine ⟨x ++ ['*', '?'], ?_⟩
    rw [hbytes]
    exact ⟨hmatch, hscan _⟩
  | cons c y =>
    have hrest : utf8 (lowercase (c :: y)) ≠ [] := by
      have hlength := length_le_length_utf8 (lowercase (c :: y))
      intro hnil
      rw [hnil, lowercase, List.length_map] at hlength
      cases hlength
    have hbytes : utf8 (lowercase (x ++ ['*'])) = utf8 (lowercase x) ++ [starByte] :=
      utf8_lowercase_append_star x []
    obtain ⟨hmatch, hscan⟩ := Glob.matches_not_scan_star anyByte starByte
      (utf8 (lowercase x)) hrest
    refine ⟨x ++ ['*'], ?_⟩
    rw [hbytes]
    exact ⟨hmatch, hscan _⟩

/-- **A mask with a star** lets a target go that it is for. -/
theorem exists_target_of_star (h : '*' ∈ mask) :
    ∃ target, MaskMatches mask target ∧ matchesBanMask mask target = false := by
  -- the last star of the mask is the first from its end
  obtain ⟨y, x, hmask, hy⟩ := List.eq_append_cons_of_mem (List.mem_reverse.mpr h)
  obtain rfl : mask = x.reverse ++ '*' :: y.reverse := by
    rw [← List.reverse_reverse mask, hmask]
    simp
  have hlast : starByte ∉ utf8 (lowercase y.reverse) :=
    mt starByte_mem.mp (mt List.mem_reverse.mp hy)
  have hbytes : utf8 (lowercase (x.reverse ++ '*' :: '*' :: y.reverse))
      = utf8 (lowercase x.reverse) ++ starByte :: starByte :: utf8 (lowercase y.reverse) := by
    rw [utf8_lowercase_append_star, lowercase_star, utf8_star_cons]
  obtain ⟨hmatch, hscan⟩ := Glob.matches_not_scan_stars anyByte
    (utf8 (lowercase x.reverse)) hlast
  refine ⟨x.reverse ++ '*' :: '*' :: y.reverse, ?_⟩
  unfold MaskMatches matchesBanMask
  simp only [globMatch_eq_scan, hbytes, utf8_lowercase_append_star]
  exact ⟨hmatch, hscan _⟩

/-- **Which masks and which targets are matched as globs**: whatever is accepted is matched, and
where no star faces a star whatever is matched is accepted. The targets that all masks are matched
with as globs are those without a star, and so are the masks that are matched as globs with all
targets. -/
theorem matchesBanMask_iff (mask target : Str) :
    (matchesBanMask mask target = true → MaskMatches mask target) ∧
      (starFacesStar mask target = false →
        (matchesBanMask mask target = true ↔ MaskMatches mask target)) ∧
      ((∀ mask, matchesBanMask mask target = true ↔ MaskMatches mask target) ↔ '*' ∉ target) ∧
      ((∀ target, matchesBanMask mask target = true ↔ MaskMatches mask target) ↔ '*' ∉ mask) := by
  refine ⟨maskMatches_of_matchesBanMask, matchesBanMask_iff_of_not_faces, ⟨?_, ?_⟩, ⟨?_, ?_⟩⟩
  · intro hall hstar
    obtain ⟨mask, hmatch, hfree⟩ := exists_mask_of_star hstar
    rw [(hall mask).mpr hmatch] at hfree
    cases hfree
  · intro hstar mask
    exact matchesBanMask_iff_of_not_faces (starFacesStar_of_target hstar)
  · intro hall hstar
    obtain ⟨target, hmatch, hfree⟩ := exists_target_of_star hstar
    rw [(hall target).mpr hmatch] at hfree
    cases hfree
  · intro hstar target
    exact matchesBanMask_iff_of_not_faces (starFacesStar_of_mask hstar)

/-- A user whose name begins with a star is not found by the mask for every user of its host. -/
theorem star_username_not_banned :
    MaskMatches "a!*@h".toList "a!*x@h".toList ∧
      matchesBanMask "a!*@h".toList "a!*x@h".toList = false := by
  constructor
  · have hpieces : (utf8 (lowercase "a!*@h".toList)).map (Glob.piece anyByte starByte)
        = [.lit 97, .lit 33, .many, .lit 64, .lit 104] := by decide
    rw [MaskMatches, hpieces]
    exact .lit (.lit (.many [42, 120] (.lit (.lit .nil))))
  · decide

end Pirc.Server
