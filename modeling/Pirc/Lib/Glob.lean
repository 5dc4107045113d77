import Mathlib.Tactic

/-!
# Glob patterns

Patterns with a wildcard for any sequence and one for any single element, what they match, and the
usual scan for them: two positions, and one place to go back to.

## Main results

* `Glob.exists_pattern_of_star`, `Glob.exists_text_of_star`: where it is wrong
-/

universe u

variable {α : Type u}

namespace Glob

/-- A piece of a pattern: an element that stands for itself, any one element, or any sequence. -/
inductive Piece (α : Type u)
  | lit (a : α)
  | one
  | many
  deriving DecidableEq

/-- **What a pattern matches**: the text is the pattern with an element for each `one` and a
sequence for each `many`. -/
inductive Matches : List (Piece α) → List α → Prop
  | nil : Matches [] []
  | lit {a : α} {p : List (Piece α)} {t : List α} : Matches p t → Matches (.lit a :: p) (a :: t)
  | one {a : α} {p : List (Piece α)} {t : List α} : Matches p t → Matches (.one :: p) (a :: t)
  | many (s : List α) {p : List (Piece α)} {t : List α} :
      Matches p t → Matches (.many :: p) (s ++ t)

/-! ## What the pieces match -/

@[simp] theorem matches_nil {t : List α} : Matches [] t ↔ t = [] := by
  constructor
  · intro h
    cases h
    rfl
  · rintro rfl
    exact .nil

@[simp] theorem matches_lit {a : α} {p : List (Piece α)} {t : List α} :
    Matches (.lit a :: p) t ↔ ∃ t', t = a :: t' ∧ Matches p t' := by
  constructor
  · rintro ⟨⟩
    exact ⟨_, rfl, ‹_›⟩
  · rintro ⟨t', rfl, h⟩
    exact .lit h

@[simp] theorem matches_one {p : List (Piece α)} {t : List α} :
    Matches (.one :: p) t ↔ ∃ a t', t = a :: t' ∧ Matches p t' := by
  constructor
  · rintro ⟨⟩
    exact ⟨_, _, rfl, ‹_›⟩
  · rintro ⟨a, t', rfl, h⟩
    exact .one h

@[simp] theorem matches_many {p : List (Piece α)} {t : List α} :
    Matches (.many :: p) t ↔ ∃ s t', t = s ++ t' ∧ Matches p t' := by
  constructor
  · rintro ⟨⟩
    exact ⟨_, _, rfl, ‹_›⟩
  · rintro ⟨s, t', rfl, h⟩
    exact .many s h

/-- **One after the other**: the text is a text for the first pattern and one for the second. -/
theorem matches_append {p q : List (Piece α)} {t : List α} :
    Matches (p ++ q) t ↔ ∃ v w, t = v ++ w ∧ Matches p v ∧ Matches q w := by
  induction p generalizing t with
  | nil => simp
  | cons piece p ih =>
    cases piece with
    | lit a =>
      simp only [List.cons_append, matches_lit, ih]
      constructor
      · rintro ⟨_, rfl, v, w, rfl, hv, hw⟩
        exact ⟨a :: v, w, rfl, ⟨v, rfl, hv⟩, hw⟩
      · rintro ⟨_, w, rfl, ⟨v, rfl, hv⟩, hw⟩
        exact ⟨v ++ w, rfl, v, w, rfl, hv, hw⟩
    | one =>
      simp only [List.cons_append, matches_one, ih]
      constructor
      · rintro ⟨a, _, rfl, v, w, rfl, hv, hw⟩
        exact ⟨a :: v, w, rfl, ⟨a, v, rfl, hv⟩, hw⟩
      · rintro ⟨_, w, rfl, ⟨a, v, rfl, hv⟩, hw⟩
        exact ⟨a, v ++ w, rfl, v, w, rfl, hv, hw⟩
    | many =>
      simp only [List.cons_append, matches_many, ih]
      constructor
      · rintro ⟨s, _, rfl, v, w, rfl, hv, hw⟩
        exact ⟨s ++ v, w, (List.append_assoc ..).symm, ⟨s, v, rfl, hv⟩, hw⟩
      · rintro ⟨_, w, rfl, ⟨s, v, rfl, hv⟩, hw⟩
        exact ⟨s, v ++ w, List.append_assoc .., v, w, rfl, hv, hw⟩

theorem Matches.many_append {p : List (Piece α)} {t : List α} (h : Matches (.many :: p) t)
    (s : List α) : Matches (.many :: p) (s ++ t) := by
  obtain ⟨s', t', rfl, h'⟩ := matches_many.mp h
  exact List.append_assoc s s' t' ▸ .many (s ++ s') h'

theorem Matches.many_cases {p : List (Piece α)} {t : List α} (h : Matches (.many :: p) t) :
    Matches p t ∨ ∃ y t', t = y :: t' ∧ Matches (.many :: p) t' := by
  obtain ⟨s, t', rfl, h'⟩ := matches_many.mp h
  cases s with
  | nil => exact .inl h'
  | cons y s => exact .inr ⟨y, s ++ t', rfl, .many s h'⟩

theorem Matches.length_eq {p : List (Piece α)} {t : List α} (h : Matches p t)
    (hmany : .many ∉ p) : t.length = p.length := by
  induction h with
  | nil => rfl
  | lit _ ih => simp [ih fun hmem => hmany (List.mem_cons_of_mem _ hmem)]
  | one _ ih => simp [ih fun hmem => hmany (List.mem_cons_of_mem _ hmem)]
  | many => exact absurd List.mem_cons_self hmany

/-- **Aligned**: behind a stretch without a `many`, the pattern goes on where the stretch ends. -/
theorem Matches.behind {p q : List (Piece α)} {v w : List α} (h : Matches (p ++ q) (v ++ w))
    (hmany : .many ∉ p) (hlength : p.length = v.length) : Matches q w := by
  obtain ⟨v', w', heq, hp, hq⟩ := matches_append.mp h
  have hv' : v'.length = v.length := (hp.length_eq hmany).trans hlength
  rwa [(List.append_inj heq hv'.symm).2]

/-! ## Written patterns -/

variable [DecidableEq α] (any star : α)

/-- The piece an element of a written pattern stands for. -/
def piece (a : α) : Piece α := if a = star then .many else if a = any then .one else .lit a

theorem piece_eq_many {a : α} : piece any star a = .many ↔ a = star := by
  unfold piece
  split_ifs with h <;> simp [h]

theorem piece_star : piece any star star = .many := (piece_eq_many any star).mpr rfl

theorem many_notMem_map_piece {p : List α} : .many ∉ p.map (piece any star) ↔ star ∉ p := by
  simp [piece_eq_many]

theorem matches_piece_cons {a x : α} {p : List (Piece α)} {t : List α} (ha : a = any ∨ a = x)
    (h : Matches p t) : Matches (piece any star a :: p) (x :: t) := by
  unfold piece
  split_ifs with hstar hany
  · exact .many [x] h
  · exact .one h
  · obtain rfl := ha.resolve_left hany
    exact .lit h

theorem Matches.of_piece_cons {a x : α} {p : List (Piece α)} {t : List α}
    (h : Matches (piece any star a :: p) (x :: t)) (hstar : a ≠ star) :
    (a = any ∨ a = x) ∧ Matches p t := by
  unfold piece at h
  rw [if_neg hstar] at h
  split_ifs at h with hany
  · cases h
    exact ⟨.inl hany, ‹_›⟩
  · cases h
    exact ⟨.inr rfl, ‹_›⟩

theorem matches_self (t : List α) : Matches (t.map (piece any star)) t := by
  induction t with
  | nil => exact .nil
  | cons x t ih => exact matches_piece_cons any star (.inr rfl) ih

theorem matches_map_piece_nil {p : List α} :
    Matches (p.map (piece any star)) [] ↔ p.all (· = star) := by
  induction p with
  | nil => simp
  | cons a p ih =>
    unfold piece at ih ⊢
    rw [List.map_cons, List.all_cons]
    split_ifs with hstar hany
    · simp [hstar, ← ih]
    · simp [hstar]
    · simp [hstar]

/-! ## The scan -/

/-- **The scan**, over what is left of the pattern and of the text. `last` is where to go on when
the rest does not match: behind the last star, with one more element for it. -/
def scan : ℕ → List α → List α → Option (List α × List α) → Bool
  | 0, _, _, _ => false
  | _ + 1, pattern, [], _ => pattern.all (· = star)
  | fuel + 1, pattern, x :: text, last =>
    let retry :=
      match last with
      | some (afterStar, _ :: starText) =>
        scan fuel afterStar starText (some (afterStar, starText))
      | some (_, []) | none => false
    match pattern with
    | p :: rest =>
      if p = any ∨ p = x then scan fuel rest text last
      else if p = star then scan fuel rest (x :: text) (some (rest, x :: text))
      else retry
    | [] => retry

/-- A star of the text comes to face a star of the pattern during the scan. -/
def meets : ℕ → List α → List α → Option (List α × List α) → Bool
  | 0, _, _, _ => false
  | _ + 1, _, [], _ => false
  | fuel + 1, pattern, x :: text, last =>
    let retry :=
      match last with
      | some (afterStar, _ :: starText) =>
        meets fuel afterStar starText (some (afterStar, starText))
      | some (_, []) | none => false
    match pattern with
    | p :: rest =>
      if p = star ∧ x = star then true
      else if p = any ∨ p = x then meets fuel rest text last
      else if p = star then meets fuel rest (x :: text) (some (rest, x :: text))
      else retry
    | [] => retry

variable {any star} {pattern rest text afterStar starText : List α} {p x y : α} {fuel : ℕ}
  {last : Option (List α × List α)}

/-! ## One step of the scan -/

def Stuck (any star : α) (pattern : List α) (x : α) : Prop :=
  ∀ p ∈ pattern.head?, ¬ (p = any ∨ p = x) ∧ p ≠ star

omit [DecidableEq α] in
theorem stuck_nil : Stuck any star [] x := fun p hp => by cases hp

omit [DecidableEq α] in
theorem stuck_cons (hone : ¬ (p = any ∨ p = x)) (hstar : p ≠ star) :
    Stuck any star (p :: rest) x := by
  intro q hq
  obtain rfl : p = q := by simpa using hq
  exact ⟨hone, hstar⟩

theorem scan_cons :
    scan any star (fuel + 1) (p :: rest) (x :: text) last =
      if p = any ∨ p = x then scan any star fuel rest text last
      else if p = star then scan any star fuel rest (x :: text) (some (rest, x :: text))
      else scan any star (fuel + 1) [] (x :: text) last := rfl

theorem scan_one (h : p = any ∨ p = x) :
    scan any star (fuel + 1) (p :: rest) (x :: text) last = scan any star fuel rest text last := by
  rw [scan_cons, if_pos h]

theorem scan_many (h : ¬ (star = any ∨ star = x)) :
    scan any star (fuel + 1) (star :: rest) (x :: text) last
      = scan any star fuel rest (x :: text) (some (rest, x :: text)) := by
  rw [scan_cons, if_neg h, if_pos rfl]

theorem scan_of_stuck (h : Stuck any star pattern x) :
    scan any star (fuel + 1) pattern (x :: text) last = scan any star (fuel + 1) [] (x :: text) last := by
  cases pattern with
  | nil => rfl
  | cons p rest =>
    obtain ⟨hone, hstar⟩ := h p rfl
    rw [scan_cons, if_neg hone, if_neg hstar]

theorem scan_stuck_none (h : Stuck any star pattern x) :
    scan any star (fuel + 1) pattern (x :: text) none = false :=
  scan_of_stuck h

theorem scan_stuck_nil (h : Stuck any star pattern x) :
    scan any star (fuel + 1) pattern (x :: text) (some (afterStar, [])) = false :=
  scan_of_stuck h

theorem scan_stuck (h : Stuck any star pattern x) :
    scan any star (fuel + 1) pattern (x :: text) (some (afterStar, y :: starText))
      = scan any star fuel afterStar starText (some (afterStar, starText)) :=
  scan_of_stuck h

theorem meets_cons :
    meets any star (fuel + 1) (p :: rest) (x :: text) last =
      if p = star ∧ x = star then true
      else if p = any ∨ p = x then meets any star fuel rest text last
      else if p = star then meets any star fuel rest (x :: text) (some (rest, x :: text))
      else meets any star (fuel + 1) [] (x :: text) last := rfl

theorem meets_of_facing :
    meets any star (fuel + 1) (star :: rest) (star :: text) last = true := by
  rw [meets_cons, if_pos ⟨rfl, rfl⟩]

theorem meets_one (h : p = any ∨ p = x) (hne : ¬ (p = star ∧ x = star)) :
    meets any star (fuel + 1) (p :: rest) (x :: text) last
      = meets any star fuel rest text last := by
  rw [meets_cons, if_neg hne, if_pos h]

theorem meets_many (h : ¬ (star = any ∨ star = x)) :
    meets any star (fuel + 1) (star :: rest) (x :: text) last
      = meets any star fuel rest (x :: text) (some (rest, x :: text)) := by
  have hne : ¬ (star = star ∧ x = star) := fun ⟨_, hx⟩ => h (.inr hx.symm)
  rw [meets_cons, if_neg hne, if_neg h, if_pos rfl]

theorem meets_of_stuck (h : Stuck any star pattern x) :
    meets any star (fuel + 1) pattern (x :: text) last = meets any star (fuel + 1) [] (x :: text) last := by
  cases pattern with
  | nil => rfl
  | cons p rest =>
    obtain ⟨hone, hstar⟩ := h p rfl
    have hne : ¬ (p = star ∧ x = star) := fun ⟨hp, _⟩ => hstar hp
    rw [meets_cons, if_neg hne, if_neg hone, if_neg hstar]

theorem meets_stuck_none (h : Stuck any star pattern x) :
    meets any star (fuel + 1) pattern (x :: text) none = false :=
  meets_of_stuck h

theorem meets_stuck_nil (h : Stuck any star pattern x) :
    meets any star (fuel + 1) pattern (x :: text) (some (afterStar, [])) = false :=
  meets_of_stuck h

theorem meets_stuck (h : Stuck any star pattern x) :
    meets any star (fuel + 1) pattern (x :: text) (some (afterStar, y :: starText))
      = meets any star fuel afterStar starText (some (afterStar, starText)) :=
  meets_of_stuck h

theorem step_cases (any star : α) (pattern : List α) (x : α) :
    (∃ p rest, pattern = p :: rest ∧ (p = any ∨ p = x)) ∨
      (∃ rest, pattern = star :: rest ∧ ¬ (star = any ∨ star = x)) ∨ Stuck any star pattern x := by
  cases pattern with
  | nil => exact .inr (.inr stuck_nil)
  | cons p rest =>
    by_cases hone : p = any ∨ p = x
    · exact .inl ⟨p, rest, rfl, hone⟩
    · by_cases hstar : p = star
      · subst hstar
        exact .inr (.inl ⟨rest, rfl, hone⟩)
      · exact .inr (.inr (stuck_cons hone hstar))

/-! ## What the scan accepts -/

theorem matches_or_of_scan (h : scan any star fuel pattern text last = true) :
    Matches (pattern.map (piece any star)) text ∨
      ∃ afterStar starText, last = some (afterStar, starText) ∧
        Matches (.many :: afterStar.map (piece any star)) starText := by
  induction fuel generalizing pattern text last with
  | zero => cases h
  | succ fuel ih =>
    cases text with
    | nil => exact .inl ((matches_map_piece_nil any star).mpr h)
    | cons x text =>
      rcases step_cases any star pattern x with ⟨p, rest, rfl, hone⟩ | ⟨rest, rfl, hmany⟩ | hstuck
      · rw [scan_one hone] at h
        exact (ih h).imp_left (matches_piece_cons any star hone)
      · rw [scan_many hmany] at h
        rw [List.map_cons, piece_star]
        -- the star is empty, or the scan has come back to it
        rcases ih h with hrest | ⟨_, _, hlast, hrest⟩
        · exact .inl (.many [] hrest)
        · cases hlast
          exact .inl hrest
      · match last with
        | none =>
          rw [scan_stuck_none hstuck] at h
          cases h
        | some (afterStar, []) =>
          rw [scan_stuck_nil hstuck] at h
          cases h
        | some (afterStar, y :: starText) =>
          rw [scan_stuck hstuck] at h
          refine .inr ⟨afterStar, y :: starText, rfl, ?_⟩
          rcases ih h with hrest | ⟨_, _, hlast, hrest⟩
          · exact .many [y] hrest
          · cases hlast
            exact hrest.many_append [y]

/-- **Sound**: what the scan accepts, the pattern matches. -/
theorem matches_of_scan (h : scan any star fuel pattern text none = true) :
    Matches (pattern.map (piece any star)) text := by
  rcases matches_or_of_scan h with hmatch | ⟨_, _, hnone, _⟩
  · exact hmatch
  · cases hnone

/-! ## What the scan has still to find -/

/-- **Pending**: what makes the scan accept. Before any star, the rest of the pattern matches the
rest of the text; behind one, the star and what follows it match the text from there, and the scan
has read as many elements of that text as of the pattern, none of them a star. -/
def Pending (any star : α) (pattern text : List α) : Option (List α × List α) → Prop
  | none => Matches (pattern.map (piece any star)) text
  | some (afterStar, starText) =>
    Matches (.many :: afterStar.map (piece any star)) starText ∧
      ∃ u v, afterStar = u ++ pattern ∧ starText = v ++ text ∧ u.length = v.length ∧ star ∉ u

theorem Pending.one (h : Pending any star (p :: rest) (x :: text) last) (hstar : p ≠ star) :
    Pending any star rest text last := by
  match last, h with
  | none, h => exact (h.of_piece_cons any star hstar).2
  | some _, ⟨hmatch, u, v, hafter, htext, hlength, hu⟩ =>
    refine ⟨hmatch, u ++ [p], v ++ [x], ?_, ?_, ?_, ?_⟩
    · rw [hafter, List.append_assoc, List.singleton_append]
    · rw [htext, List.append_assoc, List.singleton_append]
    · simp [hlength]
    · simp [hu, Ne.symm hstar]

theorem Pending.many (h : Pending any star (star :: rest) (x :: text) last) :
    Pending any star rest (x :: text) (some (rest, x :: text)) := by
  refine ⟨?_, [], [], rfl, rfl, rfl, List.not_mem_nil⟩
  match last, h with
  | none, h => rwa [Pending, List.map_cons, piece_star] at h
  | some _, ⟨hmatch, u, v, hafter, htext, hlength, hu⟩ =>
    obtain ⟨s, t, hst, hrest⟩ := matches_many.mp hmatch
    rw [hafter, List.map_append, List.map_cons, piece_star] at hrest
    obtain ⟨v', w, rfl, hu', hw⟩ := matches_append.mp hrest
    have hv' : v'.length = v.length := by
      rw [hu'.length_eq ((many_notMem_map_piece any star).mpr hu), List.length_map, hlength]
    -- the star is met no earlier than here, so what is left of the text ends in its text
    rw [htext, ← List.append_assoc, List.append_eq_append_iff] at hst
    rcases hst with ⟨c, -, hc⟩ | ⟨c, hv, hc⟩
    · exact hc ▸ hw.many_append c
    · have hnil : c = [] := by
        have := congrArg List.length hv
        simp only [List.length_append] at this
        exact List.length_eq_zero_iff.mp (by omega)
      rw [hnil, List.nil_append] at hc
      exact hc ▸ hw

theorem Pending.stuck (h : Pending any star pattern (x :: text) last)
    (hstuck : Stuck any star pattern x) :
    ∃ afterStar y starText, last = some (afterStar, y :: starText) ∧
      Pending any star afterStar starText (some (afterStar, starText)) := by
  have hnot : ¬ Matches (pattern.map (piece any star)) (x :: text) := by
    intro hmatch
    cases pattern with
    | nil => cases hmatch
    | cons p rest =>
      obtain ⟨hone, hstar⟩ := hstuck p rfl
      exact hone (hmatch.of_piece_cons any star hstar).1
  match last, h with
  | none, h => exact absurd h hnot
  | some (afterStar, starText), ⟨hmatch, u, v, hafter, htext, hlength, hu⟩ =>
    -- with nothing for the star, the pattern would match where it is stuck
    rcases hmatch.many_cases with hhere | ⟨y, starText', rfl, hfurther⟩
    · rw [hafter, htext, List.map_append] at hhere
      exact absurd (hhere.behind ((many_notMem_map_piece any star).mpr hu) (by simp [hlength])) hnot
    · exact ⟨afterStar, y, starText', rfl, hfurther, [], [], rfl, rfl, rfl, List.not_mem_nil⟩

theorem Pending.all_star (h : Pending any star pattern [] last) : pattern.all (· = star) := by
  rw [← matches_map_piece_nil any star]
  match last, h with
  | none, h => exact h
  | some (afterStar, starText), ⟨hmatch, u, v, hafter, htext, hlength, hu⟩ =>
    have hmany := (many_notMem_map_piece any star).mpr hu
    rw [List.append_nil] at htext
    rw [hafter, htext, List.map_append] at hmatch
    -- the stretch behind the star takes all of the text
    obtain ⟨s, t, hst, hrest⟩ := matches_many.mp hmatch
    obtain ⟨v', w, rfl, hu', hw⟩ := matches_append.mp hrest
    have hv' := hu'.length_eq hmany
    have hlengths := congrArg List.length hst
    simp only [List.length_append, List.length_map] at hlengths hv'
    obtain rfl : w = [] := List.length_eq_zero_iff.mp (by omega)
    exact hw

/-! ## The steps left -/

section Cost

omit [DecidableEq α]

/-- A bound on the steps left, for patterns up to `n` long and texts up to `m`: a star moves the
place to go back to behind itself, and going back to it takes an element of the text. -/
def cost (n m : ℕ) (pattern : List α) : Option (List α × List α) → ℕ
  | none => pattern.length * ((m + 1) * (n + 1)) + m * (n + 1) + pattern.length
  | some (afterStar, starText) =>
    afterStar.length * ((m + 1) * (n + 1)) + starText.length * (n + 1) + pattern.length

def Bounded (n m : ℕ) (pattern text : List α) : Option (List α × List α) → Prop
  | none => pattern.length ≤ n ∧ text.length ≤ m
  | some (afterStar, starText) => afterStar.length ≤ n ∧ starText.length ≤ m

theorem Bounded.one {n m : ℕ} (h : Bounded n m (p :: rest) (x :: text) last) :
    Bounded n m rest text last := by
  cases last with
  | none =>
    obtain ⟨hpattern, htext⟩ := h
    rw [List.length_cons] at hpattern htext
    exact ⟨by omega, by omega⟩
  | some => exact h

theorem cost_one {n m : ℕ} : cost n m rest last < cost n m (p :: rest) last := by
  cases last with
  | none =>
    simp only [cost, List.length_cons]
    nlinarith
  | some =>
    simp only [cost, List.length_cons]
    omega

theorem cost_stuck {n m : ℕ} (h : afterStar.length ≤ n) :
    cost n m afterStar (some (afterStar, starText))
      < cost n m pattern (some (afterStar, y :: starText)) := by
  simp only [cost, List.length_cons, Nat.add_mul, Nat.one_mul]
  omega

theorem cost_many_lt {n m k : ℕ} (hk : rest.length < k) (hrest : rest.length ≤ n)
    (htext : text.length ≤ m) :
    cost n m rest (some (rest, text)) < k * ((m + 1) * (n + 1)) := by
  have hstar : text.length * (n + 1) ≤ m * (n + 1) := Nat.mul_le_mul_right _ htext
  have hbehind : (rest.length + 1) * ((m + 1) * (n + 1)) ≤ k * ((m + 1) * (n + 1)) :=
    Nat.mul_le_mul_right _ hk
  have hround : (m + 1) * (n + 1) = m * (n + 1) + (n + 1) := by ring
  simp only [cost]
  rw [Nat.add_mul, Nat.one_mul] at hbehind
  omega

theorem cost_lt (n m : ℕ) (pattern : List α) (h : pattern.length ≤ n) :
    cost n m pattern none < (n + 1) * ((m + 1) * (n + 1)) := by
  have hle := Nat.mul_le_mul_right ((m + 1) * (n + 1)) h
  simp only [cost]
  nlinarith

end Cost

/-- What is left of the pattern and of the text lies behind the place to go back to. -/
def Placed (pattern text : List α) : Option (List α × List α) → Prop
  | none => True
  | some (afterStar, starText) => pattern <:+ afterStar ∧ text <:+ starText

section Placed

omit [DecidableEq α]

theorem Placed.one (h : Placed (p :: rest) (x :: text) last) : Placed rest text last := by
  match last, h with
  | none, _ => trivial
  | some _, ⟨hpattern, htext⟩ =>
    exact ⟨(List.suffix_cons p rest).trans hpattern, (List.suffix_cons x text).trans htext⟩

theorem Placed.bounded {n m : ℕ} (h : Placed pattern text last)
    (hbounded : Bounded n m pattern text last) : pattern.length ≤ n ∧ text.length ≤ m := by
  match last, h, hbounded with
  | none, _, hbounded => exact hbounded
  | some _, ⟨hpattern, htext⟩, ⟨hn, hm⟩ =>
    exact ⟨hpattern.length_le.trans hn, htext.length_le.trans hm⟩

theorem Placed.cost_many {n m : ℕ} (h : Placed (star :: rest) (x :: text) last)
    (hbounded : Bounded n m (star :: rest) (x :: text) last) :
    cost n m rest (some (rest, x :: text)) < cost n m (star :: rest) last := by
  obtain ⟨hrest, htext⟩ := h.bounded hbounded
  rw [List.length_cons] at hrest
  have hn : rest.length ≤ n := by omega
  match last, h with
  | none, _ =>
    have hlt := cost_many_lt (Nat.lt_succ_self rest.length) hn htext
    rw [Nat.succ_eq_add_one, ← List.length_cons (a := star)] at hlt
    simp only [cost] at hlt ⊢
    omega
  | some (afterStar, _), ⟨hpattern, _⟩ =>
    have hafter : rest.length < afterStar.length := hpattern.length_le
    have hlt := cost_many_lt hafter hn htext
    simp only [cost] at hlt ⊢
    omega

end Placed

/-- **The scan comes to its end**: with steps enough for both lengths, more of them change
nothing. -/
theorem scan_eq_of_cost_lt {n m fuel' : ℕ} (h : Placed pattern text last)
    (hbounded : Bounded n m pattern text last) (hcost : cost n m pattern last < fuel)
    (hcost' : cost n m pattern last < fuel') :
    scan any star fuel pattern text last = scan any star fuel' pattern text last := by
  induction fuel generalizing pattern text last fuel' with
  | zero => omega
  | succ fuel ih =>
    obtain ⟨fuel', rfl⟩ := Nat.exists_eq_succ_of_ne_zero (Nat.ne_zero_of_lt hcost')
    rw [Nat.succ_eq_add_one] at hcost' ⊢
    cases text with
    | nil => rfl
    | cons x text =>
      rcases step_cases any star pattern x with ⟨p, rest, rfl, hone⟩ | ⟨rest, rfl, hmany⟩ | hstuck
      · have hlt : cost n m rest last < cost n m (p :: rest) last := cost_one
        rw [scan_one hone, scan_one hone]
        exact ih h.one hbounded.one (by omega) (by omega)
      · have hlt := h.cost_many hbounded
        obtain ⟨hrest, htext⟩ := h.bounded hbounded
        rw [List.length_cons] at hrest
        rw [scan_many hmany, scan_many hmany]
        exact ih ⟨List.suffix_rfl, List.suffix_rfl⟩ ⟨by omega, htext⟩ (by omega) (by omega)
      · match last, hbounded with
        | none, _ => rw [scan_stuck_none hstuck, scan_stuck_none hstuck]
        | some (_, []), _ => rw [scan_stuck_nil hstuck, scan_stuck_nil hstuck]
        | some (afterStar, y :: starText), ⟨hafter, htext⟩ =>
          have hlt : cost n m afterStar (some (afterStar, starText))
              < cost n m pattern (some (afterStar, y :: starText)) := cost_stuck hafter
          rw [List.length_cons] at htext
          rw [scan_stuck hstuck, scan_stuck hstuck]
          exact ih ⟨List.suffix_rfl, List.suffix_rfl⟩ ⟨hafter, by omega⟩ (by omega) (by omega)

theorem Pending.placed (h : Pending any star pattern text last) : Placed pattern text last := by
  match last, h with
  | none, _ => trivial
  | some _, ⟨_, u, v, hafter, htext, _, _⟩ => exact ⟨⟨u, hafter.symm⟩, ⟨v, htext.symm⟩⟩

/-- **Complete**, as long as no star faces a star: what is pending is accepted. -/
theorem scan_of_pending (hne : any ≠ star) {n m : ℕ} (h : Pending any star pattern text last)
    (hbounded : Bounded n m pattern text last) (hcost : cost n m pattern last < fuel)
    (hmeets : meets any star fuel pattern text last = false) :
    scan any star fuel pattern text last = true := by
  induction fuel generalizing pattern text last with
  | zero => omega
  | succ fuel ih =>
    cases text with
    | nil => exact h.all_star
    | cons x text =>
      rcases step_cases any star pattern x with ⟨p, rest, rfl, hone⟩ | ⟨rest, rfl, hmany⟩ | hstuck
      · -- a star could only be passed by way of a star of the text
        have hfacing : ¬ (p = star ∧ x = star) := by
          rintro ⟨rfl, rfl⟩
          rw [meets_of_facing] at hmeets
          cases hmeets
        have hstar : p ≠ star := by
          rintro rfl
          exact hfacing ⟨rfl, (hone.resolve_left hne.symm).symm⟩
        rw [meets_one hone hfacing] at hmeets
        rw [scan_one hone]
        have hlt : cost n m rest last < cost n m (p :: rest) last := cost_one
        exact ih (h.one hstar) hbounded.one (by omega) hmeets
      · rw [meets_many hmany] at hmeets
        rw [scan_many hmany]
        have hlt := h.placed.cost_many hbounded
        obtain ⟨hrest, htext⟩ := h.placed.bounded hbounded
        rw [List.length_cons] at hrest
        exact ih h.many ⟨by omega, htext⟩ (by omega) hmeets
      · obtain ⟨afterStar, y, starText, rfl, hnext⟩ := h.stuck hstuck
        obtain ⟨hafter, htext⟩ := hbounded
        rw [List.length_cons] at htext
        rw [meets_stuck hstuck] at hmeets
        rw [scan_stuck hstuck]
        have hlt : cost n m afterStar (some (afterStar, starText))
            < cost n m pattern (some (afterStar, y :: starText)) := cost_stuck hafter
        exact ih hnext ⟨hafter, by omega⟩ (by omega) hmeets

/-- **The scan is right where no star faces a star**, with steps enough for both lengths. -/
theorem scan_iff (hne : any ≠ star) (pattern text : List α)
    (hfuel : cost pattern.length text.length pattern none < fuel)
    (hmeets : meets any star fuel pattern text none = false) :
    scan any star fuel pattern text none = true ↔ Matches (pattern.map (piece any star)) text :=
  ⟨matches_of_scan, fun h => scan_of_pending hne h ⟨le_rfl, le_rfl⟩ hfuel hmeets⟩

/-! ## Where a star may face a star -/

theorem meets_eq_false (h : (star ∉ pattern ∧ ∀ s ∈ last, star ∉ s.1) ∨
      (star ∉ text ∧ ∀ s ∈ last, star ∉ s.2)) :
    meets any star fuel pattern text last = false := by
  induction fuel generalizing pattern text last with
  | zero => rfl
  | succ fuel ih =>
    cases text with
    | nil => rfl
    | cons x text =>
      rcases step_cases any star pattern x with ⟨p, rest, rfl, hone⟩ | ⟨rest, rfl, hmany⟩ | hstuck
      · have hfacing : ¬ (p = star ∧ x = star) := by
          rintro ⟨rfl, rfl⟩
          rcases h with ⟨hpattern, _⟩ | ⟨htext, _⟩
          · exact hpattern List.mem_cons_self
          · exact htext List.mem_cons_self
        rw [meets_one hone hfacing]
        exact ih (h.imp (And.imp_left fun hp hmem => hp (List.mem_cons_of_mem _ hmem))
          (And.imp_left fun ht hmem => ht (List.mem_cons_of_mem _ hmem)))
      · rw [meets_many hmany]
        -- the pattern has a star, so the text has none
        rcases h with ⟨hpattern, _⟩ | ⟨htext, _⟩
        · exact absurd List.mem_cons_self hpattern
        · exact ih (.inr ⟨htext, by simpa using htext⟩)
      · match last with
        | none => exact meets_stuck_none hstuck
        | some (afterStar, []) => exact meets_stuck_nil hstuck
        | some (afterStar, y :: starText) =>
          rw [meets_stuck hstuck]
          rcases h with ⟨_, hlast⟩ | ⟨_, hlast⟩
          · have hafter := hlast _ rfl
            exact ih (.inl ⟨hafter, by simpa using hafter⟩)
          · have hstar : star ∉ starText := fun hmem => hlast _ rfl (List.mem_cons_of_mem _ hmem)
            exact ih (.inr ⟨hstar, by simpa using hstar⟩)

theorem exists_scan_of_append (x : List α)
    (h : scan any star fuel (x ++ pattern) (x ++ text) last = true) :
    ∃ fuel', scan any star fuel' pattern text last = true := by
  induction x generalizing fuel with
  | nil => exact ⟨fuel, h⟩
  | cons a x ih =>
    cases fuel with
    | zero => cases h
    | succ fuel =>
      rw [List.cons_append, List.cons_append, scan_one (.inr rfl)] at h
      exact ih h

theorem scan_append_eq_false (x : List α) (h : ¬ Matches (pattern.map (piece any star)) text)
    (fuel : ℕ) : scan any star fuel (x ++ pattern) (x ++ text) none = false := by
  by_contra hscan
  obtain ⟨fuel', hscan'⟩ := exists_scan_of_append x (Bool.not_eq_false _ ▸ hscan)
  exact h (matches_of_scan hscan')

theorem matches_append_map (x : List α) (h : Matches (pattern.map (piece any star)) text) :
    Matches ((x ++ pattern).map (piece any star)) (x ++ text) := by
  rw [List.map_append]
  exact matches_append.mpr ⟨x, text, rfl, matches_self any star x, h⟩

/-- **A star before more of the text**: the same star in the pattern stands for all of that, and the
scan takes it for the one star. -/
theorem matches_not_scan_star (any star : α) (x : List α) (htext : text ≠ []) :
    Matches ((x ++ [star]).map (piece any star)) (x ++ star :: text) ∧
      ∀ fuel, scan any star fuel (x ++ [star]) (x ++ star :: text) none = false := by
  constructor
  · refine matches_append_map x ?_
    rw [List.map_singleton, piece_star]
    exact List.append_nil (star :: text) ▸ .many _ .nil
  · intro fuel
    have hnot : ¬ Matches (([] : List α).map (piece any star)) text := fun h =>
      htext (matches_nil.mp h)
    have := scan_append_eq_false (x ++ [star]) hnot fuel
    rwa [List.append_nil, List.append_assoc] at this

/-- **A star at the end of the text**: a pattern's star can stand for nothing there. -/
theorem matches_not_scan_any (hne : any ≠ star) (x : List α) :
    Matches ((x ++ [star, any]).map (piece any star)) (x ++ [star]) ∧
      ∀ fuel, scan any star fuel (x ++ [star, any]) (x ++ [star]) none = false := by
  constructor
  · refine matches_append_map x ?_
    rw [List.map_cons, piece_star]
    exact .many [] (matches_piece_cons any star (.inl rfl) .nil)
  · intro fuel
    have hnot : ¬ Matches ([any].map (piece any star)) [] := by
      rw [matches_map_piece_nil]
      simp [hne]
    have := scan_append_eq_false (x ++ [star]) hnot fuel
    rwa [List.append_assoc, List.append_assoc] at this

/-- **The last star of a pattern** can stand for two, of which the scan takes one. -/
theorem matches_not_scan_stars (any : α) (x : List α) (hpattern : star ∉ pattern) :
    Matches ((x ++ star :: pattern).map (piece any star)) (x ++ star :: star :: pattern) ∧
      ∀ fuel,
        scan any star fuel (x ++ star :: pattern) (x ++ star :: star :: pattern) none = false := by
  constructor
  · refine matches_append_map x ?_
    rw [List.map_cons, piece_star]
    exact .many [star, star] (matches_self any star pattern)
  · intro fuel
    have hnot : ¬ Matches (pattern.map (piece any star)) (star :: pattern) := by
      intro h
      have hlength := h.length_eq ((many_notMem_map_piece any star).mpr hpattern)
      simp at hlength
    have := scan_append_eq_false (x ++ [star]) hnot fuel
    rwa [List.append_assoc, List.append_assoc] at this

/-- **For a text with a star** there is a pattern that the scan is wrong about. -/
theorem exists_pattern_of_star (hne : any ≠ star) (h : star ∈ text) :
    ∃ pattern, Matches (pattern.map (piece any star)) text ∧
      ∀ fuel, scan any star fuel pattern text none = false := by
  obtain ⟨x, y, rfl⟩ := List.append_of_mem h
  cases y with
  | nil => exact ⟨_, matches_not_scan_any hne x⟩
  | cons a y => exact ⟨_, matches_not_scan_star any star x (List.cons_ne_nil a y)⟩

/-- **For a pattern with a star** there is a text that the scan is wrong about. -/
theorem exists_text_of_star (any : α) (h : star ∈ pattern) :
    ∃ text, Matches (pattern.map (piece any star)) text ∧
      ∀ fuel, scan any star fuel pattern text none = false := by
  -- the last star of the pattern is the first from its end
  obtain ⟨y, x, hpattern, hy⟩ := List.eq_append_cons_of_mem (List.mem_reverse.mpr h)
  obtain rfl : pattern = x.reverse ++ star :: y.reverse := by
    rw [← List.reverse_reverse pattern, hpattern]
    simp
  exact ⟨_, matches_not_scan_stars any x.reverse (mt List.mem_reverse.mp hy)⟩

/-! ## Stars alone -/

def starPiece (star a : α) : Piece α := if a = star then .many else .lit a

/-- The parts stand in the text in order, the last of them at its end, with anything before each. -/
def Behind : List (List α) → List α → Prop
  | [], t => t = []
  | part :: parts, t => ∃ s t', t = s ++ part ++ t' ∧ Behind parts t'

omit [DecidableEq α] in
theorem Behind.append {part : List α} {parts : List (List α)} {t : List α}
    (h : Behind (part :: parts) t) (s : List α) : Behind (part :: parts) (s ++ t) := by
  obtain ⟨s', t', rfl, h'⟩ := h
  exact ⟨s ++ s', t', by simp only [List.append_assoc], h'⟩

theorem matches_map_starPiece {part t : List α} (h : star ∉ part) :
    Matches (part.map (starPiece star)) t ↔ t = part := by
  induction part generalizing t with
  | nil => exact matches_nil
  | cons a part ih =>
    have ha : starPiece star a = .lit a := if_neg fun heq : a = star => h (heq ▸ List.mem_cons_self)
    rw [List.map_cons, ha, matches_lit]
    simp [ih fun hmem => h (List.mem_cons_of_mem _ hmem)]

/-- **Parts with stars between them**: the text begins with the first part, and the others follow
in order. -/
theorem matches_intercalate {first : List α} {parts : List (List α)} {t : List α}
    (h : ∀ part ∈ first :: parts, star ∉ part) :
    Matches (([star].intercalate (first :: parts)).map (starPiece star)) t ↔
      ∃ w, t = first ++ w ∧ Behind parts w := by
  induction parts generalizing first t with
  | nil =>
    rw [List.intercalate_singleton, matches_map_starPiece (h _ List.mem_cons_self)]
    simp [Behind]
  | cons part parts ih =>
    have hfirst := h _ List.mem_cons_self
    have hparts : ∀ p ∈ part :: parts, star ∉ p := fun p hp => h p (List.mem_cons_of_mem _ hp)
    have hstar : starPiece star star = .many := if_pos rfl
    rw [List.intercalate_cons_cons, List.append_assoc, List.map_append, matches_append,
      List.singleton_append, List.map_cons, hstar]
    simp only [matches_map_starPiece hfirst, matches_many, ih hparts, Behind]
    constructor
    · rintro ⟨_, _, rfl, rfl, s, _, rfl, w, rfl, hw⟩
      exact ⟨s ++ (part ++ w), rfl, s, w, (List.append_assoc ..).symm, hw⟩
    · rintro ⟨_, rfl, s, w, rfl, hw⟩
      exact ⟨first, s ++ part ++ w, rfl, rfl, s, part ++ w, List.append_assoc .., w, rfl, hw⟩

end Glob
