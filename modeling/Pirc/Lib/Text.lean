import Mathlib.Tactic

/-!
# Text as bytes

Characters as UTF-8 bytes and back, and the search for a pair of adjacent elements, such as the end
of a line. In UTF-8 the bytes of ASCII characters occur nowhere else, so that the end of a line is
found among the bytes where it is among the characters.

## Main results

* `fromUtf8?_utf8`: the round trip
* `pairAt_append_pair`: a pair at the end of a list that has none is the first
* `pairAt_utf8_eq_none`: a pair of ASCII characters that does not occur in a text does not occur
  among its bytes
-/

universe u

/-- Characters as bytes. -/
def utf8 (text : List Char) : List UInt8 := text.flatMap String.utf8EncodeChar

/-- The text some bytes stand for, if they are UTF-8. -/
def fromUtf8? (bytes : List UInt8) : Option (List Char) :=
  bytes.toByteArray.utf8Decode?.map Array.toList

/-- The length of a UTF-8 sequence by its first byte; zero where none starts so. -/
def utf8Width (first : UInt8) : ℕ :=
  if first < 0x80 then 1
  else if 0xC2 ≤ first ∧ first ≤ 0xDF then 2
  else if 0xE0 ≤ first ∧ first ≤ 0xEF then 3
  else if 0xF0 ≤ first ∧ first ≤ 0xF4 then 4
  else 0

def isUtf8Tail (byte : UInt8) : Bool := 0x80 ≤ byte ∧ byte ≤ 0xBF

/-- A second byte that may follow the first one of three or four. -/
def isUtf8Second (first second : UInt8) : Bool :=
  isUtf8Tail second ∧ (first = 0xE0 → 0xA0 ≤ second) ∧ (first = 0xED → second ≤ 0x9F) ∧
    (first = 0xF0 → 0x90 ≤ second) ∧ (first = 0xF4 → second ≤ 0x8F)

/-- The first place where bytes are not UTF-8: how many bytes before it are, and how many bytes are
at fault, or `none` when the input ends inside a sequence. -/
def utf8Fault (index : ℕ) : List UInt8 → Option (ℕ × Option ℕ)
  | [] => none
  | first :: rest =>
    match utf8Width first, rest with
    | 1, rest => utf8Fault (index + 1) rest
    | 2, b :: rest => if isUtf8Tail b then utf8Fault (index + 2) rest else some (index, some 1)
    | 3, b :: rest =>
      if isUtf8Second first b then
        match rest with
        | [] => some (index, none)
        | c :: rest => if isUtf8Tail c then utf8Fault (index + 3) rest else some (index, some 2)
      else some (index, some 1)
    | 4, b :: rest =>
      if isUtf8Second first b then
        match rest with
        | [] => some (index, none)
        | c :: rest =>
          if isUtf8Tail c then
            match rest with
            | [] => some (index, none)
            | d :: rest =>
              if isUtf8Tail d then utf8Fault (index + 4) rest else some (index, some 3)
          else some (index, some 2)
      else some (index, some 1)
    | 0, _ => some (index, some 1)
    | _, _ => some (index, none)

def replaceFaults : ℕ → List UInt8 → List Char
  | 0, _ => []
  | fuel + 1, bytes =>
    match utf8Fault 0 bytes with
    | none => (fromUtf8? bytes).getD []
    | some (valid, fault) =>
      (fromUtf8? (bytes.take valid)).getD [] ++ Char.ofNat 0xFFFD ::
        match fault with
        | none => []
        | some length => replaceFaults fuel (bytes.drop (valid + length))

/-- The text some bytes stand for, with a replacement character for every sequence that is not
UTF-8. -/
def fromUtf8Lossy (bytes : List UInt8) : List Char :=
  match fromUtf8? bytes with
  | some text => text
  | none => replaceFaults bytes.length bytes

@[simp] theorem fromUtf8?_utf8 (text : List Char) : fromUtf8? (utf8 text) = some text := by
  have hbytes : (utf8 text).toByteArray = text.utf8Encode := rfl
  rw [fromUtf8?, hbytes, List.utf8Decode?_utf8Encode]
  simp

@[simp] theorem fromUtf8Lossy_utf8 (text : List Char) : fromUtf8Lossy (utf8 text) = text := by
  rw [fromUtf8Lossy, fromUtf8?_utf8]

@[simp] theorem utf8_nil : utf8 [] = [] := rfl

@[simp] theorem utf8_cons (c : Char) (text : List Char) :
    utf8 (c :: text) = String.utf8EncodeChar c ++ utf8 text := List.flatMap_cons

@[simp] theorem utf8_append (s t : List Char) : utf8 (s ++ t) = utf8 s ++ utf8 t :=
  List.flatMap_append

theorem length_le_length_utf8 (text : List Char) : text.length ≤ (utf8 text).length := by
  induction text with
  | nil => exact le_rfl
  | cons c text ih =>
    have hpos : 0 < (String.utf8EncodeChar c).length := by
      rw [String.length_utf8EncodeChar]
      exact c.utf8Size_pos
    rw [utf8_cons, List.length_append, List.length_cons]
    omega

theorem eq_singleton_of_mem_utf8EncodeChar {c : Char} {b : UInt8}
    (hb : b ∈ String.utf8EncodeChar c) (hlt : b.toNat < 128) :
    String.utf8EncodeChar c = [b] ∧ c.val.toNat = b.toNat := by
  unfold String.utf8EncodeChar at hb ⊢
  dsimp only at hb ⊢
  split_ifs at hb ⊢ with h1 h2 h3
  · rw [List.mem_singleton] at hb
    subst hb
    refine ⟨rfl, ?_⟩
    rw [UInt8.toNat_ofNat']
    omega
  -- every byte of a longer sequence is 128 or more
  · simp only [List.mem_cons, List.not_mem_nil, or_false] at hb
    rcases hb with rfl | rfl
    all_goals
      rw [UInt8.toNat_ofNat'] at hlt
      omega
  · simp only [List.mem_cons, List.not_mem_nil, or_false] at hb
    rcases hb with rfl | rfl | rfl
    all_goals
      rw [UInt8.toNat_ofNat'] at hlt
      omega
  · simp only [List.mem_cons, List.not_mem_nil, or_false] at hb
    rcases hb with rfl | rfl | rfl | rfl
    all_goals
      rw [UInt8.toNat_ofNat'] at hlt
      omega

/-! ## Adjacent pairs -/

section Pairs

variable {α : Type u} [DecidableEq α] {a b : α}

/-- The position of the first adjacent pair. -/
def pairAt (a b : α) : List α → Option ℕ
  | [] => none
  | [_] => none
  | x :: y :: rest => if x = a ∧ y = b then some 0 else (pairAt a b (y :: rest)).map (· + 1)

theorem pairAt_add_two_le : ∀ {l : List α} {n : ℕ}, pairAt a b l = some n → n + 2 ≤ l.length
  | x :: y :: rest, n, h => by
    rw [pairAt] at h
    split_ifs at h
    · cases h
      simp
    · obtain ⟨m, hm, rfl⟩ := Option.map_eq_some_iff.mp h
      have := pairAt_add_two_le hm
      simp only [List.length_cons] at this ⊢
      omega

theorem pairAt_append (more : List α) : ∀ {l : List α} {n : ℕ}, pairAt a b l = some n →
    pairAt a b (l ++ more) = some n
  | x :: y :: rest, n, h => by
    rw [pairAt] at h
    rw [List.cons_append, List.cons_append, pairAt]
    split_ifs at h ⊢
    · exact h
    · obtain ⟨m, hm, rfl⟩ := Option.map_eq_some_iff.mp h
      have hrest := pairAt_append more hm
      rw [List.cons_append] at hrest
      rw [hrest]
      rfl

theorem pairAt_append_pair (hab : a ≠ b) : ∀ {l : List α}, pairAt a b l = none →
    pairAt a b (l ++ [a, b]) = some l.length
  | [], _ => by simp [pairAt]
  | [x], _ => by
    -- an `a` before the pair does not end one
    have hne : ¬ (x = a ∧ a = b) := fun h => hab h.2
    simp [pairAt, hne]
  | x :: y :: rest, h => by
    rw [pairAt] at h
    split_ifs at h with hxy
    have hrest : pairAt a b (y :: rest) = none := Option.map_eq_none_iff.mp h
    have ih := pairAt_append_pair hab hrest
    rw [List.cons_append] at ih
    rw [List.cons_append, List.cons_append, pairAt, if_neg hxy, ih]
    simp

theorem pairAt_take : ∀ {l : List α} {n : ℕ}, pairAt a b l = some n →
    pairAt a b (l.take (n + 2)) = some n
  | x :: y :: rest, n, h => by
    rw [pairAt] at h
    split_ifs at h with hxy
    · cases h
      simp [pairAt, hxy]
    · obtain ⟨m, hm, rfl⟩ := Option.map_eq_some_iff.mp h
      have ih := pairAt_take hm
      rw [List.take_succ_cons] at ih
      rw [List.take_succ_cons, List.take_succ_cons, pairAt, if_neg hxy, ih]
      rfl

theorem pairAt_append_cons {x : α} (ha : x ≠ a) (hb : x ≠ b) : ∀ {l : List α},
    pairAt a b l = none → ∀ {rest : List α}, pairAt a b rest = none →
      pairAt a b (l ++ x :: rest) = none
  | [], _, rest, h => by
    cases rest with
    | nil => rfl
    | cons y rest =>
      rw [List.nil_append, pairAt, if_neg fun hxy => ha hxy.1, h]
      rfl
  | [y], _, rest, h => by
    have ih := pairAt_append_cons ha hb (l := []) rfl h
    rw [List.nil_append] at ih
    rw [List.singleton_append, pairAt, if_neg fun hxy => hb hxy.2, ih]
    rfl
  | y :: z :: l, hl, rest, h => by
    rw [pairAt] at hl
    split_ifs at hl with hyz
    have ih := pairAt_append_cons ha hb (Option.map_eq_none_iff.mp hl) h
    rw [List.cons_append] at ih
    rw [List.cons_append, List.cons_append, pairAt, if_neg hyz, ih]
    rfl

theorem pairAt_of_cons {x : α} {l : List α} (h : pairAt a b (x :: l) = none) :
    pairAt a b l = none := by
  cases l with
  | nil => rfl
  | cons y rest =>
    rw [pairAt] at h
    split_ifs at h
    exact Option.map_eq_none_iff.mp h

theorem pairAt_append_of_notMem : ∀ {l : List α}, a ∉ l → ∀ rest : List α,
    pairAt a b rest = none → pairAt a b (l ++ rest) = none
  | [], _, _, h => h
  | x :: l, hx, rest, h => by
    obtain ⟨hne, hl⟩ := not_or.mp (mt List.mem_cons.mpr hx)
    have ih := pairAt_append_of_notMem hl rest h
    rw [List.cons_append]
    cases htail : l ++ rest with
    | nil => rfl
    | cons y ys =>
      rw [htail] at ih
      rw [pairAt, if_neg fun hxy => hne hxy.1.symm, ih]
      rfl

end Pairs

/-! ## Lines of a text -/

theorem utf8EncodeChar_of_ascii {c : Char} (h : c.val.toNat < 128) :
    String.utf8EncodeChar c = [UInt8.ofNat c.val.toNat] := by
  unfold String.utf8EncodeChar
  exact if_pos (by omega)

theorem eq_of_ascii_mem_utf8EncodeChar {a c : Char} (ha : a.val.toNat < 128)
    (hmem : UInt8.ofNat a.val.toNat ∈ String.utf8EncodeChar c) : c = a := by
  have htoNat : (UInt8.ofNat a.val.toNat).toNat = a.val.toNat := by
    rw [UInt8.toNat_ofNat']
    omega
  have hval := (eq_singleton_of_mem_utf8EncodeChar hmem (by omega)).2
  rw [htoNat] at hval
  exact Char.ext (UInt32.toNat_inj.mp hval)

/-- **Lines in bytes**: where a pair of ASCII characters does not occur in a text, it does not occur
among the bytes. -/
theorem pairAt_utf8_eq_none {a b : Char} (ha : a.val.toNat < 128) (hb : b.val.toNat < 128)
    {text : List Char} (h : pairAt a b text = none) :
    pairAt (UInt8.ofNat a.val.toNat) (UInt8.ofNat b.val.toNat) (utf8 text) = none := by
  induction text with
  | nil => rfl
  | cons c text ih =>
    have hrest := ih (pairAt_of_cons h)
    rw [utf8_cons]
    by_cases hc : c = a
    · subst hc
      rw [utf8EncodeChar_of_ascii ha, List.singleton_append]
      cases text with
      | nil => rfl
      | cons d text =>
        have hd : d ≠ b := by
          rintro rfl
          simp [pairAt] at h
        -- the byte after `a` is the first of another character
        cases hbytes : utf8 (d :: text) with
        | nil => rfl
        | cons y ys =>
          have hy : y ≠ UInt8.ofNat b.val.toNat := by
            rintro rfl
            apply hd
            apply eq_of_ascii_mem_utf8EncodeChar hb
            rw [utf8_cons] at hbytes
            cases hd' : String.utf8EncodeChar d with
            | nil => exact absurd hd' String.utf8EncodeChar_ne_nil
            | cons z zs =>
              rw [hd', List.cons_append] at hbytes
              obtain ⟨rfl, -⟩ := List.cons.inj hbytes
              exact List.mem_cons_self
          rw [hbytes] at hrest
          rw [pairAt, if_neg fun hxy => hy hxy.2, hrest]
          rfl
    · apply pairAt_append_of_notMem _ _ hrest
      intro hmem
      exact hc (eq_of_ascii_mem_utf8EncodeChar ha hmem)
