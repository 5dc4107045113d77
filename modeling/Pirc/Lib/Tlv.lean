import Pirc.Lib.Slices

/-!
# Types, lengths and values

Numbers in network byte order, and lists of attributes as several network protocols have them: a
type and a length of two bytes each, and a value padded to a multiple of four bytes.

## Main results

* `Tlv.scanFrom_eq`: the offset stays in range, and both read the same
-/

namespace Tlv

/-! ## Numbers -/

/-- A number in so many bytes, the most significant first. -/
def bigEndian : ℕ → ℕ → List UInt8
  | 0, _ => []
  | width + 1, n => bigEndian width (n / 256) ++ [.ofNat n]

/-- The number that bytes in network order are. -/
def ofBigEndian (bytes : List UInt8) : ℕ := bytes.foldl (fun n byte => 256 * n + byte.toNat) 0

@[simp] theorem length_bigEndian (width n : ℕ) : (bigEndian width n).length = width := by
  induction width generalizing n with
  | zero => rfl
  | succ width ih => simp [bigEndian, ih]

theorem ofBigEndian_concat (bytes : List UInt8) (byte : UInt8) :
    ofBigEndian (bytes ++ [byte]) = 256 * ofBigEndian bytes + byte.toNat := by
  simp [ofBigEndian]

/-- **A number is read back** modulo its width. -/
theorem ofBigEndian_bigEndian (width n : ℕ) : ofBigEndian (bigEndian width n) = n % 256 ^ width := by
  induction width generalizing n with
  | zero => simp [bigEndian, ofBigEndian, Nat.mod_one]
  | succ width ih =>
    rw [bigEndian, ofBigEndian_concat, ih, UInt8.toNat_ofNat', pow_succ' 256 width, Nat.mod_mul, add_comm]

theorem ofBigEndian_bigEndian_of_lt {width n : ℕ} (h : n < 256 ^ width) :
    ofBigEndian (bigEndian width n) = n := by
  rw [ofBigEndian_bigEndian, Nat.mod_eq_of_lt h]

theorem ofBigEndian_lt (bytes : List UInt8) : ofBigEndian bytes < 256 ^ bytes.length := by
  induction bytes using List.reverseRecOn with
  | nil => decide
  | append_singleton bytes byte ih =>
    have hbyte := byte.toNat_lt
    rw [ofBigEndian_concat, List.length_append, List.length_singleton, pow_succ]
    omega

/-- **Bytes are written back** as they were read. -/
theorem bigEndian_ofBigEndian (bytes : List UInt8) :
    bigEndian bytes.length (ofBigEndian bytes) = bytes := by
  induction bytes using List.reverseRecOn with
  | nil => rfl
  | append_singleton bytes byte ih =>
    have hbyte := byte.toNat_lt
    have hdiv : (256 * ofBigEndian bytes + byte.toNat) / 256 = ofBigEndian bytes := by omega
    have hlast : UInt8.ofNat (256 * ofBigEndian bytes + byte.toNat) = byte := by
      apply UInt8.toNat_inj.mp
      rw [UInt8.toNat_ofNat']
      omega
    rw [ofBigEndian_concat, List.length_append, List.length_singleton, bigEndian, hdiv, ih, hlast]

/-- **Masks of numbers** are masks of their bytes. -/
theorem bigEndian_xor (width m n : ℕ) :
    bigEndian width (m ^^^ n) = List.zipWith (· ^^^ ·) (bigEndian width m) (bigEndian width n) := by
  induction width generalizing m n with
  | zero => rfl
  | succ width ih =>
    have hdiv : (m ^^^ n) / 256 = m / 256 ^^^ n / 256 := Nat.xor_div_two_pow (n := 8)
    have hlen : (bigEndian width (m / 256)).length = (bigEndian width (n / 256)).length := by
      rw [length_bigEndian, length_bigEndian]
    rw [bigEndian, hdiv, ih, UInt8.ofNat_xor, bigEndian, bigEndian, List.zipWith_append hlen]
    rfl

theorem ofBigEndian_take_lt (bytes : List UInt8) : ofBigEndian (bytes.take 2) < 65536 := by
  have hlen : (bytes.take 2).length ≤ 2 := by simp
  exact (ofBigEndian_lt _).trans_le (Nat.pow_le_pow_right (by decide) hlen)

/-! ## Attributes -/

/-- How many bytes there are to the next multiple of four. -/
def padding (n : ℕ) : ℕ := (4 - n % 4) % 4

def encode (type : ℕ) (value : List UInt8) : List UInt8 :=
  bigEndian 2 type ++ (bigEndian 2 value.length ++ (value ++ List.replicate (padding value.length) 0))

@[simp] theorem length_encode (type : ℕ) (value : List UInt8) :
    (encode type value).length = 4 + value.length + padding value.length := by
  simp only [encode, List.length_append, length_bigEndian, List.length_replicate]
  omega

section Scan

variable {E A : Type} (truncated : ℕ → ℕ → ℕ → E) (parse : ℕ → List UInt8 → Except E A)

/-- Read attributes while there is room for a header, at most `fuel` of them. What is left then is
ignored, and so is missing padding. -/
def scanN : ℕ → List UInt8 → Except E (List A)
  | fuel + 1, t₁ :: t₂ :: l₁ :: l₂ :: rest =>
    let type := ofBigEndian [t₁, t₂]
    let len := ofBigEndian [l₁, l₂]
    if rest.length < len then .error (truncated type len rest.length)
    else do
      let attr ← parse type (rest.take len)
      let attrs ← scanN fuel (rest.drop (len + padding len))
      return attr :: attrs
  | _, _ => .ok []

/-- Read all attributes: each takes at least the four bytes of its header. -/
def scan (data : List UInt8) : Except E (List A) := scanN truncated parse data.length data

variable {truncated parse}

@[simp] theorem scan_nil : scan truncated parse [] = .ok [] := rfl

theorem scanN_eq {j k : ℕ} {data : List UInt8} (hj : data.length ≤ j) (hk : data.length ≤ k) :
    scanN truncated parse j data = scanN truncated parse k data := by
  induction j generalizing k data with
  | zero =>
    obtain rfl : data = [] := List.eq_nil_of_length_eq_zero (Nat.le_zero.mp hj)
    cases k <;> rfl
  | succ j ih =>
    match data, k with
    | [], k => cases k <;> rfl
    | [_], k => cases k <;> rfl
    | [_, _], k => cases k <;> rfl
    | [_, _, _], k => cases k <;> rfl
    | _ :: _ :: _ :: _ :: _, 0 => simp at hk
    | t₁ :: t₂ :: l₁ :: l₂ :: rest, k + 1 =>
      simp only [List.length_cons] at hj hk
      have hrest : scanN truncated parse j
          (rest.drop (ofBigEndian [l₁, l₂] + padding (ofBigEndian [l₁, l₂]))) =
            scanN truncated parse k
              (rest.drop (ofBigEndian [l₁, l₂] + padding (ofBigEndian [l₁, l₂]))) := by
        apply ih
        · rw [List.length_drop]
          omega
        · rw [List.length_drop]
          omega
      simp only [scanN, hrest]

/-- **An attribute in front is read first.** -/
theorem scan_encode_append {type : ℕ} {value rest : List UInt8} {attr : A}
    (htype : type < 65536) (hlen : value.length < 65536) (hparse : parse type value = .ok attr) :
    scan truncated parse (encode type value ++ rest) =
      (scan truncated parse rest).map (attr :: ·) := by
  have htypeBytes : ofBigEndian [.ofNat (type / 256), .ofNat type] = type :=
    (@ofBigEndian_bigEndian_of_lt 2 _) htype
  have hlenBytes : ofBigEndian [.ofNat (value.length / 256), .ofNat value.length] = value.length :=
    (@ofBigEndian_bigEndian_of_lt 2 _) hlen
  have hdata : encode type value ++ rest =
      .ofNat (type / 256) :: .ofNat type :: .ofNat (value.length / 256) :: .ofNat value.length ::
        (value ++ (List.replicate (padding value.length) 0 ++ rest)) := by
    simp [encode, bigEndian]
  have htake : (value ++ (List.replicate (padding value.length) (0 : UInt8) ++ rest)).take
      value.length = value := List.take_left
  have hdrop : (value ++ (List.replicate (padding value.length) (0 : UInt8) ++ rest)).drop
      (value.length + padding value.length) = rest := by
    rw [← List.append_assoc]
    exact List.drop_left' (by simp)
  have hroom : ¬ (value ++ (List.replicate (padding value.length) (0 : UInt8) ++ rest)).length <
      value.length := by simp
  -- the first turn takes off the attribute, and the fuel that is left is enough for the rest
  obtain ⟨fuel, hfuel⟩ : ∃ fuel, (encode type value ++ rest).length = fuel + 1 :=
    ⟨3 + value.length + padding value.length + rest.length, by simp; omega⟩
  have hle : rest.length ≤ fuel := by
    rw [List.length_append, length_encode] at hfuel
    omega
  unfold scan
  rw [hfuel, hdata]
  simp only [scanN, htypeBytes, hlenBytes, htake, hdrop, hroom, if_false, hparse,
    scanN_eq hle le_rfl]
  cases scanN truncated parse rest.length rest with
  | error e => rfl
  | ok attrs => rfl

/-- **A list of attributes is read back**, each as its value is read. -/
theorem scan_flatMap {attrs : List (ℕ × List UInt8)} {parsed : List A}
    (h : List.Forall₂ (fun x attr => x.1 < 65536 ∧ x.2.length < 65536 ∧ parse x.1 x.2 = .ok attr)
      attrs parsed) :
    scan truncated parse (attrs.flatMap fun x => encode x.1 x.2) = .ok parsed := by
  induction h with
  | nil => rfl
  | cons hfirst _ ih =>
    obtain ⟨htype, hlen, hparse⟩ := hfirst
    rw [List.flatMap_cons, scan_encode_append htype hlen hparse, ih]
    rfl

/-- **Attributes of any kind** are read if each is, where they fit altogether. -/
theorem scan_flatMap_of_forall {B : Type} {R : B → A → Prop} {attrs : List B}
    {encodeAttr : B → List UInt8} {typeOf : B → ℕ} {valueOf : B → List UInt8}
    (hencode : ∀ b, encodeAttr b = encode (typeOf b) (valueOf b)) (htype : ∀ b, typeOf b < 65536)
    (hlen : (attrs.flatMap encodeAttr).length < 65536)
    (hparse : ∀ b ∈ attrs, ∃ attr, parse (typeOf b) (valueOf b) = .ok attr ∧ R b attr) :
    ∃ parsed, scan truncated parse (attrs.flatMap encodeAttr) = .ok parsed ∧
      List.Forall₂ R attrs parsed := by
  induction attrs with
  | nil => exact ⟨[], rfl, .nil⟩
  | cons b attrs ih =>
    rw [List.flatMap_cons, List.length_append, hencode, length_encode] at hlen
    obtain ⟨attr, hattr, hR⟩ := hparse b List.mem_cons_self
    obtain ⟨parsed, hparsed, hall⟩ := ih (by omega) fun c hc => hparse c (List.mem_cons_of_mem _ hc)
    refine ⟨attr :: parsed, ?_, .cons hR hall⟩
    rw [List.flatMap_cons, hencode, scan_encode_append (htype b) (by omega) hattr, hparsed]
    rfl

end Scan

/-! ## Attributes at their offsets -/

section Offsets

variable {E F A : Type} [Panics F]

/-- Read attributes from an offset on, at most `fuel` of them. -/
def scanFrom (truncated : ℕ → ℕ → ℕ → F) (parse : ℕ → List UInt8 → Except F A) (data : List UInt8) :
    ℕ → ℕ → Except F (List A)
  | 0, _ => .ok []
  | fuel + 1, offset =>
    if data.length < offset + 4 then .ok []
    else do
      let typeBytes ← items 2 data offset
      let lenBytes ← items 2 data (offset + 2)
      let offset := offset + 4
      let len := ofBigEndian lenBytes
      if data.length < offset + len then do
        let available ← remaining data offset
        .error (truncated (ofBigEndian typeBytes) len available)
      else do
        let value ← slice data offset (offset + len)
        let attr ← parse (ofBigEndian typeBytes) value
        let attrs ← scanFrom truncated parse data fuel (offset + (len + 3) / 4 * 4)
        return attr :: attrs

theorem add_padding (n : ℕ) : n + padding n = (n + 3) / 4 * 4 := by
  unfold padding
  omega

variable {truncated : ℕ → ℕ → ℕ → E} {parse : ℕ → List UInt8 → Except E A}
  {truncatedAt : ℕ → ℕ → ℕ → F} {parseAt : ℕ → List UInt8 → Except F A} {f : E → F}

/-- **The offset stays in range**: what is read from it is what is read of the rest. -/
theorem scanFrom_eq (htruncated : ∀ type len available,
      truncatedAt type len available = f (truncated type len available))
    (hparse : ∀ type value, parseAt type value = (parse type value).mapError f)
    (data : List UInt8) (fuel offset : ℕ) :
    scanFrom truncatedAt parseAt data fuel offset =
      (scanN truncated parse fuel (data.drop offset)).mapError f := by
  induction fuel generalizing offset with
  | zero => rfl
  | succ fuel ih =>
    unfold scanFrom
    split_ifs with hshort
    · -- no header fits in what is left
      have hlen : (data.drop offset).length < 4 := by
        rw [List.length_drop]
        omega
      match hdrop : data.drop offset with
      | [] => rfl
      | [_] => rfl
      | [_, _] => rfl
      | [_, _, _] => rfl
      | _ :: _ :: _ :: _ :: _ =>
        rw [hdrop] at hlen
        simp only [List.length_cons] at hlen
        omega
    · match hdrop : data.drop offset with
      | t₁ :: t₂ :: l₁ :: l₂ :: rest =>
        have hrest : data.drop (offset + 4) = rest := by
          rw [← List.drop_drop, hdrop]
          rfl
        have hlength : rest.length = data.length - (offset + 4) := by
          rw [← hrest, List.length_drop]
        have htype : items 2 data offset = (.ok [t₁, t₂] : Except F (List UInt8)) := by
          rw [items_eq_ok (by omega), hdrop]
          rfl
        have hlen : items 2 data (offset + 2) = (.ok [l₁, l₂] : Except F (List UInt8)) := by
          rw [items_eq_ok (by omega), ← List.drop_drop, hdrop]
          rfl
        simp only [htype, hlen, bind, Except.bind, scanN]
        generalize ofBigEndian [t₁, t₂] = type
        generalize ofBigEndian [l₁, l₂] = len
        by_cases hroom : data.length < offset + 4 + len
        · have hroom' : rest.length < len := by omega
          rw [if_pos hroom, if_pos hroom', remaining_eq_ok (by omega), ← hlength]
          exact congrArg Except.error (htruncated type len rest.length)
        · have hroom' : ¬ rest.length < len := by omega
          have hnext := ih (offset + 4 + (len + 3) / 4 * 4)
          rw [← List.drop_drop, hrest, ← add_padding] at hnext
          rw [if_neg hroom, if_neg hroom', slice_eq_ok (Nat.le_add_right ..) (not_lt.mp hroom),
            Nat.add_sub_cancel_left, hrest]
          simp only [hparse, ← add_padding, hnext]
          cases parse type (rest.take len) with
          | error e => rfl
          | ok attr =>
            cases scanN truncated parse fuel (rest.drop (len + padding len)) with
            | error e => rfl
            | ok attrs => rfl
      | [] | [_] | [_, _] | [_, _, _] =>
        have hlen : (data.drop offset).length < 4 := by
          rw [hdrop]
          simp
        rw [List.length_drop] at hlen
        omega

end Offsets

end Tlv
