import Pirc.Lib.Utf8
import Pirc.Scripting.Semantic

/-!
# Scripts: positions in strings

`interpreter/functions.rs`. The length of a string and the position of a part are numbers of bytes,
while `$left`, `$right` and `$mid` count characters. The empty string has no tokens by `$numtok`,
and an empty one by `$token`.

## Main results

* `counts_iff`: tokens are counted as they are selected exactly if the string is not empty
* `consistentPositions_iff`: **the functions go together exactly on ASCII strings that are not
  empty**
-/

namespace Pirc.Scripting

open Protocol (Str)

variable {F : Type} [Platform F] [Library F]

/-- What a function of the library gives, whatever was matched before. -/
def Gives (name : String) (args : List (Value F)) (v : Value F) : Prop :=
  ∀ state, (FunctionRegistry.call name.toList args state).1 = .ok v

variable (F) in
/-- The part that `$find` gives the position of is the one that `$mid` takes there. -/
def Finds (s t : Str) : Prop :=
  ∀ i len : Int64, 0 ≤ i.toInt → Gives "find" [.string s, .string t] (.int i : Value F) →
    Gives "len" [.string t] (.int len : Value F) →
      Gives "mid" [.string s, .int i, .int len] (.string t : Value F)

variable (F) in
/-- `$left` and `$right` at one place up to `$len` make up the string. -/
def Splits (s : Str) : Prop :=
  ∀ len k : Int64, Gives "len" [.string s] (.int len : Value F) → 0 ≤ k.toInt →
    k.toInt ≤ len.toInt → ∃ left right, Gives "left" [.string s, .int k] (.string left : Value F) ∧
      Gives "right" [.string s, .int (len - k)] (.string right : Value F) ∧ left ++ right = s

variable (F) in
/-- `$token` gives the tokens that `$numtok` counts. -/
def Counts (s : Str) : Prop :=
  ∀ (n : Int64) (delim : Str) (count : Int64),
    Gives "numtok" [.string s, .string delim] (.int count : Value F) →
      ((∃ v : Value F, v ≠ .null ∧ Gives "token" [.string s, .int n, .string delim] v) ↔
        1 ≤ n.toInt ∧ n.toInt ≤ count.toInt)

variable (F) in
/-- **The functions on positions go together** on these strings. -/
structure ConsistentPositions (s t : Str) : Prop where
  finds : Finds F s t
  splits : Splits F s
  counts : Counts F s

def InMemory (s : Str) : Prop := (utf8 s).length + 1 < 2 ^ 63

/-! ## What the functions give -/

section Gives

variable {s t : Str} {v : Value F} {k n : Int64}

theorem toUsize_int (hk : 0 ≤ k.toInt) (fnName : String) :
    toUsize (.int k : Value F) fnName = .ok k.toInt.toNat := by
  have hneg : ¬ k.toInt < 0 := not_lt.mpr hk
  change (if k.toInt < 0 then _ else toUsizeChecked k fnName) = _
  rw [if_neg hneg, toUsizeChecked, if_pos hk]

theorem gives_iff {name : String} {args : List (Value F)} {r : Except (RuntimeError F) (Value F)}
    (h : ∀ state, FunctionRegistry.call name.toList args state = (r, state)) :
    Gives name args v ↔ r = .ok v := by
  unfold Gives
  simp only [h]
  exact ⟨fun hresult => hresult {}, fun hresult _ => hresult⟩

theorem gives_len : Gives "len" [.string s] (.int k : Value F) ↔ Int64.ofNat (utf8 s).length = k := by
  rw [gives_iff (r := fnLen (.string s)) fun _ => rfl]
  simp only [fnLen, Value.toStr, Except.ok.injEq, Value.int.injEq]

theorem gives_left (hk : 0 ≤ k.toInt) :
    Gives "left" [.string s, .int k] (.string (s.take k.toInt.toNat) : Value F) := by
  rw [gives_iff (r := fnLeft (.string s) (.int k)) fun _ => rfl, fnLeft, toUsize_int hk]
  rfl

theorem gives_right (hk : 0 ≤ k.toInt) :
    Gives "right" [.string s, .int k] (.string (s.drop (s.length - k.toInt.toNat)) : Value F) := by
  rw [gives_iff (r := fnRight (.string s) (.int k)) fun _ => rfl, fnRight, toUsize_int hk]
  rfl

theorem gives_mid (hk : 0 ≤ k.toInt) (hn : 0 ≤ n.toInt) :
    Gives "mid" [.string s, .int k, .int n]
      (.string ((s.drop k.toInt.toNat).take n.toInt.toNat) : Value F) := by
  rw [gives_iff (r := fnMid (.string s) (.int k) (.int n)) fun _ => rfl, fnMid, toUsize_int hk,
    toUsize_int hn]
  rfl

theorem gives_unique {name : String} {args : List (Value F)} {w : Value F} (hv : Gives name args v)
    (hw : Gives name args w) : v = w :=
  Except.ok.inj ((hv {}).symm.trans (hw {}))

end Gives

/-! ## When they go together -/

section Consistent

variable {s t : Str}

theorem toInt_ofNat_length (h : InMemory s) : (Int64.ofNat (utf8 s).length).toInt = (utf8 s).length :=
  Int64.toInt_ofNat_of_lt (by unfold InMemory at h; omega)

/-- Halves of a string make it up exactly if it has no more bytes than characters. -/
theorem splits_iff (h : InMemory s) : Splits F s ↔ (utf8 s).length = s.length := by
  have hle := length_le_length_utf8 s
  have hlen := toInt_ofNat_length h
  constructor
  · intro hsplits
    by_contra hne
    have hone : (1 : Int64).toInt = 1 := by decide
    have hlong : 2 ≤ (utf8 s).length := by
      rcases s with - | ⟨c, s⟩
      · exact absurd rfl hne
      · rw [List.length_cons] at hle hne
        omega
    -- one character from the left, and one byte less than all from the right
    obtain ⟨left, right, hleft, hright, happend⟩ :=
      hsplits _ 1 (gives_len.mpr rfl) (by decide) (by rw [hone, hlen]; omega)
    have hrest : (Int64.ofNat (utf8 s).length - 1).toInt = (utf8 s).length - 1 := by
      rw [Int64.toInt_sub, hlen, hone]
      exact Int.bmod_eq_of_le (by omega) (by unfold InMemory at h; omega)
    have hleft' := Value.string.inj (gives_unique hleft (gives_left (by decide)))
    have hright' := Value.string.inj (gives_unique hright (gives_right (by rw [hrest]; omega)))
    have hlength := congrArg List.length happend
    rw [hleft', hright', hrest, hone, List.length_append, List.length_take, List.length_drop] at hlength
    have hpos : 0 < s.length := by
      rcases s with - | ⟨c, s⟩
      · exact absurd rfl hne
      · exact Nat.succ_pos _
    omega
  · intro heq len k hgives hk hklen
    obtain rfl := gives_len.mp hgives
    rw [hlen] at hklen
    have hrest : (Int64.ofNat (utf8 s).length - k).toInt = (utf8 s).length - k.toInt := by
      rw [Int64.toInt_sub, hlen]
      exact Int.bmod_eq_of_le (by omega) (by unfold InMemory at h; omega)
    refine ⟨_, _, gives_left hk, gives_right (by omega), ?_⟩
    have hplace : s.length - ((utf8 s).length - k.toInt).toNat = k.toInt.toNat := by omega
    rw [hrest, hplace, List.take_append_drop]

theorem length_splitText_le (delim : Str) (n : ℕ) (s : Str) : (splitText delim n s).length ≤ n + 1 := by
  induction n generalizing s with
  | zero => exact le_rfl
  | succ n ih =>
    unfold splitText
    split
    · simp
    · exact Nat.succ_le_succ (ih _)

theorem length_tokens_pos (delim s : Str) : 0 < (tokens delim s).length := by
  unfold tokens
  cases hlen : s.length with
  | zero => exact Nat.one_pos
  | succ n =>
    unfold splitText
    split
    · exact Nat.one_pos
    · exact Nat.succ_pos _

theorem gives_numtok {delim : Str} {count : Int64} (hs : s ≠ []) :
    Gives "numtok" [.string s, .string delim] (.int count : Value F) ↔
      Int64.ofNat (tokens (delimiter (.string delim : Value F)) s).length = count := by
  have hempty : (Value.string s : Value F).toStr.isEmpty = false := List.isEmpty_eq_false_iff.mpr hs
  rw [gives_iff (r := fnNumtok (.string s) (.string delim)) fun _ => rfl, fnNumtok,
    if_neg (by simp [hempty])]
  simp only [Value.toStr, Except.ok.injEq, Value.int.injEq]

theorem fnToken_of_pos {delim : Str} {n : Int64} (hn : 1 ≤ n.toInt) :
    fnToken (.string s : Value F) (.int n) (.string delim) =
      .ok (((tokens (delimiter (.string delim : Value F)) s)[n.toInt.toNat - 1]?).elim .null .string) := by
  have hone : (1 : Int64).toInt = 1 := by decide
  have hrest : (n - 1).toInt = n.toInt - 1 := by
    rw [Int64.toInt_sub, hone]
    have hmax := n.toInt_lt
    exact Int.bmod_eq_of_le (by omega) (by omega)
  have hindex : toUsizeChecked (n - 1) "token" =
      (.ok (n.toInt.toNat - 1) : Except (RuntimeError F) ℕ) := by
    rw [toUsizeChecked, hrest, if_pos (by omega)]
    exact congrArg Except.ok (by omega)
  have htext : (Value.string s : Value F).toStr = s := rfl
  have hnumber : toI64 (.int n : Value F) "token" = .ok n := rfl
  unfold fnToken
  simp only [hnumber, bind, Except.bind, hindex, htext]
  rw [if_neg (by omega)]
  cases (tokens (delimiter (.string delim : Value F)) s)[n.toInt.toNat - 1]? <;> rfl

theorem gives_token {delim : Str} {n : Int64} :
    (∃ v : Value F, v ≠ .null ∧ Gives "token" [.string s, .int n, .string delim] v) ↔
      1 ≤ n.toInt ∧ n.toInt ≤ (tokens (delimiter (.string delim : Value F)) s).length := by
  have hiff (v : Value F) : Gives "token" [.string s, .int n, .string delim] v ↔
      fnToken (.string s) (.int n) (.string delim) = .ok v := gives_iff fun _ => rfl
  simp only [hiff]
  by_cases hn : 1 ≤ n.toInt
  · rw [fnToken_of_pos hn]
    simp only [Except.ok.injEq, hn, true_and]
    cases hget : (tokens (delimiter (.string delim : Value F)) s)[n.toInt.toNat - 1]? with
    | none =>
      have hge := List.getElem?_eq_none_iff.mp hget
      refine iff_of_false ?_ (by omega)
      rintro ⟨v, hne, rfl⟩
      exact hne rfl
    | some token =>
      obtain ⟨hlt, -⟩ := List.getElem?_eq_some_iff.mp hget
      exact iff_of_true ⟨_, by rintro ⟨⟩, rfl⟩ (by omega)
  · have hnull : fnToken (.string s : Value F) (.int n) (.string delim) = .ok .null := by
      change (if n.toInt < 1 then _ else _) = _
      exact if_pos (by omega)
    refine iff_of_false ?_ (fun h => hn h.1)
    rintro ⟨v, hne, hv⟩
    exact hne (Except.ok.inj (hv.symm.trans hnull))

theorem counts_iff (h : InMemory s) : Counts F s ↔ s ≠ [] := by
  constructor
  · rintro hcounts rfl
    have hone : (1 : Int64).toInt = 1 := by decide
    have hzero : (0 : Int64).toInt = 0 := by decide
    have hcount : Gives "numtok" [.string [], .string []] (.int 0 : Value F) := fun _ => rfl
    have htoken : ∃ v : Value F, v ≠ .null ∧ Gives "token" [.string [], .int 1, .string []] v :=
      gives_token.mpr ⟨by decide, by rw [hone]; exact_mod_cast length_tokens_pos _ _⟩
    have hle := ((hcounts 1 [] 0 hcount).mp htoken).2
    rw [hone, hzero] at hle
    omega
  · intro hs n delim count hgives
    have hcount := (gives_numtok hs).mp hgives
    have hle := length_splitText_le (delimiter (.string delim : Value F)) s.length s
    have hbytes := length_le_length_utf8 s
    have htoInt : count.toInt = (tokens (delimiter (.string delim : Value F)) s).length := by
      rw [← hcount]
      exact Int64.toInt_ofNat_of_lt (by unfold InMemory at h; unfold tokens; omega)
    rw [gives_token, htoInt]

theorem finds_of_ascii (hs : InMemory s) (ht : InMemory t) (hascii : ∀ c ∈ s, c.val.toNat < 128) :
    Finds F s t := by
  intro i len hi hfind hlen
  have hfound : fnFind (.string s) (.string t) = (.ok (.int i) : Except (RuntimeError F) (Value F)) :=
    (gives_iff fun _ => rfl).mp hfind
  unfold fnFind at hfound
  split at hfound
  case h_1 before behind hsplit =>
    have hparts : before ++ t ++ behind = s := splitFirst_eq hsplit
    have hbefore : (utf8 before).length = before.length := by
      refine length_utf8_eq_iff.mpr fun c hc => hascii c ?_
      rw [← hparts]
      exact List.mem_append_left _ (List.mem_append_left _ hc)
    have hpart : (utf8 t).length = t.length := by
      refine length_utf8_eq_iff.mpr fun c hc => hascii c ?_
      rw [← hparts]
      exact List.mem_append_left _ (List.mem_append_right _ hc)
    have hshort : before.length ≤ s.length := by
      rw [← hparts, List.append_assoc, List.length_append]
      omega
    have hbytes := length_le_length_utf8 s
    have htoInt : i.toInt = before.length := by
      rw [← Value.int.inj (Except.ok.inj hfound), hbefore]
      exact Int64.toInt_ofNat_of_lt (by unfold InMemory at hs; omega)
    have hlenInt : len.toInt = t.length := by
      rw [← gives_len.mp hlen, toInt_ofNat_length ht, hpart]
    have hmid : (s.drop i.toInt.toNat).take len.toInt.toNat = t := by
      rw [htoInt, hlenInt, Int.toNat_natCast, Int.toNat_natCast, ← hparts, List.append_assoc,
        List.drop_left, List.take_left]
    have hgives := gives_mid (F := F) (s := s) hi (show 0 ≤ len.toInt by omega)
    rwa [hmid] at hgives
  case h_2 =>
    obtain rfl := Value.int.inj (Except.ok.inj hfound)
    exact absurd hi (by decide)

end Consistent

/-- **The functions on positions go together exactly on ASCII strings that are not empty.** -/
theorem consistentPositions_iff {s t : Str} (hs : InMemory s) (ht : InMemory t) :
    ConsistentPositions F s t ↔ s ≠ [] ∧ ∀ c ∈ s, c.val.toNat < 128 := by
  constructor
  · rintro ⟨-, hsplits, hcounts⟩
    exact ⟨(counts_iff hs).mp hcounts, length_utf8_eq_iff.mp ((splits_iff hs).mp hsplits)⟩
  · rintro ⟨hne, hascii⟩
    exact ⟨finds_of_ascii hs ht hascii, (splits_iff hs).mpr (length_utf8_eq_iff.mpr hascii),
      (counts_iff hs).mpr hne⟩

section Examples

local instance positionsPlatform : Platform Unit := Interpreter.integersOnly

local instance positionsLibrary : Library Unit := Interpreter.plainLibrary

theorem consistentPositions_plain : ConsistentPositions Unit "one,two".toList "two".toList :=
  (consistentPositions_iff (by unfold InMemory; decide) (by unfold InMemory; decide)).mpr
    ⟨by decide, List.forall_iff_forall_mem.mp (by decide)⟩

/-- **A position that is not the one**: behind an `é`. -/
theorem accent_not_consistent :
    ¬ ∀ s t : Str, InMemory s → InMemory t → ConsistentPositions Unit s t := by
  intro h
  have hfinds := (h ['é', '!'] ['!'] (by unfold InMemory; decide) (by unfold InMemory; decide)).finds
  have hfind : Gives "find" [.string ['é', '!'], .string ['!']] (.int 2 : Value Unit) := fun _ => rfl
  have hmid := hfinds 2 1 (by decide) hfind fun _ => rfl
  have hempty := gives_unique hmid (gives_mid (by decide) (by decide))
  exact absurd (Value.string.inj hempty) (by decide)

end Examples

end Pirc.Scripting
