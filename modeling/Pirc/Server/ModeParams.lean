import Pirc.Server.ModeLines

/-!
# Server: the parameters of mode strings

The letters of a mode string take their parameters in order. A limit that is no number does not use
up its parameter, though a nickname that is none, or that is not on the channel, does: the letters
behind the limit are then interpreted with the parameter of the letter before.
-/

namespace Pirc.Server

open Protocol

/-! ## Letters with parameters -/

def signAfter (adding : Bool) (ch : Char) : Bool :=
  if ch = '+' then true else if ch = '-' then false else adding

/-- The letters with parameters. -/
def takesParam (adding : Bool) (ch : Char) : Bool :=
  ch = 'k' || (ch = 'l' && adding) || ch = 'b' || ch = 'o' || ch = 'v'

/-- How many letters take a parameter, read with a sign that goes before. -/
def paramLetters : Bool → Str → ℕ
  | _, [] => 0
  | adding, ch :: letters =>
    (if takesParam adding ch then 1 else 0) + paramLetters (signAfter adding ch) letters

def signOf (adding : Bool) (letters : Str) : Bool := letters.foldl signAfter adding

theorem paramLetters_append (adding : Bool) (letters letters' : Str) :
    paramLetters adding (letters ++ letters') =
      paramLetters adding letters + paramLetters (signOf adding letters) letters' := by
  induction letters generalizing adding with
  | nil => exact (Nat.zero_add _).symm
  | cons ch letters ih =>
    rw [List.cons_append, paramLetters, ih, paramLetters, Nat.add_assoc]
    rfl

theorem signOf_append (adding : Bool) (letters letters' : Str) :
    signOf adding (letters ++ letters') = signOf (signOf adding letters) letters' :=
  List.foldl_append

theorem signOf_concat (adding : Bool) (letters : Str) (ch : Char) :
    signOf adding (letters ++ [ch]) = signAfter (signOf adding letters) ch := List.foldl_append

theorem paramLetters_concat (adding : Bool) (letters : Str) (ch : Char) :
    paramLetters adding (letters ++ [ch]) =
      paramLetters adding letters + if takesParam (signOf adding letters) ch then 1 else 0 :=
  paramLetters_append adding letters [ch]

theorem exists_first_of_paramLetters {adding : Bool} {letters : Str}
    (h : paramLetters adding letters ≠ 0) :
    ∃ before ch after, letters = before ++ ch :: after ∧ paramLetters adding before = 0 ∧
      takesParam (signOf adding before) ch = true := by
  induction letters generalizing adding with
  | nil => exact absurd rfl h
  | cons ch letters ih =>
    by_cases hfirst : takesParam adding ch = true
    · exact ⟨[], ch, letters, rfl, rfl, hfirst⟩
    · rw [paramLetters, if_neg hfirst, Nat.zero_add] at h
      obtain ⟨before, ch', after, rfl, hbefore, htakes⟩ := ih h
      refine ⟨ch :: before, ch', after, rfl, ?_, htakes⟩
      rw [paramLetters, if_neg hfirst, Nat.zero_add, hbefore]

/-! ## The loop -/

section Loop

variable {nick chanStr : Str} {now : ℕ} {modeParams : List Str} (m : ModeState)

/-- **The parameter is used up** by a letter that takes one, unless it should be a limit and is no
number. -/
def usesUp (adding : Bool) (ch : Char) (param : Option Str) : Bool :=
  takesParam adding ch && param.any fun text => ch ≠ 'l' || (parseU32 text).isSome

theorem ModeState.key_cursor (param : Option Str) :
    (m.key param).adding = m.adding ∧
      (m.key param).paramIdx = m.paramIdx + if param.isSome then 1 else 0 := by
  obtain ⟨channel, replies, i, adding, modes, params, last⟩ := m
  cases adding <;> cases param <;> exact ⟨rfl, rfl⟩

theorem ModeState.limit_cursor (param : Option Str) :
    (m.limit param).adding = m.adding ∧
      (m.limit param).paramIdx = m.paramIdx + if usesUp m.adding 'l' param then 1 else 0 := by
  obtain ⟨channel, replies, i, adding, modes, params, last⟩ := m
  cases adding with
  | false => exact ⟨rfl, rfl⟩
  | true =>
    cases param with
    | none => exact ⟨rfl, rfl⟩
    | some text =>
      have huses : usesUp true 'l' (some text) = (parseU32 text).isSome := by
        simp [usesUp, takesParam]
      simp only [ModeState.limit, if_true, huses]
      cases parseU32 text with
      | none => exact ⟨rfl, rfl⟩
      | some limit => exact ⟨rfl, rfl⟩

theorem ModeState.ban_cursor (param : Option Str) :
    (m.ban nick now param).adding = m.adding ∧
      (m.ban nick now param).paramIdx = m.paramIdx + if param.isSome then 1 else 0 := by
  cases param <;> exact ⟨rfl, rfl⟩

theorem ModeState.status_cursor (letter : Char) (param : Option Str) :
    (m.status letter nick chanStr param).adding = m.adding ∧
      (m.status letter nick chanStr param).paramIdx =
        m.paramIdx + if param.isSome then 1 else 0 := by
  cases param with
  | none => exact ⟨rfl, rfl⟩
  | some target =>
    unfold ModeState.status
    dsimp only
    split
    · exact ⟨rfl, rfl⟩
    · next nickname _ =>
      by_cases hmember : m.consume.channel.members.contains nickname = true
      · rw [if_pos hmember]
        exact ⟨rfl, rfl⟩
      · rw [if_neg hmember]
        exact ⟨rfl, rfl⟩

/-- **Which letters use up a parameter.** -/
theorem ModeState.paramIdx_step (ch : Char) :
    (m.step nick chanStr now modeParams ch).adding = signAfter m.adding ch ∧
      (m.step nick chanStr now modeParams ch).paramIdx =
        m.paramIdx + if usesUp m.adding ch modeParams[m.paramIdx]? then 1 else 0 := by
  -- letters other than a limit use up their parameter if there is one
  have huses {letter : Char} (hletter : letter ≠ 'l')
      (htakes : takesParam m.adding letter = true) (param : Option Str) :
      usesUp m.adding letter param = param.isSome := by
    cases param <;> simp [usesUp, htakes, hletter]
  unfold ModeState.step
  dsimp only
  split
  case h_1 => exact ⟨rfl, rfl⟩
  case h_2 => exact ⟨rfl, rfl⟩
  case h_3 | h_4 | h_5 | h_6 | h_7 => exact ⟨rfl, rfl⟩
  case h_8 =>
    rw [huses (by decide) rfl]
    exact m.key_cursor _
  case h_9 => exact m.limit_cursor _
  case h_10 =>
    rw [huses (by decide) rfl]
    exact m.ban_cursor _
  case h_11 =>
    rw [huses (by decide) rfl]
    exact m.status_cursor _ _
  case h_12 =>
    rw [huses (by decide) rfl]
    exact m.status_cursor _ _
  case h_13 hplus hminus _ _ _ _ _ hk hl hb ho hv =>
    have hsign : signAfter m.adding ch = m.adding := by
      rw [signAfter, if_neg hplus, if_neg hminus]
    have htakes : takesParam m.adding ch = false := by
      simp only [takesParam, decide_eq_false hk, decide_eq_false hl, decide_eq_false hb,
        decide_eq_false ho, decide_eq_false hv]
      rfl
    rw [usesUp, htakes]
    exact ⟨hsign.symm, rfl⟩

end Loop

/-! ## Letters and their parameters -/

namespace ModeSetting

variable (setting : ModeSetting) (now : ℕ)

/-- The loop before a letter. -/
def letterState (letters : Str) : ModeState :=
  letters.foldl (ModeState.step setting.session.nickname.name setting.chanStr now
    setting.modeParams) { channel := setting.channel }

/-- **Every letter is interpreted with its own parameter**: the first letter that takes one with the
first parameter, and so on. A letter behind the last parameter has none. -/
def Aligned : Prop :=
  ∀ before ch after, setting.modestring = before ++ ch :: after →
    takesParam (signOf true before) ch = true →
      setting.modeParams.zipIdx[(setting.letterState now before).paramIdx]? =
        setting.modeParams.zipIdx[paramLetters true before]?

/-- **The limit is no number**: after these letters there is a limit to be set, and its parameter is
no number. -/
def BadLimit (before : Str) : Prop :=
  signOf true before = true ∧
    ∃ text, setting.modeParams[paramLetters true before]? = some text ∧ parseU32 text = none

variable {setting now}

theorem letterState_concat (letters : Str) (ch : Char) :
    setting.letterState now (letters ++ [ch]) =
      (setting.letterState now letters).step setting.session.nickname.name setting.chanStr now
        setting.modeParams ch := List.foldl_append

theorem adding_letterState (letters : Str) :
    (setting.letterState now letters).adding = signOf true letters := by
  induction letters using List.reverseRecOn with
  | nil => rfl
  | append_singleton letters ch ih =>
    rw [letterState_concat, (ModeState.paramIdx_step _ ch).1, ih, signOf_concat]

theorem paramIdx_letterState {letters : Str}
    (h : ∀ before after, letters = before ++ 'l' :: after → ¬ setting.BadLimit before) :
    (setting.letterState now letters).paramIdx =
      min (paramLetters true letters) setting.modeParams.length := by
  induction letters using List.reverseRecOn with
  | nil => exact (Nat.zero_min _).symm
  | append_singleton letters ch ih =>
    have hbefore := ih fun before after heq => h before (after ++ [ch]) (by simp [heq])
    rw [letterState_concat, (ModeState.paramIdx_step _ ch).2, hbefore, adding_letterState,
      paramLetters_concat]
    cases htakes : takesParam (signOf true letters) ch with
    | false =>
      have huses (param : Option Str) : usesUp (signOf true letters) ch param = false := by
        rw [usesUp, htakes, Bool.false_and]
      simp [huses]
    | true =>
      rcases Nat.lt_or_ge (paramLetters true letters) setting.modeParams.length with hlt | hge
      · have hparam := List.getElem?_eq_getElem hlt
        have huses : usesUp (signOf true letters) ch
            (some setting.modeParams[paramLetters true letters]) = true := by
          rw [usesUp, htakes, Bool.true_and, Option.any_some]
          by_cases hch : ch = 'l'
          · subst hch
            have hadding : signOf true letters = true := by simpa [takesParam] using htakes
            have hgood := h letters [] rfl
            by_contra hbad
            refine hgood ⟨hadding, _, hparam, ?_⟩
            simpa using hbad
          · simp [hch]
        rw [min_eq_left hlt.le, hparam, huses, if_pos rfl]
        exact (min_eq_left hlt).symm
      · have hparam : setting.modeParams[setting.modeParams.length]? = none :=
          List.getElem?_eq_none le_rfl
        rw [min_eq_right hge, hparam, usesUp, Option.any_none, Bool.and_false, if_pos rfl]
        exact (min_eq_right (hge.trans (Nat.le_succ _))).symm

theorem paramIdx_letterState_append {letters letters' : Str}
    (h : paramLetters (signOf true letters) letters' = 0) :
    (setting.letterState now (letters ++ letters')).paramIdx =
      (setting.letterState now letters).paramIdx := by
  induction letters' using List.reverseRecOn with
  | nil => rw [List.append_nil]
  | append_singleton letters' ch ih =>
    rw [paramLetters_concat, Nat.add_eq_zero_iff] at h
    have htakes : takesParam (signOf true (letters ++ letters')) ch = false := by
      rw [signOf_append]
      simpa using h.2
    rw [← List.append_assoc, letterState_concat, (ModeState.paramIdx_step _ ch).2, ih h.1,
      adding_letterState, usesUp, htakes]
    rfl

theorem getElem?_zipIdx_eq_iff {params : List Str} {i j : ℕ} :
    params.zipIdx[i]? = params.zipIdx[j]? ↔ min i params.length = min j params.length := by
  rw [List.getElem?_zipIdx, List.getElem?_zipIdx]
  rcases Nat.lt_or_ge i params.length with hi | hi <;>
    rcases Nat.lt_or_ge j params.length with hj | hj
  · rw [List.getElem?_eq_getElem hi, List.getElem?_eq_getElem hj, min_eq_left hi.le,
      min_eq_left hj.le]
    constructor
    · intro h
      simpa using (Prod.ext_iff.mp (Option.some.inj h)).2
    · rintro rfl
      rfl
  · rw [List.getElem?_eq_getElem hi, List.getElem?_eq_none hj, min_eq_left hi.le, min_eq_right hj]
    exact iff_of_false (by simp) hi.ne
  · rw [List.getElem?_eq_none hi, List.getElem?_eq_getElem hj, min_eq_right hi, min_eq_left hj.le]
    exact iff_of_false (by simp) hj.ne'
  · rw [List.getElem?_eq_none hi, List.getElem?_eq_none hj, min_eq_right hi, min_eq_right hj]
    exact iff_of_true rfl rfl

/-- **The parameters are aligned** exactly if no letter with a parameter comes after a limit that is
no number. -/
theorem aligned_iff (setting : ModeSetting) (now : ℕ) :
    setting.Aligned now ↔ ∀ before after, setting.modestring = before ++ 'l' :: after →
      setting.BadLimit before → paramLetters true after = 0 := by
  constructor
  · rintro haligned before after heq ⟨hadding, text, hparam, hparse⟩
    by_contra hafter
    obtain ⟨hlt, -⟩ := List.getElem?_eq_some_iff.mp hparam
    -- the limit stands at its own parameter, and leaves it
    have hcursor : (setting.letterState now before).paramIdx = paramLetters true before := by
      have hlimit := haligned before 'l' after heq (by rw [hadding]; rfl)
      rw [getElem?_zipIdx_eq_iff, min_eq_left hlt.le] at hlimit
      omega
    have hsign : signOf true (before ++ ['l']) = true := by rw [signOf_concat, hadding]; rfl
    have hleft : (setting.letterState now (before ++ ['l'])).paramIdx = paramLetters true before := by
      rw [letterState_concat, (ModeState.paramIdx_step _ 'l').2, hcursor, adding_letterState,
        hadding, hparam, usesUp, Option.any_some, hparse]
      rfl
    -- the next letter with a parameter finds it
    obtain ⟨between, ch, rest, rfl, hbetween, htakes⟩ := exists_first_of_paramLetters hafter
    have hnext := haligned (before ++ ['l'] ++ between) ch rest (by simp [heq])
      (by rwa [signOf_append, hsign])
    rw [getElem?_zipIdx_eq_iff, paramIdx_letterState_append (by rwa [hsign]), hleft,
      paramLetters_append, hsign, hbetween, paramLetters_concat, hadding, min_eq_left hlt.le] at hnext
    have hone : (if takesParam true 'l' then 1 else 0) = 1 := rfl
    omega
  · intro hlimits before ch after heq htakes
    rw [getElem?_zipIdx_eq_iff, paramIdx_letterState, min_assoc, min_self]
    rintro before' after' rfl hbad
    -- the letter itself would come after a bad limit
    have hnone := hlimits before' (after' ++ ch :: after) (by simp [heq]) hbad
    have hsign : signOf true (before' ++ 'l' :: after') = signOf true after' := by
      rw [signOf_append, hbad.1]
      rfl
    rw [hsign] at htakes
    rw [paramLetters_append, paramLetters, htakes, if_pos rfl] at hnone
    omega

end ModeSetting

/-- Alice sets a limit that is no number, and a key without naming one. -/
def limitThenKey : Message :=
  { command := .mode, params := ["#s".toList, "+lk".toList, "abc".toList] }

def limitThenKeySetting : ModeSetting where
  session := aliceOnline
  chanStr := "#s".toList
  name := bobsSecret.name
  channel :=
    { bobsSecret with members := FoldMap.insert ∅ alice .operator, key := some "old".toList }
  modestring := "+lk".toList
  modeParams := ["abc".toList]

/-- **The key is set** to what was meant as the limit. -/
theorem limitThenKey_notAligned :
    modeSetting alicesChannel limitThenKey 1 = some limitThenKeySetting ∧
      ¬ limitThenKeySetting.Aligned 0 ∧
      ((handleChannelMode alicesChannel limitThenKey 1 0).channels.get bobsSecret.name).bind
        Channel.key = some "abc".toList := by
  refine ⟨rfl, fun haligned => ?_, by decide⟩
  have hkey := haligned "+l".toList 'k' [] rfl rfl
  revert hkey
  decide

end Pirc.Server
