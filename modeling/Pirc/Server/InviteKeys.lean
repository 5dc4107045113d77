import Pirc.Server.ClusterService

/-!
# Server: invite keys

`cluster/invite_key.rs`: keys are created, validated, revoked and purged, and kept in a file across
restarts. What is said of a key is told by the history of the calls, whatever was purged in between.
-/

namespace Pirc.Server

open Protocol

/-! ## The store -/

namespace InviteKeyRecord

variable (record : InviteKeyRecord) (now : ℕ)

def isExpired : Bool := record.expiresAt ≤ now

def consumed : Bool := record.singleUse && record.used

end InviteKeyRecord

/-- The records as text, and back; each comes with its token. -/
structure RecordsJson where
  toJson : List (Str × InviteKeyRecord) → Option Str
  fromJson : Str → Option (List (Str × InviteKeyRecord))
  fromJson_toJson : ∀ records text, toJson records = some text → fromJson text = some records

namespace InviteKeyStore

def defaultTtl : ℕ := 24 * 60 * 60 * 10 ^ 9

/-- Mark a key as revoked. -/
def revoke (store : InviteKeyStore) (token : Str) : Bool × InviteKeyStore :=
  match store.keys.lookup token with
  | some record => (true, { keys := store.keys.insert token { record with revoked := true } })
  | none => (false, store)

/-- Forget the keys that expired or were consumed. -/
def purgeExpired (store : InviteKeyStore) (now : ℕ) : InviteKeyStore where
  keys :=
    { entries := store.keys.entries.filter fun e => !e.2.isExpired now && !e.2.consumed
      nodupKeys := store.keys.nodupKeys.sublist List.filter_sublist }

variable (json : RecordsJson)

/-- The file with all keys. -/
def save (store : InviteKeyStore) : Option Str :=
  json.toJson (store.keys.entries.map fun e => (e.1, e.2))

/-- The store of a file, less what expired. -/
def load (file : Option Str) (now : ℕ) : Option InviteKeyStore :=
  match file with
  | none => some {}
  | some text => do
    let records ← json.fromJson text
    let store : InviteKeyStore := { keys := records.foldl (fun keys r => keys.insert r.1 r.2) ∅ }
    pure (store.purgeExpired now)

def restart (store : InviteKeyStore) (now : ℕ) : Option InviteKeyStore := do
  let text ← store.save json
  load json (some text) now

/-! ## What the operations do to a record -/

variable {store store' : InviteKeyStore} {token token' : Str} {record : InviteKeyRecord} {now : ℕ}

theorem validate_eq_ok : store.validate token now = .ok store' ↔ ∃ record,
    store.keys.lookup token = some record ∧ record.revoked = false ∧ record.isExpired now = false ∧
      record.consumed = false ∧
      store' = { keys := store.keys.insert token { record with used := true } } := by
  unfold validate
  cases store.keys.lookup token with
  | none => simp
  | some record =>
    simp only [Option.some.injEq, exists_eq_left', InviteKeyRecord.isExpired,
      InviteKeyRecord.consumed]
    split_ifs with hrevoked hexpired hused
    · simp [hrevoked]
    · simp [hexpired]
    · simp [hused]
    · simp [hrevoked, hexpired, hused, eq_comm]

theorem lookup_purgeExpired : (store.purgeExpired now).keys.lookup token =
    (store.keys.lookup token).filter fun record => !record.isExpired now && !record.consumed := by
  ext record
  rw [Option.filter_eq_some_iff]
  simp only [← Option.mem_def, AList.mem_lookup_iff]
  exact List.mem_filter

theorem lookup_foldl_insert (records : List (Sigma fun _ : Str => InviteKeyRecord))
    (hnodup : records.NodupKeys) (keys : AList fun _ : Str => InviteKeyRecord) (token : Str) :
    ((records.map fun e => (e.1, e.2)).foldl (fun keys r => keys.insert r.1 r.2) keys).lookup
      token = (records.dlookup token).or (keys.lookup token) := by
  induction records generalizing keys with
  | nil => rfl
  | cons e records ih =>
    obtain ⟨hfresh, hnodup⟩ := List.nodupKeys_cons.mp hnodup
    rw [List.map_cons, List.foldl_cons, ih hnodup]
    by_cases htoken : token = e.1
    · subst htoken
      rw [AList.lookup_insert, List.dlookup_eq_none.mpr hfresh]
      have hself : (e :: records).dlookup e.1 = some e.2 := List.dlookup_cons_eq records e.1 e.2
      rw [hself]
      rfl
    · rw [AList.lookup_insert_ne htoken]
      simp [List.dlookup_cons_ne records e htoken]

/-- **A restart purges**, and does nothing else. -/
theorem lookup_restart (h : store.restart json now = some store') :
    store'.keys.lookup token = (store.purgeExpired now).keys.lookup token := by
  obtain ⟨text, hsave, hload⟩ := Option.bind_eq_some_iff.mp h
  have hread := json.fromJson_toJson _ _ hsave
  simp only [load, hread, Option.bind_eq_bind, Option.bind_some, Option.pure_def,
    Option.some.injEq] at hload
  subst hload
  rw [lookup_purgeExpired, lookup_purgeExpired, lookup_foldl_insert _ store.keys.nodupKeys]
  simp [AList.lookup]

end InviteKeyStore

/-! ## Histories of keys -/

structure KeyCreation where
  token : Str
  now : ℕ
  ttl : Option ℕ
  singleUse : Bool
  deriving DecidableEq

/-- What was done with a store, and what the validations gave. -/
inductive KeyEvent
  | created (c : KeyCreation)
  | validated (token : Str) (ok : Bool)
  | revoked (token : Str)
  | purged
  | restarted
  deriving DecidableEq

namespace KeyCreation

variable (c : KeyCreation)

def expiresAt : ℕ := c.now + c.ttl.getD InviteKeyStore.defaultTtl

/-- **The record of the key** after what followed its creation. -/
def record (after : List KeyEvent) : InviteKeyRecord where
  expiresAt := c.expiresAt
  singleUse := c.singleUse
  used := .validated c.token true ∈ after
  revoked := .revoked c.token ∈ after

theorem record_append {after : List KeyEvent} {e : KeyEvent} (hvalidated : e ≠ .validated c.token true)
    (hrevoked : e ≠ .revoked c.token) : c.record (after ++ [e]) = c.record after := by
  simp [record, Ne.symm hvalidated, Ne.symm hrevoked]

def Over (after : List KeyEvent) (time : ℕ) : Prop :=
  (c.record after).isExpired time = true ∨ (c.record after).consumed = true

theorem Over.later {c : KeyCreation} {after : List KeyEvent} {time now : ℕ} (h : c.Over after time)
    (htime : time ≤ now) (e : KeyEvent) : c.Over (after ++ [e]) now := by
  rcases h with hexpired | hconsumed
  · left
    exact decide_eq_true ((of_decide_eq_true hexpired).trans htime)
  · right
    simp only [record, InviteKeyRecord.consumed, Bool.and_eq_true, decide_eq_true_eq] at hconsumed ⊢
    exact ⟨hconsumed.1, List.mem_append_left _ hconsumed.2⟩

end KeyCreation

/-- **The stores of a server** at some time, after calls at times that do not go back. Tokens that
are generated are distinct. -/
inductive KeyHistory (json : RecordsJson) : InviteKeyStore → ℕ → List KeyEvent → Prop
  | start : KeyHistory json {} 0 []
  | create {store : InviteKeyStore} {time : ℕ} {events : List KeyEvent} (c : KeyCreation) :
      KeyHistory json store time events → time ≤ c.now →
      (∀ c', .created c' ∈ events → c'.token ≠ c.token) →
      KeyHistory json (store.create c.token c.expiresAt c.singleUse) c.now (events ++ [.created c])
  | validate {store store' : InviteKeyStore} {time : ℕ} {events : List KeyEvent} (token : Str) (now : ℕ) :
      KeyHistory json store time events → time ≤ now → store.validate token now = .ok store' →
      KeyHistory json store' now (events ++ [.validated token true])
  | refuse {store : InviteKeyStore} {time : ℕ} {events : List KeyEvent} {e : InviteKeyError}
      (token : Str) (now : ℕ) :
      KeyHistory json store time events → time ≤ now → store.validate token now = .error e →
      KeyHistory json store now (events ++ [.validated token false])
  | revoke {store : InviteKeyStore} {time : ℕ} {events : List KeyEvent} (token : Str) (now : ℕ) :
      KeyHistory json store time events → time ≤ now →
      KeyHistory json (store.revoke token).2 now (events ++ [.revoked token])
  | purge {store : InviteKeyStore} {time : ℕ} {events : List KeyEvent} (now : ℕ) :
      KeyHistory json store time events → time ≤ now →
      KeyHistory json (store.purgeExpired now) now (events ++ [.purged])
  | restart {store store' : InviteKeyStore} {time : ℕ} {events : List KeyEvent} (now : ℕ) :
      KeyHistory json store time events → time ≤ now → store.restart json now = some store' →
      KeyHistory json store' now (events ++ [.restarted])

/-- **Told by the history**: every record is of a key that was created, and a key that was created
has its record unless it is over. -/
structure KeysTold (store : InviteKeyStore) (time : ℕ) (events : List KeyEvent) : Prop where
  created : ∀ token record, store.keys.lookup token = some record →
    ∃ c, .created c ∈ events ∧ c.token = token
  kept : ∀ before c after, events = before ++ .created c :: after →
    store.keys.lookup c.token = some (c.record after) ∨
      store.keys.lookup c.token = none ∧ c.Over after time

namespace KeysTold

variable {store store' : InviteKeyStore} {time now : ℕ} {events : List KeyEvent} {token : Str}

theorem start : KeysTold {} 0 [] := by
  refine ⟨nofun, ?_⟩
  intro before c after h
  exact absurd h (List.append_ne_nil_of_right_ne_nil _ (List.cons_ne_nil _ _)).symm

theorem create (h : KeysTold store time events) (c : KeyCreation) (htime : time ≤ c.now)
    (hfresh : ∀ c', .created c' ∈ events → c'.token ≠ c.token) :
    KeysTold (store.create c.token c.expiresAt c.singleUse) c.now (events ++ [.created c]) := by
  constructor
  · intro token record hlookup
    by_cases htoken : token = c.token
    · exact ⟨c, by simp, htoken.symm⟩
    · rw [InviteKeyStore.create, AList.lookup_insert_ne htoken] at hlookup
      obtain ⟨c', hmem, hc'⟩ := h.created token record hlookup
      exact ⟨c', List.mem_append_left _ hmem, hc'⟩
  · intro before c' after heq
    rcases append_singleton_eq heq with ⟨rfl, rfl, hlast⟩ | ⟨after', rfl, heq'⟩
    · cases hlast
      left
      exact AList.lookup_insert _
    · have hne : c'.token ≠ c.token := hfresh c' (heq' ▸ by simp)
      have hrecord : c'.record (after' ++ [.created c]) = c'.record after' :=
        c'.record_append (by simp) (by simp)
      rw [InviteKeyStore.create, AList.lookup_insert_ne hne, hrecord]
      exact (h.kept before c' after' heq').imp id fun ⟨hnone, hover⟩ => ⟨hnone, hover.later htime _⟩

theorem step (h : KeysTold store time events) (htime : time ≤ now) (e : KeyEvent)
    (hcreated : ∀ c, e ≠ .created c)
    (hnone : ∀ token, store.keys.lookup token = none → store'.keys.lookup token = none)
    (hsome : ∀ (c : KeyCreation) after, store.keys.lookup c.token = some (c.record after) →
      store'.keys.lookup c.token = some (c.record (after ++ [e])) ∨
        store'.keys.lookup c.token = none ∧ c.Over (after ++ [e]) now) :
    KeysTold store' now (events ++ [e]) := by
  constructor
  · intro token record hlookup
    cases hbefore : store.keys.lookup token with
    | none =>
      rw [hnone token hbefore] at hlookup
      cases hlookup
    | some record' =>
      obtain ⟨c, hmem, hc⟩ := h.created token record' hbefore
      exact ⟨c, List.mem_append_left _ hmem, hc⟩
  · intro before c after heq
    rcases append_singleton_eq heq with ⟨-, -, hlast⟩ | ⟨after', rfl, heq'⟩
    · exact absurd hlast (hcreated c)
    · rcases h.kept before c after' heq' with hkept | ⟨hgone, hover⟩
      · exact hsome c after' hkept
      · exact .inr ⟨hnone _ hgone, hover.later htime e⟩

theorem step_insert (h : KeysTold store time events) (htime : time ≤ now) (e : KeyEvent)
    (hcreated : ∀ c, e ≠ .created c) {record : InviteKeyRecord} (change : InviteKeyRecord → InviteKeyRecord)
    (hlookup : store.keys.lookup token = some record)
    (hother : ∀ (c : KeyCreation) after, c.token ≠ token → c.record (after ++ [e]) = c.record after)
    (hself : ∀ (c : KeyCreation) after,
      c.token = token → c.record (after ++ [e]) = change (c.record after)) :
    KeysTold { keys := store.keys.insert token (change record) } now (events ++ [e]) := by
  refine h.step htime e hcreated ?_ ?_
  · intro token' hnone
    have hne : token' ≠ token := by
      rintro rfl
      rw [hlookup] at hnone
      cases hnone
    rw [AList.lookup_insert_ne hne, hnone]
  · intro c after hkept
    left
    by_cases htoken : c.token = token
    · rw [hself c after htoken, htoken, AList.lookup_insert]
      rw [htoken, hlookup] at hkept
      rw [Option.some.inj hkept]
    · rw [AList.lookup_insert_ne htoken, hother c after htoken, hkept]

theorem validate (h : KeysTold store time events) (htime : time ≤ now)
    (hvalidate : store.validate token now = .ok store') :
    KeysTold store' now (events ++ [.validated token true]) := by
  obtain ⟨record, hlookup, -, -, -, rfl⟩ := InviteKeyStore.validate_eq_ok.mp hvalidate
  refine h.step_insert htime _ (by simp) (fun record => { record with used := true }) hlookup ?_ ?_
  · intro c after hne
    exact c.record_append (by simp [Ne.symm hne]) (by simp)
  · rintro c after rfl
    simp [KeyCreation.record]

theorem revoke (h : KeysTold store time events) (htime : time ≤ now) (token : Str) :
    KeysTold (store.revoke token).2 now (events ++ [.revoked token]) := by
  unfold InviteKeyStore.revoke
  cases hlookup : store.keys.lookup token with
  | some record =>
    refine h.step_insert htime _ (by simp) (fun record => { record with revoked := true }) hlookup ?_ ?_
    · intro c after hne
      exact c.record_append (by simp) (by simp [Ne.symm hne])
    · rintro c after rfl
      simp [KeyCreation.record]
  | none =>
    -- the key is not there, or no longer
    refine h.step htime _ (by simp) (fun _ => id) fun c after hkept => ?_
    have hne : c.token ≠ token := by
      rintro rfl
      rw [hlookup] at hkept
      cases hkept
    have hrecord : c.record (after ++ [.revoked token]) = c.record after :=
      c.record_append (by simp) (by simp [Ne.symm hne])
    exact .inl (hrecord ▸ hkept)

theorem refuse (h : KeysTold store time events) (htime : time ≤ now) (token : Str) :
    KeysTold store now (events ++ [.validated token false]) := by
  refine h.step htime _ (by simp) (fun _ => id) fun c after hkept => ?_
  have hrecord : c.record (after ++ [.validated token false]) = c.record after :=
    c.record_append (by simp) (by simp)
  exact .inl (hrecord ▸ hkept)

theorem purge (h : KeysTold store time events) (htime : time ≤ now) {e : KeyEvent}
    (he : e = .purged ∨ e = .restarted)
    (hlookup : ∀ token, store'.keys.lookup token = (store.purgeExpired now).keys.lookup token) :
    KeysTold store' now (events ++ [e]) := by
  refine h.step htime e ?_ ?_ ?_
  · rintro c rfl
    rcases he with he | he <;> cases he
  · intro token hnone
    rw [hlookup, InviteKeyStore.lookup_purgeExpired, hnone]
    rfl
  · intro c after hkept
    have hrecord : c.record (after ++ [e]) = c.record after := by
      rcases he with rfl | rfl
      · exact c.record_append (by simp) (by simp)
      · exact c.record_append (by simp) (by simp)
    rw [KeyCreation.Over, hlookup, InviteKeyStore.lookup_purgeExpired, hkept, hrecord]
    cases hexpired : (c.record after).isExpired now <;> cases hconsumed : (c.record after).consumed <;>
      simp [hexpired, hconsumed]

end KeysTold

variable {json : RecordsJson} {store : InviteKeyStore} {time now : ℕ} {events : List KeyEvent}

/-- **The history tells the records.** -/
theorem KeyHistory.told (h : KeyHistory json store time events) : KeysTold store time events := by
  induction h with
  | start => exact .start
  | create c _ htime hfresh ih => exact ih.create c htime hfresh
  | validate token now _ htime hvalidate ih => exact ih.validate htime hvalidate
  | refuse token now _ htime _ ih => exact ih.refuse htime token
  | revoke token now _ htime ih => exact ih.revoke htime token
  | purge now _ htime ih => exact ih.purge htime (.inl rfl) fun _ => rfl
  | restart now _ htime hrestart ih =>
    exact ih.purge htime (.inr rfl) fun _ => InviteKeyStore.lookup_restart json hrestart

/-! ## Keys are honoured exactly -/

/-- **Valid**: the key was created and is not expired, it was not revoked since, and if it is for a
single use it was not used. -/
def ValidKey (events : List KeyEvent) (token : Str) (now : ℕ) : Prop :=
  ∃ before c after, events = before ++ .created c :: after ∧ c.token = token ∧ now < c.expiresAt ∧
    .revoked token ∉ after ∧ ¬ (c.singleUse = true ∧ .validated token true ∈ after)

theorem KeyCreation.record_valid {c : KeyCreation} {after : List KeyEvent} :
    ((c.record after).revoked = false ∧ (c.record after).isExpired now = false ∧
      (c.record after).consumed = false) ↔
        now < c.expiresAt ∧ .revoked c.token ∉ after ∧
          ¬ (c.singleUse = true ∧ .validated c.token true ∈ after) := by
  have hexpired : (c.record after).isExpired now = false ↔ now < c.expiresAt :=
    decide_eq_false_iff_not.trans not_le
  have hconsumed : (c.record after).consumed = false ↔
      ¬ (c.singleUse = true ∧ .validated c.token true ∈ after) := by
    simp [record, InviteKeyRecord.consumed, imp_iff_not_or]
  rw [hexpired, hconsumed, record, decide_eq_false_iff_not, and_left_comm]

theorem KeysTold.valid (h : KeysTold store time events) {token : Str} {store' : InviteKeyStore}
    (hvalidate : store.validate token now = .ok store') : ValidKey events token now := by
  obtain ⟨record, hlookup, hrevoked, hexpired, hconsumed, -⟩ :=
    InviteKeyStore.validate_eq_ok.mp hvalidate
  obtain ⟨c, hmem, rfl⟩ := h.created token record hlookup
  obtain ⟨before, after, heq⟩ := List.append_of_mem hmem
  rcases h.kept before c after heq with hkept | ⟨hnone, -⟩
  · rw [hlookup] at hkept
    obtain rfl := Option.some.inj hkept
    exact ⟨before, c, after, heq, rfl, KeyCreation.record_valid.mp ⟨hrevoked, hexpired, hconsumed⟩⟩
  · rw [hlookup] at hnone
    cases hnone

theorem KeysTold.exists_validate (h : KeysTold store time events) (htime : time ≤ now) {token : Str}
    (hvalid : ValidKey events token now) : ∃ store', store.validate token now = .ok store' := by
  obtain ⟨before, c, after, heq, rfl, hvalid⟩ := hvalid
  obtain ⟨hrevoked, hexpired, hconsumed⟩ := KeyCreation.record_valid.mpr hvalid
  rcases h.kept before c after heq with hkept | ⟨-, hover⟩
  · exact ⟨_, InviteKeyStore.validate_eq_ok.mpr ⟨_, hkept, hrevoked, hexpired, hconsumed, rfl⟩⟩
  · -- a key that is over at an earlier time is over now
    rcases hover with hover | hover
    · have hle : c.expiresAt ≤ time := of_decide_eq_true hover
      exact absurd (hle.trans htime) (not_le.mpr hvalid.1)
    · rw [hconsumed] at hover
      cases hover

/-- **A key for a single use validates once at most.** -/
theorem KeyHistory.count_validated_le (h : KeyHistory json store time events) {before after : List KeyEvent}
    {c : KeyCreation} (heq : events = before ++ .created c :: after) (hsingle : c.singleUse = true) :
    after.count (.validated c.token true) ≤ 1 := by
  have hstep : ∀ {e : KeyEvent} {after' : List KeyEvent}, e ≠ .validated c.token true →
      after'.count (.validated c.token true) ≤ 1 →
      (after' ++ [e]).count (.validated c.token true) ≤ 1 := by
    intro e after' hne hle
    rwa [List.count_append, List.count_singleton, beq_false_of_ne hne]
  induction h generalizing before after with
  | start => exact absurd heq (List.append_ne_nil_of_right_ne_nil _ (List.cons_ne_nil _ _)).symm
  | validate token now hhistory htime hvalidate ih =>
    rcases append_singleton_eq heq with ⟨-, -, hlast⟩ | ⟨after', rfl, heq'⟩
    · cases hlast
    · by_cases htoken : token = c.token
      · subst htoken
        obtain ⟨record, hlookup, -, -, hconsumed, -⟩ := InviteKeyStore.validate_eq_ok.mp hvalidate
        have hunused : .validated c.token true ∉ after' := by
          rcases hhistory.told.kept before c after' heq' with hkept | ⟨hnone, -⟩
          · rw [hlookup] at hkept
            obtain rfl := Option.some.inj hkept
            simpa [KeyCreation.record, InviteKeyRecord.consumed, hsingle] using hconsumed
          · rw [hlookup] at hnone
            cases hnone
        rw [List.count_append, List.count_eq_zero.mpr hunused, List.count_singleton_self]
      · exact hstep (by simp [htoken]) (ih heq')
  | create | refuse | revoke | purge | restart =>
    rename_i ih
    rcases append_singleton_eq heq with ⟨rfl, -, -⟩ | ⟨after', rfl, heq'⟩
    · exact Nat.zero_le 1
    · exact hstep (by simp) (ih heq')

/-- **Keys are honoured exactly**: a token validates if and only if it is of a key that was created
and is not expired, was not revoked since, and if it is for a single use was not used; so such a key
validates once at most. -/
theorem KeyHistory.validate_iff (h : KeyHistory json store time events) (htime : time ≤ now)
    (token : Str) :
    ((∃ store', store.validate token now = .ok store') ↔ ValidKey events token now) ∧
      ∀ before c after, events = before ++ .created c :: after → c.singleUse = true →
        after.count (.validated c.token true) ≤ 1 :=
  ⟨⟨fun ⟨_, hvalidate⟩ => h.told.valid hvalidate, h.told.exists_validate htime⟩,
    fun _ _ _ heq hsingle => h.count_validated_le heq hsingle⟩

section Examples

/-- A text for one list of records only. -/
def onlyJson (saved : List (Str × InviteKeyRecord)) : RecordsJson where
  toJson records := if records = saved then some "[]".toList else none
  fromJson text := if text = "[]".toList then some saved else none
  fromJson_toJson := by
    intro records text h
    split_ifs at h with hsaved
    cases h
    rw [hsaved]
    rfl

def guestKey : KeyCreation := ⟨"guest".toList, 5, some 100, true⟩

def friendKey : KeyCreation := ⟨"friend".toList, 6, none, false⟩

/-- The guest has used the key when the server is restarted. -/
def friendEvents : List KeyEvent :=
  [.created guestKey, .created friendKey, .validated guestKey.token true, .restarted]

def savedKeys : List (Str × InviteKeyRecord) :=
  [(guestKey.token, guestKey.record [.validated guestKey.token true]),
    (friendKey.token, friendKey.record [])]

theorem friend_history : ∃ store, KeyHistory (onlyJson savedKeys) store 60 friendEvents := by
  have hguest : KeyHistory (onlyJson savedKeys) _ 5 ([] ++ [.created guestKey]) :=
    .create guestKey .start (by decide) (by simp)
  have hfriend : KeyHistory (onlyJson savedKeys) _ 6 (_ ++ [.created friendKey]) :=
    .create friendKey hguest (by decide) (by simp [guestKey, friendKey])
  exact ⟨_, .restart 60 (.validate guestKey.token 50 hfriend (by decide) rfl) (by decide) rfl⟩

/-- The key of the friend validates after the restart. -/
theorem friend_valid : ∃ store store' : InviteKeyStore, store.validate friendKey.token 70 = .ok store' := by
  obtain ⟨store, hhistory⟩ := friend_history
  exact ⟨store, (hhistory.validate_iff (by decide : 60 ≤ 70) friendKey.token).1.mpr
    ⟨[.created guestKey], friendKey, [.validated guestKey.token true, .restarted], rfl, rfl, by decide,
      by decide, by decide⟩⟩

end Examples

end Pirc.Server
