import Pirc.Server.ModeLines

/-!
# Server: who may change a channel

`MODE`, `BAN` and `KICK` change a channel for its operators only. Whoever is registered under
another nickname, not on the channel, or on it with another status, changes nothing, and neither
does a connection that is not registered.
-/

namespace Pirc.Server

open Protocol

/-- **The connection's nickname is an operator** of the channel that the text names. -/
def isOperatorOf (s : ServerState) (c : ConnId) (chanStr : Str) : Bool :=
  match s.registry.getByConnection c with
  | none => false
  | some session =>
    match findChannel s session.nickname.name chanStr with
    | .error _ => false
    | .ok (_, channel) => channel.members.get session.nickname = some .operator

def sentByOperator (s : ServerState) (msg : Message) (c : ConnId) : Bool :=
  msg.params.head?.any (isOperatorOf s c)

section Handlers

variable {s : ServerState} {msg : Message} {c : ConnId} {chanStr : Str} {session : UserSession}
  {name : ChannelName} {channel : Channel}

theorem get_of_requireOperator {nick : Nickname} (h : requireOperator channel nick chanStr = .ok ()) :
    channel.members.get nick = some .operator := by
  unfold requireOperator requireMember at h
  cases hget : channel.members.get nick with
  | none =>
    rw [hget] at h
    cases h
  | some status =>
    rw [hget] at h
    obtain ⟨_, hstatus, hoper⟩ := Except.bind_eq_ok.mp h
    cases hstatus
    split_ifs at hoper with hne
    rw [not_not.mp hne]

theorem isOperatorOf_eq_true (hsession : s.registry.getByConnection c = some session)
    (hfound : findChannel s session.nickname.name chanStr = .ok (name, channel))
    (hoper : requireOperator channel session.nickname chanStr = .ok ()) :
    isOperatorOf s c chanStr = true := by
  unfold isOperatorOf
  rw [hsession]
  dsimp only
  rw [hfound]
  exact decide_eq_true (get_of_requireOperator hoper)

theorem sentByOperator_eq_true {params : List Str} (hparams : msg.params = chanStr :: params)
    (hoper : isOperatorOf s c chanStr = true) : sentByOperator s msg c = true := by
  rw [sentByOperator, hparams]
  exact hoper

/-- **`MODE`** by somebody else. -/
theorem handleChannelMode_channels_of_not_operator (h : sentByOperator s msg c = false) (now : ℕ) :
    (handleChannelMode s msg c now).channels = s.channels := by
  refine handleChannelMode_channels_of_none ?_ now
  cases hsetting : modeSetting s msg c with
  | none => rfl
  | some setting =>
    obtain ⟨hsession, hparams, hfound, -, hoper⟩ := modeSetting_eq_some.mp hsetting
    rw [sentByOperator_eq_true hparams (isOperatorOf_eq_true hsession hfound hoper)] at h
    cases h

/-- **`BAN`** by somebody else. -/
theorem handleBan_channels_of_not_operator (h : sentByOperator s msg c = false) (now : ℕ) :
    (handleBan s msg c now).channels = s.channels := by
  unfold handleBan
  split
  · rfl
  · next session hsession =>
    dsimp only
    split
    · rfl
    · next chanStr rest hparams =>
      split
      · rfl
      · next name channel hfound =>
        split
        · rfl
        · next maskStr _ =>
          split
          · rfl
          · next hoper =>
            rw [sentByOperator_eq_true hparams (isOperatorOf_eq_true hsession hfound hoper)] at h
            cases h

theorem requireOperator_of_kickCheck {nick : Nickname} {targetStr : Str} {target : Nickname}
    (h : kickCheck s nick chanStr targetStr = .ok (name, channel, target)) :
    findChannel s nick.name chanStr = .ok (name, channel) ∧
      requireOperator channel nick chanStr = .ok () := by
  unfold kickCheck at h
  obtain ⟨⟨name', channel'⟩, hfound, hrest⟩ := Except.bind_eq_ok.mp h
  dsimp only at hrest
  split at hrest
  · cases hrest
  · obtain ⟨_, hoper, hrest⟩ := Except.bind_eq_ok.mp hrest
    split_ifs at hrest
    · cases hrest
      exact ⟨hfound, hoper⟩
    · cases hrest

/-- **`KICK`** by somebody else. -/
theorem handleKick_channels_of_not_operator (h : sentByOperator s msg c = false) :
    (handleKick s msg c).channels = s.channels := by
  unfold handleKick
  split
  · rfl
  · next session hsession =>
    split
    · next chanStr targetStr rest hparams =>
      split
      · rfl
      · next name channel target hcheck =>
        obtain ⟨hfound, hoper⟩ := requireOperator_of_kickCheck hcheck
        rw [sentByOperator_eq_true hparams (isOperatorOf_eq_true hsession hfound hoper)] at h
        cases h
    · rfl

theorem handleUserMode_channels : (handleUserMode s msg c).channels = s.channels := by
  unfold handleUserMode
  split
  · rfl
  dsimp only
  split
  · rfl
  split_ifs
  · rfl
  split
  · rfl
  split_ifs
  · rfl
  · rfl

end Handlers

/-! ## Messages -/

section Messages

variable {s : ServerState} {msg : Message} {c : ConnId}

theorem isOperatorOf_touch (clock : Clock) (chanStr : Str) :
    isOperatorOf (s.touch c clock) c chanStr = isOperatorOf s c chanStr := by
  have hsession : (s.touch c clock).registry.getByConnection c =
      (s.registry.getByConnection c).map fun session =>
        { session with lastActive := clock.instant } :=
    UserRegistry.getByConnection_modifySession ..
  unfold isOperatorOf
  rw [hsession]
  cases s.registry.getByConnection c <;> rfl

/-- **Only operators change a channel.** A `MODE`, `BAN` or `KICK` that another connection sends
leaves all channels as they are. -/
theorem handleMessage_channels_of_not_operator (config : ServerConfig) (clock : Clock)
    (state : PreRegistrationState)
    (hcommand : msg.command = .mode ∨ msg.command = .ban ∨ msg.command = .kick)
    (h : sentByOperator s msg c = false) :
    (handleMessage config clock s msg c state).1.channels = s.channels := by
  have hactive : msg.command ≠ .ping ∧ msg.command ≠ .pong := by
    rcases hcommand with hmode | hban | hkick
    · simp [hmode]
    · simp [hban]
    · simp [hkick]
  have htouched : sentByOperator (s.touch c clock) msg c = false := by
    unfold sentByOperator at h ⊢
    rwa [funext (isOperatorOf_touch clock)]
  have hchannels : (s.touch c clock).channels = s.channels := rfl
  unfold handleMessage
  split_ifs with hregistered
  · unfold handleRegistered
    rw [if_pos hactive]
    dsimp only
    rcases hcommand with hmode | hban | hkick
    · rw [hmode]
      dsimp only
      unfold handleCommand
      rw [hmode]
      dsimp only
      split_ifs
      · exact (handleChannelMode_channels_of_not_operator htouched clock.unix).trans hchannels
      · exact handleUserMode_channels.trans hchannels
    · rw [hban]
      dsimp only
      unfold handleCommand
      rw [hban]
      exact (handleBan_channels_of_not_operator htouched clock.unix).trans hchannels
    · rw [hkick]
      dsimp only
      unfold handleCommand
      rw [hkick]
      exact (handleKick_channels_of_not_operator htouched).trans hchannels
  · unfold handleUnregistered
    rcases hcommand with hmode | hban | hkick
    · rw [hmode]
    · rw [hban]
    · rw [hkick]

def alicesVoice : ServerState :=
  { alicesChannel with channels := {
      byName := FoldMap.insert ∅ bobsSecret.name
        { bobsSecret with members := FoldMap.insert ∅ alice .voiced } } }

def setLimit : Message :=
  { command := .mode, params := ["#s".toList, "+l".toList, "50".toList] }

/-- She sets a limit, in vain. -/
theorem setLimit_channels_of_voiced :
    (handleMessage {} ⟨0, 0⟩ alicesVoice setLimit 1
      { registered := true, hostname := [] }).1.channels = alicesVoice.channels :=
  handleMessage_channels_of_not_operator {} ⟨0, 0⟩ _ (.inl rfl) (by decide)

end Messages

end Pirc.Server
