import Pirc.Scripting.Value
import Pirc.Tui.BufferManager
import Pirc.Tui.ChatRenderer

/-!
# Client: messages from the server

`message_handler/mod.rs`: a message becomes lines for buffers. Those for who joined, left, quit or
was kicked have the whole text in them and no sender, and the renderer writes that text around the
sender.
-/

namespace Pirc.Client.MessageHandler

open Protocol
open Scripting.Value (eqIgnoreAsciiCase)
open Tui

/-! ## The code -/

def senderNick (msg : Message) : Option Str :=
  match msg.prefix_ with
  | some (.user nick _ _) => some nick.name
  | _ => none

/-- What is done for a message. -/
inductive HandlerAction
  | pushLine (target : BufferId) (line : BufferLine)
  | openChannel (channel : Str)
  | switchToChannel (channel : Str)
  | updateNick (nick : Str)
  deriving DecidableEq

variable (msg : Message) (ourNick ts : Str)

/-- A parameter of a message, or another text where there is none. -/
def paramOr (i : ℕ) (other : Str) : Str := (msg.params[i]?).getD other

def isChannel (target : Str) : Bool := target.head? = some '#' || target.head? = some '&'

def routePrivmsg : List HandlerAction :=
  match msg.params[0]? with
  | none => []
  | some target =>
    let sender := (senderNick msg).getD []
    let content := paramOr msg 1 []
    if isChannel target then
      [.openChannel target, .pushLine (.channel target) ⟨ts, some sender, content, .message⟩]
    else if eqIgnoreAsciiCase target ourNick then
      [.pushLine (.query sender) ⟨ts, some sender, content, .message⟩]
    else []

def routeNotice : List HandlerAction :=
  match msg.params[0]? with
  | none => []
  | some target =>
    let sender := senderNick msg
    let content := paramOr msg 1 []
    if target = ['*'] || eqIgnoreAsciiCase target "AUTH".toList then
      [.pushLine .status ⟨ts, none, content, .notice⟩]
    else if isChannel target then
      [.openChannel target, .pushLine (.channel target) ⟨ts, sender, content, .notice⟩]
    else
      let display :=
        match sender with
        | some nick => '-' :: nick ++ "- ".toList ++ content
        | none => content
      [.pushLine .status ⟨ts, none, display, .notice⟩]

def withReason (text reason : Str) : Str :=
  if reason = [] then text else text ++ " (".toList ++ reason ++ ")".toList

def routeJoin : List HandlerAction :=
  match msg.params[0]? with
  | none => []
  | some channel =>
    let nick := (senderNick msg).getD []
    .openChannel channel ::
      (if eqIgnoreAsciiCase nick ourNick then [.switchToChannel channel] else []) ++
      [.pushLine (.channel channel) ⟨ts, none, nick ++ " has joined ".toList ++ channel, .join⟩]

def routePart : List HandlerAction :=
  match msg.params[0]? with
  | none => []
  | some channel =>
    let nick := (senderNick msg).getD []
    let content := withReason (nick ++ " has left ".toList ++ channel) (paramOr msg 1 [])
    [.pushLine (.channel channel) ⟨ts, none, content, .part⟩]

def routeQuit : List HandlerAction :=
  let nick := (senderNick msg).getD []
  let content := withReason (nick ++ " has quit".toList) (paramOr msg 0 [])
  [.pushLine .status ⟨ts, none, content, .quit⟩]

def routeKick : List HandlerAction :=
  match msg.params[0]?, msg.params[1]? with
  | some channel, some kickedNick =>
    let kicker := (senderNick msg).getD []
    let content :=
      if eqIgnoreAsciiCase kickedNick ourNick then
        "You have been kicked from ".toList ++ channel ++ " by ".toList ++ kicker
      else kickedNick ++ " has been kicked from ".toList ++ channel ++ " by ".toList ++ kicker
    [.pushLine (.channel channel) ⟨ts, none, withReason content (paramOr msg 2 []), .kick⟩]
  | _, _ => []

def routeNick : List HandlerAction :=
  let oldNick := (senderNick msg).getD []
  match msg.params[0]? with
  | none => []
  | some newNick =>
    if eqIgnoreAsciiCase oldNick ourNick then
      [.updateNick newNick,
        .pushLine .status ⟨ts, none, "You are now known as ".toList ++ newNick, .system⟩]
    else [.pushLine .status ⟨ts, none, oldNick ++ " is now known as ".toList ++ newNick, .system⟩]

def routeTopic : List HandlerAction :=
  match msg.params[0]? with
  | none => []
  | some channel =>
    let topic := paramOr msg 1 []
    let nick := (senderNick msg).getD []
    let content :=
      if topic = [] then nick ++ " has cleared the topic for ".toList ++ channel
      else nick ++ " has changed the topic to: ".toList ++ topic
    [.pushLine (.channel channel) ⟨ts, none, content, .topic⟩]

def routeError : List HandlerAction :=
  [.pushLine .status ⟨ts, none, "ERROR: ".toList ++ paramOr msg 0 "Unknown error".toList, .error⟩]

def routeTargetError (other : Str) : List HandlerAction :=
  let content := paramOr msg 1 ['?'] ++ ": ".toList ++ paramOr msg 2 other
  [.pushLine .status ⟨ts, none, content, .error⟩]

def routeNumeric (code : UInt16) : List HandlerAction :=
  match code with
  | 332 =>
    match msg.params[1]? with
    | none => []
    | some channel =>
      [.pushLine (.channel channel) ⟨ts, none, "Topic: ".toList ++ paramOr msg 2 [], .topic⟩]
  | 331 =>
    match msg.params[1]? with
    | none => []
    | some channel => [.pushLine (.channel channel) ⟨ts, none, "No topic is set".toList, .topic⟩]
  | 353 =>
    match msg.params[2]? with
    | none => []
    | some channel =>
      [.pushLine (.channel channel) ⟨ts, none, "Users: ".toList ++ paramOr msg 3 [], .system⟩]
  | 366 => []
  | 401 => routeTargetError msg ts "No such nick/channel".toList
  | 403 => routeTargetError msg ts "No such channel".toList
  | 404 =>
    let content := paramOr msg 2 "Cannot send to channel".toList
    [.pushLine (.channel (paramOr msg 1 ['?'])) ⟨ts, none, content, .error⟩]
  | 442 => routeTargetError msg ts "You're not on that channel".toList
  | code =>
    let text := [' '].intercalate (msg.params.drop 1)
    if 400 ≤ code then
      let text := if 1 < msg.params.length then text else "Error ".toList ++ decimal code.toNat
      [.pushLine .status ⟨ts, none, text, .error⟩]
    else
      let text := if 1 < msg.params.length then text else decimal code.toNat
      [.pushLine .status ⟨ts, none, text, .system⟩]

/-- **What is done for a message from the server.** -/
def routeMessage : List HandlerAction :=
  match msg.command with
  | .privmsg => routePrivmsg msg ourNick ts
  | .notice => routeNotice msg ts
  | .join => routeJoin msg ourNick ts
  | .part => routePart msg ts
  | .quit => routeQuit msg ts
  | .kick => routeKick msg ourNick ts
  | .nick => routeNick msg ourNick ts
  | .topic => routeTopic msg ts
  | .error => routeError msg ts
  | .numeric code => routeNumeric msg ts code
  | _ => []

/-! ## Events -/

/-- The message says that a user joined, left, quit or was kicked. -/
def Affects (nick : Nickname) : Prop :=
  match msg.command with
  | .join | .part => (∃ user host, msg.prefix_ = some (.user nick user host)) ∧ msg.params ≠ []
  | .quit => ∃ user host, msg.prefix_ = some (.user nick user host)
  | .kick => msg.params[1]? = some nick.name
  | _ => False

def reasonOf : Str :=
  match msg.command with
  | .part => paramOr msg 1 []
  | .quit => paramOr msg 0 []
  | .kick => paramOr msg 2 []
  | _ => []

def occurrences (part text : Str) : ℕ := text.tails.countP part.isPrefixOf

/-- **A text names a user**: it begins with the nickname, and has the reason once, if there is
one. -/
def NamesUser (text : Str) (nick : Nickname) (reason : Str) : Prop :=
  nick.name ++ [' '] <+: text ∧ (reason ≠ [] → occurrences ('(' :: reason ++ [')']) text = 1)

instance (text : Str) (nick : Nickname) (reason : Str) : Decidable (NamesUser text nick reason) :=
  inferInstanceAs (Decidable (_ ∧ _))

def pushedLines (actions : List HandlerAction) : List BufferLine :=
  actions.filterMap fun action =>
    match action with
    | .pushLine _ line => some line
    | _ => none

variable {msg ourNick ts}

/-- **The line for an event** has no sender, and is of a type whose text is written around one. -/
theorem routeMessage_event {nick : Nickname} (h : Affects msg nick) :
    ∃ line, pushedLines (routeMessage msg ourNick ts) = [line] ∧ line.sender = none ∧
      (line.lineType = .join ∨ line.lineType = .part ∨ line.lineType = .quit ∨ line.lineType = .kick) := by
  unfold Affects at h
  unfold routeMessage
  split at h
  · rename_i hcommand
    obtain ⟨channel, rest, hparams⟩ := List.exists_cons_of_ne_nil h.2
    rw [hcommand]
    simp only [routeJoin, hparams, List.getElem?_cons_zero]
    refine ⟨⟨ts, none, (senderNick msg).getD [] ++ " has joined ".toList ++ channel, .join⟩, ?_,
      rfl, .inl rfl⟩
    split_ifs <;> rfl
  · rename_i hcommand
    obtain ⟨channel, rest, hparams⟩ := List.exists_cons_of_ne_nil h.2
    rw [hcommand]
    simp only [routePart, hparams, List.getElem?_cons_zero]
    exact ⟨_, rfl, rfl, .inr (.inl rfl)⟩
  · rename_i hcommand
    rw [hcommand]
    exact ⟨_, rfl, rfl, .inr (.inr (.inl rfl))⟩
  · rename_i hcommand
    obtain ⟨hlt, -⟩ := List.getElem?_eq_some_iff.mp h
    have hchannel : msg.params[0]? = some msg.params[0] := List.getElem?_eq_getElem (by omega)
    rw [hcommand]
    simp only [routeKick, hchannel, h]
    exact ⟨_, rfl, rfl, .inr (.inr (.inr rfl))⟩
  · exact h.elim

theorem formattedContent_unknown {line : BufferLine} (hsender : line.sender = none)
    (htype : line.lineType = .join ∨ line.lineType = .part ∨ line.lineType = .quit ∨
      line.lineType = .kick) :
    ∃ rest, formattedContent line = '?' :: rest := by
  have hunknown : senderText line = "???".toList := by rw [senderText, hsender]; rfl
  unfold formattedContent
  rcases htype with h | h | h | h
  all_goals
    rw [h]
    dsimp only
    rw [hunknown]
    exact ⟨_, rfl⟩

/-- **No line for an event names the user**, however it is formatted, as long as nothing of it is
lost. -/
theorem event_never_named (msg : Message) (ourNick ts : Str) (nick : Nickname)
    (h : Affects msg nick) (region : Rect) (nickWidth : ℕ) :
    ∃ line, pushedLines (routeMessage msg ourNick ts) = [line] ∧
      (leadWidth line nickWidth < region.width → KeepsContent region nickWidth line →
        ¬ NamesUser (readLine region nickWidth line) nick (reasonOf msg)) := by
  obtain ⟨line, hline, hsender, htype⟩ := @routeMessage_event msg ourNick ts nick h
  refine ⟨line, hline, fun hwidth hkeeps hnames => ?_⟩
  obtain ⟨rest, hcontent⟩ := formattedContent_unknown hsender htype
  obtain ⟨⟨behind, hprefix⟩, -⟩ := hnames
  rw [readLine_eq region nickWidth line (Nat.zero_lt_of_lt hwidth),
    (shownContent_eq_iff _ _ _).mpr hkeeps, hcontent] at hprefix
  obtain ⟨first, name, hname⟩ : ∃ first name, nick.name = first :: name := by
    cases hnick : nick.name with
    | nil => exact absurd (hnick ▸ nick.valid) (by decide)
    | cons first name => exact ⟨first, name, rfl⟩
  have hquestion : first = '?' := by
    rw [hname] at hprefix
    exact (List.cons.inj hprefix).1
  have hvalid := nick.forall_mem first (hname ▸ List.mem_cons_self)
  rw [hquestion] at hvalid
  exact absurd hvalid (by decide)

theorem validate_alice : Nickname.validate "alice".toList = .ok () := by decide

def alice : Nickname := ⟨"alice".toList, validate_alice⟩

def partMessage : Message where
  prefix_ := some (.user alice "a".toList "host".toList)
  command := .part
  params := ["#pirc".toList, "bye".toList]

def wideRegion : Rect := ⟨0, 0, 120, 5⟩

theorem partMessage_never_named :
    ∃ line, pushedLines (routeMessage partMessage "bob".toList "12:00".toList) = [line] ∧
      (leadWidth line 12 < wideRegion.width → KeepsContent wideRegion 12 line →
        ¬ NamesUser (readLine wideRegion 12 line) alice (reasonOf partMessage)) :=
  event_never_named partMessage "bob".toList "12:00".toList alice ⟨⟨_, _, rfl⟩, by decide⟩ wideRegion 12

/-- What is read is about an unknown user, with the whole text as the reason. -/
theorem partMessage_read :
    (pushedLines (routeMessage partMessage "bob".toList "12:00".toList)).map (fun line =>
        (decide (leadWidth line 12 < wideRegion.width ∧ KeepsContent wideRegion 12 line),
          readLine wideRegion 12 line)) =
      [(true, "??? has left (alice has left #pirc (bye))".toList)] ∧
      ¬ NamesUser "??? has left (alice has left #pirc (bye))".toList alice (reasonOf partMessage) := by
  decide +kernel

end Pirc.Client.MessageHandler
