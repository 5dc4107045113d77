import Pirc.Server.ChannelCommands

/-!
# Server: secret channels

What `LIST` and `NAMES` tell a user about the secret channels that the user has not joined
(`handler_channel/list_names.rs`). `LIST` leaves them out, and so does a `NAMES` without channels;
but a `NAMES` that names such a channel is answered as for any other.
-/

namespace Pirc.Server

open Protocol

/-! ## What a user sees -/

/-- The channel is not secret, or the user is on it. -/
def Channel.VisibleTo (nick : Nickname) (channel : Channel) : Prop :=
  .secret ∈ channel.modes → channel.members.contains nick = true

instance (nick : Nickname) (channel : Channel) : Decidable (channel.VisibleTo nick) :=
  inferInstanceAs (Decidable (_ → _))

/-- **Two states that a user cannot tell apart by the channels it sees**: they differ in nothing but
channels that the user does not see. The channels are listed in the order the registry is iterated
in. -/
structure SameVisible (nick : Nickname) (s t : ServerState) : Prop where
  registry : s.registry = t.registry
  mail : s.mail = t.mail
  channels : (s.channels.listAll.filter fun e => decide (e.2.VisibleTo nick)) =
    t.channels.listAll.filter fun e => decide (e.2.VisibleTo nick)

section Visible

variable {nick : Nickname} {s t : ServerState} {name : ChannelName} {channel : Channel}

theorem SameVisible.symm (h : SameVisible nick s t) : SameVisible nick t s :=
  ⟨h.registry.symm, h.mail.symm, h.channels.symm⟩

theorem SameVisible.get_eq (h : SameVisible nick s t) (hget : s.channels.get name = some channel)
    (hvisible : channel.VisibleTo nick) : t.channels.get name = some channel := by
  obtain ⟨name', hfold, hmem⟩ := FoldMap.get_eq_some.mp hget
  have hfilter : (name', channel) ∈
      s.channels.listAll.filter fun e => decide (e.2.VisibleTo nick) :=
    List.mem_filter.mpr ⟨hmem, decide_eq_true hvisible⟩
  rw [h.channels] at hfilter
  exact FoldMap.get_eq_some.mpr ⟨name', hfold, (List.mem_filter.mp hfilter).1⟩

theorem SameVisible.filter_eq (h : SameVisible nick s t) {p : ChannelName × Channel → Bool}
    (hp : ∀ e, p e = true → e.2.VisibleTo nick) :
    s.channels.listAll.filter p = t.channels.listAll.filter p := by
  have hsplit : ∀ entries : List (ChannelName × Channel),
      entries.filter p = (entries.filter fun e => decide (e.2.VisibleTo nick)).filter p := by
    intro entries
    rw [List.filter_filter]
    refine List.filter_congr fun e _ => ?_
    cases hpe : p e with
    | false => rfl
    | true => simp [hp e hpe]
  rw [hsplit, h.channels, ← hsplit]

end Visible

/-! ## What the names of a channel tell -/

/-- A member, as its channel's names show it. -/
def decorated (e : Nickname × MemberStatus) : Str := e.2.prefixChar.toList ++ e.1.name

theorem name_ne_nil (nick : Nickname) : nick.name ≠ [] := by
  obtain ⟨name, hvalid⟩ := nick
  rintro rfl
  cases hvalid

theorem not_mem_name (nick : Nickname) {x : Char} (hx : isValidSubsequentChar x = false) :
    x ∉ nick.name := by
  intro hmem
  rw [nick.forall_mem x hmem] at hx
  cases hx

theorem decorated_injective : Function.Injective decorated := by
  rintro ⟨nick, status⟩ ⟨nick', status'⟩ heq
  have hvoiced := fun nick => not_mem_name nick (x := '+') (by decide)
  have hoperator := fun nick => not_mem_name nick (x := '@') (by decide)
  have hname : ∀ {nick nick' : Nickname}, nick.name = nick'.name → nick = nick' := by
    rintro ⟨name, _⟩ ⟨name', _⟩ rfl
    rfl
  cases status <;> cases status' <;>
    simp only [decorated, MemberStatus.prefixChar, Option.toList_some, Option.toList_none,
      List.nil_append, List.singleton_append, List.cons.injEq, true_and,
      Char.reduceEq, false_and] at heq
  · rw [hname heq]
  · exact absurd (heq ▸ List.mem_cons_self) (hvoiced nick)
  · exact absurd (heq ▸ List.mem_cons_self) (hoperator nick)
  · exact absurd (heq.symm ▸ List.mem_cons_self) (hvoiced nick')
  · rw [hname heq]
  · exact absurd (heq.symm ▸ List.mem_cons_self) (hoperator nick')
  · rw [hname heq]

theorem decorated_ne_nil (e : Nickname × MemberStatus) : decorated e ≠ [] := by
  unfold decorated
  exact fun hnil => name_ne_nil e.1 (List.append_eq_nil_iff.mp hnil).2

theorem not_mem_decorated (e : Nickname × MemberStatus) : ' ' ∉ decorated e := by
  obtain ⟨nick, status⟩ := e
  have hname := not_mem_name nick (x := ' ') (by decide)
  cases status <;> simpa [decorated, MemberStatus.prefixChar] using hname

theorem intercalate_inj {words words' : List Str} (hspace : ∀ word ∈ words, ' ' ∉ word)
    (hspace' : ∀ word ∈ words', ' ' ∉ word) (hne : ∀ word ∈ words, word ≠ [])
    (hne' : ∀ word ∈ words', word ≠ []) (heq : [' '].intercalate words = [' '].intercalate words') :
    words = words' := by
  have hnil : ∀ {words : List Str}, (∀ word ∈ words, word ≠ []) → [' '].intercalate words = [] →
      words = [] := by
    intro words hne hnil
    match words with
    | [] => rfl
    | [word] => exact absurd (by simpa using hnil) (hne word List.mem_cons_self)
    | word :: next :: rest => simp at hnil
  by_cases hwords : words = []
  · subst hwords
    exact (hnil hne' heq.symm).symm
  · have hwords' : words' ≠ [] := by
      rintro rfl
      exact hwords (hnil hne heq)
    rw [← List.splitOn_intercalate ' ' hspace hwords, heq, List.splitOn_intercalate ' ' hspace' hwords']

def namesLine (channel : Channel) : Str :=
  [' '].intercalate ((channel.members.entries.map decorated).insertionSort (· ≤ ·))

theorem namesReply_eq (nick : Str) (name : ChannelName) (channel : Channel) :
    namesReply nick name channel = [numeric rplNamReply [nick, "=", name.name] (namesLine channel),
      numeric rplEndOfNames [nick, name.name] "End of /NAMES list"] := rfl

theorem numeric_trailing_inj {code : UInt16} {params : List Str} {line line' : Str} :
    numeric code params line = numeric code params line' ↔ line = line' := by
  simp [numeric]

/-- **The names of two channels read the same exactly if the channels have the same members.** -/
theorem namesReply_eq_iff {nick : Str} {name : ChannelName} {channel channel' : Channel} :
    namesReply nick name channel = namesReply nick name channel' ↔
      channel.members.entries.Perm channel'.members.entries := by
  have hsort : ∀ names : List Str, (names.insertionSort (· ≤ ·)).Perm names :=
    fun names => List.perm_insertionSort _ names
  constructor
  · intro heq
    rw [namesReply_eq, namesReply_eq] at heq
    have hline : namesLine channel = namesLine channel' := numeric_trailing_inj.mp (List.cons.inj heq).1
    have hword : ∀ {channel : Channel},
        ∀ word ∈ (channel.members.entries.map decorated).insertionSort (· ≤ ·),
          ' ' ∉ word ∧ word ≠ [] := by
      intro channel word hmem
      obtain ⟨e, -, rfl⟩ := List.mem_map.mp ((hsort _).mem_iff.mp hmem)
      exact ⟨not_mem_decorated e, decorated_ne_nil e⟩
    have hnames := intercalate_inj (fun word hmem => (hword word hmem).1)
      (fun word hmem => (hword word hmem).1) (fun word hmem => (hword word hmem).2)
      (fun word hmem => (hword word hmem).2) hline
    have hperm := (hsort (channel.members.entries.map decorated)).symm.trans
      (hnames ▸ hsort (channel'.members.entries.map decorated))
    exact (List.map_perm_map_iff decorated_injective).mp hperm
  · intro hperm
    have hnames : (channel.members.entries.map decorated).insertionSort (· ≤ ·) =
        (channel'.members.entries.map decorated).insertionSort (· ≤ ·) := by
      have hboth := (hsort _).trans ((hperm.map decorated).trans (hsort _).symm)
      exact hboth.eq_of_pairwise' (List.pairwise_insertionSort _ _) (List.pairwise_insertionSort _ _)
    rw [namesReply_eq, namesReply_eq, namesLine, hnames, namesLine]

/-! ## Replies about several channels -/

/-- Lists put together from parts are equal exactly if all parts are, where no part of the one
begins with a different part of the other. -/
theorem flatMap_eq_flatMap_iff {α β : Type} {xs : List α} {f g : α → List β}
    (h : ∀ x ∈ xs, f x <+: g x ∨ g x <+: f x → f x = g x) :
    xs.flatMap f = xs.flatMap g ↔ ∀ x ∈ xs, f x = g x := by
  refine ⟨?_, List.flatMap_congr⟩
  intro heq
  induction xs with
  | nil => exact fun x hx => absurd hx List.not_mem_nil
  | cons x xs ih =>
    rw [List.flatMap_cons, List.flatMap_cons] at heq
    have hfirst : f x = g x := by
      refine h x List.mem_cons_self ?_
      have hbegin : f x <+: g x ++ xs.flatMap g := heq ▸ List.prefix_append _ _
      exact List.prefix_or_prefix_of_prefix hbegin (List.prefix_append _ _)
    rw [hfirst] at heq
    have hrest := ih (fun y hy => h y (List.mem_cons_of_mem _ hy)) (List.append_cancel_left heq)
    exact List.forall_mem_cons.mpr ⟨hfirst, hrest⟩

def namesItem (nick : Str) (channels : ChannelRegistry) (chanStr : Str) : List Message :=
  match ChannelName.new chanStr with
  | .error _ => []
  | .ok name =>
    match channels.get name with
    | some channel => namesReply nick name channel
    | none => [numeric rplEndOfNames [nick, chanStr] "End of /NAMES list"]

def Unseen (nick : Nickname) (s : ServerState) (name : ChannelName) : Prop :=
  ∃ channel, s.channels.get name = some channel ∧ ¬ channel.VisibleTo nick

def SameMembers (s t : ServerState) (name : ChannelName) : Prop :=
  ∃ channel channel', s.channels.get name = some channel ∧ t.channels.get name = some channel' ∧
    channel.members.entries.Perm channel'.members.entries

section TwoStates

variable {nick : Nickname} {s t : ServerState}

theorem not_prefix_namesReply {nick chanStr : Str} {name : ChannelName} {channel : Channel} :
    ¬ [numeric rplEndOfNames [nick, chanStr] "End of /NAMES list"] <+: namesReply nick name channel ∧
      ¬ namesReply nick name channel <+: [numeric rplEndOfNames [nick, chanStr] "End of /NAMES list"] := by
  have hne : (Command.numeric rplEndOfNames) ≠ Command.numeric rplNamReply := by decide
  rw [namesReply_eq]
  constructor
  · intro hbefore
    exact hne (congrArg Message.command (List.cons_prefix_cons.mp hbefore).1)
  · intro hbefore
    exact hne (congrArg Message.command (List.cons_prefix_cons.mp hbefore).1).symm

/-- **One item**: the replies do not begin with one another unless they are equal, and they are
equal exactly if a channel that the user does not see has the same members in both states. -/
theorem namesItem_iff (h : SameVisible nick s t) (chanStr : Str) :
    (namesItem nick.name s.channels chanStr <+: namesItem nick.name t.channels chanStr ∨
        namesItem nick.name t.channels chanStr <+: namesItem nick.name s.channels chanStr →
      namesItem nick.name s.channels chanStr = namesItem nick.name t.channels chanStr) ∧
    (namesItem nick.name s.channels chanStr = namesItem nick.name t.channels chanStr ↔
      ∀ name, ChannelName.new chanStr = .ok name → Unseen nick s name ∨ Unseen nick t name →
        SameMembers s t name) := by
  unfold namesItem
  cases hname : ChannelName.new chanStr with
  | error e => simp
  | ok name =>
    have hforall : ∀ p : ChannelName → Prop,
        (∀ name', (Except.ok name : Except ChannelNameError _) = .ok name' → p name') ↔ p name := by
      intro p
      exact ⟨fun hp => hp name rfl, fun hp name' heq => Except.ok.inj heq ▸ hp⟩
    rw [hforall]
    dsimp only
    cases hs : s.channels.get name with
    | none =>
      cases ht : t.channels.get name with
      | none =>
        -- the channel is in neither state
        refine ⟨fun _ => rfl, iff_of_true rfl ?_⟩
        rintro (⟨channel, hget, -⟩ | ⟨channel, hget, -⟩)
        · rw [hs] at hget
          cases hget
        · rw [ht] at hget
          cases hget
      | some channel =>
        have hunseen : ¬ channel.VisibleTo nick := fun hvisible => by
          have hget := h.symm.get_eq ht hvisible
          rw [hs] at hget
          cases hget
        refine ⟨fun hbefore => absurd hbefore (not_or.mpr not_prefix_namesReply), iff_of_false ?_ ?_⟩
        · exact fun heq => not_prefix_namesReply.1 ⟨[], (List.append_nil _).trans heq⟩
        · intro hsame
          obtain ⟨_, _, hget, -⟩ := hsame (.inr ⟨channel, ht, hunseen⟩)
          rw [hs] at hget
          cases hget
    | some channel =>
      cases ht : t.channels.get name with
      | none =>
        have hunseen : ¬ channel.VisibleTo nick := fun hvisible => by
          have hget := h.get_eq hs hvisible
          rw [ht] at hget
          cases hget
        refine ⟨fun hbefore => absurd hbefore.symm (not_or.mpr not_prefix_namesReply), iff_of_false ?_ ?_⟩
        · exact fun heq => not_prefix_namesReply.2 ⟨[], (List.append_nil _).trans heq⟩
        · intro hsame
          obtain ⟨_, _, -, hget, -⟩ := hsame (.inl ⟨channel, hs, hunseen⟩)
          rw [ht] at hget
          cases hget
      | some channel' =>
        refine ⟨fun hbefore => ?_, ?_⟩
        · rcases hbefore with hbefore | hbefore
          · exact hbefore.eq_of_length rfl
          · exact (hbefore.eq_of_length rfl).symm
        rw [namesReply_eq_iff]
        have hmembers : SameMembers s t name ↔
            channel.members.entries.Perm channel'.members.entries := by
          constructor
          · rintro ⟨_, _, hget, hget', hperm⟩
            rw [hs] at hget
            rw [ht] at hget'
            cases hget
            cases hget'
            exact hperm
          · exact fun hperm => ⟨channel, channel', hs, ht, hperm⟩
        rw [hmembers]
        refine ⟨fun hperm _ => hperm, fun hsame => ?_⟩
        by_cases hvisible : channel.VisibleTo nick
        · -- the user sees the channel, and it is the same in both states
          have hget := h.get_eq hs hvisible
          rw [ht] at hget
          cases hget
          exact .refl _
        · exact hsame (.inl ⟨channel, hs, hvisible⟩)

theorem handleList_sameVisible {c : ConnId} {session : UserSession}
    (hsession : s.registry.getByConnection c = some session) (h : SameVisible session.nickname s t)
    (msg : Message) : (handleList s msg c).mail = (handleList t msg c).mail := by
  have hsession' := hsession
  rw [h.registry] at hsession'
  unfold handleList
  rw [hsession, hsession']
  dsimp only
  rw [h.filter_eq fun e he => ?_]
  · unfold ServerState.reply ServerState.deliver
    dsimp only
    rw [h.mail]
  · intro hsecret
    have hboth := (Bool.and_eq_true_iff.mp he).2
    simpa [hsecret] using hboth

/-- `NAMES` without channels tells nothing about channels that the user does not see. -/
theorem handleNames_nil {c : ConnId} {session : UserSession}
    (hsession : s.registry.getByConnection c = some session) (h : SameVisible session.nickname s t)
    {msg : Message} (hparams : msg.params = []) :
    (handleNames s msg c).mail = (handleNames t msg c).mail := by
  have hsession' := hsession
  rw [h.registry] at hsession'
  unfold handleNames
  rw [hsession, hsession', hparams]
  dsimp only
  rw [h.filter_eq fun e he _ => he]
  unfold ServerState.reply ServerState.deliver
  dsimp only
  rw [h.mail]

theorem handleNames_cons {c : ConnId} {session : UserSession}
    (hsession : s.registry.getByConnection c = some session) {msg : Message} {names : Str}
    {rest : List Str} (hparams : msg.params = names :: rest) :
    (handleNames s msg c).mail = s.mail ++
      ((names.splitOn ',').flatMap (namesItem session.nickname.name s.channels)).map
        fun msg => (c, msg) := by
  unfold handleNames
  rw [hsession, hparams]
  rfl

end TwoStates

/-- **What `LIST` and `NAMES` tell about secret channels**: in two states that differ in nothing but
channels that a user does not see, the user gets the same replies to every `LIST`, and to a `NAMES`
exactly if every such channel that it names is there in both states with the same members. -/
theorem listNames_secret_iff {s t : ServerState} {c : ConnId} {session : UserSession}
    (hsession : s.registry.getByConnection c = some session) (h : SameVisible session.nickname s t)
    (msg : Message) :
    (handleList s msg c).mail = (handleList t msg c).mail ∧
      ((handleNames s msg c).mail = (handleNames t msg c).mail ↔
        ∀ names ∈ msg.params.head?, ∀ chanStr ∈ names.splitOn ',', ∀ name,
          ChannelName.new chanStr = .ok name →
            Unseen session.nickname s name ∨ Unseen session.nickname t name → SameMembers s t name) := by
  refine ⟨handleList_sameVisible hsession h msg, ?_⟩
  cases hparams : msg.params with
  | nil =>
    refine iff_of_true (handleNames_nil hsession h hparams) ?_
    intro names hnames
    cases hnames
  | cons names rest =>
    have hsession' := hsession
    rw [h.registry] at hsession'
    have hmap : Function.Injective (List.map fun msg : Message => (c, msg)) :=
      List.map_injective_iff.mpr fun _ _ heq => (Prod.mk.inj heq).2
    rw [handleNames_cons hsession hparams, handleNames_cons hsession' hparams, h.mail,
      List.append_cancel_left_eq, hmap.eq_iff,
      flatMap_eq_flatMap_iff fun chanStr _ => (namesItem_iff h chanStr).1]
    simp only [List.head?_cons, Option.mem_some, forall_eq']
    exact forall₂_congr fun chanStr _ => (namesItem_iff h chanStr).2

section Examples

def aliceOnline : UserSession where
  connectionId := 1
  nickname := alice
  username := "al".toList
  realname := "Alice".toList
  hostname := "127.0.0.1".toList
  signonTime := 0
  lastActive := 0

def withoutSecret : ServerState where
  registry := ((UserRegistry.register {} aliceOnline).toOption).getD {}

def bobsSecret : Channel where
  name := ⟨"#s".toList, by decide⟩
  modes := {.secret}
  members := FoldMap.insert ∅ bob .operator

def withSecret : ServerState where
  registry := withoutSecret.registry
  channels := { byName := FoldMap.insert ∅ bobsSecret.name bobsSecret }

theorem withSecret_sameVisible : SameVisible alice withSecret withoutSecret where
  registry := rfl
  mail := rfl
  channels := rfl

/-- The channel is not listed. -/
theorem listNames_secret_iff_bobsSecret :
    (handleList withSecret { command := .list, params := [] } 1).mail =
      (handleList withoutSecret { command := .list, params := [] } 1).mail := by
  have hsession : withSecret.registry.getByConnection 1 = some aliceOnline := rfl
  exact (listNames_secret_iff hsession withSecret_sameVisible _).1

/-- **A secret channel that `NAMES` tells of**: who asks for it by name is told who is on it. -/
theorem names_tells_secret :
    SameVisible alice withSecret withoutSecret ∧
      (handleNames withSecret { command := .names, params := ["#s".toList] } 1).mail ≠
        (handleNames withoutSecret { command := .names, params := ["#s".toList] } 1).mail := by
  refine ⟨withSecret_sameVisible, ?_⟩
  decide

end Examples

end Pirc.Server
