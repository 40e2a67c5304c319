import Ircserv.Proofs.Actions
import Ircserv.Proofs.Bytes
import Ircserv.Proofs.Notice

/-!
# What a command does to the strings

A command stores and repeats only parts of its message and strings of the state. So the state keeps
to the strings it may have (`ServerState.Keeps.outcome`), and a reply is built from the command, the
username of its sender and a string of a channel (`dispatchWith_draws`). The notice of a
disconnection is built from the username of the client (`build_draws`).
-/

open Std

namespace Ircserv

open CommandResult ReplyBuilder

/-- What the strings of a state may be: the usernames of the clients of a descriptor, and the
strings of the channels. -/
structure Strings where
  username : Fd → Str → Prop
  name : Str → Prop
  topic : Str → Prop
  key : Str → Prop
  username_nil : ∀ fd, username fd []
  name_nil : name []
  topic_nil : topic []
  key_nil : key []

/-- Nicknames and hosts are printable. -/
structure Client.Keeps (S : Strings) (c : Client) : Prop where
  nickname : c.nickname.all isPrintable = true
  host : c.host.all isPrintable = true
  username : S.username c.fd c.username

structure Channel.Keeps (S : Strings) (ch : Channel) : Prop where
  name : S.name ch.name
  topic : S.topic ch.topic
  key : S.key ch.modes.key

/-- Every string that the state has for a reply is one that it may have. -/
structure ServerState.Keeps (S : Strings) (s : ServerState) : Prop where
  client : ∀ p, (s.clientAt p).Keeps S
  channel : ∀ a, (s.channelAt a).Keeps S

namespace Strings

/-- The strings that a command of a client of `fd` stores. -/
structure Takes (S : Strings) (fd : Fd) (msg : Message) : Prop where
  user : msg.command = lit "USER" → S.username fd (msg.getSingleParam 0)
  join : msg.command = lit "JOIN" → isValidChannelName (msg.getSingleParam 0) = true →
    S.name (msg.getSingleParam 0)
  topic : msg.command = lit "TOPIC" → S.topic (msg.getSingleParam 1)
  mode : msg.command = lit "MODE" → S.key (msg.getSingleParam 2)

structure Le (S S' : Strings) : Prop where
  username : ∀ fd t, S.username fd t → S'.username fd t
  name : ∀ t, S.name t → S'.name t
  topic : ∀ t, S.topic t → S'.topic t
  key : ∀ t, S.key t → S'.key t

end Strings

variable {S S' : Strings} {s s' : ServerState} {p q a addr : Addr} {fd g : Fd} {name nick m : Str}
  {msg : Message} {r : CommandResult}

theorem Client.Keeps.mono {c : Client} (h : c.Keeps S) (hle : S.Le S') : c.Keeps S' :=
  ⟨h.nickname, h.host, hle.username _ _ h.username⟩

theorem Channel.Keeps.mono {ch : Channel} (h : ch.Keeps S) (hle : S.Le S') : ch.Keeps S' :=
  ⟨hle.name _ h.name, hle.topic _ h.topic, hle.key _ h.key⟩

theorem Client.keeps_default : (default : Client).Keeps S := ⟨rfl, rfl, S.username_nil _⟩

theorem Channel.keeps_new (hname : S.name name) : ({ name := name } : Channel).Keeps S :=
  ⟨hname, S.topic_nil, S.key_nil⟩

theorem Client.Keeps.within {c : Client} (h : c.Keeps S) : Within c.username c.getFullPrefix :=
  c.within_getFullPrefix h.nickname h.host

namespace ServerState.Keeps

variable (h : s.Keeps S)

include h

theorem mono (hle : S.Le S') : s.Keeps S' :=
  ⟨fun p => (h.client p).mono hle, fun a => (h.channel a).mono hle⟩

theorem modifyClient {f : Client → Client} (hf : (f (s.clientAt p)).Keeps S) :
    (s.modifyClient p f).Keeps S := by
  refine ⟨fun q => ?_, h.channel⟩
  rw [clientAt_modifyClient]
  split_ifs with hq
  · rw [← hq.1]
    exact hf
  · exact h.client q

theorem modifyChannel {f : Channel → Channel} (hf : ∀ ch, ch.Keeps S → (f ch).Keeps S) (a : Addr) :
    (s.modifyChannel a f).Keeps S := by
  refine ⟨h.client, fun b => ?_⟩
  rw [channelAt_modifyChannel]
  split_ifs
  · exact hf _ (h.channel b)
  · exact h.channel b

theorem addClient {host : Str} (hhost : host.all isPrintable = true) (addr : Addr) (fd : Fd) :
    (s.addClient addr fd host).Keeps S := by
  refine ⟨fun q => ?_, h.channel⟩
  unfold ServerState.addClient ClientRegistry.addClient clientAt ClientRegistry.deref
  dsimp only
  split
  · exact h.client q
  · rw [Heap.deref_insert]
    split_ifs
    · exact ⟨rfl, hhost, S.username_nil _⟩
    · exact h.client q

theorem updateNick (hnick : nick.all isPrintable = true) (p : Addr) :
    (s.updateNick p nick).2.Keeps S := by
  rcases s.updateNick_cases p nick with ⟨-, hr⟩ | ⟨q, -, -, hr⟩ | ⟨-, -, hr⟩
  · rwa [hr]
  · rwa [hr]
  · rw [hr]
    refine ⟨fun q => ?_, h.channel⟩
    rw [clientAt_renamed]
    split_ifs
    · exact ⟨hnick, (h.client q).host, (h.client q).username⟩
    · exact h.client q

theorem getOrCreateChannel (hname : S.name name) (addr : Addr) :
    (s.getOrCreateChannel addr name).2.Keeps S := by
  unfold ServerState.getOrCreateChannel
  split
  · exact h
  · refine ⟨h.client, fun b => ?_⟩
    rw [channelAt, Heap.deref_insert]
    split_ifs
    · exact Channel.keeps_new hname
    · exact h.channel b

theorem removeChannelIfEmpty (name : Str) : (s.removeChannelIfEmpty name).Keeps S := by
  unfold ServerState.removeChannelIfEmpty
  split
  · exact h
  split_ifs
  · refine ⟨h.client, fun b => ?_⟩
    rw [channelAt, Heap.deref_erase]
    split_ifs
    · exact Channel.keeps_new S.name_nil
    · exact h.channel b
  · exact h

/-- An update of members, operators and invites. -/
theorem modifyMembers {f : Channel → Channel} (a : Addr)
    (hf : ∀ ch, (f ch).name = ch.name ∧ (f ch).topic = ch.topic ∧ (f ch).modes = ch.modes) :
    (s.modifyChannel a f).Keeps S := by
  refine h.modifyChannel (fun ch hch => ?_) a
  obtain ⟨hname, htopic, hmodes⟩ := hf ch
  exact ⟨hname ▸ hch.name, htopic ▸ hch.topic, hmodes ▸ hch.key⟩

/-- An update of a client that keeps its nick, username, host and descriptor. -/
theorem modifyJoined {f : Client → Client} (p : Addr)
    (hf : ∀ c, (f c).nickname = c.nickname ∧ (f c).username = c.username ∧ (f c).host = c.host ∧
      (f c).fd = c.fd) : (s.modifyClient p f).Keeps S := by
  refine h.modifyClient ?_
  obtain ⟨hnick, huser, hhost, hfd⟩ := hf (s.clientAt p)
  refine ⟨hnick ▸ (h.client p).nickname, hhost ▸ (h.client p).host, ?_⟩
  rw [hfd, huser]
  exact (h.client p).username

theorem addClientToChannel (hname : S.name name) (addr p : Addr) :
    (s.addClientToChannel addr p name).2.Keeps S := by
  have hchannel := h.getOrCreateChannel hname addr
  unfold ServerState.addClientToChannel
  generalize s.getOrCreateChannel addr name = r at hchannel
  obtain ⟨a, s₁⟩ := r
  have hadded : (s₁.modifyChannel a (·.addMember p)).Keeps S :=
    hchannel.modifyMembers a fun _ => ⟨rfl, rfl, rfl⟩
  have hjoined : ((s₁.modifyChannel a (·.addMember p)).modifyClient p (·.joinChannel a)).Keeps S :=
    hadded.modifyJoined p fun _ => ⟨rfl, rfl, rfl, rfl⟩
  dsimp only
  split_ifs
  · exact hchannel
  · exact hjoined.modifyMembers a fun _ => ⟨rfl, rfl, rfl⟩
  · exact hjoined

theorem leave (p a : Addr) (name : Str) :
    (((s.modifyChannel a (·.removeClientState p)).modifyClient p
      (·.leaveChannel a)).removeChannelIfEmpty name).Keeps S := by
  have hremoved : (s.modifyChannel a (·.removeClientState p)).Keeps S :=
    h.modifyMembers a fun _ => ⟨rfl, rfl, rfl⟩
  have hleft : ((s.modifyChannel a (·.removeClientState p)).modifyClient p
      (·.leaveChannel a)).Keeps S := hremoved.modifyJoined p fun _ => ⟨rfl, rfl, rfl, rfl⟩
  exact hleft.removeChannelIfEmpty name

theorem removeClientFromChannel (p : Addr) (name : Str) :
    (s.removeClientFromChannel p name).Keeps S := by
  unfold ServerState.removeClientFromChannel
  split
  · exact h
  split_ifs
  · exact h
  · exact h.leave _ _ _

omit h in
/-- A loop of updates. -/
theorem foldl {α : Type*} {f : ServerState → α → ServerState}
    (hf : ∀ s x, s.Keeps S → (f s x).Keeps S) : ∀ (xs : List α) {s : ServerState}, s.Keeps S →
      (xs.foldl f s).Keeps S
  | [], _, h => h
  | x :: xs, s, h => foldl hf xs (hf s x h)

theorem removeClient (fd : Fd) : (s.removeClient fd).Keeps S := by
  unfold ServerState.removeClient
  split
  · exact h
  · rename_i p hp
    have hleft := foldl (f := removeFromChannel p) (fun s a hs => hs.leave p a (s.channelAt a).name)
      (s.clientAt p).getChannels h
    have huninvited : (((s.clientAt p).getChannels.foldl (removeFromChannel p)
        s).removeClientFromAllInvites p).Keeps S := by
      refine foldl (fun s entry hs => ?_) _ hleft
      exact hs.modifyMembers entry.2 fun _ => ⟨rfl, rfl, rfl⟩
    refine ⟨fun q => ?_, huninvited.channel⟩
    dsimp only [clientAt, ClientRegistry.deref, ClientRegistry.removeClient]
    split
    · exact huninvited.client q
    · rw [Heap.deref_erase]
      split_ifs
      · exact Client.keeps_default
      · exact huninvited.client q

theorem maybeRegister (result : CommandResult) :
    (CommandDispatcher.maybeRegister p result s).2.Keeps S := by
  rcases maybeRegister_cases p result s with hr | hr <;> rw [hr]
  · exact h
  · exact h.modifyJoined p fun _ => ⟨rfl, rfl, rfl, rfl⟩

omit h in
/-- The key is that of the command, none, or as it was. -/
theorem changeModes {c : Client} {modeToken modeArg : Str} {modes modes' : ChannelModes}
    (hkey : S.key modes.key) (harg : S.key (msg.getSingleParam 2))
    (hmodes : ChannelCommandHandler.changeModes msg c name modeToken modes = .ok (modes', modeArg)) :
    S.key modes'.key := by
  unfold ChannelCommandHandler.changeModes at hmodes
  dsimp only at hmodes
  split_ifs at hmodes
  · cases hmodes
    exact hkey
  · cases hmodes
    exact hkey
  · cases hmodes
    exact harg
  · cases hmodes
    exact S.key_nil
  · split at hmodes
    · cases hmodes
    · cases hmodes
      unfold ChannelModes.setLimit
      split_ifs <;> exact hkey
  · cases hmodes
    exact hkey
  · cases hmodes
    exact hkey

/-- What a command does to the state. -/
theorem outcome (htakes : S.Takes (s.clientAt p).fd msg) (ho : Outcome addr fd msg s p r s') :
    s'.Keeps S := by
  cases ho with
  | silent | refused | answered | quit | textChannel | textNick => exact h
  | pass => exact h.modifyJoined p fun _ => ⟨rfl, rfl, rfl, rfl⟩
  | nick _ _ hvalid hs' =>
    have hupdated := h.updateNick (printable_of_isValidNickname hvalid) p
    rw [hs'] at hupdated
    exact hupdated.maybeRegister {}
  | user hcmd _ _ _ hs' =>
    have hnamed : (s.modifyClient p (·.setUsername (msg.getSingleParam 0))).Keeps S :=
      h.modifyClient ⟨(h.client p).nickname, (h.client p).host, htakes.user hcmd⟩
    have hreal := hnamed.modifyJoined (f := (·.setRealname (msg.getSingleParam 3))) p
      fun _ => ⟨rfl, rfl, rfl, rfl⟩
    rw [hs']
    exact hreal.maybeRegister {}
  | join hcmd _ hvalid _ hs' =>
    have hadded := h.addClientToChannel (htakes.join hcmd hvalid) addr p
    rwa [hs'] at hadded
  | part | kick => exact h.removeClientFromChannel _ _
  | invite => exact h.modifyMembers _ fun _ => ⟨rfl, rfl, rfl⟩
  | oper _ _ _ _ _ _ _ _ hs' =>
    rw [hs']
    exact h.modifyMembers _ fun _ => ⟨rfl, rfl, rfl⟩
  | topic hcmd _ _ _ _ _ hs' =>
    have hset : ∀ ch : Channel, ch.Keeps S → (ch.setTopic (msg.getSingleParam 1)).Keeps S :=
      fun ch hch => ⟨hch.name, htakes.topic hcmd, hch.key⟩
    rw [hs']
    exact h.modifyChannel hset _
  | @mode a _ modes _ hcmd _ _ _ _ _ hmodes hs' =>
    have hkey := changeModes (h.channel a).key (htakes.mode hcmd) hmodes
    have hset : ∀ ch : Channel, ch.Keeps S → (ch.setModes modes).Keeps S :=
      fun ch hch => ⟨hch.name, hch.topic, hkey⟩
    rw [hs']
    exact h.modifyChannel hset a

end ServerState.Keeps

/-- A string that the state keeps for a channel. -/
def Strings.Stored (S : Strings) (t : Str) : Prop := S.name t ∨ S.topic t ∨ S.key t

/-- The reply is built from the command, a username of its sender and a string of a channel. -/
def Strings.Answers (S : Strings) (fd : Fd) (msg : Message) (m : Str) : Prop :=
  ∃ username stored, S.username fd username ∧ S.Stored stored ∧
    Ends (msg.fields ++ username ++ stored) m

namespace Strings.Answers

variable {src t : Str}

theorem of_fields (h : Ends src m) (hsrc : Within msg.fields src) : S.Answers fd msg m := by
  refine ⟨[], [], S.username_nil fd, .inl S.name_nil, h.mono ?_⟩
  simpa using hsrc

theorem of_stored (h : Ends src m) (ht : S.Stored t) (hsrc : Within (msg.fields ++ t) src) :
    S.Answers fd msg m := by
  refine ⟨[], t, S.username_nil fd, ht, h.mono ?_⟩
  simpa using hsrc

/-- A line that is relayed under the prefix of its sender. -/
theorem of_sent {c : Client} (h : Ends src m) (hc : c.Keeps S)
    (hsrc : ∀ b, isPrintable b = false → src.count b ≤ c.getFullPrefix.count b +
      ((msg.getSingleParam 0).count b + (msg.getSingleParam 1).count b +
        (msg.getSingleParam 2).count b)) : S.Answers c.fd msg m := by
  refine ⟨c.username, [], hc.username, .inl S.name_nil, h.mono fun b hb => ?_⟩
  have hsender := hc.within b hb
  have hparams := msg.count_params_le b
  have hbytes := hsrc b hb
  simp only [List.count_append, List.count_nil]
  omega

end Strings.Answers

/-- Every reply is an answer to the command. -/
def CommandResult.Draws (S : Strings) (fd : Fd) (msg : Message) (r : CommandResult) : Prop :=
  ∀ o ∈ r.replies, S.Answers fd msg o.message

namespace CommandResult.Draws

theorem nil : CommandResult.Draws S g msg {} := nofun

theorem addReply (h : r.Draws S g msg) (hm : S.Answers g msg m) :
    (r.addReply fd m).Draws S g msg := by
  intro o ho
  rcases List.mem_append.1 ho with ho | ho
  · exact h o ho
  · rw [List.mem_singleton.1 ho]
    exact hm

theorem reply (hm : S.Answers g msg m) : (CommandResult.reply fd m).Draws S g msg :=
  addReply nil hm

/-- An error that names parts of the command. -/
theorem refuse {src : Str} (hm : Ends src m) (hsrc : Within msg.fields src) :
    (CommandResult.reply fd m).Draws S g msg := reply (.of_fields hm hsrc)

theorem members (hm : S.Answers g msg m) (s : ServerState) (ps : List Addr) (exceptFd : Fd) :
    (addRepliesToMembers {} s ps m exceptFd).Draws S g msg := by
  rw [addRepliesToMembers_eq]
  intro o ho
  obtain ⟨g, -, rfl⟩ := List.mem_map.1 ho
  exact hm

theorem ite {c : Prop} [Decidable c] {x y : Handled} (hx : c → x.1.Draws S g msg)
    (hy : ¬ c → y.1.Draws S g msg) : (if c then x else y).1.Draws S g msg := by
  split_ifs with h
  · exact hx h
  · exact hy h

variable {c : Client} (hnick : c.nickname.all isPrintable = true)
include hnick

theorem noRegistered : (CommandResult.reply fd (ReplyBuilder.noRegistered c)).Draws S g msg :=
  refuse (ends_noRegistered hnick) .nil

theorem needMoreParams {command : Str} (hcommand : command.all isPrintable = true) :
    (CommandResult.reply fd (ReplyBuilder.needMoreParams c command)).Draws S g msg :=
  refuse (ends_needMoreParams hnick) (.of_printable hcommand)

end CommandResult.Draws

namespace ChannelCommandHandler

theorem within_appendModeArg (args value : Str) :
    Within (args ++ value) (appendModeArg args value) := by
  intro b hb
  unfold appendModeArg
  split_ifs with hargs
  · exact Nat.le_refl _
  · simp [hb]

/-- The modes of a channel are printed with its key and its limit. -/
theorem within_buildChannelModeQuery (ch : Channel) :
    (buildChannelModeQuery ch).1.all isPrintable = true ∧
      Within ch.modes.key (buildChannelModeQuery ch).2 := by
  have hlimit : ch.modes.limit ≥ 0 → ∀ args, Within args
      (appendModeArg args (intToString ch.modes.limit)) := by
    intro hn args b hb
    have hbytes := within_appendModeArg args (intToString ch.modes.limit) b hb
    rwa [List.count_append, count_printable (printable_intToString hn) hb] at hbytes
  have hkey : ∀ flags : Str, Within ch.modes.key (if ch.modes.hasKey
      then (flags ++ lit "k", appendModeArg [] ch.modes.key) else (flags, [])).2 := by
    intro flags
    split_ifs
    · exact within_appendModeArg _ _
    · exact .nil
  unfold buildChannelModeQuery
  dsimp only
  constructor
  · split_ifs <;> dsimp only <;> decide
  · by_cases hl : ch.modes.limit ≥ 0
    · rw [if_pos hl]
      exact (hkey _).trans (hlimit hl _)
    · rw [if_neg hl]
      exact hkey _

variable (hs : s.Keeps S)
include hs

theorem handleKick_draws (p : Addr) : (handleKick fd msg s p).1.Draws S (s.clientAt p).fd msg := by
  have hc := hs.client p
  have hnick := hc.nickname
  have hname := msg.within_param 0
  have htarget := msg.within_param 1
  unfold handleKick
  dsimp only
  split
  · exact .noRegistered hnick
  split
  · exact .needMoreParams hnick (by decide)
  split
  · exact .refuse (ends_noSuchChannel hnick) hname
  split
  · exact .refuse (ends_noSuchChannel hnick) hname
  split
  · exact .refuse (ends_notOnChannel hnick) hname
  split
  · exact .refuse (ends_chanOpPrivsNeeded hnick) hname
  split
  · exact .refuse (ends_noSuchNick hnick) htarget
  split
  · exact .refuse (ends_noSuchNick hnick) htarget
  split
  · exact .refuse (ends_userNotInChannel hnick) hname
  refine .members (.of_sent ends_kick hc fun b hb => ?_) _ _ _
  simp only [List.count_append]
  split_ifs
  · omega
  · rw [count_printable hnick hb]
    omega

theorem handleInvite_draws (p : Addr) :
    (handleInvite fd msg s p).1.Draws S (s.clientAt p).fd msg := by
  have hc := hs.client p
  have hnick := hc.nickname
  have htarget := msg.within_param 0
  have hname := msg.within_param 1
  have hboth : Within msg.fields (msg.getSingleParam 0 ++ msg.getSingleParam 1) := fun b _ => by
    have hparams := msg.count_params_le b
    rw [List.count_append]
    omega
  unfold handleInvite
  dsimp only
  split
  · exact .noRegistered hnick
  split
  · exact .needMoreParams hnick (by decide)
  split
  · exact .refuse (ends_noSuchNick hnick) htarget
  split
  · exact .refuse (ends_noSuchChannel hnick) hname
  split
  · exact .refuse (ends_noSuchNick hnick) htarget
  split
  · exact .refuse (ends_noSuchChannel hnick) hname
  split
  · exact .refuse (ends_notOnChannel hnick) hname
  split
  · exact .refuse (ends_userOnChannel hnick) hboth
  split
  · exact .refuse (ends_chanOpPrivsNeeded hnick) hname
  have hreply : (reply fd (inviting (s.clientAt p) (msg.getSingleParam 0)
      (msg.getSingleParam 1))).Draws S (s.clientAt p).fd msg :=
    .refuse (ends_inviting hnick) hboth
  refine hreply.addReply (.of_sent ends_invite hc fun b _ => ?_)
  simp only [List.count_append]
  omega

theorem handleTopic_draws (p : Addr) : (handleTopic fd msg s p).1.Draws S (s.clientAt p).fd msg := by
  have hc := hs.client p
  have hnick := hc.nickname
  have hname := msg.within_param 0
  unfold handleTopic
  dsimp only
  split
  · exact .noRegistered hnick
  split
  · exact .needMoreParams hnick (by decide)
  split
  · exact .refuse (ends_noSuchChannel hnick) hname
  split
  · exact .refuse (ends_noSuchChannel hnick) hname
  rename_i a _
  split
  · exact .refuse (ends_notOnChannel hnick) hname
  split
  · split
    · exact .refuse (ends_noTopic hnick) hname
    · exact .reply (.of_stored (ends_topicReply hnick) (.inr (.inl (hs.channel a).topic))
        (hname.append (.refl _)))
  split
  · exact .refuse (ends_chanOpPrivsNeeded hnick) hname
  refine .members (.of_sent ends_relayed hc fun b hb => ?_) _ _ _
  have hcommand : (lit "TOPIC").count b = 0 := count_literal (by decide) hb
  simp only [List.count_append, hcommand]
  omega

theorem applyOperatorMode_draws (p a : Addr) :
    (applyOperatorMode fd msg s p a (msg.getSingleParam 0) (msg.getSingleParam 1)).1.Draws S
      (s.clientAt p).fd msg := by
  have hc := hs.client p
  have hnick := hc.nickname
  have htarget := msg.within_param 2
  unfold applyOperatorMode
  dsimp only
  split
  · exact .needMoreParams hnick (by decide)
  split
  · exact .refuse (ends_noSuchNick hnick) htarget
  split
  · exact .refuse (ends_noSuchNick hnick) htarget
  split
  · exact .refuse (ends_userNotInChannel hnick) (msg.within_param 0)
  refine .members (.of_sent ends_mode hc fun b _ => ?_) _ _ _
  simp only [List.count_append]
  omega

omit hs in
/-- An error names parts of the command. -/
theorem ends_changeModes {c : Client} (hnick : c.nickname.all isPrintable = true)
    {modes : ChannelModes} (h : changeModes msg c (msg.getSingleParam 0) (msg.getSingleParam 1) modes =
      .error m) : ∃ src, Ends src m ∧ Within msg.fields src := by
  unfold changeModes at h
  dsimp only at h
  split_ifs at h
  · cases h
    exact ⟨_, ends_needMoreParams hnick, .of_printable (by decide)⟩
  · cases h
    exact ⟨_, ends_needMoreParams hnick, .of_printable (by decide)⟩
  · split at h
    · cases h
      refine ⟨_, ends_invalidModeParam hnick, fun b _ => ?_⟩
      have hparams := msg.count_params_le b
      simp only [List.count_append]
      omega
    · cases h

omit hs in
/-- The argument that is broadcast is the third parameter, or none. -/
theorem changeModes_arg {c : Client} {modeToken modeArg : Str} {modes modes' : ChannelModes}
    (h : changeModes msg c name modeToken modes = .ok (modes', modeArg)) :
    Within (msg.getSingleParam 2) modeArg := by
  unfold changeModes at h
  dsimp only at h
  split_ifs at h
  · cases h
    exact .nil
  · cases h
    exact .nil
  · cases h
    exact .refl _
  · cases h
    exact .nil
  · split at h
    · cases h
    · cases h
      exact .refl _
  · cases h
    exact .nil
  · cases h
    exact .nil

theorem handleMode_draws (p : Addr) : (handleMode fd msg s p).1.Draws S (s.clientAt p).fd msg := by
  have hc := hs.client p
  have hnick := hc.nickname
  have hname := msg.within_param 0
  unfold handleMode
  dsimp only
  split
  · exact .noRegistered hnick
  split
  · exact .needMoreParams hnick (by decide)
  split
  · exact .refuse (ends_noSuchChannel hnick) hname
  split
  · exact .refuse (ends_noSuchChannel hnick) hname
  rename_i a _
  split
  · exact .refuse (ends_notOnChannel hnick) hname
  split
  · obtain ⟨hflags, hargs⟩ := within_buildChannelModeQuery (s.channelAt a)
    refine .reply (.of_stored (ends_channelModeIs hnick) (.inr (.inr (hs.channel a).key)) ?_)
    intro b hb
    have hkey := hargs b hb
    have hbytes := hname b hb
    simp only [List.count_append, count_printable hflags hb]
    omega
  split
  · exact .refuse (ends_chanOpPrivsNeeded hnick) hname
  split
  · exact .refuse (ends_unknownMode hnick) (msg.within_param 1)
  split
  · exact applyOperatorMode_draws hs p a
  split
  · rename_i m heq
    obtain ⟨src, hm, hsrc⟩ := ends_changeModes hnick heq
    exact .refuse hm hsrc
  · rename_i modes arg heq
    refine .members (.of_sent ends_mode hc fun b hb => ?_) _ _ _
    have harg := changeModes_arg heq b hb
    simp only [List.count_append]
    omega

end ChannelCommandHandler

namespace CommandDispatcher

variable (hs : s.Keeps S)
include hs

theorem maybeRegister_draws (hg : (s.clientAt p).fd = g) :
    (maybeRegister p {} s).1.Draws S g msg := by
  rcases ServerState.maybeRegister_cases p {} s with hr | hr <;> rw [hr]
  · exact .nil
  · have hc := (hs.modifyJoined (f := (·.markRegistered)) p fun _ => ⟨rfl, rfl, rfl, rfl⟩).client p
    have hfd : ((s.modifyClient p (·.markRegistered)).clientAt p).fd = g := by
      rw [ServerState.clientAt_modifyClient]
      split_ifs <;> exact hg
    refine .addReply .nil ⟨_, [], hfd ▸ hc.username, .inl S.name_nil,
      (ends_welcome hc.nickname hc.host).mono fun b _ => ?_⟩
    simp

omit hs in
theorem printable_names {ch : Channel} (hs : s.Keeps S) : ∀ (members : List Addr) {names : Str},
    names.all isPrintable = true → (members.foldl (appendName s ch) names).all isPrintable = true
  | [], _, h => h
  | q :: members, names, h => by
    refine printable_names hs members ?_
    have hspace : (if names = [] then names else names ++ lit " ").all isPrintable = true := by
      split_ifs
      · exact h
      · rw [List.all_append, h]
        decide
    unfold appendName
    dsimp only
    rw [List.all_append, (hs.client q).nickname, Bool.and_true]
    generalize (if names = [] then names else names ++ lit " ") = names at hspace ⊢
    split_ifs
    · rw [List.all_append, hspace]
      decide
    · exact hspace

/-- A channel is named in its own spelling in a list of names. -/
theorem ends_nameReply {c : Client} (hnick : c.nickname.all isPrintable = true) (ch : Channel) :
    Ends ch.name (nameReply s c ch) := by
  refine (ends_numericReply (printable_literal (by decide)) (printable_replyTarget hnick)).mono ?_
  intro b hb
  have heq : (lit "= ").count b = 0 := count_literal (by decide) hb
  have hnames : (ch.getMembers.foldl (appendName s ch) []).all isPrintable = true :=
    printable_names hs _ rfl
  simp [heq, count_printable hnames hb]

theorem joinReplies_draws (hg : (s.clientAt p).fd = g) (a : Addr) :
    (joinReplies fd s p a (msg.getSingleParam 0)).Draws S g msg := by
  have hc := hs.client p
  have hch := hs.channel a
  have hname := msg.within_param 0
  have hjoin : S.Answers g msg (join (s.clientAt p).getFullPrefix (lit "JOIN")
      (msg.getSingleParam 0)) := by
    refine hg ▸ .of_sent ends_join hc fun b hb => ?_
    have hcommand : (lit "JOIN").count b = 0 := count_literal (by decide) hb
    simp only [List.count_append, hcommand]
    omega
  have hnames : S.Answers g msg (nameReply s (s.clientAt p) (s.channelAt a)) :=
    .of_stored (ends_nameReply hs hc.nickname _) (.inl hch.name)
      (.of_sublist (List.sublist_append_right _ _))
  have hend : S.Answers g msg (endOfNames (s.clientAt p) (msg.getSingleParam 0)) :=
    .of_fields (ends_endOfNames hc.nickname) hname
  have hjoined := CommandResult.Draws.members hjoin s (s.channelAt a).getMembers (-1)
  unfold joinReplies
  dsimp only
  split
  · exact ((hjoined.addReply (.of_fields (ends_noTopic hc.nickname) hname)).addReply
      hnames).addReply hend
  · exact ((hjoined.addReply (.of_stored (ends_topicReply hc.nickname) (.inr (.inl hch.topic))
      (hname.append (.refl _)))).addReply hnames).addReply hend

theorem handlePass_draws (p : Addr) : (handlePass fd msg s p).1.Draws S g msg := by
  have hnick := (hs.client p).nickname
  unfold handlePass
  dsimp only
  split
  · exact .needMoreParams hnick (by decide)
  split
  · exact .refuse (ends_alreadyRegistered hnick) .nil
  split
  · exact .refuse ends_passwordMismatch .nil
  · exact .nil

theorem handleNick_draws (p : Addr) : (handleNick fd msg s p).1.Draws S (s.clientAt p).fd msg := by
  have hnick := (hs.client p).nickname
  have hparam := msg.within_param 0
  have hfd : ((s.updateNick p (msg.getSingleParam 0)).2.clientAt p).fd = (s.clientAt p).fd := by
    rcases s.updateNick_cases p (msg.getSingleParam 0) with ⟨-, hr⟩ | ⟨q, -, -, hr⟩ | ⟨-, -, hr⟩
    · rw [hr]
    · rw [hr]
    · rw [hr, ServerState.clientAt_renamed]
      split_ifs <;> rfl
  unfold handleNick
  dsimp only
  split
  · exact .needMoreParams hnick (by decide)
  split
  · exact .refuse (ends_erroneousNickname hnick) hparam
  rename_i hvalid
  have hupdated := hs.updateNick (printable_of_isValidNickname (by simpa using hvalid)) p
  generalize s.updateNick p (msg.getSingleParam 0) = r at hupdated hfd ⊢
  obtain ⟨updated, s'⟩ := r
  dsimp only
  split
  · exact .refuse ends_nickInUse hparam
  · exact maybeRegister_draws hupdated hfd

theorem handleUser_draws (p : Addr)
    (husername : S.username (s.clientAt p).fd (msg.getSingleParam 0)) :
    (handleUser fd msg s p).1.Draws S (s.clientAt p).fd msg := by
  have hc := hs.client p
  unfold handleUser
  dsimp only
  split
  · exact .needMoreParams hc.nickname (by decide)
  split
  · exact .refuse (ends_alreadyRegistered hc.nickname) .nil
  have hnamed : (s.modifyClient p (·.setUsername (msg.getSingleParam 0))).Keeps S :=
    hs.modifyClient ⟨hc.nickname, hc.host, husername⟩
  have hreal := hnamed.modifyJoined (f := (·.setRealname (msg.getSingleParam 3))) p
    fun _ => ⟨rfl, rfl, rfl, rfl⟩
  refine maybeRegister_draws hreal ?_
  rw [ServerState.clientAt_modifyClient, ServerState.clientAt_modifyClient]
  split_ifs <;> rfl

omit hs in
/-- A refused `JOIN` names the channel. -/
theorem refuseJoin_ends {c : Client} {ch : Channel} (hnick : c.nickname.all isPrintable = true)
    (h : refuseJoin msg c p ch name = some m) : Ends name m := by
  unfold refuseJoin at h
  split_ifs at h <;> cases h
  · exact ends_inviteOnlyChan hnick
  · exact ends_badChannelKey hnick
  · exact ends_channelIsFull hnick

theorem handleJoin_draws (addr p : Addr)
    (hstored : isValidChannelName (msg.getSingleParam 0) = true → S.name (msg.getSingleParam 0)) :
    (handleJoin addr fd msg s p).1.Draws S (s.clientAt p).fd msg := by
  have hnick := (hs.client p).nickname
  have hname := msg.within_param 0
  unfold handleJoin
  dsimp only
  split
  · exact .noRegistered hnick
  split
  · exact .needMoreParams hnick (by decide)
  split
  · exact .refuse (ends_noSuchChannel hnick) hname
  rename_i hvalid
  split
  · rename_i heq
    refine .refuse (?_ : Ends (msg.getSingleParam 0) _) hname
    split at heq
    · cases heq
    split at heq
    · exact refuseJoin_ends hnick heq
    · cases heq
  have hadded := hs.addClientToChannel (hstored (by simpa using hvalid)) addr p
  obtain ⟨channels, hdata⟩ :=
    (SameClients.addClientToChannel s addr p (msg.getSingleParam 0)).data p
  generalize s.addClientToChannel addr p (msg.getSingleParam 0) = r at hadded hdata ⊢
  obtain ⟨channel, s'⟩ := r
  dsimp only
  split
  · exact .refuse (ends_noSuchChannel hnick) hname
  · exact joinReplies_draws hadded (by rw [hdata]) _

theorem handlePart_draws (p : Addr) : (handlePart fd msg s p).1.Draws S (s.clientAt p).fd msg := by
  have hc := hs.client p
  have hnick := hc.nickname
  have hname := msg.within_param 0
  unfold handlePart
  dsimp only
  split
  · exact .noRegistered hnick
  split
  · exact .needMoreParams hnick (by decide)
  split
  · exact .refuse (ends_noSuchChannel hnick) hname
  split
  · exact .refuse (ends_noSuchChannel hnick) hname
  split
  · exact .refuse (ends_notOnChannel hnick) hname
  refine .members (.of_sent ends_join hc fun b hb => ?_) _ _ _
  have hcommand : (lit "PART").count b = 0 := count_literal (by decide) hb
  simp only [List.count_append, hcommand]
  omega

omit hs in
theorem replyIf_draws {src : Str} (hm : Ends src m) (hsrc : Within msg.fields src) (b : Bool) :
    (replyIf b fd m).Draws S g msg := by
  unfold replyIf
  split
  · exact .refuse hm hsrc
  · exact .nil

theorem handleTextMessage_draws {command : Str} (hcommand : command.all isPrintable = true)
    (b : Bool) (p : Addr) :
    (handleTextMessage fd msg s p command b).1.Draws S (s.clientAt p).fd msg := by
  have hc := hs.client p
  have hnick := hc.nickname
  have htarget := msg.within_param 0
  have hrelayed : S.Answers (s.clientAt p).fd msg (relayed (s.clientAt p).getFullPrefix command
      (msg.getSingleParam 0) (msg.getSingleParam 1)) := by
    refine .of_sent ends_relayed hc fun b hb => ?_
    simp only [List.count_append, count_printable hcommand hb]
    omega
  unfold handleTextMessage
  dsimp only [notice, privmsg]
  simp only [ite_self]
  split
  · exact replyIf_draws (ends_noRegistered hnick) .nil b
  split
  · exact replyIf_draws (ends_needMoreParams hnick) (.of_printable hcommand) b
  split
  · exact replyIf_draws (ends_noSuchChannel hnick) htarget b
  split
  · exact replyIf_draws (ends_noSuchNick hnick) htarget b
  split
  · split
    · exact replyIf_draws (ends_noSuchChannel hnick) htarget b
    split
    · exact replyIf_draws (ends_cannotSendToChan hnick) htarget b
    · exact .members hrelayed _ _ _
  · split
    · exact replyIf_draws (ends_noSuchNick hnick) htarget b
    · exact .reply hrelayed

theorem handleCommand_draws (addr p : Addr) (htakes : S.Takes (s.clientAt p).fd msg) :
    (handleCommand addr fd msg s p).1.Draws S (s.clientAt p).fd msg := by
  have hnick := (hs.client p).nickname
  have hmismatch : (reply fd passwordMismatch).Draws S (s.clientAt p).fd msg :=
    .refuse ends_passwordMismatch .nil
  unfold handleCommand
  dsimp only
  refine .ite (fun _ => .ite (fun _ => .refuse (ends_needMoreParams hnick) msg.within_command)
    fun _ => .refuse ends_pong (msg.within_param 0)) fun _ => ?_
  refine .ite (fun _ => .nil) fun _ => ?_
  refine .ite (fun _ => handlePass_draws hs p) fun _ => ?_
  refine .ite (fun _ => .ite (fun _ => hmismatch) fun _ => handleNick_draws hs p) fun _ => ?_
  refine .ite (fun h => .ite (fun _ => hmismatch) fun _ => handleUser_draws hs p (htakes.user h))
    fun _ => ?_
  refine .ite (fun h => handleJoin_draws hs addr p (htakes.join h)) fun _ => ?_
  refine .ite (fun _ => handlePart_draws hs p) fun _ => ?_
  refine .ite (fun _ => handleTextMessage_draws hs (by decide) true p) fun _ => ?_
  refine .ite (fun _ => handleTextMessage_draws hs (by decide) false p) fun _ => ?_
  refine .ite (fun _ => ChannelCommandHandler.handleKick_draws hs p) fun _ => ?_
  refine .ite (fun _ => ChannelCommandHandler.handleInvite_draws hs p) fun _ => ?_
  refine .ite (fun _ => ChannelCommandHandler.handleTopic_draws hs p) fun _ => ?_
  refine .ite (fun _ => ChannelCommandHandler.handleMode_draws hs p) fun _ => ?_
  exact .ite (fun _ => .refuse (ends_unknownCommand hnick) msg.within_command) fun _ => .nil

theorem handlePong_draws (now : Time) (p : Addr) (monitor : Option ConnectionHealthMonitor) :
    (handlePong now fd msg (s.clientAt p) monitor).1.Draws S g msg := by
  unfold handlePong
  split
  · exact .needMoreParams (hs.client p).nickname (by decide)
  · exact .nil

/-- The replies to a command, and the strings of the state after it. -/
theorem dispatchWith_draws (addr : Addr) (now : Time) (monitor : Option ConnectionHealthMonitor)
    (hp : s.client.fdToClient[fd]? = some p) (htakes : S.Takes (s.clientAt p).fd msg) :
    (dispatchWith addr now fd msg s monitor).1.Draws S (s.clientAt p).fd msg ∧
      (dispatchWith addr now fd msg s monitor).2.1.Keeps S := by
  refine ⟨?_, hs.outcome htakes (dispatchWith_outcome addr now msg monitor hp)⟩
  have hp' : s.getClientByFd fd = some p := hp
  unfold dispatchWith
  rw [hp']
  dsimp only
  split
  · exact handlePong_draws hs now p monitor
  · exact handleCommand_draws hs addr p htakes

end CommandDispatcher

namespace DisconnectNotifier

/-- Every notice is built from the username of the client that is disconnected. -/
theorem build_draws (hl : Links s) (hs : s.Keeps S) {reason : Str}
    (hreason : reason.all isPrintable = true) (hp : s.client.fdToClient[fd]? = some p) :
    ∀ o ∈ (build fd reason s).replies, Ends (s.clientAt p).username o.message := by
  have hc := hs.client p
  have hquit : Ends (s.clientAt p).username (quit (s.clientAt p).getFullPrefix reason) := by
    refine ends_quit.mono fun b hb => ?_
    rw [List.count_append, count_printable hreason hb]
    exact hc.within b hb
  obtain ⟨fds, hbuild, -, -⟩ := build_spec hl hp reason
  rw [hbuild]
  intro o ho
  obtain ⟨g, -, rfl⟩ := List.mem_map.1 ho
  exact hquit

end DisconnectNotifier

/-! ### Alphabets -/

/-- The strings over an alphabet. -/
def Strings.over (A : Alphabet) : Strings where
  username _ := Over A
  name := Over A
  topic := Over A
  key := Over A
  username_nil _ := .nil
  name_nil := .nil
  topic_nil := .nil
  key_nil := .nil

/-- Every reply is CR LF after a string over the alphabet. -/
def CommandResult.Over (A : Alphabet) (r : CommandResult) : Prop :=
  ∀ o ∈ r.replies, Framed A o.message

/-- A command over an alphabet keeps the state over it, and so are the replies. -/
theorem CommandDispatcher.dispatchWith_over {A : Alphabet} (hs : s.Keeps (.over A))
    (hmsg : Over A msg.fields) (addr : Addr) (now : Time) (fd : Fd)
    (monitor : Option ConnectionHealthMonitor) :
    (dispatchWith addr now fd msg s monitor).1.Over A ∧
      (dispatchWith addr now fd msg s monitor).2.1.Keeps (.over A) := by
  rcases hp : s.client.fdToClient[fd]? with _ | p
  · rw [dispatchWith_unknown addr now msg monitor hp]
    exact ⟨nofun, hs⟩
  · have htakes : (Strings.over A).Takes (s.clientAt p).fd msg :=
      ⟨fun _ => hmsg.param 0, fun _ _ => hmsg.param 0, fun _ => hmsg.param 1, fun _ => hmsg.param 2⟩
    obtain ⟨hreplies, hstate⟩ := dispatchWith_draws hs addr now monitor hp htakes
    refine ⟨fun o ho => ?_, hstate⟩
    obtain ⟨username, stored, husername, hstored, hends⟩ := hreplies o ho
    have hstored' : Over A stored := hstored.elim id fun h => h.elim id id
    exact hends.framed ((hmsg.append husername).append hstored')

end Ircserv
