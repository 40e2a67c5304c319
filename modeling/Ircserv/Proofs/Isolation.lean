import Ircserv.Proofs.Turns

/-!
# Commands on different channels

A command on a channel depends on the channel of its name and on the clients, but not on what
channels these are in (`dispatchWith_local`), and it leaves all other channels alone
(`Outcome.frame`). So two commands on different channels commute (`run_isolation`).
-/

open Std

namespace Ircserv

open ServerState CommandResult ReplyBuilder

theorem SameClients.symm {s s' : ServerState} (h : SameClients s s') : SameClients s' s where
  fds := h.fds.symm
  nicks := h.nicks.symm
  live q := (h.live q).symm
  data q := by
    obtain ⟨cs, hcs⟩ := h.data q
    exact ⟨(s.clientAt q).channels, by rw [hcs]⟩

/-- The states have the same clients and the same channel of the name. -/
structure Agree (name : Str) (s s' : ServerState) : Prop where
  clients : SameClients s s'
  room : s'.room name = s.room name

/-- The handlers did the same: the same replies, and the same channel of the name. -/
def Like (name : Str) (x x' : Handled) : Prop := x'.1 = x.1 ∧ x'.2.room name = x.2.room name

variable {addr addr' : Addr} {fd : Fd} {msg : Message} {s s' : ServerState} {p a a' : Addr}
  {name : Str}

theorem addRepliesToMembers_congr (h : SameClients s s') (r : CommandResult) (members : List Addr)
    (line : Str) (exceptFd : Fd) :
    addRepliesToMembers r s' members line exceptFd = addRepliesToMembers r s members line exceptFd := by
  have hfd : ∀ q, (s'.clientAt q).fd = (s.clientAt q).fd := by
    intro q
    obtain ⟨cs, hcs⟩ := h.data q
    rw [hcs]
  simp only [addRepliesToMembers_eq, hfd]

theorem nameReply_congr (h : SameClients s s') (c : Client) (ch : Channel) :
    nameReply s' c ch = nameReply s c ch := by
  have hnick : ∀ q, (s'.clientAt q).nickname = (s.clientAt q).nickname := by
    intro q
    obtain ⟨cs, hcs⟩ := h.data q
    rw [hcs]
  have happend : appendName s' ch = appendName s ch := by
    funext names q
    simp only [appendName, hnick]
  rw [nameReply, nameReply, happend]

namespace Like

theorem same (h : Agree name s s') (r : CommandResult) : Like name (r, s) (r, s') := ⟨rfl, h.room⟩

theorem ite {c : Prop} [Decidable c] {x x' y y' : Handled} (hx : c → Like name x x')
    (hy : ¬ c → Like name y y') : Like name (if c then x else y) (if c then x' else y') := by
  split_ifs with hc
  · exact hx hc
  · exact hy hc

/-- A check that both make, and that answers without a change where it fails. -/
theorem check (h : Agree name s s') {c : Prop} [Decidable c] {r : CommandResult} {y y' : Handled}
    (hy : ¬ c → Like name y y') : Like name (if c then (r, s) else y) (if c then (r, s') else y') :=
  ite (fun _ => same h r) hy

/-- A channel that is changed in place, and a line to its members. -/
theorem modify (hw : WellFormed s) (hw' : WellFormed s') (h : Agree name s s')
    (ha : s.channels[name]? = some a) (ha' : s'.channels[name]? = some a')
    (hat : s'.channelAt a' = s.channelAt a) (f : Channel → Channel) (line : Str) :
    Like name
      (addRepliesToMembers {} (s.modifyChannel a f) ((s.modifyChannel a f).channelAt a).getMembers
        line (-1), s.modifyChannel a f)
      (addRepliesToMembers {} (s'.modifyChannel a' f)
        ((s'.modifyChannel a' f).channelAt a').getMembers line (-1), s'.modifyChannel a' f) := by
  have hat₁ : (s.modifyChannel a f).channelAt a = f (s.channelAt a) := by
    simp [(hw.links.nameOwner name a ha).1]
  have hat₁' : (s'.modifyChannel a' f).channelAt a' = f (s.channelAt a) := by
    simp [(hw'.links.nameOwner name a' ha').1, hat]
  refine ⟨?_, ?_⟩
  · rw [hat₁, hat₁']
    exact addRepliesToMembers_congr (((SameClients.modifyChannel s a f).symm.trans h.clients).trans
      (.modifyChannel s' a' f)) _ _ _ _
  · rw [room_modifyChannel hw.links ha, room_modifyChannel hw'.links ha', if_pos rfl, if_pos rfl, hat]

/-- A member that leaves, and a line to the members. -/
theorem leave (hw : WellFormed s) (hw' : WellFormed s') (h : Agree name s s')
    (ha : s.channels[name]? = some a) (ha' : s'.channels[name]? = some a')
    (hat : s'.channelAt a' = s.channelAt a) (hm : p ∈ (s.channelAt a).members) (line : Str) :
    Like name
      (addRepliesToMembers {} s (s.channelAt a).getMembers line (-1), s.removeClientFromChannel p name)
      (addRepliesToMembers {} s' (s.channelAt a).getMembers line (-1),
        s'.removeClientFromChannel p name) := by
  refine ⟨addRepliesToMembers_congr h.clients _ _ _ _, ?_⟩
  rw [room_removeClientFromChannel hw.links ha hm,
    room_removeClientFromChannel hw'.links ha' (by rwa [hat]), if_pos rfl, if_pos rfl, hat]

end Like

/-- The channels of the name in the two states. -/
theorem Agree.getChannel (h : Agree name s s') :
    s.getChannel name = none ∧ s'.getChannel name = none ∨
      ∃ a a', s.getChannel name = some a ∧ s'.getChannel name = some a' ∧
        s'.channelAt a' = s.channelAt a := by
  have hroom := h.room
  unfold ServerState.getChannel
  rcases ha : s.channels[name]? with _ | a
  · rw [room_eq_none_iff.2 ha, room_eq_none_iff] at hroom
    exact .inl ⟨rfl, hroom⟩
  · rw [room_eq ha] at hroom
    obtain ⟨a', ha', hat⟩ := room_eq_some_iff.1 hroom
    exact .inr ⟨a, a', rfl, ha', hat⟩

theorem Agree.getClientByNick (h : Agree name s s') (n : Str) :
    s'.getClientByNick n = s.getClientByNick n := by
  rw [ServerState.getClientByNick, ClientRegistry.getClientByNick, h.clients.nicks]
  rfl

theorem Agree.clientFd (h : Agree name s s') (q : Addr) : (s'.clientAt q).fd = (s.clientAt q).fd := by
  obtain ⟨cs, hcs⟩ := h.clients.data q
  rw [hcs]

/-- The eight commands. -/
theorem Message.isChannelCommand_cases (hc : msg.isChannelCommand = true) :
    (msg.command = lit "JOIN" ∨ msg.command = lit "PART" ∨ msg.command = lit "KICK" ∨
      msg.command = lit "INVITE" ∨ msg.command = lit "TOPIC" ∨ msg.command = lit "MODE") ∨
      msg.command = lit "PRIVMSG" ∨ msg.command = lit "NOTICE" := by
  simp only [Message.isChannelCommand, Bool.or_eq_true, Bool.and_eq_true, List.contains_iff_mem,
    List.mem_cons, List.not_mem_nil, or_false] at hc
  exact hc.imp_right And.left

theorem Message.command_of_isChannelCommand (hc : msg.isChannelCommand = true) :
    msg.command ∉ [lit "PASS", lit "NICK", lit "USER", lit "PONG"] := by
  rcases msg.isChannelCommand_cases hc with (h | h | h | h | h | h) | h | h
  all_goals
    rw [h]
    decide

namespace ChannelCommandHandler

theorem handleKick_local (hw : WellFormed s) (hw' : WellFormed s')
    (h : Agree (msg.getSingleParam 0) s s') :
    Like (msg.getSingleParam 0) (handleKick fd msg s p) (handleKick fd msg s' p) := by
  obtain ⟨cs, hcs⟩ := h.clients.data p
  unfold handleKick
  dsimp only
  rw [hcs, h.getClientByNick]
  refine .check h fun _ => .check h fun _ => .check h fun _ => ?_
  rcases h.getChannel with ⟨ha, ha'⟩ | ⟨a, a', ha, ha', hat⟩ <;> rw [ha, ha']
  · exact .same h _
  dsimp only
  rw [hat]
  refine .check h fun _ => .check h fun _ => .check h fun _ => ?_
  rcases s.getClientByNick (msg.getSingleParam 1) with _ | q
  · exact .same h _
  refine .check h fun hm => ?_
  rw [Bool.not_eq_true', Bool.not_eq_false, Channel.hasMember_iff] at hm
  exact .leave hw hw' h ha ha' hat hm _

theorem handleInvite_local (hw : WellFormed s) (hw' : WellFormed s')
    (h : Agree (msg.getSingleParam 1) s s') :
    Like (msg.getSingleParam 1) (handleInvite fd msg s p) (handleInvite fd msg s' p) := by
  obtain ⟨cs, hcs⟩ := h.clients.data p
  unfold handleInvite
  dsimp only
  rw [hcs, h.getClientByNick]
  refine .check h fun _ => .check h fun _ => .check h fun _ => .check h fun _ => ?_
  rcases s.getClientByNick (msg.getSingleParam 0) with _ | q
  · exact .same h _
  dsimp only
  rcases h.getChannel with ⟨ha, ha'⟩ | ⟨a, a', ha, ha', hat⟩ <;> rw [ha, ha']
  · exact .same h _
  dsimp only
  rw [hat, h.clientFd]
  refine .check h fun _ => .check h fun _ => .check h fun _ => ⟨rfl, ?_⟩
  dsimp only
  rw [inviteClientToChannel, inviteClientToChannel, room_modifyChannel hw.links ha,
    room_modifyChannel hw'.links ha', if_pos rfl, if_pos rfl, hat]

theorem handleTopic_local (hw : WellFormed s) (hw' : WellFormed s')
    (h : Agree (msg.getSingleParam 0) s s') :
    Like (msg.getSingleParam 0) (handleTopic fd msg s p) (handleTopic fd msg s' p) := by
  obtain ⟨cs, hcs⟩ := h.clients.data p
  unfold handleTopic
  dsimp only
  rw [hcs]
  refine .check h fun _ => .check h fun _ => .check h fun _ => ?_
  rcases h.getChannel with ⟨ha, ha'⟩ | ⟨a, a', ha, ha', hat⟩ <;> rw [ha, ha']
  · exact .same h _
  dsimp only
  rw [hat]
  refine .check h fun _ => .ite (fun _ => .check h fun _ =>
    .same h _) fun _ => .check h fun _ => ?_
  exact .modify hw hw' h ha ha' hat _ _

theorem applyOperatorMode_local {modeToken : Str} (hw : WellFormed s) (hw' : WellFormed s')
    (h : Agree name s s') (ha : s.channels[name]? = some a) (ha' : s'.channels[name]? = some a')
    (hat : s'.channelAt a' = s.channelAt a) :
    Like name (applyOperatorMode fd msg s p a name modeToken)
      (applyOperatorMode fd msg s' p a' name modeToken) := by
  obtain ⟨cs, hcs⟩ := h.clients.data p
  unfold applyOperatorMode
  dsimp only
  rw [hcs, h.getClientByNick]
  refine .check h fun _ => .check h fun _ => ?_
  rcases s.getClientByNick (msg.getSingleParam 2) with _ | q
  · exact .same h _
  dsimp only
  rw [hat]
  exact .check h fun _ => .modify hw hw' h ha ha' hat _ _

theorem handleMode_local (hw : WellFormed s) (hw' : WellFormed s')
    (h : Agree (msg.getSingleParam 0) s s') :
    Like (msg.getSingleParam 0) (handleMode fd msg s p) (handleMode fd msg s' p) := by
  obtain ⟨cs, hcs⟩ := h.clients.data p
  unfold handleMode
  dsimp only
  rw [hcs]
  refine .check h fun _ => .check h fun _ => .check h fun _ => ?_
  rcases h.getChannel with ⟨ha, ha'⟩ | ⟨a, a', ha, ha', hat⟩ <;> rw [ha, ha']
  · exact .same h _
  dsimp only
  rw [hat]
  refine .check h fun _ => .check h fun _ =>
    .check h fun _ => .check h fun _ =>
    .ite (fun _ => applyOperatorMode_local hw hw' h ha ha' hat) fun _ => ?_
  have hmodes : changeModes msg { s.clientAt p with channels := cs } (msg.getSingleParam 0)
      (msg.getSingleParam 1) = changeModes msg (s.clientAt p) (msg.getSingleParam 0)
      (msg.getSingleParam 1) := rfl
  rw [hmodes]
  rcases changeModes msg (s.clientAt p) (msg.getSingleParam 0) (msg.getSingleParam 1)
    (s.channelAt a).modes with e | ⟨modes, modeArg⟩
  · exact .same h _
  · exact .modify hw hw' h ha ha' hat _ _

end ChannelCommandHandler

namespace CommandDispatcher

theorem handlePart_local (hw : WellFormed s) (hw' : WellFormed s')
    (h : Agree (msg.getSingleParam 0) s s') :
    Like (msg.getSingleParam 0) (handlePart fd msg s p) (handlePart fd msg s' p) := by
  obtain ⟨cs, hcs⟩ := h.clients.data p
  unfold handlePart
  dsimp only
  rw [hcs]
  refine .check h fun _ => .check h fun _ => .check h fun _ => ?_
  rcases h.getChannel with ⟨ha, ha'⟩ | ⟨a, a', ha, ha', hat⟩ <;> rw [ha, ha']
  · exact .same h _
  dsimp only
  rw [hat]
  refine .check h fun hm => ?_
  rw [Bool.not_eq_true', Bool.not_eq_false, Channel.hasMember_iff] at hm
  exact .leave hw hw' h ha ha' hat hm _

theorem handleTextMessage_local {command : Str} {replyOnError : Bool}
    (h : Agree (msg.getSingleParam 0) s s') :
    Like (msg.getSingleParam 0) (handleTextMessage fd msg s p command replyOnError)
      (handleTextMessage fd msg s' p command replyOnError) := by
  obtain ⟨cs, hcs⟩ := h.clients.data p
  unfold handleTextMessage
  dsimp only
  rw [hcs, h.getClientByNick]
  refine .check h fun _ => .check h fun _ =>
    .check h fun _ => .check h fun _ =>
    .ite (fun _ => ?_) fun _ => ?_
  · rcases h.getChannel with ⟨ha, ha'⟩ | ⟨a, a', ha, ha', hat⟩ <;> rw [ha, ha']
    · exact .same h _
    dsimp only
    rw [hat]
    exact .check h fun _ => ⟨addRepliesToMembers_congr h.clients _ _ _ _, h.room⟩
  · rcases s.getClientByNick (msg.getSingleParam 0) with _ | q
    · exact .same h _
    dsimp only
    rw [h.clientFd]
    exact .same h _

/-- The replies to a client that is in the channel of the name. -/
theorem joinReplies_congr (h : SameClients s s') (hat : s'.channelAt a' = s.channelAt a) :
    joinReplies fd s' p a' name = joinReplies fd s p a name := by
  obtain ⟨cs, hcs⟩ := h.data p
  unfold joinReplies
  dsimp only
  rw [hat, hcs, nameReply_congr h, addRepliesToMembers_congr h]
  rfl

theorem addClientToChannel_local (hw : WellFormed s) (hw' : WellFormed s') (h : Agree name s s')
    {t t' : ServerState} (hadd : s.addClientToChannel addr p name = (some a, t))
    (hadd' : s'.addClientToChannel addr' p name = (some a', t')) :
    t'.room name = t.room name := by
  by_cases hin : s.InRoom p name
  · have hin' : s'.InRoom p name := by rwa [InRoom, h.room]
    rw [(addClientToChannel_of_inRoom hw hin hadd).2, (addClientToChannel_of_inRoom hw' hin' hadd').2,
      h.room]
  · have hin' : ¬ s'.InRoom p name := by rwa [InRoom, h.room]
    rw [room_addClientToChannel hw hadd hin, room_addClientToChannel hw' hadd' hin', if_pos rfl,
      if_pos rfl, h.room]

theorem handleJoin_local (hw : WellFormed s) (hw' : WellFormed s')
    (h : Agree (msg.getSingleParam 0) s s') :
    Like (msg.getSingleParam 0) (handleJoin addr fd msg s p) (handleJoin addr' fd msg s' p) := by
  obtain ⟨cs, hcs⟩ := h.clients.data p
  obtain ⟨b, t, hadd⟩ := addClientToChannel_some s addr p (msg.getSingleParam 0)
  obtain ⟨b', t', hadd'⟩ := addClientToChannel_some s' addr' p (msg.getSingleParam 0)
  have hroom := addClientToChannel_local hw hw' h hadd hadd'
  have hclients : SameClients t t' := by
    have ht := SameClients.addClientToChannel s addr p (msg.getSingleParam 0)
    have ht' := SameClients.addClientToChannel s' addr' p (msg.getSingleParam 0)
    rw [hadd] at ht
    rw [hadd'] at ht'
    exact (ht.symm.trans h.clients).trans ht'
  have hat₁ : t'.channelAt b' = t.channelAt b := by
    have hroom' := hroom
    rw [room_eq (getElem?_addClientToChannel hw hadd), room_eq (getElem?_addClientToChannel hw' hadd')]
      at hroom'
    exact Option.some.inj hroom'
  unfold handleJoin
  dsimp only
  rw [hcs, hadd, hadd']
  refine .check h fun _ => .check h fun _ => .check h fun _ => ?_
  have hrefuse : refuseJoin msg { s.clientAt p with channels := cs } p =
      refuseJoin msg (s.clientAt p) p := rfl
  rcases h.getChannel with ⟨ha, ha'⟩ | ⟨a, a', ha, ha', hat⟩ <;> rw [ha, ha']
  · exact ⟨joinReplies_congr hclients hat₁, hroom⟩
  dsimp only
  rw [hat, hrefuse]
  generalize (if !(s.channelAt a).hasMember p then
    refuseJoin msg (s.clientAt p) p (s.channelAt a) (msg.getSingleParam 0) else none) = refused
  cases refused with
  | none => exact ⟨joinReplies_congr hclients hat₁, hroom⟩
  | some m => exact .same h _

theorem handleCommand_local (hw : WellFormed s) (hw' : WellFormed s')
    (h : Agree msg.channelName s s') (hc : msg.isChannelCommand = true) :
    Like msg.channelName (handleCommand addr fd msg s p) (handleCommand addr' fd msg s' p) := by
  have hname : msg.command ≠ lit "INVITE" → msg.channelName = msg.getSingleParam 0 :=
    fun hne => if_neg hne
  rcases msg.isChannelCommand_cases hc with (hcmd | hcmd | hcmd | hcmd | hcmd | hcmd) | hcmd | hcmd
  · rw [hname (by rw [hcmd]; decide)] at h ⊢
    rw [handleCommand_join hcmd, handleCommand_join hcmd]
    exact handleJoin_local hw hw' h
  · rw [hname (by rw [hcmd]; decide)] at h ⊢
    rw [handleCommand_part hcmd, handleCommand_part hcmd]
    exact handlePart_local hw hw' h
  · rw [hname (by rw [hcmd]; decide)] at h ⊢
    rw [handleCommand_kick hcmd, handleCommand_kick hcmd]
    exact ChannelCommandHandler.handleKick_local hw hw' h
  · have hname' : msg.channelName = msg.getSingleParam 1 := if_pos hcmd
    rw [hname'] at h ⊢
    rw [handleCommand_invite hcmd, handleCommand_invite hcmd]
    exact ChannelCommandHandler.handleInvite_local hw hw' h
  · rw [hname (by rw [hcmd]; decide)] at h ⊢
    rw [handleCommand_topic hcmd, handleCommand_topic hcmd]
    exact ChannelCommandHandler.handleTopic_local hw hw' h
  · rw [hname (by rw [hcmd]; decide)] at h ⊢
    rw [handleCommand_mode hcmd, handleCommand_mode hcmd]
    exact ChannelCommandHandler.handleMode_local hw hw' h
  · rw [hname (by rw [hcmd]; decide)] at h ⊢
    rw [handleCommand_privmsg hcmd, handleCommand_privmsg hcmd]
    exact handleTextMessage_local h
  · rw [hname (by rw [hcmd]; decide)] at h ⊢
    rw [handleCommand_notice hcmd, handleCommand_notice hcmd]
    exact handleTextMessage_local h

/-- A command on a channel depends on this channel and the clients alone. -/
theorem dispatchWith_local (addr addr' : Addr) (now : Time) (fd : Fd)
    (monitor : Option ConnectionHealthMonitor) (hw : WellFormed s) (hw' : WellFormed s')
    (h : Agree msg.channelName s s') (hc : msg.isChannelCommand = true) :
    (dispatchWith addr' now fd msg s' monitor).1 = (dispatchWith addr now fd msg s monitor).1 ∧
      (dispatchWith addr' now fd msg s' monitor).2.1.room msg.channelName =
        (dispatchWith addr now fd msg s monitor).2.1.room msg.channelName := by
  rcases hp : s.client.fdToClient[fd]? with _ | p
  · have hp' : s'.client.fdToClient[fd]? = none := by rw [h.clients.fds, hp]
    rw [dispatchWith_unknown addr now msg monitor hp, dispatchWith_unknown addr' now msg monitor hp']
    exact ⟨rfl, h.room⟩
  · have hp' : s'.client.fdToClient[fd]? = some p := by rw [h.clients.fds, hp]
    have hpong : msg.command ≠ lit "PONG" := fun hcmd =>
      Message.command_of_isChannelCommand hc (by simp [hcmd])
    rw [dispatchWith_handleCommand addr now monitor hp hpong,
      dispatchWith_handleCommand addr' now monitor hp' hpong]
    exact handleCommand_local hw hw' h hc

end CommandDispatcher

/-- A command on a channel leaves the clients alone, but for the channels they are in, and all other
channels. -/
theorem Outcome.frame {r : CommandResult} (hw : WellFormed s) (ho : Outcome addr fd msg s p r s')
    (hc : msg.isChannelCommand = true) : SameClients s s' ∧
      ∀ m, caseFold msg.channelName ≠ caseFold m → s'.room m = s.room m := by
  have hcmd := Message.command_of_isChannelCommand hc
  have hname : ∀ {command}, msg.command = command → command ≠ lit "INVITE" →
      msg.channelName = msg.getSingleParam 0 := by
    rintro _ rfl hne
    exact if_neg hne
  cases ho with
  | silent | refused | answered | quit | textChannel | textNick => exact ⟨.refl s, fun _ _ => rfl⟩
  | pass h | nick h | user h => exact absurd (by simp [h]) hcmd
  | join h _ _ _ hs' =>
    rw [hname h (by decide)]
    have hsame := SameClients.addClientToChannel s addr p (msg.getSingleParam 0)
    rw [hs'] at hsame
    refine ⟨hsame, fun m hm => ?_⟩
    by_cases hin : s.InRoom p (msg.getSingleParam 0)
    · rw [(addClientToChannel_of_inRoom hw hin hs').2]
    · rw [room_addClientToChannel hw hs' hin, if_neg hm]
  | part h _ ha hmem =>
    rw [hname h (by decide)]
    refine ⟨.removeClientFromChannel s _ _, fun m hm => ?_⟩
    rw [room_removeClientFromChannel hw.links ha hmem, if_neg hm]
  | kick h _ ha _ _ _ hqm =>
    rw [hname h (by decide)]
    refine ⟨.removeClientFromChannel s _ _, fun m hm => ?_⟩
    rw [room_removeClientFromChannel hw.links ha hqm, if_neg hm]
  | invite h _ _ ha =>
    rw [show msg.channelName = msg.getSingleParam 1 from if_pos h]
    refine ⟨.modifyChannel s _ _, fun m hm => ?_⟩
    rw [inviteClientToChannel, room_modifyChannel hw.links ha, if_neg hm]
  | topic h _ _ ha _ _ hs' | mode h _ ha _ _ _ _ hs' | oper h _ ha _ _ _ _ _ hs' =>
    rw [hname h (by decide), hs']
    refine ⟨.modifyChannel s _ _, fun m hm => ?_⟩
    rw [room_modifyChannel hw.links ha, if_neg hm]

/-- The stored name of a channel is its name. -/
theorem Links.getKey?_eq (h : Links s) (n : Str) :
    s.channels.getKey? n = (s.room n).map Channel.name := by
  rcases ha : s.channels[n]? with _ | a
  · rw [room_eq_none_iff.2 ha, Option.map_none]
    exact ExtTreeMap.getKey?_eq_none (by rw [ExtTreeMap.mem_iff_isSome_getElem?, ha]; simp)
  · obtain ⟨hobj, hfold⟩ := h.nameOwner n a ha
    rw [room_eq ha, Option.map_some, ← ExtTreeMap.getKey?_congr ((ircCmp_eq_iff _ _).2 hfold)]
    exact (h.channelOwned a hobj).2

/-- States with the same clients and the same channels by name are the same but for where the
channels live. -/
theorem Relocated.of_rooms (hw : WellFormed s) (hw' : WellFormed s') (hpw : s'.password = s.password)
    (hc : SameClients s s') (hroom : ∀ m, s'.room m = s.room m) : ∃ move, Relocated move s s' := by
  have hfound : ∀ {t t' : ServerState} {n : Str} {a : Addr}, t'.room n = t.room n →
      t.channels[n]? = some a → ∃ a', t'.channels[n]? = some a' ∧ t'.channelAt a' = t.channelAt a := by
    intro t t' n a h ha
    rw [room_eq ha] at h
    exact room_eq_some_iff.1 h
  let move : Addr → Addr := fun a => (s'.channels[(s.channelAt a).name]?).getD a
  have hmove : ∀ a ∈ s.objects, s'.channels[(s.channelAt a).name]? = some (move a) ∧
      s'.channelAt (move a) = s.channelAt a := by
    intro a ha
    obtain ⟨a', ha', hat⟩ := hfound (hroom _) (hw.links.channelOwned a ha).1
    have hm : move a = a' := by
      show (s'.channels[(s.channelAt a).name]?).getD a = a'
      rw [ha']
      rfl
    rw [hm]
    exact ⟨ha', hat⟩
  have hsurj : ∀ b ∈ s'.objects, ∃ a ∈ s.objects, move a = b := by
    intro b hb
    have hb' := (hw'.links.channelOwned b hb).1
    obtain ⟨a, ha, hat⟩ := hfound (hroom _).symm hb'
    have hobj := (hw.links.nameOwner _ a ha).1
    have hm := (hmove a hobj).1
    rw [hat, hb'] at hm
    exact ⟨a, hobj, (Option.some.inj hm).symm⟩
  have hnamed : ∀ {n : Str} {a : Addr}, s.channels[n]? = some a →
      s'.channels[n]? = some (move a) := by
    intro n a ha
    obtain ⟨hobj, hfold⟩ := hw.links.nameOwner n a ha
    rw [← (hmove a hobj).1]
    exact ExtTreeMap.getElem?_congr ((ircCmp_eq_iff _ _).2 hfold.symm)
  refine ⟨move, hpw, ⟨fun a ha => ?_, fun a ha b hb hab => ?_, fun b hb => hsurj b hb⟩,
    fun a ha => (hmove a ha).2, fun n => ?_, fun n => ?_, hc.fds, hc.nicks, hc.live, fun p => ?_⟩
  · exact (hw'.links.nameOwner _ _ (hmove a ha).1).1
  · have hat : s.channelAt a = s.channelAt b := by rw [← (hmove a ha).2, hab, (hmove b hb).2]
    have ha' := (hw.links.channelOwned a ha).1
    rw [hat, (hw.links.channelOwned b hb).1] at ha'
    exact (Option.some.inj ha').symm
  · rcases ha : s.channels[n]? with _ | a
    · rw [Option.map_none, ← room_eq_none_iff, hroom, room_eq_none_iff, ha]
    · exact hnamed ha
  · rw [hw'.links.getKey?_eq, hw.links.getKey?_eq, hroom]
  · obtain ⟨cs, hcs⟩ := hc.data p
    refine ⟨cs, hcs, fun b => ?_⟩
    have hb : b ∈ cs ↔ p ∈ (s'.channelAt b).members := by
      rw [hw'.links.linked, hcs]
    rw [hb]
    constructor
    · intro hm
      obtain ⟨a, ha, rfl⟩ := hsurj b (mem_of_mem_members hm)
      rw [(hmove a ha).2, hw.links.linked] at hm
      exact ⟨a, hm, rfl⟩
    · rintro ⟨a, ha, rfl⟩
      have hm := (hw.links.linked p a).2 ha
      rwa [(hmove a (mem_of_mem_members hm)).2]

/-- What a command on a channel does to the state. -/
theorem dispatchWith_frame (addr : Addr) (now : Time) (fd : Fd)
    (monitor : Option ConnectionHealthMonitor) (hw : WellFormed s)
    (hc : msg.isChannelCommand = true) :
    let s' := (CommandDispatcher.dispatchWith addr now fd msg s monitor).2.1
    WellFormed s' ∧ s'.password = s.password ∧ SameClients s s' ∧
      ∀ m, caseFold msg.channelName ≠ caseFold m → s'.room m = s.room m := by
  refine ⟨hw.act (.dispatch addr now fd msg monitor), act_password s (.dispatch addr now fd msg monitor),
    ?_⟩
  rcases hp : s.client.fdToClient[fd]? with _ | p
  · rw [CommandDispatcher.dispatchWith_unknown addr now msg monitor hp]
    exact ⟨.refl s, fun _ _ => rfl⟩
  · exact (CommandDispatcher.dispatchWith_outcome addr now msg monitor hp).frame hw hc

/-- Channels are isolated from each other. Two commands on different channels, of any two
connections, can be dispatched in either order: each gives the same result, and the state is the
same but for where its channels live, at whatever addresses the commands create them. -/
theorem run_isolation (password : Str) (actions : List Action) (fd₁ fd₂ : Fd) (msg₁ msg₂ : Message)
    (now₁ now₂ : Time) (monitor₁ monitor₂ : Option ConnectionHealthMonitor)
    (addr₁ addr₂ addr₁' addr₂' : Addr) (hc₁ : msg₁.isChannelCommand = true)
    (hc₂ : msg₂.isChannelCommand = true)
    (hname : caseFold msg₁.channelName ≠ caseFold msg₂.channelName) :
    let s := ServerState.run password actions
    let first := CommandDispatcher.dispatchWith addr₁ now₁ fd₁ msg₁ s monitor₁
    let second := CommandDispatcher.dispatchWith addr₂ now₂ fd₂ msg₂ first.2.1 monitor₂
    let first' := CommandDispatcher.dispatchWith addr₂' now₂ fd₂ msg₂ s monitor₂
    let second' := CommandDispatcher.dispatchWith addr₁' now₁ fd₁ msg₁ first'.2.1 monitor₁
    second'.1 = first.1 ∧ second.1 = first'.1 ∧ ∃ move, Relocated move second.2.1 second'.2.1 := by
  intro s first second first' second'
  have hw : WellFormed s := .run password actions
  obtain ⟨hw₁, hpw₁, hsame₁, hframe₁⟩ := dispatchWith_frame addr₁ now₁ fd₁ monitor₁ hw hc₁
  obtain ⟨hw₂, hpw₂, hsame₂, hframe₂⟩ := dispatchWith_frame addr₂' now₂ fd₂ monitor₂ hw hc₂
  obtain ⟨hw₁₂, hpw₁₂, hsame₁₂, hframe₁₂⟩ := dispatchWith_frame addr₂ now₂ fd₂ monitor₂ hw₁ hc₂
  obtain ⟨hw₂₁, hpw₂₁, hsame₂₁, hframe₂₁⟩ := dispatchWith_frame addr₁' now₁ fd₁ monitor₁ hw₂ hc₁
  -- each command finds its channel as it was
  obtain ⟨hres₁, hroom₁⟩ := CommandDispatcher.dispatchWith_local addr₁ addr₁' now₁ fd₁ monitor₁ hw hw₂
    ⟨hsame₂, hframe₂ _ hname.symm⟩ hc₁
  obtain ⟨hres₂, hroom₂⟩ := CommandDispatcher.dispatchWith_local addr₂' addr₂ now₂ fd₂ monitor₂ hw hw₁
    ⟨hsame₁, hframe₁ _ hname⟩ hc₂
  refine ⟨hres₁, hres₂, Relocated.of_rooms hw₁₂ hw₂₁ ?_ ?_ fun m => ?_⟩
  · rw [hpw₂₁, hpw₂, hpw₁₂, hpw₁]
  · exact (hsame₁.trans hsame₁₂).symm.trans (hsame₂.trans hsame₂₁)
  · by_cases hm₁ : caseFold msg₁.channelName = caseFold m
    · have hm₂ : caseFold msg₂.channelName ≠ caseFold m := fun h => hname (hm₁.trans h.symm)
      rw [hframe₁₂ m hm₂, ← room_congr _ hm₁, ← room_congr _ hm₁]
      exact hroom₁
    · rw [hframe₂₁ m hm₁]
      by_cases hm₂ : caseFold msg₂.channelName = caseFold m
      · rw [← room_congr _ hm₂, ← room_congr _ hm₂]
        exact hroom₂.symm
      · rw [hframe₁₂ m hm₂, hframe₁ m hm₁, hframe₂ m hm₂]

/-- The case of two clients that found two channels. -/
theorem run_isolation_founders :
    let s := ServerState.run [] [.addClient 3 5 (lit "h"), .addClient 4 6 (lit "k"),
      .dispatch 0 0 5 (Parser.parse (lit "PASS :")) none,
      .dispatch 0 0 5 (Parser.parse (lit "NICK a")) none,
      .dispatch 0 0 5 (Parser.parse (lit "USER a 0 * a")) none,
      .dispatch 0 0 6 (Parser.parse (lit "PASS :")) none,
      .dispatch 0 0 6 (Parser.parse (lit "NICK b")) none,
      .dispatch 0 0 6 (Parser.parse (lit "USER b 0 * b")) none]
    let first := CommandDispatcher.dispatchWith 7 0 5 (Parser.parse (lit "JOIN #x")) s none
    let second := CommandDispatcher.dispatchWith 7 0 6 (Parser.parse (lit "JOIN #y")) first.2.1 none
    let first' := CommandDispatcher.dispatchWith 7 0 6 (Parser.parse (lit "JOIN #y")) s none
    let second' := CommandDispatcher.dispatchWith 7 0 5 (Parser.parse (lit "JOIN #x")) first'.2.1 none
    second'.1 = first.1 ∧ second.1 = first'.1 ∧ ∃ move, Relocated move second.2.1 second'.2.1 :=
  run_isolation [] _ 5 6 (Parser.parse (lit "JOIN #x")) (Parser.parse (lit "JOIN #y")) 0 0 none none
    7 7 7 7 (by decide +kernel) (by decide +kernel) (by decide +kernel)

end Ircserv
