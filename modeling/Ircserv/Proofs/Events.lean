import Ircserv.Lines
import Ircserv.Proofs.Broadcasts
import Ircserv.Proofs.Lifetime
import Ircserv.Proofs.Told
import Ircserv.Proofs.Stall

/-!
# Who is told of a channel event

JOIN, TOPIC and MODE change the channel and then tell its members, PART and KICK tell the members
and then change it. Each of them builds its line once, so all members get the same one
(`Announced`).
-/

open Std

namespace Ircserv

open CommandResult ReplyBuilder ServerState CommandDispatcher DisconnectNotifier
open ChannelCommandHandler (handleKick handleTopic handleMode changeModes isSupportedSingleModeToken)

variable {s s' t : ServerState} {p q a : Addr} {fd g : Fd} {msg : Message} {name line : Str}
  {handled : Handled}

/-- The members that the channel of the name has in `t` get the line, and the sender may get
numerics besides. -/
structure Announced (t : ServerState) (p : Addr) (fd : Fd) (msg : Message) (line : Str)
    (r : CommandResult) (a : Addr) : Prop where
  found : t.channels[msg.getSingleParam 0]? = some a
  member : p ∈ (t.channelAt a).members
  replies : ∃ numerics, r.replies = (broadcast line (t.memberFds a)).replies ++ numerics ∧
    ∀ m ∈ numerics, msg.command = lit "JOIN" ∧ m.fd = fd ∧ (numericOf m.message).isSome = true

theorem Announced.of_broadcast (hfds : ∀ q, 0 ≤ (t.clientAt q).fd)
    (ha : t.channels[msg.getSingleParam 0]? = some a) (hm : p ∈ (t.channelAt a).members) :
    Announced t p fd msg line
      (addRepliesToMembers {} t (t.channelAt a).getMembers line (-1)) a := by
  refine ⟨ha, hm, [], ?_, by simp⟩
  rw [broadcast_all hfds, List.append_nil]

/-- A member who has left is not in the room. -/
theorem not_inRoom_removed (hw : WellFormed s) (ha : s.channels[name]? = some a)
    (hm : q ∈ (s.channelAt a).members) : ¬ (s.removeClientFromChannel q name).InRoom q name := by
  rintro ⟨left, hleft, hq⟩
  rw [room_removeClientFromChannel hw.links ha hm, if_pos rfl] at hleft
  exact Channel.not_mem_of_leave hleft hq

theorem joinReplies_eq (hfds : ∀ q, 0 ≤ (s.clientAt q).fd) (fd : Fd) (p a : Addr) (name : Str) :
    ∃ numerics, (joinReplies fd s p a name).replies =
        (broadcast (join (s.clientAt p).getFullPrefix (lit "JOIN") name) (s.memberFds a)).replies ++
          numerics ∧
      ∀ m ∈ numerics, m.fd = fd ∧ (numericOf m.message).isSome = true := by
  have hnumeric : ∀ code ∈ ["331", "332", "353", "366"], ∀ target params text : Str,
      (numericOf (numericReply (lit code) target params text)).isSome = true := by
    intro code hcode target params text
    have hdigits : ∀ code ∈ ["331", "332", "353", "366"], (lit code).length = 3 ∧
        (lit code).all isDigit = true := by decide
    rw [numericOf_numericReply (hdigits code hcode).1 (hdigits code hcode).2]
    rfl
  simp only [joinReplies, addReply, broadcast_all hfds]
  split_ifs
  · refine ⟨_, by simp only [List.append_assoc]; rfl, fun m hm => ?_⟩
    simp only [List.mem_append, List.mem_singleton] at hm
    rcases hm with rfl | rfl | rfl
    · exact ⟨rfl, hnumeric "331" (by simp) _ _ _⟩
    · exact ⟨rfl, hnumeric "353" (by simp) _ _ _⟩
    · exact ⟨rfl, hnumeric "366" (by simp) _ _ _⟩
  · refine ⟨_, by simp only [List.append_assoc]; rfl, fun m hm => ?_⟩
    simp only [List.mem_append, List.mem_singleton] at hm
    rcases hm with rfl | rfl | rfl
    · exact ⟨rfl, hnumeric "332" (by simp) _ _ _⟩
    · exact ⟨rfl, hnumeric "353" (by simp) _ _ _⟩
    · exact ⟨rfl, hnumeric "366" (by simp) _ _ _⟩

theorem handleJoin_announced (ho : Orderly s) (addr : Addr) (fd : Fd)
    (h : msg.command = lit "JOIN") :
    Refused fd s p (handleJoin addr fd msg s p) ∨
      ∃ a, Announced (handleJoin addr fd msg s p).2 p fd msg (s.eventLine p msg)
        (handleJoin addr fd msg s p).1 a := by
  rcases handleJoin_cases addr fd msg s p with hr | ⟨hreg, -, -, a, s', hadd, hr⟩
  · exact .inl hr
  right
  rw [hr]
  have hsame := SameClients.addClientToChannel s addr p (msg.getSingleParam 0)
  rw [hadd] at hsame
  have hfds : ∀ q, 0 ≤ (s'.clientAt q).fd := by
    intro q
    obtain ⟨cs, hcs⟩ := hsame.data q
    rw [hcs]
    exact (ho.tidy q).fd
  have hline : s.eventLine p msg =
      join (s'.clientAt p).getFullPrefix (lit "JOIN") (msg.getSingleParam 0) := by
    obtain ⟨cs, hcs⟩ := hsame.data p
    rw [eventLine, if_pos (.inl h), h, hcs]
    rfl
  have ha := getElem?_addClientToChannel ho.wf hadd
  have hin : s'.InRoom p (msg.getSingleParam 0) := inRoom_addClientToChannel ho.wf hadd
  obtain ⟨numerics, hreplies, hnum⟩ := joinReplies_eq hfds fd p a (msg.getSingleParam 0)
  refine ⟨a, ha, (inRoom_iff ha).1 hin, numerics, ?_, fun m hm => ⟨h, hnum m hm⟩⟩
  rw [hline]
  exact hreplies

theorem handlePart_announced (ho : Orderly s) (fd : Fd) (h : msg.command = lit "PART") :
    Refused fd s p (handlePart fd msg s p) ∨
      (∃ a, Announced s p fd msg (s.eventLine p msg) (handlePart fd msg s p).1 a) ∧
        ¬ (handlePart fd msg s p).2.InRoom p (msg.getSingleParam 0) := by
  rcases handlePart_cases fd msg s p with hr | ⟨a, hreg, ha, hm, hr⟩
  · exact .inl hr
  have hline : s.eventLine p msg =
      part (s.clientAt p).getFullPrefix (lit "PART") (msg.getSingleParam 0) := by
    rw [eventLine, if_pos (.inr h), h]
    rfl
  rw [hr, hline]
  exact .inr ⟨⟨a, .of_broadcast (fun q => (ho.tidy q).fd) ha hm⟩, not_inRoom_removed ho.wf ha hm⟩

theorem handleKick_announced (ho : Orderly s) (fd : Fd) (h : msg.command = lit "KICK") :
    Refused fd s p (handleKick fd msg s p) ∨
      (∃ a, Announced s p fd msg (s.eventLine p msg) (handleKick fd msg s p).1 a) ∧
        ∃ q, s.getClientByNick (msg.getSingleParam 1) = some q ∧
          s.InRoom q (msg.getSingleParam 0) ∧
          ¬ (handleKick fd msg s p).2.InRoom q (msg.getSingleParam 0) := by
  rcases ChannelCommandHandler.handleKick_cases fd msg s p with hr |
    ⟨a, q, hreg, -, ha, hm, hop, hq, hqm, hr⟩
  · exact .inl hr
  have hline : s.eventLine p msg = kick (s.clientAt p).getFullPrefix (msg.getSingleParam 0)
      (msg.getSingleParam 1)
      (if msg.hasParam 2 then msg.getSingleParam 2 else (s.clientAt p).nickname) := by
    rw [eventLine, if_neg (by rw [h]; decide), if_pos h]
  rw [hr, hline]
  exact .inr ⟨⟨a, .of_broadcast (fun q => (ho.tidy q).fd) ha hm⟩, q, hq, (inRoom_iff ha).2 hqm,
    not_inRoom_removed ho.wf ha hqm⟩

/-- A channel is told of a change after it, and the change keeps the members. -/
theorem Announced.of_modified (ho : Orderly s) {f : Channel → Channel}
    (hf : ∀ ch q, q ∈ (f ch).members ↔ q ∈ ch.members)
    (ha : s.channels[msg.getSingleParam 0]? = some a) (hm : p ∈ (s.channelAt a).members) :
    Announced (s.modifyChannel a f) p fd msg line (addRepliesToMembers {} (s.modifyChannel a f)
        ((s.modifyChannel a f).channelAt a).getMembers line (-1)) a ∧
      ∀ q, (s.modifyChannel a f).InRoom q (msg.getSingleParam 0) ↔
        s.InRoom q (msg.getSingleParam 0) := by
  have hmem : ∀ q, q ∈ ((s.modifyChannel a f).channelAt a).members ↔
      q ∈ (s.channelAt a).members := by
    intro q
    rw [channelAt_modifyChannel, if_pos ⟨rfl, (ho.wf.links.nameOwner _ a ha).1⟩, hf]
  refine ⟨.of_broadcast (fun q => (ho.tidy q).fd) ha ((hmem p).2 hm), fun q => ?_⟩
  rw [inRoom_iff (s := s.modifyChannel a f) ha, inRoom_iff ha, hmem]

theorem handleTopic_announced (ho : Orderly s) (fd : Fd) (h : msg.command = lit "TOPIC")
    (hn : msg.hasParam 1 = true) :
    Refused fd s p (handleTopic fd msg s p) ∨
      (∃ a, Announced (handleTopic fd msg s p).2 p fd msg (s.eventLine p msg)
          (handleTopic fd msg s p).1 a) ∧
        ∀ q, (handleTopic fd msg s p).2.InRoom q (msg.getSingleParam 0) ↔
          s.InRoom q (msg.getSingleParam 0) := by
  have hline : s.eventLine p msg = topic (s.clientAt p).getFullPrefix (lit "TOPIC")
      (msg.getSingleParam 0) (msg.getSingleParam 1) := by
    rw [eventLine, if_neg (by rw [h]; decide), if_neg (by rw [h]; decide), if_pos h, h]
  rcases hx : handleTopic fd msg s p with ⟨r, s'⟩
  cases hx ▸ ChannelCommandHandler.handleTopic_cases fd msg s p with
  | refused hr => exact .inl hr
  | answered hans =>
    exfalso
    cases hans h with
    | pong hcmd | modes hcmd => exact absurd (h.symm.trans hcmd) (by decide)
    | noTopic _ hno | topic _ hno =>
      rw [hno] at hn
      cases hn
  | set _ _ ha hm _ hs' =>
    rw [hline]
    subst hs'
    obtain ⟨hann, hin⟩ := Announced.of_modified (f := (·.setTopic (msg.getSingleParam 1))) ho
      (fun _ _ => Iff.rfl) ha hm
    exact .inr ⟨⟨_, hann⟩, hin⟩

/-- The argument the modes are announced with. -/
theorem changeModes_argument {c : Client} {modeToken modeArg : Str} {modes modes' : ChannelModes}
    (htoken : msg.getSingleParam 1 = modeToken) (hflag : modeToken.getD 1 0 ≠ chr 'o')
    (h : changeModes msg c name modeToken modes = .ok (modes', modeArg)) :
    modeArg = msg.modeArgument := by
  have hi : chr 'i' ≠ chr 'k' ∧ chr 'i' ≠ chr 'l' := by decide
  have ht : chr 't' ≠ chr 'k' ∧ chr 't' ≠ chr 'l' := by decide
  have hl : chr 'l' ≠ chr 'k' := by decide
  unfold Message.modeArgument
  unfold changeModes at h
  simp only [htoken, hflag, false_or] at h ⊢
  split_ifs at h
  all_goals simp_all
  split at h <;> simp_all

theorem handleMode_announced (ho : Orderly s) (fd : Fd) (h : msg.command = lit "MODE")
    (hn : msg.hasParam 1 = true) :
    Refused fd s p (handleMode fd msg s p) ∨
      (∃ a, Announced (handleMode fd msg s p).2 p fd msg (s.eventLine p msg)
          (handleMode fd msg s p).1 a) ∧
        ∀ q, (handleMode fd msg s p).2.InRoom q (msg.getSingleParam 0) ↔
          s.InRoom q (msg.getSingleParam 0) := by
  have hline : s.eventLine p msg = mode (s.clientAt p).getFullPrefix (msg.getSingleParam 0)
      (msg.getSingleParam 1) msg.modeArgument := by
    rw [eventLine, if_neg (by rw [h]; decide), if_neg (by rw [h]; decide),
      if_neg (by rw [h]; decide)]
  rw [hline]
  rcases hx : handleMode fd msg s p with ⟨r, s'⟩
  cases hx ▸ ChannelCommandHandler.handleMode_cases fd msg s p with
  | refused hr => exact .inl hr
  | query hone =>
    simp only [Message.hasParam, decide_eq_true_eq] at hn
    rw [Message.getParamCount] at hone
    omega
  | @change a modes modeArg _ _ _ ha hm _ _ hflag hmodes hs' =>
    subst hs'
    rw [changeModes_argument rfl hflag hmodes]
    obtain ⟨hann, hin⟩ := Announced.of_modified (f := (·.setModes modes)) ho (fun _ _ => Iff.rfl) ha hm
    exact .inr ⟨⟨_, hann⟩, hin⟩
  | @oper a q _ _ _ ha hm _ _ hflag _ _ _ hs' =>
    subst hs'
    have harg : msg.modeArgument = msg.getSingleParam 2 := if_pos (.inl hflag)
    rw [harg]
    obtain ⟨hann, hin⟩ := Announced.of_modified
      (f := (·.setOperator q ((msg.getSingleParam 1).head? == some (chr '+')))) ho
      (fun ch r => Channel.mem_setOperator ch q r _) ha hm
    exact .inr ⟨⟨_, hann⟩, hin⟩

/-- What an accepted event does to the members, and who is told. -/
structure ToldOf (s s' : ServerState) (p : Addr) (fd : Fd) (msg : Message) (r : CommandResult) :
    Prop where
  announced : ∃ a, Announced
    (if msg.command = lit "PART" ∨ msg.command = lit "KICK" then s else s') p fd msg
    (s.eventLine p msg) r a
  part : msg.command = lit "PART" → ¬ s'.InRoom p (msg.getSingleParam 0)
  kick : msg.command = lit "KICK" → ∃ q, s.getClientByNick (msg.getSingleParam 1) = some q ∧
    s.InRoom q (msg.getSingleParam 0) ∧ ¬ s'.InRoom q (msg.getSingleParam 0)
  kept : msg.command = lit "TOPIC" ∨ msg.command = lit "MODE" →
    ∀ q, s'.InRoom q (msg.getSingleParam 0) ↔ s.InRoom q (msg.getSingleParam 0)

theorem handleCommand_toldOf (ho : Orderly s) (addr : Addr) (fd : Fd) (p : Addr)
    (hevent : msg.isChannelEvent = true) :
    Refused fd s p (handleCommand addr fd msg s p) ∨
      ToldOf s (handleCommand addr fd msg s p).2 p fd msg (handleCommand addr fd msg s p).1 := by
  simp only [Message.isChannelEvent, Bool.or_eq_true, Bool.and_eq_true, List.contains_iff_mem,
    List.mem_cons, List.not_mem_nil, or_false] at hevent
  rcases hevent with (h | h | h) | ⟨h | h, hn⟩
  · rw [handleCommand_join h]
    rcases handleJoin_announced ho addr fd h with hr | hann
    · exact .inl hr
    · refine .inr ⟨?_, ?_, ?_, ?_⟩
      · rwa [if_neg (by rw [h]; decide)]
      all_goals exact fun h' => absurd h' (by rw [h]; decide)
  · rw [handleCommand_part h]
    rcases handlePart_announced ho fd h with hr | ⟨hann, hout⟩
    · exact .inl hr
    · refine .inr ⟨?_, fun _ => hout, ?_, ?_⟩
      · rwa [if_pos (.inl h)]
      all_goals exact fun h' => absurd h' (by rw [h]; decide)
  · rw [handleCommand_kick h]
    rcases handleKick_announced ho fd h with hr | ⟨hann, hout⟩
    · exact .inl hr
    · refine .inr ⟨?_, ?_, fun _ => hout, ?_⟩
      · rwa [if_pos (.inr h)]
      all_goals exact fun h' => absurd h' (by rw [h]; decide)
  · rw [handleCommand_topic h]
    rcases handleTopic_announced ho fd h hn with hr | ⟨hann, hkept⟩
    · exact .inl hr
    · refine .inr ⟨?_, ?_, ?_, fun _ => hkept⟩
      · rwa [if_neg (by rw [h]; decide)]
      all_goals exact fun h' => absurd h' (by rw [h]; decide)
  · rw [handleCommand_mode h]
    rcases handleMode_announced ho fd h hn with hr | ⟨hann, hkept⟩
    · exact .inl hr
    · refine .inr ⟨?_, ?_, ?_, fun _ => hkept⟩
      · rwa [if_neg (by rw [h]; decide)]
      all_goals exact fun h' => absurd h' (by rw [h]; decide)

/-- Every accepted change of a channel is told to its members: to those it had before a PART or a
KICK, and to those it has after any other. They are sent the same line once each, and nobody else
is; besides them only the sender of a JOIN gets anything, which are numerics. -/
theorem run_events (password : Str) (turns : List Turn) (hreal : ∀ t ∈ turns, t.Real)
    (addr : Addr) (now : Time) (fd : Fd) (msg : Message) (monitor : Option ConnectionHealthMonitor)
    (p : Addr) (hp : (ServerState.play { password := password } turns).getClientByFd fd = some p)
    (hevent : msg.isChannelEvent = true) :
    let s := ServerState.play { password := password } turns
    let after := dispatchWith addr now fd msg s monitor
    let s' := after.2.1
    let name := msg.getSingleParam 0
    let told := if msg.command = lit "PART" ∨ msg.command = lit "KICK" then s else s'
    (∀ m ∈ after.1.replies, isErrorNumeric m.message = false) →
      (∃ (fds : List Fd) (numerics : List OutgoingMessage),
        after.1.replies = fds.map (⟨·, s.eventLine p msg⟩) ++ numerics ∧ fds.Nodup ∧
        (∀ g, g ∈ fds ↔ ∃ q, told.InRoom q name ∧ (s.clientAt q).fd = g) ∧
        ∀ m ∈ numerics, msg.command = lit "JOIN" ∧ m.fd = fd ∧
          (numericOf m.message).isSome = true) ∧
      told.InRoom p name ∧
      (msg.command = lit "PART" → ¬ s'.InRoom p name) ∧
      (msg.command = lit "KICK" → ∃ q, s.getClientByNick (msg.getSingleParam 1) = some q ∧
        s.InRoom q name ∧ ¬ s'.InRoom q name) ∧
      (msg.command = lit "TOPIC" ∨ msg.command = lit "MODE" →
        ∀ q, s'.InRoom q name ↔ s.InRoom q name) := by
  intro s after s' name told hok
  have ho : Orderly s := Orderly.play turns (.start password) hreal
  have hown := (dispatchWith_outcome addr now msg monitor hp).ownData
  have hpong : msg.command ≠ lit "PONG" := by
    intro h
    simp +decide [Message.isChannelEvent, h] at hevent
  have hafter : after = _ := dispatchWith_handleCommand addr now monitor hp hpong
  have h₁ : after.1 = (handleCommand addr fd msg s p).1 := congrArg Prod.fst hafter
  have h₂ : s' = (handleCommand addr fd msg s p).2 := congrArg (·.2.1) hafter
  rcases handleCommand_toldOf ho addr fd p hevent with hr | htold
  · obtain ⟨m, hm, hr⟩ := hr
    have hbad := hok ⟨fd, m⟩ (by rw [h₁, hr]; exact List.mem_singleton.2 rfl)
    rw [hm.error.isErrorNumeric] at hbad
    cases hbad
  · rw [← h₁, ← h₂] at htold
    obtain ⟨a, ha, hm, numerics, hreplies, hnum⟩ := htold.announced
    have hlinks : Links told := by
      unfold told
      split_ifs
      · exact ho.wf.links
      · exact (ho.wf.act (.dispatch addr now fd msg monitor)).links
    have hfd : ∀ q, (told.clientAt q).fd = (s.clientAt q).fd := by
      intro q
      unfold told
      split_ifs
      · rfl
      · exact hown.fd q
    refine ⟨⟨told.memberFds a, numerics, hreplies, memberFds_nodup hlinks a, fun g => ?_, hnum⟩,
      (inRoom_iff ha).2 hm, htold.part, htold.kick, htold.kept⟩
    refine (mem_memberFds_of_room (s := told) ha).trans (exists_congr fun q => ?_)
    rw [hfd]

/-- The case of an operator who kicks itself out of a channel of two. -/
theorem run_events_kick :
    let turns : List Turn := [.arrive 3 5 (lit "h"), .arrive 4 6 (lit "k"),
      .command 0 0 5 (Parser.parse (lit "PASS :")) none,
      .command 0 0 5 (Parser.parse (lit "NICK a")) none,
      .command 0 0 5 (Parser.parse (lit "USER a 0 * a")) none,
      .command 0 0 6 (Parser.parse (lit "PASS :")) none,
      .command 0 0 6 (Parser.parse (lit "NICK b")) none,
      .command 0 0 6 (Parser.parse (lit "USER b 0 * b")) none,
      .command 7 0 5 (Parser.parse (lit "JOIN #x")) none,
      .command 0 0 6 (Parser.parse (lit "JOIN #x")) none]
    let s := ServerState.play { password := [] } turns
    let after := dispatchWith 0 0 5 (Parser.parse (lit "KICK #X a")) s none
    after.1 = broadcast (lit ":a!a@h KICK #X a :a" ++ crlf) [5, 6] ∧
      s.InRoom 3 (lit "#X") ∧ ∃ q, s.getClientByNick (lit "a") = some q ∧ s.InRoom q (lit "#X") ∧
        ¬ after.2.1.InRoom q (lit "#X") := by
  intro turns s after
  have hreal : ∀ t ∈ turns, t.Real := by
    simp only [turns, List.forall_mem_cons, Turn.Real]
    exact ⟨by decide, by decide, ⟨_, rfl⟩, ⟨_, rfl⟩, ⟨_, rfl⟩, ⟨_, rfl⟩, ⟨_, rfl⟩, ⟨_, rfl⟩, ⟨_, rfl⟩,
      ⟨_, rfl⟩, by simp⟩
  obtain ⟨-, hin, -, hkick, -⟩ := run_events [] turns hreal 0 0 5 (Parser.parse (lit "KICK #X a")) none
    3 (by decide +kernel) (by decide +kernel) (by decide +kernel)
  exact ⟨by decide +kernel, hin, hkick rfl⟩

end Ircserv
