import Ircserv.Proofs.Events
import Ircserv.Proofs.LineBuffer

/-!
# Relayed lines, as their receivers read them

The prefix of a registered client, the names of channels and the nicks are words in every state
(`Orderly`), so the parser finds the parameters of a relayed line where the builder put them. The
last one is a text, which is kept byte for byte.
-/

namespace Ircserv

open CommandResult ReplyBuilder ServerState CommandDispatcher DisconnectNotifier Ircserv.Parser

variable {s s' : ServerState} {p : Addr} {addr : Addr} {fd : Fd} {msg : Message} {r : CommandResult}
  {m : OutgoingMessage} {line : Str}

/-- The line is read as the command of the client. -/
def DecodesTo (c : Client) (msg : Message) (line : Str) : Prop :=
  parse line = { sender := c.getFullPrefix, command := msg.command, params := msg.relayedParams c }

/-- A reply that goes to another client, or that is no numeric, is read as the command. -/
def Relayed (c : Client) (fd : Fd) (msg : Message) (m : OutgoingMessage) : Prop :=
  m.fd ≠ fd ∨ numericOf m.message = none → DecodesTo c msg m.message

theorem Relayed.of_numeric {c : Client} {n : Nat} (hfd : m.fd = fd)
    (h : numericOf m.message = some n) : Relayed c fd msg m := by
  rintro (hne | hnone)
  · exact absurd hfd hne
  · rw [h] at hnone
    cases hnone

theorem Relayed.of_error {c : Client} (hm : ErrorReply c line) :
    Relayed c fd msg ⟨fd, line⟩ := by
  obtain ⟨n, hn⟩ : ∃ n, numericOf line = some n := by
    rcases hnum : numericOf line with _ | n
    · have herr := hm.isErrorNumeric
      rw [isErrorNumeric, hnum] at herr
      cases herr
    · exact ⟨n, rfl⟩
  exact .of_numeric rfl hn

/-- All members are sent the line. -/
theorem Relayed.of_broadcast {c : Client} {members : List Addr} {exceptFd : Fd}
    (h : DecodesTo c msg line)
    (hm : m ∈ (addRepliesToMembers {} s members line exceptFd).replies) : Relayed c fd msg m := by
  intro _
  rwa [mem_addRepliesToMembers hm]

section Decodes

variable {c : Client} (hplain : c.Plain)

include hplain

theorem decodesTo_text (hcmd : msg.command = lit "PRIVMSG" ∨ msg.command = lit "NOTICE" ∨
    msg.command = lit "TOPIC") (htoken : IsToken (msg.getSingleParam 0)) : DecodesTo c msg
      (relayed c.getFullPrefix msg.command (msg.getSingleParam 0) (msg.getSingleParam 1)) := by
  have hword : IsToken msg.command ∧ upperCommand msg.command = msg.command := by
    rcases hcmd with h | h | h <;> rw [h] <;> decide
  have hother : ¬ (msg.command = lit "JOIN" ∨ msg.command = lit "PART") ∧
      msg.command ≠ lit "KICK" := by
    rcases hcmd with h | h | h <;> rw [h] <;> decide
  rw [DecodesTo, parse_relayed hplain.space hword.1 htoken, hword.2, Message.relayedParams,
    if_neg hother.1, if_neg hother.2]

theorem decodesTo_join (hcmd : msg.command = lit "JOIN" ∨ msg.command = lit "PART")
    (htoken : IsToken (msg.getSingleParam 0)) :
    DecodesTo c msg (join c.getFullPrefix msg.command (msg.getSingleParam 0)) := by
  have hword : IsToken msg.command ∧ upperCommand msg.command = msg.command := by
    rcases hcmd with h | h <;> rw [h] <;> decide
  rw [DecodesTo, parse_join hplain.space hword.1 htoken, hword.2, Message.relayedParams, if_pos hcmd]

theorem decodesTo_kick (hcmd : msg.command = lit "KICK") (htoken : IsToken (msg.getSingleParam 0))
    (htarget : IsToken (msg.getSingleParam 1)) : DecodesTo c msg
      (kick c.getFullPrefix (msg.getSingleParam 0) (msg.getSingleParam 1)
        (if msg.hasParam 2 then msg.getSingleParam 2 else c.nickname)) := by
  have hjoin : ¬ (msg.command = lit "JOIN" ∨ msg.command = lit "PART") := by
    rw [hcmd]
    decide
  rw [DecodesTo, parse_kick hplain.space htoken htarget, Message.relayedParams, if_neg hjoin,
    if_pos hcmd, hcmd]

theorem decodesTo_invite (hcmd : msg.command = lit "INVITE")
    (htarget : IsToken (msg.getSingleParam 0)) : DecodesTo c msg
      (invite c.getFullPrefix (msg.getSingleParam 0) (msg.getSingleParam 1)) := by
  rw [DecodesTo, parse_invite hplain.space htarget, Message.relayedParams,
    if_neg (by rw [hcmd]; decide), if_neg (by rw [hcmd]; decide), hcmd]

end Decodes

/-- Whatever a command relays is read as the command. -/
theorem Outcome.decodes (h : Orderly s) (ho : Outcome addr fd msg s p r s')
    (hrel : msg.isRelayed = true) (hm : m ∈ r.replies) : Relayed (s.clientAt p) fd msg m := by
  have hother : ∀ {command : Str}, msg.command = command →
      command ∉ [lit "PING", lit "MODE", lit "QUIT", lit "PASS", lit "NICK", lit "USER"] := by
    rintro _ rfl hmem
    have hwords : ∀ command ∈
        [lit "PING", lit "MODE", lit "QUIT", lit "PASS", lit "NICK", lit "USER"],
        ({ command := command } : Message).isRelayed = false := by decide
    have hno : msg.isRelayed = false := hwords msg.command hmem
    rw [hno] at hrel
    cases hrel
  cases ho with
  | silent => cases hm
  | refused he =>
    cases List.mem_singleton.1 hm
    exact .of_error he.error
  | answered ha =>
    cases List.mem_singleton.1 hm
    cases ha with
    | pong hcmd | modes hcmd => exact absurd (by simp) (hother hcmd)
    | noTopic | topic => exact .of_numeric rfl (numericOf_numericReply (by decide) (by decide) _ _ _)
  | quit hcmd | pass hcmd | nick hcmd | user hcmd | mode hcmd | oper hcmd =>
    exact absurd (by simp) (hother hcmd)
  | @join a s₁ hcmd hreg hvalid _ hs' =>
    have hsame := SameClients.addClientToChannel s addr p (msg.getSingleParam 0)
    rw [hs'] at hsame
    have hfds : ∀ q, 0 ≤ (s'.clientAt q).fd := by
      intro q
      obtain ⟨cs, hcs⟩ := hsame.data q
      rw [hcs]
      exact (h.tidy q).fd
    have hprefix : (s'.clientAt p).getFullPrefix = (s.clientAt p).getFullPrefix := by
      obtain ⟨cs, hcs⟩ := hsame.data p
      rw [hcs]
      rfl
    have hdecodes := decodesTo_join (h.plain hreg) (.inl hcmd) (isToken_of_channelName hvalid)
    obtain ⟨numerics, hreplies, hnum⟩ := joinReplies_eq hfds fd p a (msg.getSingleParam 0)
    rw [hreplies, hprefix, ← hcmd] at hm
    rcases List.mem_append.1 hm with hm | hm
    · obtain ⟨g, -, rfl⟩ := List.mem_map.1 hm
      exact fun _ => hdecodes
    · obtain ⟨hfd, hsome⟩ := hnum m hm
      obtain ⟨n, hn⟩ := Option.isSome_iff_exists.1 hsome
      exact .of_numeric hfd hn
  | part hcmd hreg ha =>
    have hdecodes := decodesTo_join (h.plain hreg) (.inr hcmd) (h.token ha)
    rw [hcmd] at hdecodes
    exact .of_broadcast hdecodes hm
  | textChannel hcmd htext hreg ha =>
    subst hcmd
    exact .of_broadcast (decodesTo_text (h.plain hreg) (htext.imp_right .inl) (h.token ha)) hm
  | textNick hcmd htext hreg hq =>
    subst hcmd
    cases List.mem_singleton.1 hm
    exact fun _ => decodesTo_text (h.plain hreg) (htext.imp_right .inl) (h.nick_token hq)
  | kick hcmd hreg ha _ _ hq _ hreason =>
    subst hreason
    exact .of_broadcast (decodesTo_kick (h.plain hreg) hcmd (h.token ha) (h.nick_token hq)) hm
  | invite hcmd hreg hq =>
    rcases List.mem_append.1 hm with hm | hm
    · cases List.mem_singleton.1 hm
      exact .of_numeric rfl (numericOf_inviting _ _ _)
    · cases List.mem_singleton.1 hm
      exact fun _ => decodesTo_invite (h.plain hreg) hcmd (h.nick_token hq)
  | topic hcmd hreg _ ha =>
    have hdecodes := decodesTo_text (h.plain hreg) (.inr (.inr hcmd)) (h.token ha)
    rw [hcmd] at hdecodes
    exact .of_broadcast hdecodes hm

/-- The notice of a disconnection is read as a QUIT of the client with the reason. -/
theorem parse_notice (h : Orderly s) {g : Fd} (hp : s.client.fdToClient[g]? = some p) (reason : Str)
    (hm : m ∈ (build g reason s).replies) : parse m.message =
      { sender := (s.clientAt p).getFullPrefix, command := lit "QUIT", params := [reason] } := by
  obtain ⟨fds, hb, -, hmem⟩ := build_spec h.wf.links hp reason
  rw [hb] at hm
  obtain ⟨f, hf, rfl⟩ := List.mem_map.1 hm
  obtain ⟨-, ⟨-, a, hpm, -⟩, -⟩ := (hmem f).1 hf
  have hreg := h.registration.members p _ (inRoom_of_mem h.wf.links hpm)
  exact parse_quit (h.plain hreg).space reason

/-- What a client writes in a line of its own reaches the parser as it is. -/
theorem parse_popLine {command text rest : Str} {tokens : List Str} (hcommand : IsToken command)
    (htokens : ∀ token ∈ tokens, IsToken token)
    (hlf : lf ∉ command ++ spaced tokens ++ lit " :" ++ text) {conn : Connection}
    (hbuf : conn.recvBuffer = command ++ spaced tokens ++ lit " :" ++ text ++ crlf ++ rest) :
    parse conn.hasCompleteLine.2.popLine.1 =
      { sender := [], command := upperCommand command, params := tokens ++ [text] } := by
  have htext : lf ∉ text := fun hmem => hlf (List.mem_append_right _ hmem)
  obtain ⟨-, hpop⟩ := LineBuffer.popLine_crlf hlf hbuf
  rw [hpop]
  exact parse_written hcommand htokens htext

/-- Relayed lines are read as what was sent. Whatever a PRIVMSG, NOTICE, TOPIC, KICK, INVITE, JOIN
or PART sends to another client is read as the sender's prefix, the command and its parameters, and
so is the notice of a disconnection, with its reason. The text is the one that the client wrote,
whatever its bytes are. -/
theorem run_relays (password : Str) (turns : List Turn) (hreal : ∀ t ∈ turns, t.Real) :
    let s := play { password := password } turns
    (∀ addr now fd line monitor p, s.getClientByFd fd = some p →
      (parse line).isRelayed = true →
      ∀ m ∈ (dispatchWith addr now fd (parse line) s monitor).1.replies,
        m.fd ≠ fd ∨ numericOf m.message = none →
        parse m.message =
          { sender := (s.clientAt p).getFullPrefix
            command := (parse line).command
            params := (parse line).relayedParams (s.clientAt p) }) ∧
    (∀ fd reason p, s.getClientByFd fd = some p → ∀ m ∈ (build fd reason s).replies,
      parse m.message =
        { sender := (s.clientAt p).getFullPrefix, command := lit "QUIT", params := [reason] }) ∧
    ∀ (conn : Connection) command tokens text rest, IsToken command →
      (∀ token ∈ tokens, IsToken token) → lf ∉ command ++ spaced tokens ++ lit " :" ++ text →
      conn.recvBuffer = command ++ spaced tokens ++ lit " :" ++ text ++ crlf ++ rest →
      parse conn.hasCompleteLine.2.popLine.1 =
        { sender := [], command := upperCommand command, params := tokens ++ [text] } := by
  intro s
  have ho : Orderly s := Orderly.play turns (.start password) hreal
  refine ⟨fun addr now fd line monitor p hp hrel m hm => ?_, fun fd reason p hp m hm => ?_, ?_⟩
  · exact (dispatchWith_outcome addr now (parse line) monitor hp).decodes ho hrel hm
  · exact parse_notice ho hp reason hm
  · intro conn command tokens text rest hcommand htokens hlf hbuf
    exact parse_popLine hcommand htokens hlf hbuf

/-- The case of a text with a colon, spaces and a carriage return at its end. -/
theorem run_relays_text :
    let turns : List Turn := [.arrive 3 5 (lit "h"), .arrive 4 6 (lit "k"),
      .command 0 0 5 (Parser.parse (lit "PASS :")) none,
      .command 0 0 5 (Parser.parse (lit "NICK a")) none,
      .command 0 0 5 (Parser.parse (lit "USER a 0 * a")) none,
      .command 0 0 6 (Parser.parse (lit "PASS :")) none,
      .command 0 0 6 (Parser.parse (lit "NICK b")) none,
      .command 0 0 6 (Parser.parse (lit "USER b 0 * b")) none]
    let s := play { password := [] } turns
    let line := relayed (lit "a!a@h") (lit "PRIVMSG") (lit "b") (lit ":hi  you\r")
    (dispatchWith 0 0 5 (parse (lit "privmsg b ::hi  you\r")) s none).1 = reply 6 line ∧
      parse line = ⟨lit "a!a@h", lit "PRIVMSG", [lit "b", lit ":hi  you\r"]⟩ := by
  intro turns s line
  have hreal : ∀ t ∈ turns, t.Real := by
    simp only [turns, List.forall_mem_cons, Turn.Real]
    exact ⟨by decide, by decide, ⟨_, rfl⟩, ⟨_, rfl⟩, ⟨_, rfl⟩, ⟨_, rfl⟩, ⟨_, rfl⟩, ⟨_, rfl⟩, by simp⟩
  have hreply : (dispatchWith 0 0 5 (parse (lit "privmsg b ::hi  you\r")) s none).1 =
      reply 6 line := by
    decide +kernel
  have hmem : ⟨6, line⟩ ∈
      (dispatchWith 0 0 5 (parse (lit "privmsg b ::hi  you\r")) s none).1.replies := by
    rw [hreply]
    exact List.mem_singleton.2 rfl
  have hdecodes := (run_relays [] turns hreal).1 0 0 5 (lit "privmsg b ::hi  you\r") none 3
    (by decide +kernel) (by decide +kernel) ⟨6, line⟩ hmem (.inl (by decide))
  exact ⟨hreply, hdecodes.trans (by decide +kernel)⟩

end Ircserv
