import Ircserv.Conversation
import Ircserv.Proofs.ModeViews
import Ircserv.Proofs.Spelling

/-!
# Members hear one conversation

A turn sends a client the texts of a channel that it is to hear (`heard_turn`), and so does a run
(`heard_traffic`). So what the members of a channel are sent, each over its own connection, are
parts of one conversation, in its order (`run_conversation`).
-/

open Std

namespace Ircserv

open ReplyBuilder ServerState ChannelCommandHandler CommandDispatcher DisconnectNotifier
    Ircserv.Parser

variable {s : ServerState} {p q : Addr} {fd g : Fd} {n line : Str} {msg : Message} {t : Turn}
  {r : CommandResult} {addr : Addr}

/-- A line with another word is no text. -/
theorem isTextIn_eq_false (h : wordOf line ∉ [lit "PRIVMSG", lit "NOTICE"]) :
    isTextIn n line = false := by
  rw [isTextIn, Message.isTextIn, Bool.and_eq_false_iff]
  exact .inl (by simpa [wordOf] using h)

theorem filter_linesTo_eq_nil {replies : List OutgoingMessage}
    (h : ∀ m ∈ replies, isTextIn n m.message = false) :
    (linesTo fd replies).filter (isTextIn n) = [] := by
  rw [List.filter_eq_nil_iff]
  intro line hline
  obtain ⟨m, hm, rfl⟩ := List.mem_map.1 hline
  rw [h m (List.mem_filter.1 hm).1]
  decide

/-- What is sent to some descriptors goes to each of them once. -/
theorem linesTo_sent {fds : List Fd} (hnd : fds.Nodup) :
    linesTo fd (broadcast line fds).replies = if fd ∈ fds then [line] else [] := by
  rw [linesTo, broadcast, List.filter_map, List.map_map]
  exact map_filter_eq hnd fd line

/-- A text is handled by `handleTextMessage`. -/
theorem handleText_turn (addr : Addr) (now : Time) (monitor : Option ConnectionHealthMonitor)
    (hg : s.getClientByFd g = some q) (hcmd : msg.command ∈ [lit "PRIVMSG", lit "NOTICE"]) :
    ∃ replyOnError, (Turn.command addr now g msg monitor).result s =
      (handleTextMessage g msg s q msg.command replyOnError).1 := by
  rcases List.mem_pair.1 hcmd with hcmd | hcmd
  · refine ⟨true, ?_⟩
    rw [Turn.result, dispatchWith_handleCommand addr now monitor hg (by rw [hcmd]; decide),
      handleCommand_privmsg hcmd, hcmd]
  · refine ⟨false, ?_⟩
    rw [Turn.result, dispatchWith_handleCommand addr now monitor hg (by rw [hcmd]; decide),
      handleCommand_notice hcmd, hcmd]

/-- A text is read as it was said. -/
theorem isTextIn_relayed (hplain : (s.clientAt p).Plain)
    (hcmd : msg.command ∈ [lit "PRIVMSG", lit "NOTICE"])
    (htarget : IsToken (msg.getSingleParam 0)) :
    isTextIn n (relayed (s.clientAt p).getFullPrefix msg.command (msg.getSingleParam 0)
      (msg.getSingleParam 1)) =
      msg.isTextIn n := by
  have hword : IsToken msg.command ∧ upperCommand msg.command = msg.command := by
    rcases List.mem_pair.1 hcmd with hcmd | hcmd <;> rw [hcmd] <;> decide
  rw [isTextIn, parse_relayed hplain.space hword.1 htarget, hword.2]
  rfl

theorem saidIn_text (hg : s.getClientByFd g = some q) {a : Addr} (ha : TextToChannel msg s q a)
    (htext : msg.isTextIn n = true) {now : Time} {monitor : Option ConnectionHealthMonitor} :
    s.saidIn n (.command addr now g msg monitor) = some {
      author := g
      line := relayed (s.clientAt q).getFullPrefix msg.command (msg.getSingleParam 0)
        (msg.getSingleParam 1)
      present := s.memberFds a } := by
  have hroom : s.room n = some (s.channelAt a) := by
    rw [Message.isTextIn, Bool.and_eq_true] at htext
    exact room_of_spelling ha.found (beq_iff_eq.1 htext.2)
  have hmember : (s.channelAt a).hasMember q = true := by simpa [Channel.hasMember] using ha.member
  simp [saidIn, hg, hroom, hmember, htext, ha.enough, memberFds]

theorem saidIn_of_not_text (htext : msg.isTextIn n = false) {now : Time}
    {monitor : Option ConnectionHealthMonitor} :
    s.saidIn n (.command addr now g msg monitor) = none := by
  simp only [saidIn, htext, Bool.and_false, Bool.false_and, Bool.false_eq_true, if_false]
  rcases s.getClientByFd g with _ | p
  · rfl
  · rcases s.room n with _ | ch <;> rfl

/-- The handler of a text sends it to those that are to hear it. -/
theorem heard_text (h : Orderly s) (hn : n.head? = some (chr '#')) (hg : s.getClientByFd g = some q)
    (hcmd : msg.command ∈ [lit "PRIVMSG", lit "NOTICE"]) (replyOnError : Bool)
    (fd : Fd) {now : Time} {monitor : Option ConnectionHealthMonitor} :
    (linesTo fd (handleTextMessage g msg s q msg.command replyOnError).1.replies).filter
      (isTextIn n) =
      ((s.saidIn n (.command addr now g msg monitor)).toList.filter (Said.heardBy fd)).map
        Said.line := by
  rcases handleTextMessage_cases g msg s q msg.command replyOnError with
    ⟨a, ha, hr⟩ | ⟨r, hto, hr⟩ | ⟨hnoch, -, m, hm, hr⟩
  · have hline := isTextIn_relayed (n := n) (h.plain ha.registered) hcmd (h.token ha.found)
    rw [hr, broadcast_members, linesTo_sent ((memberFds_nodup h.wf.links a).filter _)]
    cases htext : msg.isTextIn n with
    | true =>
      rw [saidIn_text hg ha htext]
      by_cases hfd : fd ∈ s.memberFds a ∧ fd ≠ g
      · rw [if_pos (List.mem_filter.2 ⟨hfd.1, by simpa using hfd.2⟩)]
        simp [hline, htext, Said.heardBy, hfd.1, Ne.symm hfd.2]
      · rw [if_neg fun hmem => hfd
          ⟨(List.mem_filter.1 hmem).1, by simpa using (List.mem_filter.1 hmem).2⟩]
        by_cases hgf : g = fd
        · simp [Said.heardBy, hgf]
        · have hout : fd ∉ s.memberFds a := fun hmem => hfd ⟨hmem, Ne.symm hgf⟩
          simp [Said.heardBy, hout]
    | false =>
      rw [saidIn_of_not_text htext]
      split_ifs
      · simp [hline, htext]
      · rfl
  · have htext : msg.isTextIn n = false := by
      rw [Message.isTextIn, Bool.and_eq_false_iff]
      exact .inr (beq_eq_false_iff_ne.2 fun hfold => hto.noHash ((head?_hash_congr hfold).2 hn))
    have hline := isTextIn_relayed (n := n) (h.plain hto.registered) hcmd
      (isToken_of_nick hto.valid)
    rw [hr, saidIn_of_not_text htext, linesTo_reply]
    split_ifs
    · simp [hline, htext]
    · rfl
  · have hsaid : s.saidIn n (.command addr now g msg monitor) = none := by
      cases htext : msg.isTextIn n with
      | false => exact saidIn_of_not_text htext
      | true =>
        rw [Option.eq_none_iff_forall_ne_some]
        intro said hsaid
        simp only [saidIn, hg, htext, Option.bind_eq_bind, Option.bind_some,
          Option.bind_eq_some_iff, Bool.and_true,
          Option.ite_none_right_eq_some, Bool.and_eq_true, decide_eq_true_eq] at hsaid
        obtain ⟨ch, hch, ⟨hmember, hcount⟩, -⟩ := hsaid
        rw [Message.isTextIn, Bool.and_eq_true] at htext
        have hroom : s.room (msg.getSingleParam 0) = some ch :=
          (room_congr s (beq_iff_eq.1 htext.2)).trans hch
        have hin : s.InRoom q (msg.getSingleParam 0) :=
          ⟨ch, hroom, by simpa [Channel.hasMember] using hmember⟩
        obtain ⟨a, ha, -⟩ := room_eq_some_iff.1 hroom
        exact hnoch a ((textToChannel_iff h.wf h.rooms).2
          ⟨h.registration.members q _ hin, hcount, ha, hin⟩)
    rw [hr, hsaid]
    refine filter_linesTo_eq_nil fun o ho => isTextIn_eq_false fun hword => ?_
    cases replyOnError with
    | false => cases ho
    | true =>
      cases List.mem_singleton.1 ho
      obtain ⟨code, hcode, heq⟩ := List.mem_map.1 (wordOf_error hm.error)
      have hno : ∀ code ∈ errorCodes, lit code ∉ [lit "PRIVMSG", lit "NOTICE"] := by decide +kernel
      exact hno code hcode (heq ▸ hword)

/-- A turn sends a client the text of the channel that it says, if the client is to hear it. -/
theorem heard_turn (h : Orderly s) (hn : n.head? = some (chr '#')) (t : Turn) (fd : Fd) :
    (linesTo fd (t.result s).replies).filter (isTextIn n) =
      ((s.saidIn n t).toList.filter (Said.heardBy fd)).map Said.line := by
  cases t with
  | arrive => rfl
  | depart g reason =>
    have hsaid : s.saidIn n (.depart g reason) = none := rfl
    rw [hsaid]
    rcases turn_cases s (.depart g reason) with
      ⟨-, hres⟩ | ⟨_, _, _, heq, -⟩ | ⟨_, _, _, _, _, _, heq, -⟩ | ⟨_, _, q, heq, hg⟩
    · rw [hres]
      rfl
    · cases heq
    · cases heq
    · cases heq
      obtain ⟨fds, hb, -, hmem⟩ := DisconnectNotifier.build_spec h.wf.links hg reason
      refine filter_linesTo_eq_nil fun m hm => isTextIn_eq_false ?_
      rw [Turn.result, hb] at hm
      obtain ⟨f, hf, rfl⟩ := List.mem_map.1 hm
      obtain ⟨r, ⟨-, a, hqa, -⟩, -⟩ := (hmem f).1 hf
      rw [wordOf_quit (h.plain (h.registration.members q _ (inRoom_of_mem h.wf.links hqa)))]
      decide
  | command addr now g msg monitor =>
    rcases hg : s.getClientByFd g with _ | q
    · have hsaid : s.saidIn n (.command addr now g msg monitor) = none := by simp [saidIn, hg]
      rw [hsaid, Turn.result, dispatchWith_unknown addr now msg monitor hg]
      rfl
    by_cases hcmd : msg.command ∈ [lit "PRIVMSG", lit "NOTICE"]
    · obtain ⟨replyOnError, hres⟩ := handleText_turn addr now monitor hg hcmd
      rw [hres]
      exact heard_text h hn hg hcmd replyOnError fd
    · have hsaid : s.saidIn n (.command addr now g msg monitor) = none := by
        have hno : msg.isTextIn n = false := by
          rw [Message.isTextIn, Bool.and_eq_false_iff]
          exact .inl (by simpa using hcmd)
        simp [saidIn, hg, hno]
      rw [hsaid]
      have ho := dispatchWith_outcome addr now msg monitor hg
      refine filter_linesTo_eq_nil fun m hm => isTextIn_eq_false fun hword => hcmd ?_
      exact ho.command_of_word [lit "PRIVMSG", lit "NOTICE"] [lit "PRIVMSG", lit "NOTICE"]
        (by decide +kernel)
        (by decide +kernel) h hm hword

/-- Over some turns a client is sent what is said in the channel, as far as it is to hear it. -/
theorem heard_traffic (hn : n.head? = some (chr '#')) (fd : Fd) :
    ∀ (turns : List Turn) {s : ServerState},
    Orderly s → (∀ t ∈ turns, t.Real) → (linesTo fd (s.traffic turns)).filter (isTextIn n) =
      ((s.conversation n turns).filter (Said.heardBy fd)).map Said.line
  | [], _, _, _ => rfl
  | t :: turns, s, h, hreal => by
    rw [List.forall_mem_cons] at hreal
    rw [traffic, linesTo_append, List.filter_append, heard_turn h hn t fd,
      heard_traffic hn fd turns (h.turn hreal.1) hreal.2, conversation, List.filter_append,
      List.map_append]

theorem conversation_append (n : Str) : ∀ (before after : List Turn) (s : ServerState),
    s.conversation n (before ++ after) =
      s.conversation n before ++ (s.play before).conversation n after
  | [], _, _ => rfl
  | t :: before, after, s => by
    rw [List.cons_append, conversation, conversation, conversation_append n before after,
      List.append_assoc]
    rfl

/-- The members of a channel hear one conversation. What a client is sent of the texts in the
channel, in the bytes sent to it since it arrived and those in its buffer, is what is said there
from its arrival on while it is a member, in that order, but for what it says itself. -/
theorem run_conversation {listenFd : Fd} {password : Str} {inputs : List Input}
    (hf : (Machine.start listenFd password).FreshRun inputs) (hreal : ∀ inp ∈ inputs, inp.Real)
    (hhosts : ∀ inp ∈ inputs, inp.Dotted) :
    let m := (Machine.start listenFd password).run inputs
    let start : ServerState := { password := password }
    ∃ turns : List Turn, m.server.state = start.play turns ∧
      (m.phase ≠ .stopped → m.server.trace.reverse.filterMap Event.mark? = turns.map Turn.mark) ∧
      ∀ fd c, m.server.connection fd = some c → ∃ before addr host during,
        turns = before ++ .arrive addr fd host :: during ∧
        (∀ t ∈ during, t.isDepartureOf fd = false) ∧
        commandsOf fd during = (Framing.lines lf (received fd m.server.trace).flatten).map
          (fun l => parse (stripLine l)) ∧
        ∀ n : Str, n.head? = some (chr '#') → ∃ later,
          start.conversation n turns = start.conversation n
            (before ++ [.arrive addr fd host]) ++ later ∧
          (Framing.lines lf (sentTo fd m.server.trace ++ c.sendBuffer)).filter (isTextIn n) =
            (later.filter (Said.heardBy fd)).map Said.line := by
  intro m start
  have hm : Reachable listenFd password m := .run inputs .start hf
  have haccounted : m.server.Accounted := Machine.run_accounted (.construct listenFd password) hhosts
  obtain ⟨turns, hserial, hturns⟩ := exists_serial hf
  refine ⟨turns, hserial.state, hserial.marks, fun fd c hc => ?_⟩
  obtain ⟨p, hat⟩ := Server.At.of_connection hc
  obtain ⟨before, addr, host, during, rfl, hlife, hcommands, hlines⟩ := hserial.clients fd hat.mem
  have hreal' := hturns hreal
  refine ⟨before, addr, host, during, rfl, hlife.stays, ?_, fun n hn => ?_⟩
  · rw [hcommands, hm.handedTo_eq hc, List.map_map]
    rfl
  have hshift : before ++ .arrive addr fd host :: during =
      (before ++ [.arrive addr fd host]) ++ during := by simp
  have harrived : Orderly (start.play (before ++ [.arrive addr fd host])) :=
    (Orderly.start password).play _ fun t ht => hreal' t (hshift ▸ List.mem_append_left _ ht)
  refine ⟨(start.play (before ++ [.arrive addr fd host])).conversation n during, ?_, ?_⟩
  · rw [hshift, conversation_append]
  · rw [hm.lines_sent haccounted hc, ← hlines]
    exact heard_traffic hn fd during harrived fun t ht => hreal' t (by simp [ht])

/-- The case of two members that each say something: both texts are in the conversation, and each of
the two is sent that of the other. -/
theorem run_conversation_two :
    let m := (Machine.start 3 (lit "pw")).run
      [.ready [POLLIN], .accepts 5, {}, {}, {}, .ready [POLLIN, 0],
      .accepts 6, {}, {}, {}, {}, .ready [0, POLLIN, POLLIN], {},
      .receives "PASS pw\r\nNICK a\r\nUSER a 0 * a\r\nJOIN #c\r\n",
      .receives "PASS pw\r\nNICK b\r\nUSER b 0 * b\r\nJOIN #c\r\n", {}, {},
      .ready [0, POLLIN, POLLIN], {},
      .receives "PRIVMSG #C :hi\r\nPRIVMSG b :x\r\n", .receives "NOTICE #c :ho hum\r\n", {}, {}]
    ∃ (said : List Said) (turns : List Turn),
      said = ServerState.conversation (lit "#c") { password := lit "pw" } turns ∧
      (∃ later, later <:+ said ∧ (later.filter (Said.heardBy 5)).map Said.line =
        [lit ":b!b@ NOTICE #c :ho hum\r\n"]) ∧
      (∃ later, later <:+ said ∧ (later.filter (Said.heardBy 6)).map Said.line =
        [lit ":a!a@ PRIVMSG #C :hi\r\n"]) ∧
      m.server.state = ServerState.play { password := lit "pw" } turns := by
  intro m
  have hheard : ∀ fd line, (m.server.connection fd).map (fun c =>
      (Framing.lines lf (sentTo fd m.server.trace ++ c.sendBuffer)).filter (isTextIn (lit "#c"))) =
        some [line] →
      ∃ c, m.server.connection fd = some c ∧
        (Framing.lines lf (sentTo fd m.server.trace ++ c.sendBuffer)).filter
          (isTextIn (lit "#c")) = [line] :=
    fun fd line h => Option.map_eq_some_iff.1 h
  obtain ⟨c, hc, hfive⟩ := hheard 5 (lit ":b!b@ NOTICE #c :ho hum\r\n") (by decide +kernel)
  obtain ⟨c', hc', hsix⟩ := hheard 6 (lit ":a!a@ PRIVMSG #C :hi\r\n") (by decide +kernel)
  obtain ⟨turns, hstate, -, hclients⟩ :=
    @run_conversation 3 (lit "pw") [.ready [POLLIN], .accepts 5, {}, {}, {},
    .ready [POLLIN, 0], .accepts 6, {}, {}, {}, {}, .ready [0, POLLIN, POLLIN], {},
    .receives "PASS pw\r\nNICK a\r\nUSER a 0 * a\r\nJOIN #c\r\n",
    .receives "PASS pw\r\nNICK b\r\nUSER b 0 * b\r\nJOIN #c\r\n", {}, {},
    .ready [0, POLLIN, POLLIN], {},
    .receives "PRIVMSG #C :hi\r\nPRIVMSG b :x\r\n", .receives "NOTICE #c :ho hum\r\n", {}, {}]
    (by decide +kernel) (by decide +kernel) (by decide +kernel)
  obtain ⟨_, _, _, _, -, -, -, hsaid⟩ := hclients 5 c hc
  obtain ⟨_, _, _, _, -, -, -, hsaid'⟩ := hclients 6 c' hc'
  obtain ⟨later, hlater, hlines⟩ := hsaid (lit "#c") rfl
  obtain ⟨later', hlater', hlines'⟩ := hsaid' (lit "#c") rfl
  exact ⟨_, turns, rfl, ⟨later, ⟨_, hlater.symm⟩, hlines.symm.trans hfive⟩,
    ⟨later', ⟨_, hlater'.symm⟩, hlines'.symm.trans hsix⟩, hstate⟩

end Ircserv
