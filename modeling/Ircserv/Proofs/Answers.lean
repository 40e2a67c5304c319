import Ircserv.Proofs.Bot
import Ircserv.Proofs.Framed
import Ircserv.Proofs.Limit
import Ircserv.Proofs.Told
import Ircserv.Proofs.Texts

/-!
# The bot's answers reach who asked

A command for the bot is relayed to it as it was written, and the line that it answers with is cut,
parsed and relayed by the server as any other client's (`run_bot`). So the reply goes to the client
that asked, or to the channel, if the line is not too long for the server.
-/

open Std

namespace Ircserv

open Framing CommandResult ReplyBuilder ServerState CommandDispatcher DisconnectNotifier
  Ircserv.Parser Ircserv.Bot

variable {s : ServerState} {p q a b u : Addr} {fd g : Fd} {msg : Message} {r : CommandResult}
  {target place text line : Str} {whom : Addr → Prop}

/-- The bytes that a line may have. -/
def inLine : Alphabet where
  Mem b := b ≠ lf
  printable b h := by
    rintro rfl
    exact absurd h (by decide)

/-- What the connections give: a line is cut at its line feed, and an address is printed. -/
def Turn.Cut : Turn → Prop
  | .arrive _ _ host => host.all isPrintable = true
  | .command _ _ _ msg _ => ∃ line, lf ∉ line ∧ msg = parse line
  | .depart _ _ => True

theorem over_inLine_iff : Over inLine line ↔ lf ∉ line :=
  ⟨fun h hlf => h lf hlf rfl, fun h _ hb hlf => h (hlf ▸ hb)⟩

/-- No string that the state has for a reply has a line feed. -/
theorem over_play : ∀ (turns : List Turn) {s : ServerState}, s.Keeps (.over inLine) →
    (∀ t ∈ turns, t.Cut) → (s.play turns).Keeps (.over inLine)
  | [], _, h, _ => h
  | t :: turns, s, h, hcut => by
    refine over_play turns ?_ fun u hu => hcut u (List.mem_cons_of_mem t hu)
    have ht := hcut t List.mem_cons_self
    cases t with
    | arrive addr fd host => exact h.addClient ht addr fd
    | command addr now fd msg monitor =>
      obtain ⟨line, hlf, rfl⟩ := ht
      have hmsg : Over inLine (parse line).fields := (over_inLine_iff.2 hlf).within (parse_within line)
      exact (dispatchWith_over h hmsg addr now fd monitor).2
    | depart fd reason => exact h.removeClient fd

theorem over_start (password : Str) :
    ({ password := password } : ServerState).Keeps (.over inLine) := by
  refine ⟨fun p => ?_, fun a => ?_⟩
  · rw [clientAt_of_not_mem (by simp)]
    exact Client.keeps_default
  · exact Channel.keeps_new (Strings.name_nil _)

/-- The text goes once to each of the clients and to nobody else, and they read it as it is. -/
structure Arrives (s : ServerState) (p : Addr) (target text : Str) (whom : Addr → Prop)
    (r : CommandResult) : Prop where
  stays : r.shouldDisconnect = false
  once : (r.replies.map (·.fd)).Nodup
  reached : ∀ g, g ∈ r.replies.map (·.fd) ↔ ∃ q, whom q ∧ (s.clientAt q).fd = g
  read : ∀ m ∈ r.replies, parse m.message =
    { sender := (s.clientAt p).getFullPrefix, command := lit "PRIVMSG", params := [target, text] }

namespace Arrives

theorem of_broadcast (hplain : (s.clientAt p).Plain) (htoken : IsToken target) {fds : List Fd}
    (hnd : fds.Nodup) (hfds : ∀ g, g ∈ fds ↔ ∃ q, whom q ∧ (s.clientAt q).fd = g) :
    Arrives s p target text whom
      (broadcast (relayed (s.clientAt p).getFullPrefix (lit "PRIVMSG") target text) fds) := by
  have hmap : ((broadcast (relayed (s.clientAt p).getFullPrefix (lit "PRIVMSG") target text)
      fds).replies.map (·.fd)) = fds := by simp [broadcast, Function.comp_def]
  refine ⟨rfl, by rwa [hmap], by rwa [hmap], fun m hm => ?_⟩
  obtain ⟨g, -, rfl⟩ := List.mem_map.1 hm
  exact parse_relayed hplain.space (by decide) htoken text

/-- Each client that it goes to has it once. -/
theorem filter_eq (h : Arrives s p target text whom r) (hq : whom q) :
    ∃ m ∈ r.replies, r.replies.filter (·.fd == (s.clientAt q).fd) = [m] ∧
      m.fd = (s.clientAt q).fd := by
  obtain ⟨m, hm, hfd⟩ := List.mem_map.1 ((h.reached _).2 ⟨q, hq, rfl⟩)
  have hinj := List.inj_on_of_nodup_map h.once
  refine ⟨m, hm, ?_, hfd⟩
  have hsame : ∀ m' ∈ r.replies, (m'.fd == (s.clientAt q).fd) = (m' == m) := by
    intro m' hm'
    rw [Bool.eq_iff_iff, beq_iff_eq, beq_iff_eq, ← hfd]
    exact ⟨fun hfd' => hinj hm' hm hfd', fun heq => by rw [heq]⟩
  rw [List.filter_congr hsame, List.filter_beq, List.count_eq_one_of_mem h.once.of_map hm]
  rfl

end Arrives

namespace Orderly

variable (h : Orderly s) (hp : s.client.fdToClient[fd]? = some p)
  (hreg : (s.clientAt p).registered = true) (hcmd : msg.command = lit "PRIVMSG")
  (hcount : 2 ≤ msg.getParamCount)

include h hp hreg hcmd hcount

theorem text_channel (hin : s.InRoom p (msg.getSingleParam 0)) (addr : Addr) (now : Time)
    (monitor : Option ConnectionHealthMonitor) :
    (dispatchWith addr now fd msg s monitor).2 = (s, monitor) ∧
      Arrives s p (msg.getSingleParam 0) (msg.getSingleParam 1)
        (fun q => q ≠ p ∧ s.InRoom q (msg.getSingleParam 0))
        (dispatchWith addr now fd msg s monitor).1 := by
  obtain ⟨ch, hch, hm⟩ := hin
  obtain ⟨a, ha, rfl⟩ := room_eq_some_iff.1 hch
  obtain ⟨hstate, hchannel, -⟩ := handleTextMessage_spec h.wf fd msg p (lit "PRIVMSG") true
  have hto := (textToChannel_iff h.wf h.rooms).2 ⟨hreg, hcount, ha, _, hch, hm⟩
  rw [dispatchWith_handleCommand addr now monitor hp (by rw [hcmd]; decide),
    handleCommand_privmsg hcmd]
  refine ⟨by rw [hstate], ?_⟩
  dsimp only
  rw [hchannel a hto]
  refine .of_broadcast (h.plain hreg) (h.token ha) ((memberFds_nodup h.wf.links a).filter _)
    fun g => ?_
  rw [mem_others_iff h.wf hp ha]
  simp only [and_assoc]

theorem text_nick (hvalid : isValidNickname (msg.getSingleParam 0) = true)
    (hq : s.Holds q (msg.getSingleParam 0)) (addr : Addr) (now : Time)
    (monitor : Option ConnectionHealthMonitor) :
    (dispatchWith addr now fd msg s monitor).2 = (s, monitor) ∧
      Arrives s p (msg.getSingleParam 0) (msg.getSingleParam 1) (· = q)
        (dispatchWith addr now fd msg s monitor).1 := by
  obtain ⟨hstate, -, hnick, -⟩ := handleTextMessage_spec h.wf fd msg p (lit "PRIVMSG") true
  rw [dispatchWith_handleCommand addr now monitor hp (by rw [hcmd]; decide),
    handleCommand_privmsg hcmd]
  refine ⟨by rw [hstate], ?_⟩
  dsimp only
  rw [hnick q ((textToNick_iff h.wf).2 ⟨hreg, hcount, hvalid, hq⟩)]
  refine .of_broadcast (h.plain hreg) (isToken_of_nick hvalid) (List.nodup_singleton _) fun g => ?_
  simp [eq_comm]

end Orderly

theorem parse_crlf (h : lf ∉ line) : parse (line ++ crlf) = parse line := by
  have hlast : line.getLast? ≠ some lf := fun hlast => h (List.mem_of_getLast? hlast)
  unfold parse
  rw [removeIrcLineTerminator_crlf, removeIrcLineTerminator_of_getLast hlast]

/-- The read loop hands a line on unless it is too long. -/
theorem Reading.handed_line {quits : Str → Bool} (hlf : lf ∉ line) (hquits : quits line = false)
    (fd : Fd) (chunks : List Str) (hne : ∀ chunk ∈ chunks, chunk ≠ [])
    (hchunks : chunks.flatten = line ++ crlf) :
    ((Reading.start fd).readChunks quits chunks).handed =
      if (line ++ crlf).length ≤ Connection.maxOk then [line] else [] := by
  have hstrip : stripLine (line ++ crlf) = line := LineBuffer.stripLine_crlf line
  have hlines : Framing.lines lf chunks.flatten = [line ++ crlf] ∧ rest lf chunks.flatten = [] := by
    rw [hchunks]
    exact LineBuffer.lines_crlf hlf
  split_ifs with hfit
  · have hgoing : ((Reading.start fd).readChunks quits chunks).status = .going := by
      refine readChunks_going fd chunks hne (fun l hl => ?_) (by simp [hlines.2])
      rw [hlines.1, List.mem_singleton] at hl
      rw [hl, QuitLine, hstrip]
      exact ⟨hfit, hquits⟩
    rw [(Follows.readChunks quits fd chunks hne).lines hgoing, hlines.1, List.map_singleton, hstrip]
  · have hno : ¬ Overrun quits chunks := by
      rintro ⟨before, chunk, after, short, long, more, rfl, hcut, hshort, -, -⟩
      have hone := congrArg List.length hlines.1
      rw [List.flatten_append, List.flatten_cons, lines_append, ← List.append_assoc, lines_append,
        hcut] at hone
      have hpos := List.length_pos_iff.2 hshort
      simp only [List.length_append, List.length_cons, List.length_nil] at hone
      omega
    obtain ⟨ls, hls, hhanded, hshort⟩ := short_of_not_overrun fd chunks hne hno
    rw [hlines.1] at hls
    rcases ls with _ | ⟨l, ls⟩
    · exact hhanded
    · have hl : l = line ++ crlf := List.mem_singleton.1 (hls.subset List.mem_cons_self)
      exact absurd (hl ▸ hshort l List.mem_cons_self) hfit

/-- Who asks the bot where: the bot alone, or in a channel that both are in. The bot answers in the
place, and the answer goes to some. -/
inductive Asks (s : ServerState) (u b : Addr) (target : Str) : Str → (Addr → Prop) → Prop
  | nick (hvalid : isValidNickname target = true) (hholds : s.Holds b target) :
      Asks s u b target (s.clientAt u).nickname (· = u)
  | channel (hu : s.InRoom u target) (hb : s.InRoom b target) :
      Asks s u b target target fun q => q ≠ b ∧ s.InRoom q target

/-- What the server does with an answer of the bot. It is cut off the stream as one line, the read
loop hands it on unless it is too long, and it delivers the text. -/
structure Carries (s : ServerState) (g : Fd) (b : Addr) (place text : Str) (whom : Addr → Prop)
    (answer : Str) : Prop where
  cut : ∀ (conn : Connection) (rest : Str), conn.recvBuffer = answer ++ crlf ++ rest →
    conn.hasCompleteLine.1 = true ∧ conn.hasCompleteLine.2.popLine.1 = answer ∧
      conn.hasCompleteLine.2.popLine.2.recvBuffer = rest
  limit : ∀ quits chunks, quits answer = false → (∀ chunk ∈ chunks, chunk ≠ []) →
    chunks.flatten = answer ++ crlf → ((Reading.start g).readChunks quits chunks).handed =
      if (answer ++ crlf).length ≤ 512 then [answer] else []
  delivered : ∀ addr now monitor,
    (dispatchWith addr now g (parse answer) s monitor).2 = (s, monitor) ∧
      Arrives s b place text whom (dispatchWith addr now g (parse answer) s monitor).1

section Answers

variable (h : Orderly s)

include h

theorem Asks.token (hu : (s.clientAt u).registered = true) (hask : Asks s u b target place whom) :
    IsToken place ∧ lf ∉ place := by
  cases hask with
  | nick =>
    have hvalid := (h.registration.clients u).valid hu
    refine ⟨isToken_of_nick hvalid, fun hlf => ?_⟩
    exact absurd (isNicknameChar_of_mem hvalid hlf) (by decide)
  | channel hin =>
    obtain ⟨ch, hch, -⟩ := hin
    obtain ⟨a, ha, -⟩ := room_eq_some_iff.1 hch
    exact ⟨h.token ha, (sound_of_isValidChannelName (h.rooms.valid h.wf ha)).2.1⟩

/-- The place is the one that the bot finds in the line that it reads. -/
theorem Asks.replyTarget (hu : (s.clientAt u).registered = true)
    (hask : Asks s u b target place whom) (text : Str) :
    Bot.replyTarget
      { sender := (s.clientAt u).getFullPrefix, command := lit "PRIVMSG", params := [target, text] } =
        place := by
  cases hask with
  | nick hvalid =>
    have hmark : chr '!' ∉ (s.clientAt u).nickname := fun hmem =>
      absurd (isNicknameChar_of_mem ((h.registration.clients u).valid hu) hmem) (by decide)
    refine (replyTarget_nick ?_).trans ?_
    · exact hvalid
    · show senderNick (s.clientAt u).getFullPrefix = _
      rw [Client.getFullPrefix, List.append_assoc, List.append_assoc]
      exact senderNick_of_not_mem hmark _
  | channel hin =>
    obtain ⟨ch, hch, -⟩ := hin
    obtain ⟨a, ha, -⟩ := room_eq_some_iff.1 hch
    exact replyTarget_channel (head?_of_channelName (h.rooms.valid h.wf ha))

/-- The line that the bot answers with does what it should. -/
theorem Asks.carries (hb : s.client.fdToClient[g]? = some b)
    (hbreg : (s.clientAt b).registered = true) (hp : s.client.fdToClient[fd]? = some u)
    (hu : (s.clientAt u).registered = true) (hask : Asks s u b target place whom) {text : Str}
    (hlf : lf ∉ text) : ∃ answer, IrcFormatter.privmsg place text = answer ++ crlf ∧
      Carries s g b place text whom answer := by
  obtain ⟨htoken, hplace⟩ := hask.token h hu
  set answer := lit "PRIVMSG" ++ lit " " ++ place ++ lit " :" ++ text with hanswer
  have hline : lf ∉ answer := by
    have hword : lf ∉ lit "PRIVMSG" ++ lit " " ∧ lf ∉ lit " :" := by decide
    simp only [hanswer, List.mem_append] at hword ⊢
    simp only [hword, hplace, hlf, or_self, not_false_eq_true]
  have hparse : parse answer =
      { sender := [], command := lit "PRIVMSG", params := [place, text] } := by
    rw [← parse_crlf hline, ← parse_privmsg htoken text]
    rfl
  refine ⟨answer, rfl, fun conn rest hbuf => ?_, fun quits chunks hquits hne hchunks => ?_,
    fun addr now monitor => ?_⟩
  · obtain ⟨hcomplete, hpop⟩ := LineBuffer.popLine_crlf hline hbuf
    rw [hpop]
    exact ⟨hcomplete, rfl, rfl⟩
  · exact Reading.handed_line hline hquits g chunks hne hchunks
  · have hcmd : (parse answer).command = lit "PRIVMSG" := by rw [hparse]
    have hcount : 2 ≤ (parse answer).getParamCount := by
      rw [hparse]
      exact le_rfl
    have hfirst : (parse answer).getSingleParam 0 = place := by
      rw [hparse]
      rfl
    have htext : (parse answer).getSingleParam 1 = text := by
      rw [hparse]
      rfl
    cases hask with
    | nick =>
      have hholds : s.Holds u (s.clientAt u).nickname :=
        ⟨(h.wf.ownsClient_iff).2 (h.wf.links.fdOwner fd u hp).1, rfl⟩
      have hsent := h.text_nick hb hbreg hcmd hcount (q := u)
        (by rw [hfirst]; exact (h.registration.clients u).valid hu) (by rwa [hfirst]) addr now monitor
      rwa [hfirst, htext] at hsent
    | channel _ hin =>
      have hsent := h.text_channel hb hbreg hcmd hcount (by rwa [hfirst]) addr now monitor
      rwa [hfirst, htext] at hsent

end Answers

/-- What the bot does with the line that a command is relayed to it with. -/
theorem reads_command {sender text : Str} {bot : Bot} {received : List Received} {chunks : List Str}
    (hlf : lf ∉ line)
    (hline : parse line = { sender := sender, command := lit "PRIVMSG", params := [target, text] })
    (htext : text.head? = some (chr '!')) (hquit : text ≠ lit "!quit") (htime : text ≠ lit "!time")
    (hempty : bot.lineBuffer = {}) (hreceived : received.map (·.recv) = chunks.map some)
    (hne : ∀ chunk ∈ chunks, chunk ≠ []) (hchunks : chunks.flatten = line ++ crlf)
    (timeInfo : Option Tm) :
    bot.reads received = some (bot.sendReply
      { sender := sender, command := lit "PRIVMSG", params := [target, text] }
      (buildCommandReply timeInfo bot text).1) := by
  have hbot : { bot with lineBuffer := {} } = bot := by rw [← hempty]
  obtain ⟨timeInfo', hreads⟩ : ∃ timeInfo, bot.reads received = _ :=
    reads_line hlf chunks (by rw [hempty]) hreceived hne (by rw [hempty, List.nil_append, hchunks])
      (by simp [hempty, crlf])
  have hhandled : bot.handleMessage timeInfo'
      { sender := sender, command := lit "PRIVMSG", params := [target, text] } =
        (buildCommandReply timeInfo' bot text).2.sendReply _
          (buildCommandReply timeInfo' bot text).1 :=
    handleMessage_command rfl htext
  rw [hreads, hbot, hline, hhandled, buildCommandReply_of_ne hquit, buildCommandReply_congr htime]

/-- Bot and server close the loop. A command that a client writes to the bot, or in a channel with
it, is relayed to the bot in one line. However the bot receives it, it enqueues nothing if the reply
is empty, and one line otherwise. The server cuts the line as it is and delivers the reply to the
client that asked, or to the other members of the channel; but the read loop refuses a line of more
than 512 bytes. -/
theorem run_bot (password : Str) (turns : List Turn) (hreal : ∀ t ∈ turns, t.Real)
    (hcut : ∀ t ∈ turns, t.Cut) :
    let s := play { password := password } turns
    ∀ g b fd u, s.getClientByFd g = some b → (s.clientAt b).registered = true →
      s.getClientByFd fd = some u → (s.clientAt u).registered = true → u ≠ b →
    ∀ addr now monitor line, lf ∉ line → (parse line).command = lit "PRIVMSG" →
      let text := (parse line).getSingleParam 1
      text.head? = some (chr '!') → text ≠ lit "!quit" → text ≠ lit "!time" →
    ∀ place whom, Asks s u b ((parse line).getSingleParam 0) place whom →
      let sent := dispatchWith addr now fd (parse line) s monitor
      ∃ relay, sent.2 = (s, monitor) ∧ sent.1.replies.filter (·.fd == g) = [⟨g, relay⟩] ∧
        ∀ (bot : Bot) (received : List Received) (chunks : List Str) timeInfo, bot.lineBuffer = {} →
          received.map (·.recv) = chunks.map some → (∀ chunk ∈ chunks, chunk ≠ []) →
          chunks.flatten = relay →
          let reply := (buildCommandReply timeInfo bot text).1
          (reply = [] → bot.reads received = some bot) ∧
          (reply ≠ [] → ∃ answer, bot.reads received = some (bot.enqueue (answer ++ crlf)) ∧
            Carries s g b place reply whom answer) := by
  intro s g b fd u hb hbreg hp hu hub addr now monitor line hlf hcmd text htext hquit htime place whom
    hask sent
  have h : Orderly s := Orderly.play turns (.start password) hreal
  have hover : s.Keeps (.over inLine) := over_play turns (over_start password) hcut
  have hmsg : Over inLine (parse line).fields := (over_inLine_iff.2 hlf).within (parse_within line)
  have hcount : 2 ≤ (parse line).getParamCount := by
    have hparam : (parse line).hasParam 1 = true := Message.hasParam_of_ne_nil fun hnil => by
      rw [show text = [] from hnil] at htext
      cases htext
    rw [Message.hasParam, decide_eq_true_eq] at hparam
    exact hparam
  -- the bot is one of those that the command goes to
  obtain ⟨hstate, whom', harrives, hwhom⟩ : sent.2 = (s, monitor) ∧ ∃ whom',
      Arrives s u ((parse line).getSingleParam 0) text whom' sent.1 ∧ whom' b := by
    cases hask with
    | nick hvalid hholds =>
      obtain ⟨hstate, hsent⟩ := h.text_nick hp hu hcmd hcount hvalid hholds addr now monitor
      exact ⟨hstate, _, hsent, rfl⟩
    | channel hin hinb =>
      obtain ⟨hstate, hsent⟩ := h.text_channel hp hu hcmd hcount hin addr now monitor
      exact ⟨hstate, _, hsent, hub.symm, hinb⟩
  obtain ⟨m, hm, hone, hfd⟩ := harrives.filter_eq hwhom
  have hg : (s.clientAt b).fd = g := (h.wf.links.fdOwner g b hb).2
  rw [hg] at hone hfd
  have hreplies : sent.1.Over inLine := (dispatchWith_over hover hmsg addr now fd monitor).1
  obtain ⟨body, hbody, hbodylf⟩ := hreplies m hm
  rw [over_inLine_iff] at hbodylf
  refine ⟨m.message, hstate, by rw [hone, ← hfd], ?_⟩
  intro bot received chunks timeInfo hempty hreceived hne hchunks reply
  have hparse := harrives.read m hm
  rw [hbody, parse_crlf hbodylf] at hparse
  have hreads := reads_command hbodylf hparse htext hquit htime hempty hreceived hne
    (hchunks.trans hbody) timeInfo
  have htextlf : lf ∉ text := over_inLine_iff.1 (hmsg.param 1)
  have hreplylf : lf ∉ reply := lf_not_mem_buildCommandReply htime htextlf
  obtain ⟨answer, hanswer, hcarries⟩ := hask.carries h hb hbreg hp hu hreplylf
  rw [hreads]
  refine ⟨fun hnil => ?_, fun hreply => ⟨answer, ?_, hcarries⟩⟩
  · rw [sendReply, if_pos hnil]
  · rw [sendReply, if_neg hreply, hask.replyTarget h hu, hanswer]

/-- The case of a client that has the bot echo a colon in a channel, whose name it spells its
way. -/
theorem run_bot_echo :
    let turns : List Turn := [.arrive 3 5 (lit "h"), .arrive 4 6 (lit "k"),
      .command 0 0 5 (parse (lit "PASS :")) none, .command 0 0 5 (parse (lit "NICK a")) none,
      .command 0 0 5 (parse (lit "USER a!b 0 * a")) none, .command 0 0 6 (parse (lit "PASS :")) none,
      .command 0 0 6 (parse (lit "NICK bot")) none, .command 0 0 6 (parse (lit "USER b 0 * b")) none,
      .command 7 0 6 (parse (lit "JOIN #x")) none, .command 8 0 5 (parse (lit "JOIN #X")) none]
    let s := play { password := [] } turns
    let line := lit "PRIVMSG #X :!echo : hi"
    ∃ relay answer, relay = lit ":a!a!b@h PRIVMSG #X :!echo : hi" ++ crlf ∧
      (dispatchWith 0 0 5 (parse line) s none).1.replies.filter (·.fd == 6) = [⟨6, relay⟩] ∧
      ({} : Bot).reads [⟨some relay, fun _ => none⟩] = some (Bot.enqueue {} (answer ++ crlf)) ∧
      answer = lit "PRIVMSG #X :: hi" ∧
      Carries s 6 4 (lit "#X") (lit ": hi") (fun q => q ≠ 4 ∧ s.InRoom q (lit "#X")) answer := by
  intro turns s line
  have hreal : ∀ t ∈ turns, t.Real := by
    simp only [turns, List.forall_mem_cons, Turn.Real]
    exact ⟨by decide, by decide, ⟨_, rfl⟩, ⟨_, rfl⟩, ⟨_, rfl⟩, ⟨_, rfl⟩, ⟨_, rfl⟩, ⟨_, rfl⟩, ⟨_, rfl⟩,
      ⟨_, rfl⟩, by simp⟩
  have hcut : ∀ t ∈ turns, t.Cut := by
    simp only [turns, List.forall_mem_cons, Turn.Cut]
    exact ⟨by decide, by decide, ⟨_, by decide, rfl⟩, ⟨_, by decide, rfl⟩, ⟨_, by decide, rfl⟩,
      ⟨_, by decide, rfl⟩, ⟨_, by decide, rfl⟩, ⟨_, by decide, rfl⟩, ⟨_, by decide, rfl⟩,
      ⟨_, by decide, rfl⟩, by simp⟩
  obtain ⟨relay, -, hrelay, hbot⟩ := run_bot [] turns hreal hcut 6 4 5 3
    (by decide +kernel : s.getClientByFd 6 = some 4) (by decide +kernel)
    (by decide +kernel : s.getClientByFd 5 = some 3) (by decide +kernel) (by decide) 0 0 none line
    (by decide) (by decide) (by decide) (by decide) (by decide) _ _
    (.channel (by decide +kernel) (by decide +kernel))
  have hline : (dispatchWith 0 0 5 (parse line) s none).1.replies.filter (·.fd == 6) =
      [⟨6, lit ":a!a!b@h PRIVMSG #X :!echo : hi" ++ crlf⟩] := by decide +kernel
  obtain rfl : relay = lit ":a!a!b@h PRIVMSG #X :!echo : hi" ++ crlf := by
    rw [hline] at hrelay
    exact (congrArg OutgoingMessage.message (List.cons.inj hrelay).1).symm
  obtain ⟨-, hanswer⟩ := hbot {} [⟨some _, fun _ => none⟩] [_] none rfl rfl
    (fun chunk hchunk => by rw [List.mem_singleton.1 hchunk]; decide) (List.flatten_singleton)
  obtain ⟨answer, hreads, hcarries⟩ := hanswer (by decide)
  refine ⟨_, answer, rfl, hrelay, hreads, ?_, hcarries⟩
  have hout : ({} : Bot).reads
      [⟨some (lit ":a!a!b@h PRIVMSG #X :!echo : hi" ++ crlf), fun _ => none⟩] =
        some (Bot.enqueue {} (lit "PRIVMSG #X :: hi" ++ crlf)) := by decide +kernel
  rw [hout] at hreads
  have houtbox := congrArg Bot.outbox (Option.some.inj hreads)
  exact (List.append_cancel_right (List.cons.inj houtbox).1).symm

/-- A client with a long nick writes a line of 512 bytes to a bot with a short one, and the answer
is two bytes longer: the read loop drops it with the bot. -/
theorem answer_tooLong :
    let turns : List Turn := [.arrive 3 5 (lit "h"), .arrive 4 6 (lit "k"),
      .command 0 0 5 (parse (lit "PASS :")) none, .command 0 0 5 (parse (lit "NICK abcdefghi")) none,
      .command 0 0 5 (parse (lit "USER a 0 * a")) none, .command 0 0 6 (parse (lit "PASS :")) none,
      .command 0 0 6 (parse (lit "NICK b")) none, .command 0 0 6 (parse (lit "USER b 0 * b")) none]
    let s := play { password := [] } turns
    let text := List.replicate 493 (chr 'x')
    let line := lit "PRIVMSG b :!echo " ++ text
    let relay := lit ":abcdefghi!a@h PRIVMSG b :!echo " ++ text ++ crlf
    let answer := lit "PRIVMSG abcdefghi :" ++ text
    (∀ t ∈ turns, t.Real) ∧ (∀ t ∈ turns, t.Cut) ∧
      ((Reading.start 5).readChunk (fun _ => false) (line ++ crlf)).handed = [line] ∧
      (dispatchWith 0 0 5 (parse line) s none).1 = reply 6 relay ∧
      ({} : Bot).reads [⟨some relay, fun _ => none⟩] = some (Bot.enqueue {} (answer ++ crlf)) ∧
      (answer ++ crlf).length = 514 ∧
      ((Reading.start 6).readChunk (fun _ => false) (answer ++ crlf)).status = .tooLong ∧
      ∀ chunks : List Str, (∀ chunk ∈ chunks, chunk ≠ []) → chunks.flatten = answer ++ crlf →
        ((Reading.start 6).readChunks (fun _ => false) chunks).handed = [] := by
  intro turns s text line relay answer
  have hlf : lf ∉ answer := by decide +kernel
  have hlen : (answer ++ crlf).length = 514 := by decide +kernel
  refine ⟨?_, ?_, by decide +kernel, by decide +kernel, by decide +kernel, hlen, by decide +kernel,
    fun chunks hne hchunks => ?_⟩
  · simp only [turns, List.forall_mem_cons, Turn.Real]
    exact ⟨by decide, by decide, ⟨_, rfl⟩, ⟨_, rfl⟩, ⟨_, rfl⟩, ⟨_, rfl⟩, ⟨_, rfl⟩, ⟨_, rfl⟩, by simp⟩
  · simp only [turns, List.forall_mem_cons, Turn.Cut]
    exact ⟨by decide, by decide, ⟨_, by decide, rfl⟩, ⟨_, by decide, rfl⟩, ⟨_, by decide, rfl⟩,
      ⟨_, by decide, rfl⟩, ⟨_, by decide, rfl⟩, ⟨_, by decide, rfl⟩, by simp⟩
  · rw [Reading.handed_line hlf rfl 6 chunks hne hchunks, if_neg]
    rw [hlen]
    decide

end Ircserv
