import Ircserv.BotLoop
import Ircserv.Proofs.Bot
import Ircserv.Proofs.Exchange

/-!
# What the bot sends

However the server's bytes arrive, and however much `send` takes of a line, the bytes that the bot
sends are what a bot would send that hears one line after the other and has all the time
(`Session.run_spec`). A bot that quits reads no more, and when `send` keeps taking bytes it sends
everything and returns.
-/

namespace Ircserv

open ReplyBuilder Ircserv.Parser

namespace Bot

variable {a b bot ideal : Bot} {timeInfo : Option Tm} {message : Message} {line : Str}

/-- The token of a PING. -/
def pinged (message : Message) : Option Str :=
  if message.command = lit "PING" ∧
    message.hasParam 0 then some (message.getSingleParam 0) else none

/-- What a bot can say to a text. -/
inductive IsAnswer (timeInfo : Option Tm) (message : Message) : Str → Prop
  | reply : IsAnswer timeInfo message (IrcFormatter.privmsg (replyTarget message)
      (buildCommandReply timeInfo {} (message.getSingleParam 1)).1)
  | quit : IsAnswer timeInfo message (IrcFormatter.quit (lit "bonus bot shutting down"))

theorem IsAnswer.ne_nil (h : IsAnswer timeInfo message line) : line ≠ [] := by
  cases h <;> simp [IrcFormatter.privmsg, IrcFormatter.commandWithTrailing, IrcFormatter.quit, lit]

theorem buildCommandReply_fst (timeInfo : Option Tm) (a b : Bot) (text : Str) :
    (buildCommandReply timeInfo a text).1 = (buildCommandReply timeInfo b text).1 := by
  unfold buildCommandReply
  split_ifs <;> rfl

/-- What a text does is the same for every bot. -/
theorem handlePrivmsg_eq (timeInfo : Option Tm) (message : Message) :
    ∃ (quits : Bool) (lines : List Str), (∀ line ∈ lines, IsAnswer timeInfo message line) ∧
      ∀ bot : Bot, bot.handlePrivmsg timeInfo message =
        { bot with outbox := bot.outbox ++ lines, running := bot.running && !quits } := by
  have hnone : ∃ (quits : Bool) (lines : List Str),
      (∀ line ∈ lines, IsAnswer timeInfo message line) ∧ ∀ bot : Bot,
        bot = { bot with outbox := bot.outbox ++ lines, running := bot.running && !quits } :=
    ⟨false, [], nofun, fun bot => by simp⟩
  by_cases hparam : message.hasParam 1 = true
  swap
  · simpa [handlePrivmsg, hparam] using hnone
  by_cases htext : (message.getSingleParam 1).head? = some (chr '!')
  swap
  · simpa [handlePrivmsg, hparam, htext] using hnone
  by_cases hquit : message.getSingleParam 1 = lit "!quit"
  · refine ⟨true, [IrcFormatter.quit (lit "bonus bot shutting down"),
      IrcFormatter.privmsg (replyTarget message) (lit "bye")], ?_, fun bot => ?_⟩
    · have hbye : IsAnswer timeInfo message
          (IrcFormatter.privmsg (replyTarget message) (lit "bye")) := by
        have hreply : (buildCommandReply timeInfo {} (message.getSingleParam 1)).1 = lit "bye" := by
          rw [hquit]
          rfl
        exact hreply ▸ .reply
      simp only [List.forall_mem_cons]
      exact ⟨.quit, hbye, nofun⟩
    · have hquits : bot.handlePrivmsg timeInfo message =
          ({ bot.enqueue (IrcFormatter.quit (lit "bonus bot shutting down")) with
            running := false } : Bot).sendReply message (lit "bye") := by
        rw [hquit] at htext
        simp only [handlePrivmsg, hparam, hquit, htext]
        rfl
      rw [hquits, sendReply, if_neg (by decide)]
      simp [enqueue]
  · have hsame : ∀ bot : Bot, bot.handlePrivmsg timeInfo message = bot.sendReply message
        (buildCommandReply timeInfo {} (message.getSingleParam 1)).1 := by
      intro bot
      simp only [handlePrivmsg, hparam, htext, buildCommandReply_of_ne hquit,
        buildCommandReply_fst _ bot {}]
      simp
    by_cases hreply : (buildCommandReply timeInfo {} (message.getSingleParam 1)).1 = []
    · simpa only [hsame, sendReply, if_pos hreply] using hnone
    · refine ⟨false, [IrcFormatter.privmsg (replyTarget message)
        (buildCommandReply timeInfo {} (message.getSingleParam 1)).1],
        List.forall_mem_singleton.2 .reply, fun bot => ?_⟩
      rw [hsame, sendReply, if_neg hreply]
      simp [enqueue]

/-- A message is a PING, or the first welcome, or it does the same to every bot. -/
theorem handleMessage_cases (timeInfo : Option Tm) (message : Message) :
    (∃ token, pinged message = some token ∧ message.command ≠ lit "001" ∧
      ∀ bot : Bot, bot.handleMessage timeInfo message = bot.enqueue (IrcFormatter.pong token)) ∨
    (pinged message = none ∧ message.command = lit "001" ∧ ∀ bot : Bot,
      bot.handleMessage timeInfo message =
        if bot.joined then bot else { bot.enqueue
          (IrcFormatter.join bot.channel) with joined := true }) ∨
    pinged message = none ∧ message.command ≠ lit "001" ∧ ∃ (quits : Bool) (lines : List Str),
      (∀ line ∈ lines, IsAnswer timeInfo message line) ∧ ∀ bot :
      Bot, bot.handleMessage timeInfo message =
        { bot with outbox := bot.outbox ++ lines, running := bot.running && !quits } := by
  unfold pinged
  by_cases hping : message.command = lit "PING" ∧ message.hasParam 0
  · refine .inl ⟨_, if_pos hping, ?_, fun bot => if_pos hping⟩
    rw [hping.1]
    decide
  rw [if_neg hping]
  by_cases hwelcome : message.command = lit "001"
  · refine .inr (.inl ⟨rfl, hwelcome, fun bot => ?_⟩)
    rw [handleMessage, if_neg hping]
    simp only [hwelcome]
    cases bot.joined <;> simp [show ¬ lit "001" = lit "PRIVMSG" by decide]
  refine .inr (.inr ⟨rfl, hwelcome, ?_⟩)
  simp only [handleMessage, if_neg hping, hwelcome, false_and, if_false]
  split_ifs
  · exact handlePrivmsg_eq timeInfo message
  · exact ⟨false, [], by simp, fun bot => by simp⟩

/-- A message leaves the buffer as it is. -/
theorem handleMessage_lineBuffer (timeInfo : Option Tm) (message : Message) (bot : Bot)
    (lineBuffer : LineBuffer) :
    { bot with lineBuffer := lineBuffer }.handleMessage timeInfo message =
      { bot.handleMessage timeInfo message with lineBuffer := lineBuffer } := by
  rcases handleMessage_cases timeInfo
    message with ⟨token, -, -, heq⟩ | ⟨-, -, heq⟩ | ⟨-, -, quits, lines, -, heq⟩
  · rw [heq, heq]
    rfl
  · rw [heq, heq]
    dsimp only
    split_ifs <;> rfl
  · rw [heq, heq]

/-- The same bot, but for its queues. -/
structure Same (a b : Bot) : Prop where
  channel : a.channel = b.channel
  running : a.running = b.running
  joined : a.joined = b.joined

/-- What a message adds does not depend on the queues. -/
theorem Same.handleMessage (h : Same a b) (timeInfo : Option Tm) (message : Message) :
    Same (a.handleMessage timeInfo message) (b.handleMessage timeInfo message) ∧
      (b.handleMessage timeInfo message).lineBuffer = b.lineBuffer ∧ ∃ lines, [] ∉ lines ∧
        (a.handleMessage timeInfo message).outbox = a.outbox ++ lines ∧
        (b.handleMessage timeInfo message).outbox = b.outbox ++ lines := by
  obtain ⟨hchannel, hrunning, hjoined⟩ := h
  rcases handleMessage_cases timeInfo
    message with ⟨token, -, -, heq⟩ | ⟨-, -, heq⟩ | ⟨-, -, quits, lines, hanswer, heq⟩
  · rw [heq, heq]
    refine ⟨⟨hchannel, hrunning, hjoined⟩, rfl, [IrcFormatter.pong token], ?_, rfl, rfl⟩
    simp [IrcFormatter.pong, lit]
  · rw [heq, heq, hjoined]
    split_ifs
    · exact ⟨⟨hchannel, hrunning, hjoined⟩, rfl, [], List.not_mem_nil, by simp, by simp⟩
    · refine ⟨⟨hchannel, hrunning, rfl⟩, rfl, [IrcFormatter.join b.channel],
        ?_, by rw [hchannel]; rfl, rfl⟩
      simp [IrcFormatter.join, lit]
  · rw [heq, heq]
    refine ⟨⟨hchannel, by rw [hrunning], hjoined⟩, rfl, lines,
      fun hnil => (hanswer [] hnil).ne_nil rfl, rfl, rfl⟩

theorem hears_cons (bot : Bot) (line : Str) (timeInfo : Option Tm)
    (heard : List (Str × Option Tm)) :
    bot.hears ((line, timeInfo) :: heard) = (bot.handleMessage timeInfo (parse line)).hears heard :=
  rfl

theorem Same.hears : ∀ (heard : List (Str × Option Tm)) {a b : Bot}, Same a b →
    Same (a.hears heard) (b.hears heard) ∧ (b.hears heard).lineBuffer = b.lineBuffer ∧
      ∃ lines, [] ∉ lines ∧ (a.hears heard).outbox = a.outbox ++ lines ∧
        (b.hears heard).outbox = b.outbox ++ lines
  | [], a, b, h =>
    ⟨h, rfl, [], List.not_mem_nil, (List.append_nil _).symm, (List.append_nil _).symm⟩
  | (line, timeInfo) :: heard, a, b, h => by
    obtain ⟨hfirst, hbuf, lines, hlines, ha, hb⟩ := h.handleMessage timeInfo (parse line)
    obtain ⟨hrest, hbuf', lines', hlines', ha', hb'⟩ := Same.hears heard hfirst
    refine ⟨hrest, hbuf'.trans hbuf, lines ++ lines', ?_, ?_, ?_⟩
    · rw [List.mem_append, not_or]
      exact ⟨hlines, hlines'⟩
    · rw [← List.append_assoc, ← ha]
      exact ha'
    · rw [← List.append_assoc, ← hb]
      exact hb'

theorem hears_append (bot : Bot) (heard more : List (Str × Option Tm)) :
    bot.hears (heard ++ more) = (bot.hears heard).hears more :=
  List.foldl_append

/-- The lines, with the local time at each of them. -/
def timed (localtime : Nat → Option Tm) : List Str → List (Str × Option Tm)
  | [] => []
  | line :: lines => (line, localtime lines.length) :: timed localtime lines

theorem map_timed (localtime : Nat → Option Tm) (lines : List Str) :
    (timed localtime lines).map Prod.fst = lines := by
  induction lines with
  | nil => rfl
  | cons line lines ih => rw [timed, List.map_cons, ih]

/-- The loop over the queue hands its lines over. -/
theorem handleLines_spec (localtime : Nat → Option Tm) : ∀ (lines : List Str) {bot : Bot},
    bot.lineBuffer.lines = lines → handleLines localtime lines.length bot =
      { bot with lineBuffer := { buffer := bot.lineBuffer.buffer } }.hears (timed localtime lines)
  | [], bot, h => by
    rcases bot with ⟨_, _, _, _, _, ⟨buffer, _⟩, _⟩
    cases h
    rfl
  | line :: lines, bot, h => by
    have hpop : bot.lineBuffer.popLine =
        (line, { buffer := bot.lineBuffer.buffer, lines := lines }) := by
      simp [LineBuffer.popLine, h]
    have hline : bot.lineBuffer.hasLine = true := by simp [LineBuffer.hasLine, h]
    rw [List.length_cons, handleLines, if_pos hline, hpop]
    have hkeep := handleMessage_lineBuffer (localtime lines.length) (parse line) bot
    refine (congrArg (handleLines localtime lines.length) (hkeep _)).trans ?_
    rw [handleLines_spec localtime lines rfl, timed, hears_cons]
    exact (congrArg (hears · (timed localtime lines)) (hkeep _)).symm

/-- A read hands over the lines that are complete, and keeps the rest. -/
theorem readFromServer_spec (hlines : bot.lineBuffer.lines = []) {received : Received} {bot' : Bot}
    (h : bot.readFromServer received = some bot') : ∃ chunk, received.recv = some chunk ∧
      bot' = { bot with lineBuffer :=
        { buffer := Framing.rest lf (bot.lineBuffer.buffer ++ chunk) } }.hears
          (timed received.localtime
            ((Framing.lines lf (bot.lineBuffer.buffer ++ chunk)).map stripLine)) := by
  unfold Bot.readFromServer at h
  split at h
  · cases h
  · cases h
  · rename_i chunk _ hchunk
    refine ⟨chunk, hchunk, ?_⟩
    simp only [LineBuffer.append_spec, hlines, List.nil_append] at h
    rw [← Option.some.inj h]
    exact handleLines_spec _ _ rfl

/-- What is flushed comes off the front of the outbox. -/
theorem flushOutput_spec (send : Nat → Nat) : ∀ (n : Nat) {outbox : List Str}, [] ∉ outbox →
    (flushOutput send n outbox).sent ++ (flushOutput send n outbox).outbox.flatten =
        outbox.flatten ∧
      [] ∉ (flushOutput send n outbox).outbox
  | _, [], _ => ⟨rfl, List.not_mem_nil⟩
  | n, line :: outbox, h => by
    rw [List.mem_cons, not_or] at h
    obtain ⟨hsent, hkept⟩ := flushOutput_spec send (n + 1) h.2
    unfold flushOutput
    dsimp only
    split_ifs with hnone hleft
    · exact ⟨rfl, by simpa using h⟩
    · refine ⟨by simp [← List.append_assoc], ?_⟩
      rw [List.mem_cons, not_or]
      exact ⟨Ne.symm hleft, h.2⟩
    · refine ⟨?_, hkept⟩
      rw [List.append_assoc, hsent]
      rfl

/-- When `send` takes something, a byte is sent. -/
theorem length_flushOutput {send : Nat → Nat} (hsend : ∀ n, 0 < send n) :
    ∀ (n : Nat) {outbox : List Str},
    [] ∉ outbox → outbox ≠ [] → (flushOutput send n outbox).failed = false ∧
      (flushOutput send n outbox).outbox.flatten.length < outbox.flatten.length
  | n, [], _, hne => absurd rfl hne
  | n, line :: outbox, h, _ => by
    rw [List.mem_cons, not_or] at h
    have hpos := List.length_pos_iff.2 (Ne.symm h.1)
    have hn := hsend n
    unfold flushOutput
    dsimp only
    rw [if_neg (by omega)]
    split_ifs with hleft
    · simp
      omega
    · by_cases hmore : outbox = []
      · subst hmore
        exact ⟨rfl, by simpa [flushOutput] using hpos⟩
      · obtain ⟨hfailed, hlen⟩ := length_flushOutput hsend (n + 1) h.2 hmore
        refine ⟨hfailed, ?_⟩
        dsimp only
        rw [List.flatten_cons, List.length_append]
        omega

/-- An answer to a text is neither a PONG nor a JOIN. -/
theorem IsAnswer.filter {lines : List Str} (h : ∀ line ∈ lines, IsAnswer timeInfo message line) :
    lines.filter (lit "PONG :").isPrefixOf = [] ∧ lines.filter (lit "JOIN ").isPrefixOf = [] := by
  rw [List.filter_eq_nil_iff, List.filter_eq_nil_iff]
  constructor
  · intro line hline hprefix
    cases h line hline <;> cases hprefix
  · intro line hline hprefix
    cases h line hline <;> cases hprefix

/-- A bot answers every PING, in their order, and joins when it is first welcomed. -/
theorem filter_hears : ∀ (heard : List (Str × Option Tm)) (bot : Bot),
    (bot.hears heard).outbox.filter (lit "PONG :").isPrefixOf =
      bot.outbox.filter (lit "PONG :").isPrefixOf ++
        (heard.filterMap fun line => pinged (parse line.1)).map IrcFormatter.pong ∧
    (bot.hears heard).outbox.filter (lit "JOIN ").isPrefixOf =
      bot.outbox.filter (lit "JOIN ").isPrefixOf ++
        (if !bot.joined && heard.any fun line => (parse line.1).command = lit "001" then
          [IrcFormatter.join bot.channel] else []) ∧
    (bot.hears heard).joined =
      (bot.joined || heard.any fun line => (parse line.1).command = lit "001")
  | [], bot => by simp [hears]
  | (line, timeInfo) :: heard, bot => by
    rw [hears_cons]
    obtain ⟨hpong, hjoin, hjoined⟩ := filter_hears heard (bot.handleMessage timeInfo (parse line))
    rw [hpong, hjoin, hjoined, List.any_cons, List.filterMap_cons]
    rcases handleMessage_cases timeInfo (parse line) with
      ⟨token, hping, hcmd, heq⟩ | ⟨hping, hcmd, heq⟩ | ⟨hping, hcmd, quits, lines, hanswer, heq⟩
    · have hpong : (lit "PONG :").isPrefixOf (IrcFormatter.pong token) = true := rfl
      have hjoin : (lit "JOIN ").isPrefixOf (IrcFormatter.pong token) = false := rfl
      rw [heq, hping, decide_eq_false hcmd, Bool.false_or]
      simp [enqueue, List.filter_append, hpong, hjoin]
      rfl
    · have hpong : (lit "PONG :").isPrefixOf (IrcFormatter.join bot.channel) = false := rfl
      have hjoin : (lit "JOIN ").isPrefixOf (IrcFormatter.join bot.channel) = true := rfl
      rw [heq, hping]
      cases hjoined : bot.joined <;> simp [enqueue, List.filter_append, hcmd, hpong, hjoin, hjoined]
    · obtain ⟨hpong, hjoin⟩ := IsAnswer.filter hanswer
      rw [heq, hping, decide_eq_false hcmd, Bool.false_or]
      simp [List.filter_append, hpong, hjoin]

namespace Session

variable {c : Session} {start : Bot} {heard : List (Str × Option Tm)}

/-- The session sends what `start` says when it hears the lines received, and has the rest in its
outbox. -/
structure Follows (start : Bot) (heard : List (Str × Option Tm)) (c : Session) : Prop where
  lines : heard.map Prod.fst = (Framing.lines lf c.received).map stripLine
  buffer : c.bot.lineBuffer = { buffer := Framing.rest lf c.received }
  same : Same (start.hears heard) c.bot
  stream : c.sent ++ c.bot.outbox.flatten = (start.hears heard).outbox.flatten
  nonempty : [] ∉ c.bot.outbox
  quits : c.stage = .draining ∨ c.stage = .returned → c.bot.running = false
  empty : c.stage = .returned → c.bot.outbox = []

theorem Follows.enter (h : Follows start heard c) {stage : Stage}
    (hquits : stage = .draining ∨ stage = .returned → c.bot.running = false)
    (hempty : stage = .returned → c.bot.outbox = []) :
    Follows start heard { c with stage := stage } :=
  ⟨h.lines, h.buffer, h.same, h.stream, h.nonempty, hquits, hempty⟩

theorem Follows.read (h : Follows start heard c) (hstage : c.stage = .polling)
    (received : Received) : ∃ more, Follows start (heard ++ more) (c.readFromServer received) := by
  unfold Session.readFromServer
  split
  · exact ⟨[], by rw [List.append_nil]; exact h.enter (by simp) (by simp)⟩
  · rename_i bot hbot
    obtain ⟨chunk, hchunk, rfl⟩ := Bot.readFromServer_spec (by rw [h.buffer]) hbot
    rw [h.buffer, hchunk]
    dsimp only [Option.getD_some]
    generalize hlines : Framing.lines lf (Framing.rest lf c.received ++ chunk) = lines
    have hsame : Same (start.hears heard) { c.bot with lineBuffer :=
        { buffer := Framing.rest lf (Framing.rest lf c.received ++ chunk) } } :=
      ⟨h.same.channel, h.same.running, h.same.joined⟩
    obtain ⟨hsame', hbuf, said, hsaid, hideal, hreal⟩ :=
      hsame.hears (timed received.localtime (lines.map stripLine))
    refine ⟨timed received.localtime (lines.map stripLine), ?_, ?_, ?_, ?_, ?_, ?_, ?_⟩
    · rw [List.map_append, h.lines, map_timed, Framing.lines_append, List.map_append, hlines]
    · exact hbuf.trans (congrArg (LineBuffer.mk · []) (Framing.rest_append c.received chunk).symm)
    · rw [hears_append]
      exact hsame'
    · rw [hears_append, hideal, hreal, List.flatten_append, List.flatten_append,
        ← List.append_assoc, h.stream]
    · rw [hreal, List.mem_append, not_or]
      exact ⟨h.nonempty, hsaid⟩
    · simp [hstage]
    · simp [hstage]

theorem stage_readFromServer (c : Session) (received : Received) :
    (c.readFromServer received).stage = .thrown ∨ (c.readFromServer received).stage = c.stage := by
  unfold Session.readFromServer
  split
  · exact .inl rfl
  · exact .inr rfl

theorem Follows.flush (h : Follows start heard c) (hstage : c.stage ≠ .returned)
    (send : Nat → Nat) : Follows start heard (c.flushOutput send) := by
  obtain ⟨hsent, hkept⟩ := flushOutput_spec send 0 h.nonempty
  unfold Session.flushOutput
  dsimp only
  refine ⟨h.lines, h.buffer, ⟨h.same.1, h.same.2, h.same.3⟩, ?_, hkept, ?_, ?_⟩
  · dsimp only
    rw [List.append_assoc, hsent, h.stream]
  · dsimp only
    split_ifs
    · simp
    · exact h.quits
  · dsimp only
    split_ifs
    · simp
    · exact fun hreturned => absurd hreturned hstage

theorem Follows.poll (h : Follows start heard c) (hstage : c.stage = .polling) (p : Pass) :
    ∃ more, Follows start (heard ++ more) (c.poll p) := by
  have hkept : ∃ more, Follows start (heard ++ more) c := ⟨[], by rwa [List.append_nil]⟩
  have hthrown : ∃ more, Follows start (heard ++ more) { c with stage := .thrown } :=
    ⟨[], by rw [List.append_nil]; exact h.enter (by simp) (by simp)⟩
  unfold Session.poll
  split
  · exact hthrown
  · exact hkept
  · rename_i revents _
    by_cases herr : revents.has (POLLERR ||| POLLHUP ||| POLLNVAL) = true
    · rwa [if_pos herr]
    rw [if_neg herr]
    obtain ⟨c', hc'⟩ : ∃ c', (if revents.has POLLIN then c.readFromServer p.received else c) = c' :=
      ⟨_, rfl⟩
    have hread : (∃ more, Follows start (heard ++ more) c') ∧
        (c'.stage = .thrown ∨ c'.stage = .polling) := by
      rw [← hc']
      split_ifs
      · exact ⟨h.read hstage p.received, hstage ▸ c.stage_readFromServer p.received⟩
      · exact ⟨hkept, .inr hstage⟩
    obtain ⟨⟨more, hmore⟩, hstage'⟩ := hread
    dsimp only
    rw [hc']
    split_ifs with hfailed
    · exact ⟨more, hmore⟩
    · refine ⟨more, hmore.flush ?_ p.send⟩
      rw [hstage'.resolve_left hfailed]
      nofun
    · exact ⟨more, hmore⟩

theorem Follows.step (h : Follows start heard c) (p : Pass) :
    ∃ more, Follows start (heard ++ more) (c.step p) := by
  have hkept : ∀ {c'}, Follows start heard c' → ∃ more, Follows start (heard ++ more) c' :=
    fun h => ⟨[], by rwa [List.append_nil]⟩
  unfold Session.step
  split
  · rename_i hstage
    split_ifs with hrunning
    · exact h.poll hstage p
    · exact hkept (h.enter (fun _ => by simpa using hrunning) (by simp))
  · rename_i hstage
    split_ifs with hempty
    · exact hkept (h.enter (fun _ => h.quits (.inl hstage)) fun _ => hempty)
    · exact hkept (h.flush (by simp [hstage]) p.send)
  · exact hkept h
  · exact hkept h

theorem Follows.run : ∀ (passes : List Pass) {heard : List (Str × Option Tm)} {c : Session},
    Follows start heard c → ∃ more, Follows start (heard ++ more) (c.run passes)
  | [], heard, c, h => ⟨[], by rwa [List.append_nil]⟩
  | p :: passes, heard, c, h => by
    obtain ⟨more, hmore⟩ := h.step p
    obtain ⟨more', hmore'⟩ := Follows.run passes hmore
    exact ⟨more ++ more', by rw [← List.append_assoc]; exact hmore'⟩

theorem follows_start (password channel nickname : Str) :
    Follows (Session.start password channel nickname).bot []
      (Session.start password channel nickname) := by
  refine ⟨rfl, ?_, ⟨rfl, rfl, rfl⟩, rfl, ?_, by simp [Session.start], by simp [Session.start]⟩
  · unfold Session.start enqueueRegistration
    dsimp only
    split_ifs <;> rfl
  · unfold Session.start enqueueRegistration
    dsimp only
    split_ifs <;> simp [enqueue, IrcFormatter.pass, IrcFormatter.nick, IrcFormatter.user, lit]

/-- A bot that quits reads nothing more. -/
theorem step_of_quits (h : c.bot.running = false) (p : Pass) :
    (c.step p).bot.running = false ∧ (c.step p).received = c.received := by
  unfold Session.step
  split
  · rw [h]
    exact ⟨h, rfl⟩
  · split_ifs <;> exact ⟨h, rfl⟩
  · exact ⟨h, rfl⟩
  · exact ⟨h, rfl⟩

theorem run_of_quits : ∀ (passes : List Pass) {c : Session}, c.bot.running = false →
    (c.run passes).received = c.received
  | [], _, _ => rfl
  | p :: passes, _, h => by
    obtain ⟨hquits, hreceived⟩ := step_of_quits h p
    exact (run_of_quits passes hquits).trans hreceived

theorem run_returned (h : c.stage = .returned) : ∀ passes, c.run passes = c
  | [] => rfl
  | p :: passes => by
    have hstep : c.step p = c := by
      unfold Session.step
      rw [h]
    rw [run, List.foldl_cons, hstep]
    exact run_returned h passes

/-- Every pass of the last loop sends something. -/
theorem run_draining : ∀ (passes : List Pass) {heard : List (Str × Option Tm)} {c : Session},
    Follows start heard c → c.stage = .draining → (∀ p ∈ passes, ∀ n, 0 < p.send n) →
      c.bot.outbox.flatten.length < passes.length → (c.run passes).stage = .returned
  | [], _, _, _, _, _, hlen => absurd hlen (Nat.not_lt_zero _)
  | p :: passes, heard, c, h, hstage, hsend, hlen => by
    rw [List.forall_mem_cons] at hsend
    by_cases hempty : c.bot.outbox = []
    · have hstep : c.step p = { c with stage := .returned } := by
        simp only [Session.step, hstage, if_pos hempty]
      rw [run, List.foldl_cons, hstep]
      exact congrArg Session.stage (run_returned rfl passes)
    · have hstep : c.step p = c.flushOutput p.send := by
        simp only [Session.step, hstage, if_neg hempty]
      obtain ⟨hfailed, hless⟩ := length_flushOutput hsend.1 0 h.nonempty hempty
      rw [run, List.foldl_cons, hstep]
      refine run_draining passes (h.flush (by simp [hstage]) p.send) ?_ hsend.2 ?_
      · simp [Session.flushOutput, hfailed, hstage]
      · rw [List.length_cons] at hlen
        dsimp only [Session.flushOutput]
        omega

theorem Follows.run_of_quits (h : Follows start heard c) (hquits : c.bot.running = false)
    (hstage : c.stage ≠ .thrown) {passes : List Pass} (hsend : ∀ p ∈ passes, ∀ n, 0 < p.send n)
    (hlen : c.bot.outbox.flatten.length + 1 < passes.length) :
    (c.run passes).stage = .returned := by
  cases hc : c.stage with
  | thrown => exact absurd hc hstage
  | returned => rw [run_returned hc, hc]
  | draining => exact run_draining passes h hc hsend (by omega)
  | polling =>
    cases passes with
    | nil => cases hlen
    | cons p passes =>
      have hstep : c.step p = { c with stage := .draining } := by
        simp [Session.step, hc, hquits]
      rw [Session.run, List.foldl_cons, hstep]
      refine run_draining passes (h.enter (fun _ => hquits) (by simp)) rfl
        (fun p hp => hsend p (List.mem_cons_of_mem _ hp)) ?_
      rw [List.length_cons] at hlen
      dsimp only
      omega

/-- What the bot sends and has in its outbox is what it would say if it heard the lines received one
after the other: a PONG for every PING that has a parameter, and one JOIN. When it quits, nothing
more is read, and if `send` takes bytes everything is sent. -/
theorem run_spec (password channel nickname : Str) (passes : List Pass) :
    let start := Session.start password channel nickname
    let c := start.run passes
    ∃ heard : List (Str × Option Tm),
      heard.map Prod.fst = (Framing.lines lf c.received).map stripLine ∧
      let said := (start.bot.hears heard).outbox
      c.sent ++ c.bot.outbox.flatten = said.flatten ∧
      said.filter (lit "PONG :").isPrefixOf =
        (heard.filterMap fun line => pinged (parse line.1)).map IrcFormatter.pong ∧
      (said.filter (lit "JOIN ").isPrefixOf =
        if heard.any fun line => (parse line.1).command = lit "001" then [IrcFormatter.join channel]
        else []) ∧
      (c.stage = .returned → c.sent = said.flatten ∧ c.bot.running = false) ∧
      (c.bot.running = false → ∀ more, (c.run more).received = c.received ∧
        (c.stage ≠ .thrown → (∀ p ∈ more, ∀ n, 0 < p.send n) →
          c.bot.outbox.flatten.length + 1 < more.length → (c.run more).stage = .returned)) := by
  intro start c
  obtain ⟨heard, h⟩ := (follows_start password channel nickname).run passes
  rw [List.nil_append] at h
  obtain ⟨hpong, hjoin, -⟩ := filter_hears heard start.bot
  have hnone : start.bot.outbox.filter (lit "PONG :").isPrefixOf = [] ∧
      start.bot.outbox.filter (lit "JOIN ").isPrefixOf = [] ∧ start.bot.joined = false ∧
      start.bot.channel = channel := by
    simp only [start, Session.start, enqueueRegistration]
    split_ifs <;> exact ⟨rfl, rfl, rfl, rfl⟩
  refine ⟨heard, h.lines, h.stream, ?_, ?_, fun hreturned => ?_, fun hquits more => ?_⟩
  · rw [hpong, hnone.1]
    rfl
  · rw [hjoin, hnone.2.1, hnone.2.2.1, hnone.2.2.2]
    rfl
  · refine ⟨?_, h.quits (.inr hreturned)⟩
    rw [← h.stream, h.empty hreturned, List.flatten_nil, List.append_nil]
  · exact ⟨Session.run_of_quits more hquits,
      fun hstage hsend hlen => h.run_of_quits hquits hstage hsend hlen⟩

/-- A bot that is told to quit says all that it has to and returns. Of the two PINGs that it heard
before only one has a parameter. -/
theorem run_spec_returned : ∃ passes : List Pass,
    let c := (Session.start [] (lit "#b") (lit "bot")).run passes
    c.stage = .returned ∧ c.received = lit "PING\r\nPING :x\r\n:a PRIVMSG bot :!quit\r\n" ∧
      c.sent = lit "NICK bot\r\nUSER bot 0 * :ft_irc bonus bot\r\nPONG :x\r\n" ++
        lit "QUIT :bonus bot shutting down\r\nPRIVMSG a :bye\r\n" ∧ c.bot.running = false := by
  let passes : List Pass :=
    [{ poll := .ready (POLLIN ||| POLLOUT), received := { recv := some (lit "PING\r\nPI") },
       send := fun _ => 20 },
     { poll := .ready POLLIN,
       received := { recv := some (lit "NG :x\r\n:a PRIVMSG bot :!quit\r\n") } },
     {}, { send := fun _ => 100 }, {}]
  have hstage : ((Session.start [] (lit "#b") (lit "bot")).run passes).stage = .returned := by
    decide +kernel
  exact ⟨passes, hstage, by decide +kernel, by decide +kernel,
    ((run_spec [] (lit "#b") (lit "bot") passes).choose_spec.2.2.2.2.1 hstage).2⟩

end Session

end Bot

end Ircserv
