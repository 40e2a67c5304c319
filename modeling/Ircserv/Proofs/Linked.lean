import Ircserv.Proofs.BotLoop
import Ircserv.Proofs.ModeViews
import Ircserv.Proofs.Shutdown

/-!
# The bot and the server

The bot's session and the server at the two ends of a connection (`Linked`). They take their steps
in any order, among other clients, and what one end has received is the front of what the other has
sent. Then the server handles the lines of the bot and the bot those of the server, in their order,
and the two agree (`Linked.agree`): a bot that joins is registered, and the server has it in no
channel but its own.
-/

open Std

namespace Ircserv

open ReplyBuilder Ircserv.Parser Ircserv.Bot ChannelCommandHandler

variable {line text : Str} {timeInfo : Option Tm} {message : Message}

/-! ### What a bot can say -/

/-- A line without a prefix. -/
theorem Parser.parse_bare {command rest : Str} (hcommand : IsToken command)
    (hrest : EndsToken rest) : parse (command ++ rest ++ crlf) =
      { sender := [], command := upperCommand command, params := readParams rest.length rest } :=
  parse_eq (removeIrcLineTerminator_crlf _)
    (readPrefix_word hcommand.ne_nil hcommand.space hcommand.colon 0 rest) hcommand.ne_nil
      hcommand.space hrest

/-- A line without a prefix, and with one parameter. -/
theorem Parser.parse_bare_token {command token : Str} (hcommand : IsToken command)
    (htoken : IsToken token) : parse (command ++ lit " " ++ token ++ crlf) =
      { sender := [], command := upperCommand command, params := [token] } := by
  have hshape : command ++ lit " " ++ token ++ crlf = command ++ spaced [token] ++ crlf := by
    simp [spaced, show lit " " = [chr ' '] from rfl]
  have hread := readParams_spaced [token] (spaced [token]).length [] (by simpa using htoken)
    (by simp [EndsToken])
    (length_le_spaced [token])
  rw [List.append_nil, readParams_nil, List.append_nil] at hread
  have hend : EndsToken (spaced [token]) := by simpa [spaced] using endsToken_space token
  rw [hshape, parse_bare hcommand hend, hread]

theorem Parser.sender_subset (line : Str) : (parse line).sender ⊆ line := by
  have hline : removeIrcLineTerminator line ⊆ line := by
    rw [removeIrcLineTerminator]
    split_ifs
    · exact List.take_subset _ _
    · exact List.Subset.refl _
  have hread : ∀ {input sender rest : Str}, readPrefix input = some (sender, rest) →
      sender ⊆ input := by
    intro input sender rest h
    have hskip := (skipSeparators_sublist input).subset
    unfold readPrefix at h
    split at h
    · cases h
      exact List.nil_subset _
    · rename_i c tail heq
      rw [heq] at hskip
      split_ifs at h
      · cases h
        exact List.nil_subset _
      · have htoken := (readToken_sublist tail).1.subset
        generalize readToken tail = r at h htoken
        obtain ⟨token, after⟩ := r
        dsimp only at h
        split_ifs at h
        cases h
        exact List.Subset.trans htoken (List.Subset.trans (List.subset_cons_self _ _) hskip)
  unfold parse
  dsimp only
  split
  · exact List.nil_subset _
  · rename_i sender input heq
    split_ifs
    · exact List.nil_subset _
    · exact List.Subset.trans (hread heq) hline

theorem lf_not_mem_intToString (n : Int) : lf ∉ intToString n := by
  have hnat : ∀ k : Nat, lf ∉ intToString k := fun k h =>
    absurd ((intToString_spec (Int.natCast_nonneg k)).2.1 lf h) (by decide)
  rcases n with k | k
  · exact hnat k
  · rw [intToString_negSucc, List.mem_cons, not_or]
    exact ⟨by decide, hnat (k + 1)⟩

theorem lf_not_mem_currentTimeText (timeInfo : Option Tm) : lf ∉ currentTimeText timeInfo := by
  have hnum := lf_not_mem_intToString
  have htwo : ∀ n, lf ∉ twoDigits n := by
    intro n
    unfold twoDigits
    split_ifs
    · rw [List.mem_append, not_or]
      exact ⟨by decide, hnum n⟩
    · exact hnum n
  have hmarks : lf ∉ lit "-" ∧ lf ∉ lit " " ∧ lf ∉ lit ":" ∧ lf ∉ lit "time unavailable" := by
    decide
  unfold currentTimeText
  split
  · exact hmarks.2.2.2
  · split_ifs
    · exact hmarks.2.2.2
    · simp only [Tm.text, List.mem_append, not_or]
      exact ⟨⟨⟨⟨⟨⟨⟨⟨⟨⟨hnum _, hmarks.1⟩, htwo _⟩, hmarks.1⟩, htwo _⟩, hmarks.2.1⟩, htwo _⟩,
        hmarks.2.2.1⟩, htwo _⟩,
        hmarks.2.2.1⟩, htwo _⟩

theorem framed_inLine {body : Str} (h : lf ∉ body) : Framed inLine (body ++ crlf) :=
  ⟨body, rfl, over_inLine_iff.2 h⟩

/-- The answers to a line are lines. -/
theorem Bot.IsAnswer.framed (h : IsAnswer timeInfo (parse line) text) (hlf : lf ∉ line) :
    Framed inLine text := by
  have hparam : ∀ i, lf ∉ (parse line).getSingleParam i := fun i =>
    over_inLine_iff.1 (((over_inLine_iff.2 hlf).within (parse_within line)).param i)
  cases h with
  | reply =>
    have htarget : lf ∉ replyTarget (parse line) := by
      have hsender : lf ∉ (parse line).sender := fun h => hlf (sender_subset line h)
      have hnick : lf ∉ senderNick (parse line).sender := by
        unfold senderNick
        split
        · exact fun h => hsender (List.mem_of_mem_take h)
        · split
          · exact fun h => hsender (List.mem_of_mem_take h)
          · exact hsender
      unfold replyTarget
      dsimp only
      split_ifs
      · exact hparam 0
      · exact hnick
    have hreply : lf ∉ (buildCommandReply timeInfo {} ((parse line).getSingleParam 1)).1 := by
      rcases buildCommandReply_cases timeInfo {}
        ((parse line).getSingleParam 1) with hfixed | ⟨-, hecho⟩ | ⟨-, htime⟩
      · have hall : ∀ reply ∈ fixedReplies, lf ∉ reply := by decide
        exact hall _ hfixed
      · rw [hecho]
        exact fun h => hparam 1 (List.mem_of_mem_drop h)
      · rw [htime]
        exact lf_not_mem_currentTimeText timeInfo
    refine framed_inLine ?_
    simp only [List.mem_append, not_or]
    exact ⟨⟨⟨⟨by decide, by decide⟩, htarget⟩, by decide⟩, hreply⟩
  | quit => exact framed_inLine (by decide)

/-- The lines that a bot can say. -/
inductive Bot.Saying (password channel nickname : Str) : Str → Prop
  | pass : Saying password channel nickname (IrcFormatter.pass password)
  | nick : Saying password channel nickname (IrcFormatter.nick nickname)
  | user : Saying password channel nickname (IrcFormatter.user nickname (lit "ft_irc bonus bot"))
  | pong {token : Str} (h : lf ∉ token) : Saying password channel nickname (IrcFormatter.pong token)
  | join : Saying password channel nickname (IrcFormatter.join channel)
  | answer {timeInfo : Option Tm} {line text : Str} (h : IsAnswer timeInfo (parse line) text)
      (hlf : lf ∉ line) : Saying password channel nickname text

namespace Bot.Saying

variable {password channel nickname : Str}

theorem framed (h : Saying password channel nickname text) (hpassword : lf ∉ password)
    (hchannel : lf ∉ channel) (hnickname : lf ∉ nickname) : Framed inLine text := by
  cases h with
  | pass =>
    refine framed_inLine ?_
    simp only [List.mem_append, not_or]
    exact ⟨by decide, hpassword⟩
  | nick =>
    refine framed_inLine ?_
    simp only [List.mem_append, not_or]
    exact ⟨by decide, hnickname⟩
  | user =>
    refine framed_inLine ?_
    simp only [List.mem_append, not_or]
    exact ⟨⟨⟨by decide, hnickname⟩, by decide⟩, by decide⟩
  | pong h =>
    refine framed_inLine ?_
    simp only [List.mem_append, not_or]
    exact ⟨by decide, h⟩
  | join =>
    refine framed_inLine ?_
    simp only [List.mem_append, not_or]
    exact ⟨by decide, hchannel⟩
  | answer h hlf => exact h.framed hlf

/-- A line that registers or joins is the one of the formatter. -/
theorem of_word (h : Saying password channel nickname text) :
    (wordOf text = lit "PASS" → text = IrcFormatter.pass password) ∧
      (wordOf text = lit "NICK" → text = IrcFormatter.nick nickname) ∧
      (wordOf text = lit "JOIN" → text = IrcFormatter.join channel) := by
  have hword : ∀ {command : String} {rest : Str}, IsToken (lit command) →
      text = lit command ++ (chr ' ' :: rest) ++ crlf →
      wordOf text = upperCommand (lit command) := by
    rintro command rest hcommand rfl
    rw [wordOf, parse_bare hcommand (endsToken_space rest)]
  have hother : ∀ {word : Str}, wordOf text = word → word ∉ [lit "PASS", lit "NICK", lit "JOIN"] →
      (wordOf text = lit "PASS" → text = IrcFormatter.pass password) ∧
        (wordOf text = lit "NICK" → text = IrcFormatter.nick nickname) ∧
        (wordOf text = lit "JOIN" → text = IrcFormatter.join channel) := by
    rintro word rfl hnot
    exact ⟨fun h => absurd (by simp [h]) hnot, fun h => absurd (by simp [h]) hnot,
      fun h => absurd (by simp [h]) hnot⟩
  cases h with
  | pass =>
    have hpass : wordOf _ = lit "PASS" := @hword "PASS" password (by decide) rfl
    rw [hpass]
    exact ⟨fun _ => rfl, fun h => absurd h (by decide), fun h => absurd h (by decide)⟩
  | nick =>
    have hnick : wordOf _ = lit "NICK" := @hword "NICK" nickname (by decide) rfl
    rw [hnick]
    exact ⟨fun h => absurd h (by decide), fun _ => rfl, fun h => absurd h (by decide)⟩
  | join =>
    have hjoin : wordOf _ = lit "JOIN" := @hword "JOIN" channel (by decide) rfl
    rw [hjoin]
    exact ⟨fun h => absurd h (by decide), fun h => absurd h (by decide), fun _ => rfl⟩
  | user =>
    have hshape : IrcFormatter.user nickname (lit "ft_irc bonus bot") = lit "USER" ++
        (chr ' ' :: (nickname ++ lit " 0 * :" ++ lit "ft_irc bonus bot")) ++ crlf := by
      simp [IrcFormatter.user, lit]
    exact hother (hword (by decide) hshape) (by decide)
  | @pong token => exact hother (@hword "PONG" (chr ':' :: token) (by decide) rfl) (by decide)
  | answer h hlf =>
    cases h with
    | reply =>
      have hshape : ∀ target reply, IrcFormatter.privmsg target reply =
          lit "PRIVMSG" ++ (chr ' ' :: (target ++ lit " :" ++ reply)) ++ crlf := by
        simp [IrcFormatter.privmsg, IrcFormatter.commandWithTrailing, lit]
      exact hother (hword (by decide) (hshape _ _)) (by decide)
    | quit => exact hother rfl (by decide)

/-- Everything a bot says is one of these lines. -/
theorem hears (password channel nickname : Str) : ∀ (heard : List (Str × Option Tm)) {bot : Bot},
    (∀ line ∈ heard, lf ∉ line.1) → bot.channel = channel →
    (∀ l ∈ bot.outbox, Saying password channel nickname l) →
      ∀ l ∈ (bot.hears heard).outbox, Saying password channel nickname l
  | [], _, _, _, h => h
  | (line, timeInfo) :: heard, bot, hlf, hchannel, h => by
    rw [List.forall_mem_cons] at hlf
    rw [hears_cons]
    rcases handleMessage_cases timeInfo (parse line) with
      ⟨token, hping, -, heq⟩ | ⟨-, -, heq⟩ | ⟨-, -, quits, lines, hanswer, heq⟩
    · have htoken : lf ∉ token := by
        unfold pinged at hping
        split_ifs at hping
        cases hping
        exact over_inLine_iff.1 (((over_inLine_iff.2 hlf.1).within (parse_within _)).param 0)
      refine hears password channel nickname heard hlf.2 ?_ ?_
      · rw [heq]
        exact hchannel
      · rw [heq]
        exact List.forall_mem_append.2 ⟨h, List.forall_mem_singleton.2 (.pong htoken)⟩
    · refine hears password channel nickname heard hlf.2 ?_ ?_
      · rw [heq]
        split_ifs <;> exact hchannel
      · rw [heq]
        split_ifs
        · exact h
        · exact List.forall_mem_append.2 ⟨h, List.forall_mem_singleton.2 (hchannel ▸ .join)⟩
    · refine hears password channel nickname heard hlf.2 ?_ ?_
      · rw [heq]
        exact hchannel
      · rw [heq]
        exact List.forall_mem_append.2 ⟨h, fun l hl => .answer (hanswer l hl) hlf.1⟩

theorem start (password channel nickname : Str) :
    ∀ l ∈ (Bot.Session.start password channel nickname).bot.outbox,
    Saying password channel nickname l := by
  unfold Bot.Session.start enqueueRegistration
  dsimp only
  split_ifs
  · simp only [enqueue, List.nil_append, List.cons_append, List.forall_mem_cons]
    exact ⟨.nick, .user, by simp⟩
  · simp only [enqueue, List.nil_append, List.cons_append, List.forall_mem_cons]
    exact ⟨.pass, .nick, .user, by simp⟩

end Bot.Saying

/-! ### What the server has of a client since it arrived -/

section Turns

open ServerState

variable {s s' : ServerState} {p q : Addr} {fd g : Fd} {n : Str} {t : Turn} {during : List Turn}

/-- The welcome is the reply of a command that has its sender registered. -/
theorem Outcome.welcomed_of_word {addr : Addr} {msg : Message} {r : CommandResult} (h : Orderly s)
    (hp : p ∈ s.client.objects) (ho : Outcome addr g msg s p r s') {m : OutgoingMessage}
    (hm : m ∈ r.replies) (hword : wordOf m.message = lit "001") :
    m.fd = (s.clientAt p).fd ∧ (s'.clientAt p).registered = true := by
  have hcommand : msg.command ∈ [lit "NICK", lit "USER"] :=
    ho.command_of_word [lit "001"] [lit "NICK", lit "USER"] (by decide) (by decide) h hm
      (List.mem_singleton.2 hword)
  have hother : ∀ command : String, msg.command = lit command →
      lit command ∉ [lit "NICK", lit "USER"] → False :=
    fun _ heq hnot => hnot (heq ▸ hcommand)
  have enrolled : ∀ s₁ : ServerState, p ∈ s₁.client.objects →
      (s₁.clientAt p).fd = (s.clientAt p).fd →
      m ∈ (CommandDispatcher.maybeRegister p {} s₁).1.replies → m.fd = (s.clientAt p).fd ∧
        ((CommandDispatcher.maybeRegister p {} s₁).2.clientAt p).registered = true := by
    intro s₁ hp₁ hfd hm
    rcases maybeRegister_welcome hp₁ with ⟨hr, -⟩ | ⟨hr, -, hreg⟩
    · rw [hr] at hm
      cases hm
    · rw [hr] at hm
      cases List.mem_singleton.1 hm
      exact ⟨hfd, hreg⟩
  cases ho with
  | silent | pass | quit => cases hm
  | refused he =>
    cases List.mem_singleton.1 hm
    have herror := wordOf_error he.error
    rw [hword] at herror
    exact absurd herror (by decide)
  | answered ha =>
    cases ha with
    | pong hcmd => exact (hother "PING" hcmd (by decide)).elim
    | modes hcmd => exact (hother "MODE" hcmd (by decide)).elim
    | noTopic hcmd | topic hcmd => exact (hother "TOPIC" hcmd (by decide)).elim
  | nick _ _ _ hs' =>
    obtain ⟨hp₁, hat⟩ := clientAt_updateNick hp hs'
    exact enrolled _ hp₁ (by rw [hat]; rfl) hm
  | user _ _ _ _ hs' =>
    refine enrolled _ (by simpa [hs'] using hp) ?_ hm
    simp [hs', hp, Client.setRealname, Client.setUsername]
  | join hcmd => exact (hother "JOIN" hcmd (by decide)).elim
  | part hcmd => exact (hother "PART" hcmd (by decide)).elim
  | textChannel hcmd hor | textNick hcmd hor =>
    rcases hor with rfl | rfl
    · exact (hother "PRIVMSG" hcmd (by decide)).elim
    · exact (hother "NOTICE" hcmd (by decide)).elim
  | kick hcmd => exact (hother "KICK" hcmd (by decide)).elim
  | invite hcmd => exact (hother "INVITE" hcmd (by decide)).elim
  | topic hcmd => exact (hother "TOPIC" hcmd (by decide)).elim
  | mode hcmd | oper hcmd => exact (hother "MODE" hcmd (by decide)).elim

/-- What a client that has arrived as `p` can tell of itself by the commands it gave and the lines
it was sent. -/
structure Told (s : ServerState) (p : Addr) (commands : List Message)
    (lines : List Str) : Prop where
  welcomed : (∃ l ∈ lines, wordOf l = lit "001") → (s.clientAt p).registered = true
  pass : (s.clientAt p).passOk = true →
    ∃ msg ∈ commands, msg.command = lit "PASS" ∧ msg.getSingleParam 0 = s.password
  nick : (s.clientAt p).nickname = [] ∨
    ∃ msg ∈ commands, msg.command = lit "NICK" ∧ msg.getSingleParam 0 = (s.clientAt p).nickname
  rooms : ∀ n, s.InRoom p n →
    ∃ msg ∈ commands, msg.command = lit "JOIN" ∧ caseFold (msg.getSingleParam 0) = caseFold n

theorem commandsOf_command {addr : Addr} {now : Time} {monitor : Option ConnectionHealthMonitor} :
    commandsOf fd [.command addr now fd msg monitor] = [msg] := by
  simp [commandsOf, Turn.mark, Mark.commandOf]

/-- The password and the nickname that a client has are among what it gave. -/
theorem Told.gave {commands : List Message} {lines : List Str} (hs : Told s p commands lines)
    (h : Orderly s) (hp : s.getClientByFd fd = some p) (hstay : t.isDepartureOf fd = false) :
    (((s.act t.action).clientAt p).passOk = true → ∃ msg ∈ commands ++ commandsOf fd [t],
        msg.command = lit "PASS" ∧ msg.getSingleParam 0 = s.password) ∧
      (((s.act t.action).clientAt p).nickname = [] ∨ ∃ msg ∈ commands ++ commandsOf fd [t],
        msg.command = lit "NICK" ∧
        msg.getSingleParam 0 = ((s.act t.action).clientAt p).nickname) := by
  have hpassKept : ((s.act t.action).clientAt p).passOk = (s.clientAt p).passOk →
      ((s.act t.action).clientAt p).passOk = true → ∃ msg ∈ commands ++ commandsOf fd [t],
        msg.command = lit "PASS" ∧ msg.getSingleParam 0 = s.password := by
    rintro hsame hpass
    obtain ⟨msg, hmsg, hgave⟩ := hs.pass (hsame.symm.trans hpass)
    exact ⟨msg, List.mem_append_left _ hmsg, hgave⟩
  have hnickKept : ((s.act t.action).clientAt p).nickname = (s.clientAt p).nickname →
      ((s.act t.action).clientAt p).nickname = [] ∨ ∃ msg ∈ commands ++ commandsOf fd [t],
        msg.command = lit "NICK" ∧
        msg.getSingleParam 0 = ((s.act t.action).clientAt p).nickname := by
    intro hsame
    rw [hsame]
    refine hs.nick.imp_right fun hgiven => ?_
    obtain ⟨msg, hmsg, hgave⟩ := hgiven
    exact ⟨msg, List.mem_append_left _ hmsg, hgave⟩
  cases hown : t.isCommandOf fd with
  | false =>
    obtain ⟨⟨cs, hcs⟩, -⟩ := act_other h.wf h.registration hp hown hstay
    exact ⟨hpassKept (by rw [hcs]), hnickKept (by rw [hcs])⟩
  | true =>
    obtain ⟨addr, now, msg, monitor, rfl⟩ := Turn.eq_command hown
    obtain ⟨hlive, -⟩ := h.wf.links.fdOwner fd p hp
    obtain ⟨c, cs, hc, hs'⟩ :=
      (CommandDispatcher.dispatchWith_outcome addr now msg monitor hp).own hlive
    have hgave : msg ∈ commands ++ commandsOf fd [.command addr now fd msg monitor] := by
      rw [commandsOf_command]
      exact List.mem_append_right _ (List.mem_singleton_self msg)
    have hpass : ((s.act (.dispatch addr now fd msg monitor)).clientAt p).passOk = c.passOk := by
      rw [act, hs']
    have hnick : ((s.act (.dispatch addr now fd msg monitor)).clientAt p).nickname =
        c.nickname := by
      rw [act, hs']
    cases hc with
    | kept => exact ⟨hpassKept hpass, hnickKept hnick⟩
    | pass hcmd _ _ hpw => exact ⟨fun _ => ⟨msg, hgave, hcmd, hpw⟩, hnickKept hnick⟩
    | user =>
      rw [Client.enroll_data] at hpass hnick
      exact ⟨hpassKept hpass, hnickKept hnick⟩
    | nick hcmd =>
      rw [Client.enroll_data] at hpass hnick
      exact ⟨hpassKept hpass, .inr ⟨msg, hgave, hcmd, hnick.symm⟩⟩

/-- A client that a turn welcomes is registered after it. -/
theorem registered_of_welcome (h : Orderly s) (hp : s.getClientByFd fd = some p) {l : Str}
    (hl : l ∈ linesTo fd (t.result s).replies) (hword : wordOf l = lit "001") :
    ((s.act t.action).clientAt p).registered = true := by
  have hw := h.wf
  obtain ⟨m, hm, rfl⟩ := List.mem_map.1 hl
  obtain ⟨hm, hmfd⟩ := List.mem_filter.1 hm
  rw [decide_eq_true_eq] at hmfd
  rcases turn_cases s t with ⟨-, hres⟩ | ⟨addr, g, host, rfl, -⟩ |
    ⟨addr, now, g, msg, monitor, q, rfl, hg, ho⟩ | ⟨g, reason, q, rfl, hg⟩
  · rw [hres] at hm
    cases hm
  · cases hm
  · obtain ⟨hqlive, hqfd⟩ := hw.links.fdOwner g q hg
    obtain ⟨hto, hreg⟩ := ho.welcomed_of_word h hqlive hm hword
    have hgf : g = fd := hqfd.symm.trans (hto.symm.trans hmfd)
    subst hgf
    cases hg.symm.trans (show s.client.fdToClient[g]? = some p from hp)
    exact hreg
  · obtain ⟨fds, hb, -, hmem⟩ := DisconnectNotifier.build_spec hw.links hg reason
    rw [Turn.result, hb] at hm
    obtain ⟨f, hf, rfl⟩ := List.mem_map.1 hm
    obtain ⟨r, ⟨-, a, hqa, -⟩, -⟩ := (hmem f).1 hf
    have hword' : wordOf (quit (s.clientAt q).getFullPrefix reason) = lit "001" := hword
    have hplain := h.plain (h.registration.members q _ (inRoom_of_mem hw.links hqa))
    rw [wordOf_quit hplain] at hword'
    exact absurd hword' (by decide)

/-- What a turn does to a client that stays. -/
theorem Told.turn {commands : List Message} {lines : List Str} (hs : Told s p commands lines)
    (h : Orderly s) (hp : s.getClientByFd fd = some p) (hstay : t.isDepartureOf fd = false) :
    Told (s.act t.action) p (commands ++ commandsOf fd [t])
      (lines ++ linesTo fd (t.result s).replies) := by
  obtain ⟨hpass, hnick⟩ := hs.gave h hp hstay
  refine ⟨?_, ?_, hnick, fun n hin => ?_⟩
  · rintro ⟨l, hl, hword⟩
    rcases List.mem_append.1 hl with hl | hl
    · have hreg := (registration_turn h.wf h.registration hp hstay).1
      rw [hs.welcomed ⟨l, hl, hword⟩] at hreg
      cases hreg' : ((s.act t.action).clientAt p).registered with
      | true => rfl
      | false => simp [hreg'] at hreg
    · exact registered_of_welcome h hp hl hword
  · rw [act_password]
    exact hpass
  · have hp' := getClientByFd_act h.wf hp hstay
    by_cases hjoin : Joins p n s t.action
    · obtain ⟨addr, now, msg, monitor, rfl⟩ := Turn.eq_command (hjoin.own h.wf hp')
      obtain ⟨-, hcmd, hfold, -⟩ := hjoin
      refine ⟨msg, ?_, hcmd, hfold⟩
      rw [commandsOf_command]
      exact List.mem_append_right _ (List.mem_singleton_self msg)
    · obtain ⟨-, hin₀, -⟩ := inRoom_before h.wf hp' hin hjoin
      obtain ⟨msg, hmsg, hj⟩ := hs.rooms n hin₀
      exact ⟨msg, List.mem_append_left _ hmsg, hj⟩

theorem Told.play : ∀ (during : List Turn) {s : ServerState} {commands : List Message}
    {lines : List Str},
    Told s p commands lines → Orderly s → (∀ t ∈ during, t.Real) → s.getClientByFd fd = some p →
    (∀ t ∈ during, t.isDepartureOf fd = false) →
      Told (s.play during) p (commands ++ commandsOf fd during)
        (lines ++ linesTo fd (s.traffic during))
  | [], s, commands, lines, hs, _, _, _, _ => by
    have hnone : commandsOf fd [] = [] ∧ linesTo fd (s.traffic []) = [] := ⟨rfl, rfl⟩
    rwa [hnone.1, hnone.2, List.append_nil, List.append_nil]
  | t :: during, s, commands, lines, hs, h, hreal, hp, hstay => by
    rw [List.forall_mem_cons] at hreal hstay
    have hturn := hs.turn h hp hstay.1
    have hrest := Told.play during hturn (h.turn hreal.1) hreal.2
      (getClientByFd_act h.wf hp hstay.1) hstay.2
    have hcommands : commandsOf fd (t :: during) = commandsOf fd [t] ++ commandsOf fd during := by
      rw [commandsOf, commandsOf, commandsOf, ← List.filterMap_append, List.singleton_append]
    rw [hcommands, traffic, linesTo_append, ← List.append_assoc, ← List.append_assoc]
    exact hrest

/-- What a client can tell of itself, by what came and went since it arrived. -/
theorem SinceArrival.told (password : Str) {turns : List Turn} (hreal : ∀ t ∈ turns, t.Real)
    {commands : List Message} {lines : List Str}
    (hsince : SinceArrival { password := password } fd turns commands lines)
    (hp : (ServerState.play { password := password } turns).getClientByFd fd = some p) :
    Told (ServerState.play { password := password } turns) p commands lines := by
  obtain ⟨before, addr, host, during, rfl, hlife, rfl, rfl⟩ := hsince
  have hshift : before ++ .arrive addr fd host :: during =
      (before ++ [.arrive addr fd host]) ++ during := by simp
  have hbefore : Orderly (ServerState.play { password := password } before) :=
    (Orderly.start password).play before fun u hu => hreal u (List.mem_append_left _ hu)
  have harrived :
      Orderly (ServerState.play { password := password } (before ++ [.arrive addr fd host])) := by
    rw [play_concat]
    exact hbefore.turn (hreal _ (by simp))
  obtain ⟨-, -, -, q, hq, hnew⟩ := hlife.arrived addr host
  have hq' : (ServerState.play { password := password }
    (before ++ [.arrive addr fd host])).getClientByFd fd =
      some q := by
    rw [play_concat]
    exact hq
  have hat : (ServerState.play { password := password }
    (before ++ [.arrive addr fd host])).clientAt q =
      { host := host, fd := fd } := by
    rw [play_concat]
    exact hnew
  rw [hshift, play_append] at hp ⊢
  cases hp.symm.trans (getClientByFd_play hlife.stays harrived.wf hq')
  have hstart : Told (ServerState.play { password := password } (before ++ [.arrive addr fd host]))
    p [] [] := by
    refine ⟨by simp, by simp [hat], .inl (by rw [hat]), fun n hin => ?_⟩
    rw [play_concat] at hin hq'
    exact absurd hin (not_inRoom_arrived hbefore.wf hlife.free hq')
  exact hstart.play during harrived (fun u hu => hreal u (by simp [hu])) hq' hlife.stays

end Turns

/-! ### The two ends -/

/-- A run of the server, with what `accept` gives: a descriptor that is free, and a printed address.
-/
structure Served (listenFd : Fd) (password : Str) (inputs : List Input) : Prop where
  fresh : (Machine.start listenFd password).FreshRun inputs
  real : ∀ inp ∈ inputs, inp.Real
  dotted : ∀ inp ∈ inputs, inp.Dotted

/-- The inputs of the server and the bot's session, from the accept of the bot's connection on. Each
step is one of the server's, which keeps the connection, or one of the bot's. -/
inductive Linked (listenFd : Fd) (password : Str) (fd : Fd) (start : Bot.Session) :
    List Input → Bot.Session → Prop
  | accepted {inputs : List Input} {inp : Input}
      (hserved : Served listenFd password (inputs ++ [inp]))
      (hbefore : fd ∉ ((Machine.start listenFd password).run inputs).server.connections)
      (hafter : fd ∈ ((Machine.start listenFd password).run (inputs ++ [inp])).server.connections) :
      Linked listenFd password fd start (inputs ++ [inp]) start
  | server {inputs : List Input} {inp : Input} {c : Bot.Session}
      (h : Linked listenFd password fd start inputs c)
      (hserved : Served listenFd password (inputs ++ [inp]))
      (hafter : fd ∈ ((Machine.start listenFd password).run (inputs ++ [inp])).server.connections)
      (hread : (received fd
        ((Machine.start listenFd password).run (inputs ++ [inp])).server.trace).flatten <+: c.sent) :
      Linked listenFd password fd start (inputs ++ [inp]) c
  | bot {inputs : List Input} {c : Bot.Session} (h : Linked listenFd password fd start inputs c)
      (p : Bot.Pass) (hread : (c.step p).received <+:
        sentTo fd ((Machine.start listenFd password).run inputs).server.trace) :
      Linked listenFd password fd start inputs (c.step p)

theorem Machine.run_concat (m : Machine) : ∀ (inputs : List Input) (inp : Input),
    m.run (inputs ++ [inp]) = (m.run inputs).step inp
  | [], _ => rfl
  | first :: inputs, inp => run_concat (m.step first) inputs inp

theorem Machine.freshRun_concat (m : Machine) : ∀ (inputs : List Input) (inp : Input),
    m.FreshRun (inputs ++ [inp]) ↔ m.FreshRun inputs ∧ inp.Fresh (m.run inputs)
  | [], inp => by simp [Machine.FreshRun, Machine.run]
  | first :: inputs, inp => by
    rw [List.cons_append, FreshRun, FreshRun, freshRun_concat (m.step first) inputs inp, and_assoc]
    rfl

section Links

variable {listenFd fd : Fd} {password : Str} {m : Machine} {inp : Input}

/-- A client that is there after a step was there before, or has just been accepted. -/
theorem Reachable.step_link (hm : Reachable listenFd password m) (hfresh : inp.Fresh m)
    (hafter : fd ∈ (m.step inp).server.connections) :
    fd ∈ m.server.connections ∧ sentTo fd m.server.trace <+: sentTo fd (m.step inp).server.trace ∨
      fd ∉ m.server.connections ∧ received fd (m.step inp).server.trace = [] := by
  by_cases hstop : m.phase = .stopped
  · have hsame : m.step inp = m := by
      rcases m with ⟨s, phase⟩
      cases hstop
      rfl
    rw [hsame] at hafter ⊢
    exact .inl ⟨hafter, List.prefix_rfl⟩
  have ht := hm.good.tables hstop
  cases hm.good.comes hfresh with
  | plays h =>
    obtain ⟨es, htr, hmarks, -⟩ := h.trace
    obtain ⟨hbefore, -⟩ := h.kept fd hafter
    refine .inl ⟨hbefore, ?_⟩
    rw [htr, sentTo_eq, sentTo_eq,
      sinceAccept_extend (fun _ => rfl) _ (accept_not_mem hmarks fun t ht => (h.clients t ht).2 fd)]
    exact List.prefix_append _ _
  | @accepts cs hcs hnb hnew h =>
    rw [Server.acceptClient_eq hcs hnb] at h
    rw [h]
    by_cases hcf : cs.fd = fd
    · refine .inr ⟨fun hbefore => hnew (hcf ▸ ht.mem_opened hbefore), ?_⟩
      simp [received, sinceAccept, hcf]
    · rw [h] at hafter
      refine .inl ⟨?_, ?_⟩
      · rw [ExtTreeMap.mem_insert, Int.compare_eq_eq] at hafter
        exact hafter.resolve_left hcf
      · simp [sentTo, sinceAccept, hcf]
  | @refuses g hstopped hnew h =>
    rw [h] at hafter ⊢
    have hgf : g ≠ fd := fun hgf => hnew (hgf ▸ ht.mem_opened hafter)
    refine .inl ⟨hafter, ?_⟩
    simp [Server.log, sentTo, sinceAccept, hgf]

end Links

theorem Served.of_concat {listenFd : Fd} {password : Str} {inputs : List Input} {inp : Input}
    (h : Served listenFd password (inputs ++ [inp])) : Served listenFd password inputs :=
  ⟨((Machine.freshRun_concat _ _ _).1 h.fresh).1,
    fun inp hinp => h.real inp (List.mem_append_left _ hinp),
    fun inp hinp => h.dotted inp (List.mem_append_left _ hinp)⟩

/-- A stretch of steps of the server. -/
theorem Linked.stretch {listenFd fd : Fd} {password : Str} {start c : Bot.Session}
    {inputs : List Input} (h : Linked listenFd password fd start inputs c) (more : List Input)
    (hserved : Served listenFd password (inputs ++ more))
    (hsteps : ∀ k < more.length,
      let m := (Machine.start listenFd password).run (inputs ++ more.take (k + 1))
      fd ∈ m.server.connections ∧ (received fd m.server.trace).flatten <+: c.sent) :
    Linked listenFd password fd start (inputs ++ more) c := by
  induction more using List.reverseRecOn with
  | nil => rwa [List.append_nil]
  | append_singleton more inp ih =>
    rw [← List.append_assoc] at hserved ⊢
    have hlast := hsteps more.length (by simp)
    rw [List.take_of_length_le (by simp), ← List.append_assoc] at hlast
    refine .server (ih hserved.of_concat fun k hk => ?_) hserved hlast.1 hlast.2
    have hstep := hsteps k (by simp; omega)
    rwa [List.take_append_of_le_length (by omega)] at hstep

/-- What was sent stays sent. -/
theorem Bot.Session.sent_step (c : Bot.Session) (p : Bot.Pass) : c.sent <+: (c.step p).sent := by
  have hflush : ∀ (c : Bot.Session) (send : Nat → Nat), c.sent <+: (c.flushOutput send).sent :=
    fun c send => List.prefix_append _ _
  have hread : ∀ (c : Bot.Session) (r : Received), (c.readFromServer r).sent = c.sent := by
    intro c r
    unfold Bot.Session.readFromServer
    split <;> rfl
  unfold Bot.Session.step
  split
  · split_ifs
    · unfold Bot.Session.poll
      split
      · exact List.prefix_rfl
      · exact List.prefix_rfl
      · rename_i revents _
        obtain ⟨c', hc'⟩ : ∃ c', (if revents.has POLLIN then c.readFromServer p.received else c) = c' :=
          ⟨_, rfl⟩
        have hfirst : c.sent = c'.sent := by
          rw [← hc']
          split_ifs
          · exact (hread c p.received).symm
          · rfl
        dsimp only
        rw [hc', hfirst]
        split_ifs
        · rw [← hfirst]
        · exact List.prefix_rfl
        · exact hflush c' p.send
        · exact List.prefix_rfl
    · exact List.prefix_rfl
  · split_ifs
    · exact List.prefix_rfl
    · exact hflush c p.send
  · exact List.prefix_rfl
  · exact List.prefix_rfl

/-- What each end has received is the front of what the other has sent. -/
theorem Linked.fronts {listenFd fd : Fd} {password : Str} {start c : Bot.Session}
    {inputs : List Input}
    (h : Linked listenFd password fd start inputs c) (hstart : start.received = []) :
    let m := (Machine.start listenFd password).run inputs
    Served listenFd password inputs ∧ (∃ passes, c = start.run passes) ∧ fd ∈ m.server.connections ∧
      (received fd m.server.trace).flatten <+: c.sent ∧
      c.received <+: sentTo fd m.server.trace := by
  have hlast : ∀ {inputs inp}, Served listenFd password (inputs ++ [inp]) →
      Reachable listenFd password ((Machine.start listenFd password).run inputs) ∧
        inp.Fresh ((Machine.start listenFd password).run inputs) := fun hserved =>
    have hfresh := (Machine.freshRun_concat _ _ _).1 hserved.fresh
    ⟨.run _ .start hfresh.1, hfresh.2⟩
  induction h with
  | @accepted inputs inp hserved hbefore hafter =>
    obtain ⟨hreach, hfresh⟩ := hlast hserved
    refine ⟨hserved, ⟨[], rfl⟩, hafter, ?_, by rw [hstart]; exact List.nil_prefix⟩
    rw [Machine.run_concat] at hafter ⊢
    obtain ⟨hold, -⟩ | ⟨-, hnone⟩ := hreach.step_link hfresh hafter
    · exact absurd hold hbefore
    · rw [hnone]
      exact List.nil_prefix
  | @server inputs inp c _ hserved hafter hread ih =>
    obtain ⟨-, hpasses, hconn, -, hreceived⟩ := ih
    obtain ⟨hreach, hfresh⟩ := hlast hserved
    refine ⟨hserved, hpasses, hafter, hread, ?_⟩
    rw [Machine.run_concat] at hafter ⊢
    obtain ⟨-, hsent⟩ | ⟨hnew, -⟩ := hreach.step_link hfresh hafter
    · exact hreceived.trans hsent
    · exact absurd hconn hnew
  | @bot inputs c _ p hread ih =>
    obtain ⟨hserved, ⟨passes, rfl⟩, hconn, hsent, -⟩ := ih
    refine ⟨hserved, ⟨passes ++ [p], ?_⟩, hconn, hsent.trans (Bot.Session.sent_step _ p), hread⟩
    rw [Bot.Session.run, Bot.Session.run, List.foldl_append]
    rfl

/-- The lines of the front of a stream are the first of its lines. -/
theorem lines_front {s t : Str} (h : s <+: t) : Framing.lines lf s <+: Framing.lines lf t := by
  obtain ⟨more, rfl⟩ := h
  rw [Framing.lines_append]
  exact List.prefix_append _ _

/-- A line handed on is read as it was said. -/
theorem parse_stripLine (h : Framed inLine line) : parse (stripLine line) = parse line := by
  obtain ⟨body, rfl, hbody⟩ := h
  rw [LineBuffer.stripLine_crlf, parse_crlf (over_inLine_iff.1 hbody)]

/-- The lines that are said one after the other are cut apart again. -/
theorem lines_said {said : List Str} (h : ∀ l ∈ said, Framed inLine l) :
    Framing.lines lf said.flatten = said :=
  (Framing.lines_flatten fun l hl => by
    obtain ⟨body, rfl, hbody⟩ := h l hl
    exact ⟨body ++ [cr], LineBuffer.not_mem_append_cr (over_inLine_iff.1 hbody),
      LineBuffer.append_crlf body⟩).1

theorem lf_not_mem_nickname {nick : Str} (h : isValidNickname nick = true) :
    lf ∉ nick := fun hmem =>
  absurd (isNicknameChar_of_mem h hmem) (by decide)

theorem lf_not_mem_channelName {name : Str} (h : isValidChannelName name = true) : lf ∉ name := by
  unfold isValidChannelName at h
  split at h
  · rename_i c cs
    split_ifs at h with hc
    simp only [Bool.or_eq_true, bne_iff_ne, not_or, not_not] at hc
    rw [List.mem_cons, not_or, hc.2]
    exact ⟨by decide, fun hmem => absurd (List.all_eq_true.1 h lf hmem) (by decide)⟩
  · cases h

theorem lines_start {key channel nickname : Str} :
    let start := Bot.Session.start key channel nickname
    start.bot.channel = channel ∧ start.bot.joined = false ∧
      start.bot.outbox.filter (lit "JOIN ").isPrefixOf = [] := by
  simp only [Bot.Session.start, enqueueRegistration]
  split_ifs <;> exact ⟨rfl, rfl, rfl⟩

/-- The server handles the first of the lines that the bot says, and the bot the first of those that
the server has for it. -/
theorem Linked.lines {listenFd fd : Fd} {password key channel nickname : Str} {inputs : List Input}
    {c : Bot.Session}
    (h : Linked listenFd password fd (Bot.Session.start key channel nickname) inputs c)
    (hkey : lf ∉ key) (hchannel : isValidChannelName channel = true)
    (hnick : isValidNickname nickname = true) :
    let m := (Machine.start listenFd password).run inputs
    ∃ heard : List (Str × Option Tm),
      let said := ((Bot.Session.start key channel nickname).bot.hears heard).outbox
      Bot.Session.Follows (Bot.Session.start key channel nickname).bot heard c ∧
      heard.map Prod.fst <+: (enqueuedMessages fd m.server.trace).map stripLine ∧
      handedTo fd m.server.trace <+: said.map stripLine ∧
      (∀ l ∈ enqueuedMessages fd m.server.trace, Framed inLine l) ∧
      ∀ l ∈ said, Saying key channel nickname l ∧ Framed inLine l := by
  intro m
  obtain ⟨hserved, ⟨passes, rfl⟩, hconn, hread, hreceived⟩ := h.fronts rfl
  obtain ⟨heard, hfollows⟩ := (Bot.Session.follows_start key channel nickname).run passes
  rw [List.nil_append] at hfollows
  set said := ((Bot.Session.start key channel nickname).bot.hears heard).outbox with hsaid
  have hreach : Reachable listenFd password m := .run inputs .start hserved.fresh
  obtain ⟨a, conn, ha, hobj, -⟩ :=
    hreach.entries.live fd _ (ExtTreeMap.getElem?_eq_some_getElem hconn)
  have hat : m.server.At fd a conn :=
    ⟨(ExtTreeMap.getElem?_eq_some_getElem hconn).trans (congrArg some ha), hobj⟩
  have hc : m.server.connection fd = some conn := hat.connection
  -- what the bot hears are lines of the server
  have haccounted : m.server.Accounted :=
    Machine.run_accounted (.construct listenFd password) hserved.dotted
  have henqueued : ∀ l ∈ enqueuedMessages fd m.server.trace, Framed inLine l := by
    intro l hl
    obtain ⟨body, hbody, rfl⟩ := haccounted.trace.enqueued hl
    exact framed_inLine hbody
  have hheard : heard.map Prod.fst <+: (enqueuedMessages fd m.server.trace).map stripLine := by
    rw [hfollows.lines, ← hreach.lines_sent haccounted hc]
    exact (lines_front (hreceived.trans (List.prefix_append _ _))).map stripLine
  have hlf : ∀ line ∈ heard, lf ∉ line.1 := by
    intro line hline
    obtain ⟨l, hl, hstrip⟩ := List.mem_map.1 (hheard.subset (List.mem_map_of_mem hline))
    obtain ⟨body, rfl, hbody⟩ := henqueued l hl
    rw [← hstrip, LineBuffer.stripLine_crlf]
    exact over_inLine_iff.1 hbody
  -- what the server is handed are lines of the bot
  have hsayings : ∀ l ∈ said, Saying key channel nickname l :=
    Saying.hears key channel nickname heard hlf lines_start.1 (Saying.start key channel nickname)
  have hframed : ∀ l ∈ said, Framed inLine l := fun l hl =>
    (hsayings l hl).framed hkey (lf_not_mem_channelName hchannel) (lf_not_mem_nickname hnick)
  have hhanded : handedTo fd m.server.trace <+: said.map stripLine := by
    rw [hreach.handedTo_eq hc, ← lines_said hframed, ← hfollows.stream]
    exact (lines_front (hread.trans (List.prefix_append _ _))).map stripLine
  exact ⟨heard, hfollows, hheard, hhanded, henqueued, fun l hl => ⟨hsayings l hl, hframed l hl⟩⟩

/-- The bot and the server agree. The server handles the lines that the bot says, in their order,
and the bot those that the server has for it. A bot that joins gave the password and is registered
under its name, and the server has the bot in no channel but its own, and only after it was
welcomed. -/
theorem Linked.agree {listenFd fd : Fd} {password key channel nickname : Str} {inputs : List Input}
    {c : Bot.Session}
    (h : Linked listenFd password fd (Bot.Session.start key channel nickname) inputs c)
    (hkey : lf ∉ key) (hchannel : isValidChannelName channel = true)
    (hnick : isValidNickname nickname = true) :
    let m := (Machine.start listenFd password).run inputs
    ∃ heard : List (Str × Option Tm),
      let said := ((Bot.Session.start key channel nickname).bot.hears heard).outbox
      heard.map Prod.fst <+: (enqueuedMessages fd m.server.trace).map stripLine ∧
      handedTo fd m.server.trace <+: said.map stripLine ∧
      ∃ p, m.server.state.getClientByFd fd = some p ∧
        (c.bot.joined = true → (m.server.state.clientAt p).registered = true ∧
          (m.server.state.clientAt p).nickname = nickname ∧
          (parse (IrcFormatter.pass key)).getSingleParam 0 = password) ∧
        ∀ n, m.server.state.InRoom p n → caseFold n = caseFold channel ∧ c.bot.joined = true := by
  intro m
  obtain ⟨heard, hfollows, hheard, hhanded, henqueued, hsaid⟩ := h.lines hkey hchannel hnick
  obtain ⟨hserved, -, hconn, -, -⟩ := h.fronts rfl
  obtain ⟨-, hnotJoined, hnone⟩ := @lines_start key channel nickname
  set start := Bot.Session.start key channel nickname
  obtain ⟨-, hjoins, hjoined⟩ := filter_hears heard start.bot
  have hasked : ∀ msg ∈ (handedTo fd m.server.trace).map parse,
      ∃ l ∈ (start.bot.hears heard).outbox, parse l = msg := by
    intro msg hmsg
    obtain ⟨handed, hin, rfl⟩ := List.mem_map.1 hmsg
    obtain ⟨l, hl, rfl⟩ := List.mem_map.1 (hhanded.subset hin)
    exact ⟨l, hl, (parse_stripLine (hsaid l hl).2).symm⟩
  have hnickline : parse (IrcFormatter.nick nickname) =
      { sender := [], command := lit "NICK", params := [nickname] } :=
    @parse_bare_token (lit "NICK") nickname (by decide) (isToken_of_nick hnick)
  have hjoinline : parse (IrcFormatter.join channel) =
      { sender := [], command := lit "JOIN", params := [channel] } :=
    @parse_bare_token (lit "JOIN") channel (by decide) (isToken_of_channelName hchannel)
  -- what the server has of the bot
  have hreach : Reachable listenFd password m := .run inputs .start hserved.fresh
  obtain ⟨turns, hserial, hreal⟩ := exists_serial hserved.fresh
  have hknown := (hreach.entries.known fd).1 hconn
  have hp := ExtTreeMap.getElem?_eq_some_getElem hknown
  generalize m.server.state.client.fdToClient[fd] = p at hp
  have hstate : m.server.state = ServerState.play { password := password } turns := hserial.state
  have htold := (hserial.clients fd hconn).told password (hreal hserved.real) (hstate ▸ hp)
  have hord : Orderly m.server.state :=
    hstate ▸ (Orderly.start password).play turns (hreal hserved.real)
  rw [← hstate] at htold
  refine ⟨heard, hheard, hhanded, p, hp, fun hjoin => ?_, fun n hin => ?_⟩
  · rw [← hfollows.same.joined, hjoined, hnotJoined, Bool.false_or, List.any_eq_true] at hjoin
    obtain ⟨line, hline, hcommand⟩ := hjoin
    obtain ⟨l, hl, hstrip⟩ := List.mem_map.1 (hheard.subset (List.mem_map_of_mem hline))
    have hregistered : (m.server.state.clientAt p).registered = true := by
      refine htold.welcomed ⟨l, hl, ?_⟩
      rw [wordOf, ← parse_stripLine (henqueued l hl), hstrip]
      exact of_decide_eq_true hcommand
    have hcan := Client.canRegister_iff.1
      ((hord.registration.clients p).registered.symm.trans hregistered)
    refine ⟨hregistered, ?_, ?_⟩
    · obtain ⟨msg, hmsg, hcmd, hparam⟩ := htold.nick.resolve_left hcan.2.1
      obtain ⟨l, hl, rfl⟩ := hasked msg hmsg
      rw [← hparam, (hsaid l hl).1.of_word.2.1 hcmd, hnickline]
      rfl
    · obtain ⟨msg, hmsg, hcmd, hparam⟩ := htold.pass hcan.1
      obtain ⟨l, hl, rfl⟩ := hasked msg hmsg
      rw [(hsaid l hl).1.of_word.1 hcmd, hstate, play_password] at hparam
      exact hparam
  · obtain ⟨msg, hmsg, hcmd, hfold⟩ := htold.rooms n hin
    obtain ⟨l, hl, rfl⟩ := hasked msg hmsg
    have hjoin := (hsaid l hl).1.of_word.2.2 hcmd
    rw [hjoin, hjoinline] at hfold
    refine ⟨hfold.symm, ?_⟩
    have hword : (lit "JOIN ").isPrefixOf l = true := by
      rw [hjoin]
      rfl
    have hsays := List.mem_filter.2 ⟨hl, hword⟩
    rw [hjoins, hnone, List.nil_append] at hsays
    rw [← hfollows.same.joined, hjoined]
    split_ifs at hsays with hany
    · simp only [hnotJoined, Bool.not_false, Bool.true_and] at hany
      rw [hany, Bool.or_true]
    · cases hsays

/-- The case of a bot that joins when it has read the welcome in two parts. -/
theorem Linked.agree_joined :
    let m := (Machine.start 3 (lit "pw")).run ([.ready [POLLIN], .accepts 5] ++
      ([{}, {}, {}, .ready [0, POLLIN], {},
        .receives "PASS pw\r\nNICK bot\r\nUSER bot 0 * :ft_irc bonus bot\r\n", {}, {},
        .ready [0, POLLOUT], {}, .sends 1000, {}, {}] : List Input) ++
      ([.ready [0, POLLIN], {}, .receives "JOIN #c\r\n", {}, {}] : List Input))
    m.server.state.InRoom 0 (lit "#c") ∧ (m.server.state.clientAt 0).registered = true ∧
      (m.server.state.clientAt 0).nickname = lit "bot" := by
  intro m
  have hfirst : Linked 3 (lit "pw") 5 (Bot.Session.start (lit "pw") (lit "#c") (lit "bot"))
      ([.ready [POLLIN]] ++ [.accepts 5]) _ :=
    .accepted ⟨by decide +kernel, by decide +kernel, by decide +kernel⟩ (by decide +kernel)
      (by decide +kernel)
  have hregister := hfirst.bot { poll := .ready POLLOUT, send := fun _ => 1000 } (by decide +kernel)
  have hwelcome := hregister.stretch [{}, {}, {}, .ready [0, POLLIN], {},
    .receives "PASS pw\r\nNICK bot\r\nUSER bot 0 * :ft_irc bonus bot\r\n", {}, {},
    .ready [0, POLLOUT], {},
    .sends 1000, {}, {}] ⟨by decide +kernel, by decide +kernel, by decide +kernel⟩
      (by decide +kernel)
  have hpart := hwelcome.bot
    { poll := .ready POLLIN, received := ⟨some (lit ":irc.local 001 b"), fun _ => none⟩ }
    (by decide +kernel)
  have hrest := hpart.bot { poll := .ready POLLIN, received :=
    ⟨some (lit "ot :Welcome to the IRC Network bot!bot@\r\n"), fun _ => none⟩ } (by decide +kernel)
  have hjoin := hrest.bot { poll := .ready POLLOUT, send := fun _ => 1000 } (by decide +kernel)
  have hlast := hjoin.stretch [.ready [0, POLLIN], {}, .receives "JOIN #c\r\n", {}, {}]
    ⟨by decide +kernel, by decide +kernel, by decide +kernel⟩ (by decide +kernel)
  obtain ⟨heard, -, -, p, hp, hjoined, -⟩ := hlast.agree (by decide) (by decide) (by decide)
  cases hp.symm.trans (show m.server.state.getClientByFd 5 = some 0 by decide +kernel)
  obtain ⟨hregistered, hnick, -⟩ := hjoined (by decide +kernel)
  exact ⟨by decide +kernel, hregistered, hnick⟩

end Ircserv
