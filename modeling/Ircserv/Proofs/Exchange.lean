import Ircserv.Exchange
import Ircserv.Lib.Worklist
import Ircserv.Proofs.Answers

/-!
# Bots stop talking to each other

A bot answers a command in the channel with one text (`texts_handleMessage`), and what is left to be
done about it is less than about the command. So every message that arrives is paid for by what was
under way (`deliver_total`), and in every order the exchange ends.
-/

namespace Ircserv

open Worklist ReplyBuilder Ircserv.Parser Ircserv.Bot

namespace Bot

variable {timeInfo : Option Tm} {bot : Bot} {text : Str}

/-- A bot that quits says so before it answers. -/
theorem outbox_buildCommandReply (timeInfo : Option Tm) (bot : Bot) (text : Str) :
    ∃ lines, (buildCommandReply timeInfo bot text).2.outbox = bot.outbox ++ lines ∧
      ∀ line ∈ lines, ∃ message, line = IrcFormatter.quit message := by
  by_cases hquit : text = lit "!quit"
  · rw [hquit]
    exact ⟨[_], rfl, fun line hline => ⟨_, List.mem_singleton.1 hline⟩⟩
  · rw [buildCommandReply_of_ne hquit]
    exact ⟨[], (List.append_nil _).symm, nofun⟩

theorem outbox_sendReply (bot : Bot) (message : Message) (text : Str) :
    (bot.sendReply message text).outbox = bot.outbox ++
      if text = [] then [] else [IrcFormatter.privmsg (replyTarget message) text] := by
  unfold sendReply
  split_ifs
  · exact (List.append_nil _).symm
  · rfl

end Bot

namespace Exchange

variable {n : Nat} {channel : Str} {client : Fin n → Str} {e e' : Exchange n}
  {choice : Nat × Option Tm} {timeInfo : Option Tm} {bot : Bot} {sender text : Str}

theorem channelText_privmsg (h : IsToken channel) (text : Str) :
    channelText channel (IrcFormatter.privmsg channel text) = some text := by
  rw [channelText, parse_privmsg h]
  exact if_pos ⟨rfl, rfl⟩

theorem channelText_quit (channel message : Str) :
    channelText channel (IrcFormatter.quit message) = none := by
  have hshape : IrcFormatter.quit message =
      lit "QUIT" ++ spaced [] ++ lit " :" ++ message ++ crlf := by
    rw [IrcFormatter.quit]
    rfl
  rw [channelText, hshape,
    parse_command (by decide) (by simp) (removeIrcLineTerminator_crlf _)]
  exact if_neg fun h => absurd (show lit "QUIT" = lit "PRIVMSG" from h.1) (by decide)

/-- A text in the channel is answered if it is a command, with the reply to it. -/
theorem texts_handleMessage (hchannel : isValidChannelName channel = true) (timeInfo : Option Tm)
    (bot : Bot) (sender text : Str) :
    let message : Message := { sender := sender, command := lit "PRIVMSG", params := [channel, text] }
    let reply := (buildCommandReply timeInfo bot text).1
    ((bot.handleMessage timeInfo message).outbox.drop bot.outbox.length).filterMap
        (channelText channel) =
      if text.head? = some (chr '!') ∧ reply ≠ [] then [reply] else [] := by
  intro message reply
  by_cases htext : text.head? = some (chr '!')
  · obtain ⟨lines, hlines, hquit⟩ := outbox_buildCommandReply timeInfo bot text
    have htarget : replyTarget message = channel :=
      replyTarget_channel (head?_of_channelName hchannel)
    have hnone : lines.filterMap (channelText channel) = [] := by
      refine List.filterMap_eq_nil_iff.2 fun line hline => ?_
      obtain ⟨quit, rfl⟩ := hquit line hline
      exact channelText_quit _ _
    have hhandled : bot.handleMessage timeInfo message =
        (buildCommandReply timeInfo bot text).2.sendReply message reply :=
      handleMessage_command rfl htext
    rw [hhandled, outbox_sendReply, htarget, hlines, List.append_assoc, List.drop_left,
      List.filterMap_append, hnone, List.nil_append]
    split_ifs with hreply hboth hboth
    · exact absurd hreply hboth.2
    · rfl
    · rw [List.filterMap_cons_some (channelText_privmsg (isToken_of_channelName hchannel) reply),
        List.filterMap_nil]
    · exact absurd ⟨htext, hreply⟩ hboth
  · have hhandled : bot.handleMessage timeInfo message = bot := handleMessage_text rfl htext
    rw [hhandled, List.drop_length, List.filterMap_nil, if_neg fun h => htext h.1]

/-- What goes to one of the bots: a message, unless it is its own. -/
theorem filter_relay (channel : Str) (i j : Fin n) (sender text : Str) :
    ((relay channel (some i) sender text).filter (·.1 == j)).map (·.2) =
      if j = i then []
      else [{ sender := sender, command := lit "PRIVMSG", params := [channel, text] }] := by
  have hone : (List.finRange n).filter (· == j) = [j] := by
    rw [List.filter_beq, List.count_eq_one_of_mem (List.nodup_finRange n) (List.mem_finRange j)]
    rfl
  have hother : (List.finRange n).filter (fun k => (k == j) && decide (some k ≠ some i)) =
      if j = i then [] else [j] := by
    rw [← List.filter_filter, List.filter_comm, hone]
    split_ifs with hji <;> simp [hji]
  rw [relay, List.filter_map, List.filter_filter, List.map_map]
  show ((List.finRange n).filter (fun k => (k == j) && decide (some k ≠ some i))).map _ = _
  rw [hother]
  split_ifs
  · rfl
  · rfl

/-- The server relays a bot's message to the channel as the exchange has it. -/
theorem relay_dispatch {s : ServerState} (h : Orderly s) {fds : Fin n → Fd} {addrs : Fin n → Addr}
    (hfds : ∀ i, s.client.fdToClient[fds i]? = some (addrs i))
    (hreg : ∀ i, (s.clientAt (addrs i)).registered = true) (hin : ∀ i, s.InRoom (addrs i) channel)
    (hinj : Function.Injective addrs) (i j : Fin n) (text : Str) (addr : Addr) (now : Time)
    (monitor : Option ConnectionHealthMonitor) :
    ((CommandDispatcher.dispatchWith addr now (fds i) (parse (IrcFormatter.privmsg channel text)) s
        monitor).1.replies.filter (·.fd == fds j)).map (fun m => parse m.message) =
      ((relay channel (some i) (s.clientAt (addrs i)).getFullPrefix text).filter (·.1 == j)).map
        (·.2) := by
  obtain ⟨ch, hch, -⟩ := hin i
  obtain ⟨a, ha, -⟩ := ServerState.room_eq_some_iff.1 hch
  rw [filter_relay, parse_privmsg (h.token ha) text]
  set msg : Message := { sender := [], command := lit "PRIVMSG", params := [channel, text] }
  obtain ⟨-, harrives⟩ := h.text_channel (hfds i) (hreg i) (show msg.command = lit "PRIVMSG" from rfl)
    (show 2 ≤ msg.getParamCount from le_rfl) (hin i) addr now monitor
  have hfd : ∀ k, (s.clientAt (addrs k)).fd = fds k := fun k =>
    (h.wf.links.fdOwner (fds k) (addrs k) (hfds k)).2
  split_ifs with hji
  · -- no other member has the author's descriptor
    rw [hji, List.filter_eq_nil_iff.2, List.map_nil]
    intro m hm hmfd
    obtain ⟨q, ⟨hq, hqin⟩, hqfd⟩ := (harrives.reached m.fd).1 (List.mem_map.2 ⟨m, hm, rfl⟩)
    have hlive := h.wf.links.memberLive ((ServerState.inRoom_iff ha).1 hqin)
    exact hq ((ServerState.fd_eq_iff h.wf.links (hfds i) hlive).1 (hqfd.trans (beq_iff_eq.1 hmfd)))
  · have hne : addrs j ≠ addrs i := fun heq => hji (hinj heq)
    obtain ⟨m, hm, hone, -⟩ := harrives.filter_eq (q := addrs j) ⟨hne, hin j⟩
    rw [hfd] at hone
    rw [hone, List.map_singleton, harrives.read m hm]
    rfl

/-- What a message under way is worth. -/
def worth (delivery : Fin n × Message) : Nat := rank (delivery.2.getSingleParam 1)

/-- What is under way are texts to the channel. -/
def Sound (channel : Str) (e : Exchange n) : Prop :=
  ∀ d ∈ e.pending, ∃ sender text,
    d.2 = { sender := sender, command := lit "PRIVMSG", params := [channel, text] }

theorem mem_relay {author : Option (Fin n)} {d : Fin n × Message}
    (h : d ∈ relay channel author sender text) :
    d.2 = { sender := sender, command := lit "PRIVMSG", params := [channel, text] } := by
  obtain ⟨i, -, rfl⟩ := List.mem_map.1 h
  rfl

theorem length_relay_le (author : Option (Fin n)) :
    (relay channel author sender text).length ≤ n := by
  rw [relay, List.length_map]
  exact (List.length_filter_le _ _).trans_eq (List.length_finRange)

/-- A message that arrives is paid for by what was under way, and is answered with one at most. -/
theorem deliver_total (hchannel : isValidChannelName channel = true) (he : e.Sound channel)
    (h : e.deliver channel client choice = some e') :
    e'.Sound channel ∧ total n worth e'.pending + 1 ≤ total n worth e.pending ∧
      e'.sent.length ≤ e.sent.length + 1 := by
  unfold deliver at h
  rcases hd : e.pending[choice.1]? with _ | ⟨i, message⟩
  · rw [hd] at h
    cases h
  rw [hd] at h
  obtain ⟨sender, text, rfl⟩ : ∃ sender text, message = _ := he _ (List.mem_of_getElem? hd)
  cases h
  dsimp only
  rw [texts_handleMessage hchannel]
  split_ifs with hreply
  · set reply := (buildCommandReply choice.2 (e.bots i) text).1 with hr
    rw [List.flatMap_singleton]
    refine ⟨fun d hmem => ?_, total_replace hd (length_relay_le _) fun d hmem => ?_, ?_⟩
    · rcases List.mem_append.1 hmem with hold | hnew
      · exact he d (List.mem_of_mem_eraseIdx hold)
      · exact ⟨_, _, mem_relay hnew⟩
    · rw [worth, mem_relay hmem]
      exact rank_buildCommandReply choice.2 (e.bots i) hreply.1
    · rw [List.length_append]
      rfl
  · rw [List.flatMap_nil]
    refine ⟨fun d hmem => ?_, total_replace hd (Nat.zero_le n) nofun, ?_⟩
    · rw [List.append_nil] at hmem
      exact he d (List.mem_of_mem_eraseIdx hmem)
    · rw [List.append_nil]
      exact Nat.le_succ _

/-- What arrives in any order is paid for. -/
theorem run_total (hchannel : isValidChannelName channel = true) :
    ∀ (order : List (Nat × Option Tm)) {e : Exchange n}, e.Sound channel →
      e.run channel client order = some e' →
      order.length + total n worth e'.pending ≤ total n worth e.pending ∧
        e'.sent.length ≤ e.sent.length + order.length
  | [], e, _, h => by
    cases h
    simp
  | choice :: order, e, he, h => by
    rw [run, List.foldlM_cons] at h
    obtain ⟨e₁, h₁, hrest⟩ := Option.bind_eq_some_iff.1 h
    obtain ⟨he₁, hstep, hsent⟩ := deliver_total hchannel he h₁
    obtain ⟨htotal, hsent'⟩ := run_total hchannel order he₁ hrest
    rw [List.length_cons]
    exact ⟨by omega, by omega⟩

/-- Bots do not talk to each other forever. Whatever text comes to a channel with some bots, from a
client or from one of them, and in whatever order the messages arrive, only so many arrive, and the
bots have sent no more messages than that. -/
theorem run_ends (n : Nat) (channel : Str) (hchannel : isValidChannelName channel = true)
    (client : Fin n → Str) (bots : Fin n → Bot) (author : Option (Fin n)) (sender text : Str)
    (order : List (Nat × Option Tm)) (e : Exchange n)
    (h : run channel client { bots := bots, pending := relay channel author sender text } order =
      some e) :
    order.length ≤ n * ∑ i ∈ Finset.range (text.length + 1), n ^ i ∧
      e.sent.length ≤ order.length := by
  set start : Exchange n := { bots := bots, pending := relay channel author sender text } with hstart
  have hsound : start.Sound channel := fun d hd => ⟨_, _, mem_relay hd⟩
  obtain ⟨htotal, hsent⟩ := run_total hchannel order hsound h
  have hworth : total n worth start.pending ≤ n * cost n text.length := by
    refine (total_le fun d hd => ?_).trans (Nat.mul_le_mul_right _ (length_relay_le author))
    rw [worth, mem_relay hd]
    exact rank_le text
  refine ⟨?_, by simpa [hstart] using hsent⟩
  rw [← cost]
  omega

/-- The case of two bots that are asked to echo a command: each has the other answer. -/
theorem run_ends_echo :
    let bots : Fin 2 → Bot := fun _ => {}
    let start : Exchange 2 :=
      { bots := bots, pending := relay (lit "#x") none (lit "u!u@h") (lit "!echo !ping") }
    let order := [(1, none), (1, none), (1, none), (0, none), (0, none), (0, none)]
    ∃ e, start.run (lit "#x") (fun _ => lit "b!b@h") order = some e ∧ e.pending = [] ∧
      e.sent = [lit "!ping", lit "pong", lit "!ping", lit "pong"] ∧
      order.length ≤ 2 * ∑ i ∈ Finset.range 12, 2 ^ i ∧ e.sent.length ≤ 6 := by
  intro bots start order
  obtain ⟨e, he⟩ : ∃ e, start.run (lit "#x") (fun _ => lit "b!b@h") order = some e :=
    Option.isSome_iff_exists.1 (by decide)
  have hrun : (start.run (lit "#x") (fun _ => lit "b!b@h") order).map (fun e => (e.pending, e.sent)) =
      some ([], [lit "!ping", lit "pong", lit "!ping", lit "pong"]) := by decide
  rw [he, Option.map_some, Option.some.injEq, Prod.mk.injEq] at hrun
  obtain ⟨hlen, hsent⟩ := run_ends 2 (lit "#x") (by decide) (fun _ => lit "b!b@h") bots none
    (lit "u!u@h") (lit "!echo !ping") order e he
  exact ⟨e, he, hrun.1, hrun.2, hlen, hsent⟩

end Exchange

end Ircserv
