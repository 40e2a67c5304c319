import Ircserv.Proofs.Serial
import Ircserv.Proofs.Words

/-!
# The topic as the members know it

A line about the topic of a channel says what the topic is after the turn that sent it
(`Turn.topicHeard_eq`), and a member gets such a line when it joins and when the topic changes. So
the latest of them says the topic at any time (`run_topics`), and it can be read off the bytes that
the server sends (`run_topic_bytes`).
-/

open Std

namespace Ircserv

open ServerState CommandResult ReplyBuilder Ircserv.Parser

variable {s s' : ServerState} {p q a : Addr} {fd g : Fd} {n m name line text topic : Str}
  {msg : Message} {t : Turn} {c : Client}

/-- The words of the lines about a topic. -/
def topicWords : List Str := [lit "331", lit "332", lit "TOPIC"]

theorem topicHeard_eq_none (h : wordOf line ∉ topicWords) : topicHeard n line = none := by
  simp only [topicWords, List.mem_cons, List.not_mem_nil, or_false, not_or, wordOf] at h
  obtain ⟨h₁, h₂, h₃⟩ := h
  simp only [topicHeard, Message.topicNews, h₁, h₂, h₃, if_false]

/-- The lines about a topic that are for the descriptor. -/
def topicsTo (fd : Fd) (n : Str) (replies : List OutgoingMessage) : List Str :=
  (linesTo fd replies).filterMap (topicHeard n)

theorem mem_topicsTo {replies : List OutgoingMessage} : topic ∈ topicsTo fd n replies ↔
    ∃ m ∈ replies, m.fd = fd ∧ topicHeard n m.message = some topic := by
  simp only [topicsTo, linesTo, List.mem_filterMap, List.mem_map, List.mem_filter,
    decide_eq_true_eq]
  constructor
  · rintro ⟨line, ⟨m, ⟨hm, hfd⟩, rfl⟩, htopic⟩
    exact ⟨m, hm, hfd, htopic⟩
  · rintro ⟨m, hm, hfd, htopic⟩
    exact ⟨m.message, ⟨m, ⟨hm, hfd⟩, rfl⟩, htopic⟩

/-- More lines leave the topic be, or say the one it has. -/
theorem topicOf_append {lines : List Str} {replies : List OutgoingMessage}
    (hsound : ∀ x ∈ topicsTo fd n replies, x = topic)
    (hknown : topicsTo fd n replies = [] → topicOf n lines = some topic) :
    topicOf n (lines ++ linesTo fd replies) = some topic := by
  rw [topicOf, List.filterMap_append]
  rcases List.eq_nil_or_concat (topicsTo fd n replies) with hnil | ⟨init, x, hlast⟩
  · rw [show (linesTo fd replies).filterMap (topicHeard n) = [] from hnil, List.append_nil]
    exact hknown hnil
  · rw [show (linesTo fd replies).filterMap (topicHeard n) = init ++ [x] by
      rw [← List.concat_eq_append]
      exact hlast]
    have hx : x = topic := hsound x (by rw [hlast]; simp)
    simp [hx]

section Lines

/-- A numeric about a channel is read as the channel and the text. -/
theorem parse_numericReply {code : Str} (hcode : IsToken code)
    (hnick : isValidNickname c.nickname = true)
    (hname : IsToken name) (text : Str) : parse (numericReply code (replyTarget c) name text) =
      { sender := serverName, command := upperCommand code,
        params := [c.nickname, name, text] } := by
  have hne : c.nickname ≠ [] := (isToken_of_nick hnick).ne_nil
  have hshape : numericReply code (replyTarget c) name text =
      lit ":" ++ serverName ++ lit " " ++ code ++ spaced [c.nickname, name] ++ lit " :" ++ text ++
        crlf := by
    rw [numericReply, replyTarget, if_neg hne,
      if_neg hname.ne_nil, show lit " " = [chr ' '] from rfl]
    simp [spaced]
  have htokens : ∀ token ∈ [c.nickname, name], IsToken token := by
    simp only [List.mem_cons, List.not_mem_nil, or_false]
    rintro token (rfl | rfl)
    · exact isToken_of_nick hnick
    · exact hname
  rw [hshape, parse_text (by decide) hcode htokens]
  rfl

theorem topicHeard_noTopic (hnick : isValidNickname c.nickname = true) (hname : IsToken name) :
    topicHeard n (noTopic c name) = if caseFold name = caseFold n then some [] else none := by
  rw [topicHeard, noTopic, parse_numericReply (by decide) hnick hname]
  simp +decide [Message.topicNews, Message.isAbout, Message.getSingleParam]

theorem topicHeard_topicReply (hnick : isValidNickname c.nickname = true) (hname : IsToken name) :
    topicHeard n (topicReply c name topic) =
      if caseFold name = caseFold n then some topic else none := by
  rw [topicHeard, topicReply, parse_numericReply (by decide) hnick hname]
  simp +decide [Message.topicNews, Message.isAbout, Message.getSingleParam]

theorem topicHeard_topic (h : c.Plain) (hname : IsToken name) :
    topicHeard n (ReplyBuilder.topic c.getFullPrefix (lit "TOPIC") name text) =
      if caseFold name = caseFold n then some text else none := by
  rw [topicHeard, ReplyBuilder.topic, parse_relayed h.space (by decide) hname]
  simp +decide [Message.topicNews, Message.isAbout, Message.getSingleParam]

end Lines

section Outcome

variable {addr : Addr} {r : CommandResult} {reply : OutgoingMessage}

theorem Outcome.command_of_topicHeard (h : Orderly s) (ho : Outcome addr g msg s q r s')
    (hm : reply ∈ r.replies) (hheard : topicHeard n reply.message = some topic) :
    msg.command = lit "JOIN" ∨ msg.command = lit "TOPIC" := by
  have hword : wordOf reply.message ∈ topicWords := by
    by_contra hword
    rw [topicHeard_eq_none hword] at hheard
    cases hheard
  simpa using Outcome.command_of_word topicWords [lit "JOIN", lit "TOPIC"] (by decide +kernel)
    (by decide +kernel) h ho hm hword

/-- The replies to a JOIN, the second of which says the topic. -/
theorem joinReplies_topic (fd : Fd) (s : ServerState) (p a : Addr) (name : Str) :
    (CommandDispatcher.joinReplies fd s p a name).replies =
      (addRepliesToMembers {} s (s.channelAt a).getMembers
        (join (s.clientAt p).getFullPrefix (lit "JOIN") name) (-1)).replies ++
      [⟨fd, if (s.channelAt a).topic = [] then noTopic (s.clientAt p) name
          else topicReply (s.clientAt p) name (s.channelAt a).topic⟩,
        ⟨fd, nameReply s (s.clientAt p) (s.channelAt a)⟩,
          ⟨fd, endOfNames (s.clientAt p) name⟩] := by
  unfold CommandDispatcher.joinReplies
  dsimp only
  split_ifs <;> simp [addReply]

/-- The line that says the topic to a client that asks for it, or joins. -/
theorem topicHeard_queried {ch : Channel} (hnick : isValidNickname c.nickname = true)
    (hname : IsToken name) :
    topicHeard n (if ch.topic = [] then noTopic c name else topicReply c name ch.topic) =
      if caseFold name = caseFold n then some ch.topic else none := by
  split_ifs with htopic hf
  · rw [topicHeard_noTopic hnick hname, if_pos hf, htopic]
  · rw [topicHeard_noTopic hnick hname, if_neg hf]
  · rw [topicHeard_topicReply hnick hname, if_pos (by assumption)]
  · rw [topicHeard_topicReply hnick hname, if_neg (by assumption)]

/-- What a reply says about a topic is what the topic is after the command. -/
theorem Outcome.topicHeard_eq (h : Orderly s) (ho : Outcome addr g msg s q r s')
    (hreply : reply ∈ r.replies) (hheard : topicHeard n reply.message = some topic) :
    ∃ ch, s'.room n = some ch ∧ ch.topic = topic := by
  have hcommand := Outcome.command_of_topicHeard h ho hreply hheard
  have found : ∀ {name a}, s'.channels[name]? = some a →
      topicHeard n reply.message =
        (if caseFold name = caseFold n then some (s'.channelAt a).topic else none) →
      ∃ ch, s'.room n = some ch ∧ ch.topic = topic := by
    intro name a ha hsaid
    rw [hsaid] at hheard
    split_ifs at hheard with hf
    exact ⟨_, room_of_spelling ha hf, Option.some.inj hheard⟩
  cases ho with
  | silent | pass | quit => cases hreply
  | refused he =>
    have herrors : ∀ w ∈ errorCodes.map lit, w ∉ topicWords := by decide +kernel
    cases List.mem_singleton.1 hreply
    rw [topicHeard_eq_none (herrors _ (wordOf_error he.error))] at hheard
    cases hheard
  | answered ha =>
    cases List.mem_singleton.1 hreply
    cases ha with
    | pong hcmd | modes hcmd =>
      rw [hcmd] at hcommand
      exact absurd hcommand (by decide)
    | noTopic _ _ ha hm htopic =>
      have hreg := h.registration.members q _ (inRoom_of_mem h.wf.links hm)
      refine found ha ?_
      rw [topicHeard_noTopic (h.plain hreg).nick (h.token ha), htopic]
    | topic _ _ ha hm =>
      have hreg := h.registration.members q _ (inRoom_of_mem h.wf.links hm)
      exact found ha (topicHeard_topicReply (h.plain hreg).nick (h.token ha))
  | @join a _ hcmd hreg hvalid _ hs' =>
    have hname := isToken_of_channelName hvalid
    have hplain := plain_addClientToChannel (h.plain hreg) hs'
    have ha := getElem?_addClientToChannel h.wf hs'
    have hquiet : ∀ {line}, reply.message = line → wordOf line ∉ topicWords →
        ∃ ch, s'.room n = some ch ∧ ch.topic = topic := by
      rintro line rfl hword
      rw [topicHeard_eq_none hword] at hheard
      cases hheard
    rw [joinReplies_topic] at hreply
    rcases List.mem_append.1 hreply with hreply | hreply
    · refine hquiet (mem_addRepliesToMembers hreply) ?_
      rw [wordOf_join hplain hname]
      decide
    · simp only [List.mem_cons, List.not_mem_nil, or_false] at hreply
      rcases hreply with rfl | rfl | rfl
      · exact found ha (topicHeard_queried hplain.nick hname)
      · refine hquiet rfl ?_
        rw [nameReply, wordOf_numericReply (by decide)]
        decide
      · refine hquiet rfl ?_
        rw [endOfNames, wordOf_numericReply (by decide)]
        decide
  | @topic a _ hcmd hreg _ ha _ _ hs' =>
    subst hs'
    rw [mem_addRepliesToMembers hreply, topicHeard_topic (h.plain hreg) (h.token ha)] at hheard
    split_ifs at hheard with hf
    refine ⟨_, room_modifyChannel h.wf.links ha _ n |>.trans (if_pos hf), Option.some.inj hheard⟩
  | textChannel hcmd hor | textNick hcmd hor =>
    rw [hcmd] at hcommand
    rcases hor with rfl | rfl <;> exact absurd hcommand (by decide)
  | nick hcmd | user hcmd | part hcmd | kick hcmd | invite hcmd | mode hcmd | oper hcmd =>
    rw [hcmd] at hcommand
    exact absurd hcommand (by decide)

/-- The topic and the modes of a channel. -/
def Channel.settings (ch : Channel) : Str × ChannelModes := (ch.topic, ch.modes)

theorem settings_modifyChannel {ch ch' : Channel} {f : Channel → Channel} (hl : Links s)
    (ha : s.channels[m]? = some a) (hch : s.room n = some ch)
    (hch' : (s.modifyChannel a f).room n = some ch') (hf : ∀ ch, (f ch).settings = ch.settings) :
    ch'.settings = ch.settings := by
  rw [room_modifyChannel hl ha f n] at hch'
  split_ifs at hch' with hfold
  · rw [room_of_spelling ha hfold] at hch
    cases hch
    cases hch'
    exact hf _
  · rw [hch] at hch'
    cases hch'
    rfl

theorem settings_removeClientFromChannel {ch ch' : Channel} (hl : Links s)
    (ha : s.channels[m]? = some a) (hm : p ∈ (s.channelAt a).members) (hch : s.room n = some ch)
    (hch' : (s.removeClientFromChannel p m).room n = some ch') : ch'.settings = ch.settings := by
  rw [room_removeClientFromChannel hl ha hm n] at hch'
  split_ifs at hch' with hfold
  · rw [room_of_spelling ha hfold] at hch
    cases hch
    obtain ⟨-, rfl⟩ := Channel.leave_eq_some_iff.1 hch'
    rfl
  · rw [hch] at hch'
    cases hch'
    rfl

theorem settings_removeClient {ch ch' : Channel} (hw : WellFormed s)
    (hq : s.client.fdToClient[g]? = some q) (hch : s.room n = some ch)
    (hch' : (s.removeClient g).room n = some ch') : ch'.settings = ch.settings := by
  have hforget : ch.forget q = some ch' := by
    rw [← hch', room_removeClient hw hq n, hch]
    rfl
  unfold Channel.forget at hforget
  split_ifs at hforget
  · obtain ⟨-, rfl⟩ := Channel.leave_eq_some_iff.1 hforget
    rfl
  · cases hforget
    rfl

/-- A command keeps the topic and the modes of the channel `n`, unless it is a TOPIC that sends its
members the new topic, or a MODE. -/
theorem Outcome.room_settings {ch ch' : Channel} (h : Orderly s) (ho : Outcome addr g msg s q r s')
    (hch : s.room n = some ch) (hch' : s'.room n = some ch') : ch'.settings = ch.settings ∨
      (ch'.modes = ch.modes ∧
        ∃ a line, r = addRepliesToMembers {} s' (s'.channelAt a).getMembers line (-1) ∧
          s'.room n = some (s'.channelAt a) ∧ topicHeard n line = some ch'.topic) ∨
      msg.command = lit "MODE" ∧ ch'.topic = ch.topic := by
  have kept : s'.room n = s.room n → ch'.settings = ch.settings := by
    intro hsame
    rw [hsame, hch] at hch'
    cases hch'
    rfl
  cases ho with
  | silent | refused | answered | quit | textChannel | textNick | pass => exact .inl (kept rfl)
  | @nick s₁ _ _ _ hs' =>
    have hsame := Outcome.updateNick_channels s q (msg.getSingleParam 0)
    rw [hs'] at hsame
    exact .inl (kept
      ((room_of_eq (Outcome.maybeRegister_channels q {} s₁) n).trans (room_of_eq hsame n)))
  | user _ _ _ _ hs' =>
    rw [hs'] at kept
    exact .inl (kept (room_of_eq (Outcome.maybeRegister_channels q {} _) n))
  | join _ _ _ _ hs' =>
    refine .inl ?_
    by_cases hin : s.InRoom q (msg.getSingleParam 0)
    · obtain ⟨-, rfl⟩ := addClientToChannel_of_inRoom h.wf hin hs'
      exact kept rfl
    · have hroom := room_addClientToChannel h.wf hs' hin n
      rw [hch'] at hroom
      split_ifs at hroom with hfold
      · rw [room_congr s hfold, hch] at hroom
        cases hroom
        rfl
      · exact kept (hch'.trans hroom)
  | part _ _ ha hm => exact .inl (settings_removeClientFromChannel h.wf.links ha hm hch hch')
  | kick _ _ ha _ _ _ hm => exact .inl (settings_removeClientFromChannel h.wf.links ha hm hch hch')
  | invite _ _ _ ha => exact .inl (settings_modifyChannel h.wf.links ha hch hch' fun _ => rfl)
  | oper _ _ ha _ _ _ _ _ hs' =>
    rw [hs'] at hch'
    exact .inl (settings_modifyChannel h.wf.links ha hch hch' fun _ => rfl)
  | mode hcmd _ ha _ _ _ _ hs' =>
    rw [hs', room_modifyChannel h.wf.links ha] at hch'
    split_ifs at hch' with hfold
    · rw [room_of_spelling ha hfold] at hch
      cases hch
      cases hch'
      exact .inr (.inr ⟨hcmd, rfl⟩)
    · rw [hch] at hch'
      cases hch'
      exact .inl rfl
  | @topic a _ _ hreg _ ha _ _ hs' =>
    have hroom := room_modifyChannel h.wf.links ha (·.setTopic (msg.getSingleParam 1)) n
    rw [← hs'] at hroom
    split_ifs at hroom with hfold
    · have hnew := room_of_spelling (s := s') (n := n) (by rw [hs']; exact ha) hfold
      rw [room_of_spelling ha hfold] at hch
      rw [hroom] at hch'
      cases hch
      cases hch'
      refine .inr (.inl ⟨rfl, a, _, rfl, hnew, ?_⟩)
      rw [topicHeard_topic (h.plain hreg) (h.token ha), if_pos hfold]
      rfl
    · exact .inl (kept hroom)

end Outcome

section Turns

/-- A turn says the topic that the channel has after it. -/
theorem Turn.topicHeard_eq (h : Orderly s) {reply : OutgoingMessage}
    (hm : reply ∈ (t.result s).replies) (hheard : topicHeard n reply.message = some topic) :
    ∃ ch, (s.act t.action).room n = some ch ∧ ch.topic = topic := by
  rcases turn_cases s t with ⟨-, hres⟩ | ⟨addr, g, host, rfl, -⟩ |
    ⟨addr, now, g, msg, monitor, q, rfl, -, ho⟩ | ⟨g, reason, q, rfl, hg⟩
  · rw [hres] at hm
    cases hm
  · cases hm
  · exact ho.topicHeard_eq h hm hheard
  · obtain ⟨fds, hb, -, hmem⟩ := DisconnectNotifier.build_spec h.wf.links hg reason
    rw [Turn.result, hb, DisconnectNotifier.broadcast] at hm
    obtain ⟨g', hg', rfl⟩ := List.mem_map.1 hm
    obtain ⟨-, ⟨-, a, hqm, -⟩, -⟩ := (hmem g').1 hg'
    have hreg := h.registration.members q _ (inRoom_of_mem h.wf.links hqm)
    rw [topicHeard_eq_none] at hheard
    · cases hheard
    · rw [wordOf_quit (h.plain hreg)]
      decide

theorem topicsTo_broadcast (hw : WellFormed s) (hp : s.client.fdToClient[fd]? = some p)
    (hfd : 0 ≤ fd) (hm : p ∈ (s.channelAt a).members) (hline : topicHeard n line = some topic) :
    topicsTo fd n (addRepliesToMembers {} s (s.channelAt a).getMembers line (-1)).replies =
      [topic] := by
  rw [topicsTo, linesTo_broadcast hw hp hfd, if_pos hm, List.filterMap_cons_some hline]
  rfl

/-- A member whose channel has a new topic is told. -/
theorem Turn.topic_told (h : Orderly s) (ht : t.Real)
    (hp : (s.act t.action).getClientByFd fd = some p)
    {ch ch' : Channel} (hch : s.room n = some ch) (hch' : (s.act t.action).room n = some ch')
    (hm : p ∈ ch'.members) (hnew : ch'.topic ≠ ch.topic) :
    topicsTo fd n (t.result s).replies ≠ [] := by
  have h' := h.turn ht
  have hp' : (s.act t.action).client.fdToClient[fd]? = some p := hp
  have hfd : 0 ≤ fd := by
    rw [← (h'.wf.links.fdOwner fd p hp').2]
    exact (h'.tidy p).fd
  rcases turn_cases s t with ⟨hs, -⟩ | ⟨addr, g, host, rfl, -⟩ |
    ⟨addr, now, g, msg, monitor, q, rfl, -, ho⟩ | ⟨g, reason, q, rfl, hg⟩
  · rw [hs, hch] at hch'
    cases hch'
    exact absurd rfl hnew
  · rw [show (s.act (Turn.arrive addr g host).action).room n = s.room n from rfl, hch] at hch'
    cases hch'
    exact absurd rfl hnew
  · rcases ho.room_settings h hch hch' with hsame | ⟨-, a, line, hr, hroom, hheard⟩ | ⟨-, hsame⟩
    · exact absurd (congrArg Prod.fst hsame) hnew
    · rw [hch'] at hroom
      cases hroom
      rw [hr, topicsTo_broadcast h'.wf hp' hfd hm hheard]
      exact List.cons_ne_nil _ _
    · exact absurd hsame hnew
  · exact absurd (congrArg Prod.fst (settings_removeClient h.wf hg hch hch')) hnew

/-- A client that joins a channel is told the topic. -/
theorem Joins.topic_told (h : Orderly s) (ht : t.Real) (hown : t.isCommandOf fd = true)
    (hj : Joins p n s t.action) : topicsTo fd n (t.result s).replies ≠ [] := by
  have h' := h.turn ht
  obtain ⟨m, a, hf, ha, hreplies⟩ := hj.replies h hown
  have hin : (s.act t.action).InRoom p n := by
    cases t with
    | arrive | depart => exact hj.elim
    | command => exact hj.2.2.2
  have hplain := h'.plain (h'.registration.members p n hin)
  intro hnil
  have hmem : ((s.act t.action).channelAt a).topic ∈ topicsTo fd n (t.result s).replies := by
    rw [hreplies, joinReplies_topic]
    refine mem_topicsTo.2 ⟨_, List.mem_append_right _ List.mem_cons_self, rfl, ?_⟩
    rw [topicHeard_queried hplain.nick (h'.token ha), if_pos hf]
  rw [hnil] at hmem
  cases hmem

end Turns

section Runs

/-- After a turn a member knows the topic, if it did before or has just joined. -/
theorem topicOf_turn {lines : List Str} (h : Orderly s) (ht : t.Real)
    (hknown : ∀ ch, s.getClientByFd fd = some p → s.room n = some ch → p ∈ ch.members →
      topicOf n lines = some ch.topic)
    {ch : Channel} (hp : (s.act t.action).getClientByFd fd = some p)
    (hch : (s.act t.action).room n = some ch) (hm : p ∈ ch.members) :
    topicOf n (lines ++ linesTo fd (t.result s).replies) = some ch.topic := by
  refine topicOf_append (fun x hx => ?_) fun hnil => ?_
  · obtain ⟨m, hmem, -, hheard⟩ := mem_topicsTo.1 hx
    obtain ⟨ch', hch', rfl⟩ := Turn.topicHeard_eq h hmem hheard
    cases hch.symm.trans hch'
    rfl
  · have hjoin : ¬ Joins p n s t.action := fun hj =>
      hj.topic_told h ht (hj.own h.wf hp) hnil
    obtain ⟨hp₀, ⟨old, hold, hm₀⟩, -⟩ := inRoom_before h.wf hp ⟨ch, hch, hm⟩ hjoin
    rw [hknown old hp₀ hold hm₀]
    by_contra hnew
    exact Turn.topic_told h ht hp hold hch hm (fun he => hnew (by rw [he])) hnil

/-- A client that has just arrived is in no channel. -/
theorem not_inRoom_arrived (hw : WellFormed s) (hfree : s.getClientByFd fd = none)
    {addr : Addr} {host : Str}
    (hp : (s.act (Turn.arrive addr fd host).action).getClientByFd fd = some p) :
    ¬ (s.act (Turn.arrive addr fd host).action).InRoom p n := by
  rw [Turn.action, act, getClientByFd_addClient hfree addr host] at hp
  cases hp
  rintro ⟨ch, hch, hm⟩
  rw [Turn.action, act, room_addClient] at hch
  obtain ⟨a, -, rfl⟩ := room_eq_some_iff.1 hch
  exact Heap.fresh_not_mem _ _ (hw.links.memberLive hm)

theorem topicOf_traffic (h : Orderly s) (hout : ∀ p, s.getClientByFd fd = some p → ¬ s.InRoom p n) :
    ∀ during : List Turn, (∀ t ∈ during, t.Real) →
    ∀ p ch, (s.play during).getClientByFd fd = some p →
      (s.play during).room n = some ch → p ∈ ch.members →
      topicOf n (linesTo fd (s.traffic during)) = some ch.topic := by
  intro during
  induction during using List.reverseRecOn with
  | nil =>
    intro _ p ch hp hch hm
    exact absurd ⟨ch, hch, hm⟩ (hout p hp)
  | append_singleton during t ih =>
    intro hreal p ch hp hch hm
    have hreal' : ∀ u ∈ during, u.Real := fun u hu => hreal u (List.mem_append_left _ hu)
    rw [play_concat] at hp hch
    rw [traffic_append, linesTo_append]
    have hturn := topicOf_turn (h.play during hreal') (hreal t (by simp))
      (fun ch' hp' hch' hm' => ih hreal' p ch' hp' hch' hm') hp hch hm
    simpa [traffic] using hturn

/-- The latest line about the topic of its channel, of those since it arrived, tells a member the
topic. -/
theorem SinceArrival.topicOf (password : Str) {turns : List Turn} (hreal : ∀ t ∈ turns, t.Real)
    {commands : List Message} {lines : List Str} {ch : Channel}
    (hsince : SinceArrival { password := password } fd turns commands lines)
    (hp : (play { password := password } turns).getClientByFd fd = some p)
    (hch : (play { password := password } turns).room n = some ch) (hm : p ∈ ch.members) :
    Ircserv.topicOf n lines = some ch.topic := by
  obtain ⟨before, addr, host, during, rfl, hlife, -, rfl⟩ := hsince
  have hshift : before ++ .arrive addr fd host :: during =
      (before ++ [.arrive addr fd host]) ++ during := by simp
  rw [hshift, play_append] at hp hch
  have hbefore : Orderly (play { password := password } before) :=
    (Orderly.start password).play before fun u hu => hreal u (List.mem_append_left _ hu)
  have harrived : Orderly (play { password := password } (before ++ [.arrive addr fd host])) := by
    rw [play_concat]
    exact hbefore.turn (hreal _ (by simp))
  refine topicOf_traffic harrived (fun p hp => ?_) during
    (fun u hu => hreal u (by simp [hu])) p ch hp hch hm
  rw [play_concat] at hp ⊢
  exact not_inRoom_arrived hbefore.wf hlife.free hp

/-- The bytes sent to a client, with those still in its buffer, are cut into the lines that were
enqueued for it. -/
theorem Reachable.lines_sent {listenFd : Fd} {password : Str} {m : Machine} {c : Connection}
    (hm : Reachable listenFd password m) (haccounted : m.server.Accounted)
    (hc : m.server.connection fd = some c) :
    Framing.lines lf (sentTo fd m.server.trace ++ c.sendBuffer) =
      enqueuedMessages fd m.server.trace := by
  rw [← hm.enqueuedMessages_eq hc]
  refine Framing.lines_flatten (fun l hl => ?_) |>.1
  obtain ⟨b, hb, rfl⟩ := haccounted.trace.enqueued hl
  exact ⟨b ++ [cr], LineBuffer.not_mem_append_cr hb, LineBuffer.append_crlf b⟩

/-- A member knows the topic of its channel: it is what the latest line about the topic says, of
those that the server has sent to the client since it arrived, or has ready to send. -/
theorem run_topics {listenFd : Fd} {password : Str} {inputs : List Input}
    (hf : (Machine.start listenFd password).FreshRun inputs) (hreal : ∀ inp ∈ inputs, inp.Real)
    (hhosts : ∀ inp ∈ inputs, inp.Dotted) :
    let m := (Machine.start listenFd password).run inputs
    ∀ fd p n c ch, m.server.connection fd = some c → m.server.state.getClientByFd fd = some p →
      m.server.state.room n = some ch → p ∈ ch.members →
      topicOf n (Framing.lines lf (sentTo fd m.server.trace ++ c.sendBuffer)) = some ch.topic := by
  intro m fd p n c ch hc hp hch hmem
  have hm : Reachable listenFd password m := .run inputs .start hf
  have haccounted : m.server.Accounted := Machine.run_accounted (.construct listenFd password) hhosts
  obtain ⟨turns, hserial, hturns⟩ := exists_serial hf
  obtain ⟨a, hat⟩ := Server.At.of_connection hc
  rw [hm.lines_sent haccounted hc]
  rw [hserial.state] at hp hch
  exact (hserial.clients fd hat.mem).topicOf password (hturns hreal) hp hch hmem

/-- The case of a topic that is changed, with some of the lines still in the buffer. -/
theorem run_topics_changed :
    let m := (Machine.start 3 (lit "pw")).run [.ready [POLLIN], .accepts 5, {}, {}, {},
      .ready [0, POLLIN], {}, .receives "PASS pw\r\nNICK a\r\nUSER a 0 * a\r\nJOIN #c\r\n", {}, {},
      .ready [0, POLLIN], {}, .receives "TOPIC #C :x\r\n", {}, {}, .ready [0, POLLOUT], {},
      .sends 30, {}, {},
      .ready [0, POLLIN], {}, .receives "TOPIC #c :y z\r\n", {}, {}]
    ∃ c, m.server.connection 5 = some c ∧ c.sendBuffer ≠ [] ∧
      topicOf (lit "#c") (Framing.lines lf (sentTo 5 m.server.trace ++ c.sendBuffer)) =
        some (lit "y z") := by
  intro m
  obtain ⟨c, hc, hbuf⟩ : ∃ c, m.server.connection 5 = some c ∧ c.sendBuffer ≠ [] := by
    refine ⟨(m.server.connection 5).get (by decide +kernel),
      (Option.some_get _).symm, by decide +kernel⟩
  obtain ⟨ch, hch, hm, htopic⟩ : ∃ ch, m.server.state.room (lit "#c") = some ch ∧
      0 ∈ ch.members ∧ ch.topic = lit "y z" := by
    refine ⟨(m.server.state.room (lit "#c")).get (by decide +kernel), (Option.some_get _).symm,
      by decide +kernel, by decide +kernel⟩
  refine ⟨c, hc, hbuf, ?_⟩
  rw [← htopic]
  exact @run_topics 3 (lit "pw") _ (by decide +kernel) (by decide +kernel)
    (by decide +kernel) 5 0 (lit "#c") c ch hc (by decide +kernel) hch hm

end Runs

end Ircserv
