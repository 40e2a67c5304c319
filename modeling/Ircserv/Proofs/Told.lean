import Ircserv.Proofs.Changes
import Ircserv.Proofs.Guests
import Ircserv.Proofs.Invites

/-!
# What a member of a channel is told

Whatever a command does to the members of a channel, a member that stays is sent one line that says
it (`Outcome.change`), unless the command is NICK, which no member is told of.
-/

open Std

namespace Ircserv

open ServerState CommandResult ReplyBuilder Ircserv.Parser

variable {s s' : ServerState} {p q r a : Addr} {fd g : Fd} {n m : Str} {b : Bool} {line : Str}
  {msg : Message} {t : Turn}

/-- What `accept` and the parser promise of a client. -/
structure Client.Tidy (c : Client) : Prop where
  username : chr ' ' ∉ c.username
  host : chr ' ' ∉ c.host
  fd : 0 ≤ c.fd

/-- A client keeps its promises whatever it does. -/
theorem OwnChange.tidy {password : Str} {c c' : Client} (hc : OwnChange msg password c c')
    (hmsg : ∃ line, msg = parse line) (h : c.Tidy) : c'.Tidy := by
  cases hc with
  | kept => exact h
  | pass => exact ⟨h.username, h.host, h.fd⟩
  | nick =>
    rw [Client.enroll_data]
    exact ⟨h.username, h.host, h.fd⟩
  | user _ _ _ hn =>
    rw [Client.enroll_data]
    obtain ⟨line, rfl⟩ := hmsg
    exact ⟨space_not_mem_param line (by omega), h.host, h.fd⟩

/-- A state of a run, with what the clients promise. -/
structure Orderly (s : ServerState) : Prop where
  wf : WellFormed s
  rooms : SoundRooms s
  registration : Registration s
  tidy : ∀ q, (s.clientAt q).Tidy

namespace Orderly

theorem start (password : Str) : Orderly { password := password } := by
  refine ⟨.start password, .start password, .start password, fun q => ?_⟩
  rw [clientAt_of_not_mem (by simp)]
  exact ⟨List.not_mem_nil, List.not_mem_nil, le_rfl⟩

theorem turn (h : Orderly s) (ht : t.Real) : Orderly (s.act t.action) := by
  refine ⟨h.wf.act _, h.rooms.act h.wf _, h.registration.act h.wf _, fun r => ?_⟩
  have kept : (∃ channels, (s.act t.action).clientAt r = { s.clientAt r with channels := channels }) →
      ((s.act t.action).clientAt r).Tidy := by
    rintro ⟨cs, hcs⟩
    rw [hcs]
    exact ⟨(h.tidy r).username, (h.tidy r).host, (h.tidy r).fd⟩
  rcases turn_cases s t with ⟨hs, -⟩ | ⟨addr, g, host, rfl, hg⟩ |
    ⟨addr, now, g, msg, monitor, q, rfl, hg, ho⟩ | ⟨g, reason, q, rfl, hg⟩
  · exact kept ⟨_, by rw [hs]⟩
  · rw [Turn.action, act, clientAt_addClient addr host hg]
    split_ifs
    · exact ⟨List.not_mem_nil, ht.2, ht.1⟩
    · exact h.tidy r
  · by_cases hrq : r = q
    · obtain ⟨c, cs, hc, hs'⟩ := ho.own (h.wf.links.fdOwner g q hg).1
      have htidy := hc.tidy ht (h.tidy q)
      rw [hrq, hs']
      exact ⟨htidy.username, htidy.host, htidy.fd⟩
    · exact kept (ho.ownData.others r hrq)
  · obtain ⟨-, hself, hdata, -⟩ := h.wf.removeClient_client hg
    by_cases hrq : r = q
    · rw [hrq, Turn.action, act, hself]
      exact ⟨List.not_mem_nil, List.not_mem_nil, le_rfl⟩
    · exact kept (hdata r hrq)

theorem play : ∀ (turns : List Turn) {s : ServerState}, Orderly s → (∀ t ∈ turns, t.Real) →
    Orderly (s.play turns)
  | [], _, h, _ => h
  | t :: turns, _, h, hreal =>
    play turns (h.turn (hreal t List.mem_cons_self)) fun u hu => hreal u (List.mem_cons_of_mem t hu)

theorem plain (h : Orderly s) (hreg : (s.clientAt q).registered = true) : (s.clientAt q).Plain :=
  ⟨(h.registration.clients q).valid hreg, (h.tidy q).username, (h.tidy q).host⟩

/-- A channel that is found by a name has a name of one word. -/
theorem token (h : Orderly s) (ha : s.channels[m]? = some a) : IsToken m :=
  (isToken_congr (h.wf.links.nameOwner m a ha).2).1
    (isToken_of_channelName (h.rooms m _ (room_eq ha)).named)

theorem nick_token (h : Orderly s) (hq : s.client.nicknameToClient[m]? = some q) : IsToken m := by
  obtain ⟨-, hfold, -⟩ := h.wf.nicks.owner m q hq
  refine (isToken_congr hfold).1 (isToken_of_nick ((h.registration.clients q).nick fun hnick => ?_))
  rw [hnick, eq_comm, caseFold_eq_nil.2 rfl, caseFold_eq_nil] at hfold
  refine h.wf.nicks.named m ?_ hfold
  rw [ExtTreeMap.mem_iff_isSome_getElem?, hq]
  rfl

/-- A registered client is found by its nick. -/
theorem getClientByNick (h : Orderly s) (hq : s.client.fdToClient[g]? = some q)
    (hreg : (s.clientAt q).registered = true) :
    s.getClientByNick (s.clientAt q).nickname = some q :=
  (h.wf.getClientByNick_iff (isValidNickname_ne_nil ((h.registration.clients q).valid hreg))).2
    ⟨(h.wf.links.fdOwner g q hq).1, rfl⟩

end Orderly

section Ranks

theorem ranks_of_room (h : s'.room n = s.room n) (r : Addr) (b : Bool) :
    s'.Ranks r n b ↔ s.Ranks r n b := by
  rw [Ranks, h, Ranks]

/-- An update of the channel that lets the members be. -/
theorem ranks_update {ch ch' : Channel} (hch : s.room n = some ch) (hch' : s'.room n = some ch')
    (hmem : ch'.members = ch.members) (r : Addr) (b : Bool) :
    s'.Ranks r n b ↔ s.Ranks r n b := by
  have hop : ch'.isOperator r = ch.isOperator r := by rw [Channel.isOperator, hmem, Channel.isOperator]
  simp [Ranks, hch, hch', hmem, hop]

theorem ranks_leave {ch : Channel} (hch : s.room n = some ch) (hch' : s'.room n = ch.leave q)
    (r : Addr) (b : Bool) : s'.Ranks r n b ↔ s.Ranks r n b ∧ r ≠ q := by
  simp only [Ranks, hch, hch', Channel.leave_eq_some_iff, Option.some.injEq, exists_eq_left']
  constructor
  · rintro ⟨left, ⟨-, rfl⟩, hm, hop⟩
    obtain ⟨hqr, hm⟩ := (Channel.mem_removeClientState _ _ _).1 hm
    rw [Channel.isOperator_removeClientState, if_neg hqr] at hop
    exact ⟨⟨hm, hop⟩, Ne.symm hqr⟩
  · rintro ⟨⟨hm, hop⟩, hrq⟩
    refine ⟨_, ⟨⟨r, hm, hrq⟩, rfl⟩, (Channel.mem_removeClientState _ _ _).2 ⟨hrq.symm, hm⟩, ?_⟩
    rw [Channel.isOperator_removeClientState, if_neg hrq.symm, hop]

theorem ranks_forget (hroom : s'.room n = (s.room n).bind (·.forget q)) (r : Addr) (b : Bool) :
    s'.Ranks r n b ↔ s.Ranks r n b ∧ r ≠ q := by
  rcases hch : s.room n with _ | ch
  · simp [Ranks, hroom, hch]
  rw [hch] at hroom
  by_cases hm : q ∈ ch.members
  · refine ranks_leave hch ?_ r b
    rw [hroom]
    exact if_pos ((Channel.hasMember_iff _ _).2 hm)
  · have hforget : ch.forget q = some (ch.removeInvite q) :=
      if_neg fun hm' => hm ((Channel.hasMember_iff _ _).1 hm')
    rw [ranks_update hch (hroom.trans hforget) rfl]
    refine (and_iff_left_of_imp ?_).symm
    rintro ⟨ch', hch', hr, -⟩ rfl
    rw [hch] at hch'
    cases hch'
    exact hm hr

theorem ranks_addMember {ch : Channel} (hch : s.room n = some ch)
    (hch' : s'.room n = some (ch.addMember q)) (hout : ¬ s.InRoom q n) (r : Addr) (b : Bool) :
    s'.Ranks r n b ↔ s.Ranks r n b ∨ r = q ∧ b = false ∧ ¬ s.InRoom q n := by
  have hq : q ∉ ch.members := fun hm => hout ⟨ch, hch, hm⟩
  simp only [Ranks, hch, hch', Option.some.injEq, exists_eq_left', Channel.mem_addMember,
    Channel.isOperator_addMember, hout, not_false_eq_true, and_true]
  by_cases hrq : r = q
  · subst hrq
    simp [hq, eq_comm]
  · simp [hrq, Ne.symm hrq]

theorem ranks_setOperator {ch : Channel} {v : Bool} (hch : s.room n = some ch)
    (hch' : s'.room n = some (ch.setOperator q v)) (hq : q ∈ ch.members) (r : Addr) (b : Bool) :
    s'.Ranks r n b ↔ if r = q then b = v else s.Ranks r n b := by
  have hop : (ch.setOperator q v).isOperator r = if r = q then v else ch.isOperator r := by
    simp only [Channel.setOperator, Channel.isOperator, ExtTreeMap.getElem?_modify,
      Nat.compare_eq_eq]
    by_cases hrq : r = q
    · subst hrq
      rw [ExtTreeMap.getElem?_eq_some_getElem hq]
      simp
    · simp [hrq, Ne.symm hrq]
  simp only [Ranks, hch, hch', Option.some.injEq, exists_eq_left', Channel.mem_setOperator, hop]
  by_cases hrq : r = q
  · subst hrq
    simp [hq, eq_comm]
  · simp [hrq]

end Ranks

section Lines

theorem foldl_hear (n : Str) : ∀ (lines : List Str) (view : IrcMap Bool),
    lines.foldl (hear n) view = (lines.filterMap (heard n)).foldl News.apply view
  | [], _ => rfl
  | line :: lines, view => by
    rw [List.foldl_cons, foldl_hear n lines, hear]
    rcases h : heard n line with _ | news
    · rw [List.filterMap_cons_none h]
      rfl
    · rw [List.filterMap_cons_some h]
      rfl

/-- The news of the channel in the lines that go to the descriptor. -/
def newsTo (fd : Fd) (n : Str) (replies : List OutgoingMessage) : List News :=
  (linesTo fd replies).filterMap (heard n)

theorem newsTo_append (fd : Fd) (n : Str) (first second : List OutgoingMessage) :
    newsTo fd n (first ++ second) = newsTo fd n first ++ newsTo fd n second := by
  simp [newsTo, linesTo]

theorem newsTo_eq_nil {replies : List OutgoingMessage}
    (h : ∀ m ∈ replies, m.fd = fd → heard n m.message = none) : newsTo fd n replies = [] := by
  simp only [newsTo, linesTo, List.filterMap_eq_nil_iff, List.mem_map, List.mem_filter,
    decide_eq_true_eq]
  rintro line ⟨m, ⟨hm, hfd⟩, rfl⟩
  exact h m hm hfd

theorem newsTo_reply (h : g = fd → heard n line = none) :
    newsTo fd n (reply g line).replies = [] := by
  refine newsTo_eq_nil fun m hm hfd => ?_
  cases List.mem_singleton.1 hm
  exact h hfd

/-- What is sent to everybody in a list without repetition goes to each of them once. -/
theorem map_filter_eq {α β : Type*} [DecidableEq α] {l : List α} (h : l.Nodup) (x : α) (y : β) :
    ((l.filter (· = x)).map fun _ => y) = if x ∈ l then [y] else [] := by
  rw [List.filter_eq]
  split_ifs with hx
  · rw [List.count_eq_one_of_mem h hx]
    rfl
  · rw [List.count_eq_zero_of_not_mem hx]
    rfl

/-- A member of a channel gets a broadcast once. -/
theorem linesTo_broadcast (hw : WellFormed s) (hp : s.client.fdToClient[fd]? = some p)
    (hfd : 0 ≤ fd) (a : Addr) (line : Str) :
    linesTo fd (addRepliesToMembers {} s (s.channelAt a).getMembers line (-1)).replies =
      if p ∈ (s.channelAt a).members then [line] else [] := by
  obtain ⟨hlive, hpfd⟩ := hw.links.fdOwner fd p hp
  have hmem : ∀ q, q ∈ (s.channelAt a).getMembers ↔ q ∈ (s.channelAt a).members :=
    fun q => ExtTreeMap.mem_keys
  have hone : ∀ q ∈ (s.channelAt a).getMembers, (s.clientAt q).fd = fd ↔ q = p := by
    intro q hq
    constructor
    · intro hqfd
      have hown := hw.links.clientOwned q (hw.links.memberLive ((hmem q).1 hq))
      rw [hqfd, hp] at hown
      exact (Option.some.inj hown).symm
    · rintro rfl
      exact hpfd
  have hlines : linesTo fd (addRepliesToMembers {} s (s.channelAt a).getMembers line (-1)).replies =
      ((s.channelAt a).getMembers.filter (· = p)).map fun _ => line := by
    rw [addRepliesToMembers_eq, List.nil_append, linesTo, List.filter_map, List.map_map,
      List.filter_filter, List.filter_map, List.map_map]
    congr 1
    refine List.filter_congr fun q hq => ?_
    simp only [Function.comp_apply, ne_eq, decide_not, hone q hq]
    by_cases hqp : q = p
    · subst hqp
      have hne : (s.clientAt q).fd ≠ -1 := by
        intro hbad
        rw [← hpfd, hbad] at hfd
        exact absurd hfd (by decide)
      simp [hne]
    · simp [hqp]
  have hnodup : (s.channelAt a).getMembers.Nodup := ExtTreeMap.nodup_keys
  rw [hlines, map_filter_eq hnodup]
  simp only [hmem]

/-- The line that is sent to the members of a channel, for a member of the channel `n`. -/
theorem newsTo_broadcast {news : News} (hw : WellFormed s) (hp : s.client.fdToClient[fd]? = some p)
    (hfd : 0 ≤ fd) (hin : s.InRoom p n) (ha : s.channels[m]? = some a)
    (hline : heard n line = if caseFold m = caseFold n then some news else none) :
    newsTo fd n (addRepliesToMembers {} s (s.channelAt a).getMembers line (-1)).replies =
      if caseFold m = caseFold n then [news] else [] := by
  rw [newsTo, linesTo_broadcast hw hp hfd]
  by_cases hf : caseFold m = caseFold n
  · have hm : p ∈ (s.channelAt a).members := by
      rw [InRoom, ← room_congr s hf] at hin
      exact (inRoom_iff ha).1 hin
    rw [if_pos hf] at hline
    simp [hm, hf, hline]
  · rw [if_neg hf] at hline
    rw [if_neg hf]
    split_ifs <;> simp [hline]

theorem newsTo_broadcast_none (ha : heard n line = none) {exceptFd : Fd} :
    newsTo fd n (addRepliesToMembers {} s (s.channelAt a).getMembers line exceptFd).replies = [] := by
  refine newsTo_eq_nil fun m hm _ => ?_
  rw [addRepliesToMembers_eq] at hm
  simp only [List.nil_append, List.mem_map] at hm
  obtain ⟨g, -, rfl⟩ := hm
  exact ha

/-- The replies to a JOIN, for a member of the channel `n`. -/
theorem newsTo_joinReplies (hw : WellFormed s) (hp : s.client.fdToClient[fd]? = some p)
    (hfd : 0 ≤ fd) (hin : s.InRoom p n) (ha : s.channels[m]? = some a) (hm : IsToken m)
    (hq : (s.clientAt q).Plain) :
    newsTo fd n (CommandDispatcher.joinReplies g s q a m).replies =
      (if caseFold m = caseFold n then [.comes (s.clientAt q).nickname] else []) ++
        if g = fd ∧ caseFold m = caseFold n then
          [.names ((s.channelAt a).getMembers.foldl (appendName s (s.channelAt a)) [])] else [] := by
  have hname := (hw.links.nameOwner m a ha).2
  have hnames := heard_nameReply (s := s) n hq.nick ((isToken_congr hname).2 hm)
  rw [hname] at hnames
  obtain ⟨topic, htopic, hreplies⟩ : ∃ topic, heard n topic = none ∧
      (CommandDispatcher.joinReplies g s q a m).replies =
        (addRepliesToMembers {} s (s.channelAt a).getMembers
          (join (s.clientAt q).getFullPrefix (lit "JOIN") m) (-1)).replies ++
        [⟨g, topic⟩, ⟨g, nameReply s (s.clientAt q) (s.channelAt a)⟩,
          ⟨g, endOfNames (s.clientAt q) m⟩] := by
    unfold CommandDispatcher.joinReplies
    dsimp only
    split_ifs
    · exact ⟨noTopic (s.clientAt q) m, heard_numericReply (by decide), by simp [addReply]⟩
    · exact ⟨topicReply (s.clientAt q) m (s.channelAt a).topic, heard_numericReply (by decide),
        by simp [addReply]⟩
  rw [hreplies, newsTo_append, newsTo_broadcast hw hp hfd hin ha (heard_join hq hm)]
  refine congrArg (List.append _) ?_
  by_cases hg : g = fd
  · by_cases hf : caseFold m = caseFold n
    · rw [if_pos hf] at hnames
      simp [newsTo, linesTo, hg, htopic, hnames, heard_endOfNames, hf]
    · rw [if_neg hf] at hnames
      simp [newsTo, linesTo, hg, htopic, hnames, heard_endOfNames, hf]
  · simp [newsTo, linesTo, hg]

end Lines

theorem modeToken_eq {token : Str}
    (h : ChannelCommandHandler.isSupportedSingleModeToken token = true)
    (hflag : token.getD 1 0 = chr 'o') :
    token = if token.head? == some (chr '+') then lit "+o" else lit "-o" := by
  unfold ChannelCommandHandler.isSupportedSingleModeToken at h
  split at h
  · rename_i sign mode
    split_ifs at h with hsign
    simp only [Bool.and_eq_true, bne_iff_ne, ne_eq, not_and_or, not_not] at hsign
    obtain rfl : mode = chr 'o' := hflag
    rcases hsign with rfl | rfl <;> decide
  · cases h

/-- A channel is found by any spelling of its name. -/
theorem room_of_spelling (ha : s.channels[m]? = some a) (hf : caseFold m = caseFold n) :
    s.room n = some (s.channelAt a) := by
  rw [← room_congr s hf, room_eq ha]

/-- An update of a channel that lets the members be. -/
theorem Change.update (hl : Links s) (ha : s.channels[m]? = some a) {f : Channel → Channel}
    (hmem : (f (s.channelAt a)).members = (s.channelAt a).members) :
    Change n s (s.modifyChannel a f) [] := by
  have hnew := room_modifyChannel hl ha f n
  split_ifs at hnew with hf
  · exact .kept (ranks_update (room_of_spelling ha hf) hnew hmem)
  · exact .kept (ranks_of_room hnew)

/-- A member leaves a channel, by PART or by KICK. -/
theorem Change.leave (hl : Links s) (ha : s.channels[m]? = some a) {t : Addr} {nick : Str}
    (ht : s.getClientByNick nick = some t) (hm : t ∈ (s.channelAt a).members) :
    Change n s (s.removeClientFromChannel t m)
      (if caseFold m = caseFold n then [.goes nick] else []) := by
  have hleft := room_removeClientFromChannel hl ha hm n
  split_ifs at hleft ⊢ with hf
  · exact .goes ht (ranks_leave (room_of_spelling ha hf) hleft)
  · exact .kept (ranks_of_room hleft)

/-- A client comes into a channel, or is in it already. -/
theorem Change.join {addr : Addr} {nick : Str} (hw : WellFormed s)
    (hreg : s.getClientByNick nick = some q)
    (hs' : s.addClientToChannel addr q m = (some a, s')) (hin : s.InRoom p n) :
    Change n s s' (if caseFold m = caseFold n then [.comes nick] else []) := by
  by_cases hqin : s.InRoom q m
  · obtain ⟨-, rfl⟩ := addClientToChannel_of_inRoom hw hqin hs'
    split_ifs with hf
    · refine .comes hreg fun r b => (or_iff_left fun hc => hc.2.2 ?_).symm
      rwa [InRoom, ← room_congr _ hf]
    · exact .kept fun _ _ => Iff.rfl
  · have hnew := room_addClientToChannel hw hs' hqin n
    split_ifs at hnew ⊢ with hf
    · obtain ⟨ch, hch, -⟩ := hin
      rw [room_congr s hf, hch] at hnew
      rw [InRoom, room_congr s hf] at hqin
      exact .comes hreg fun r b => ranks_addMember hch hnew hqin r b
    · exact .kept (ranks_of_room hnew)

/-- A member that stays in a channel is told what a command does to the members, if it is not the
command's own JOIN of the channel. -/
theorem Outcome.change {addr : Addr} {res : CommandResult} (h : Orderly s)
    (hq : s.client.fdToClient[g]? = some q) (hp : s.client.fdToClient[fd]? = some p)
    (ho : Outcome addr g msg s q res s') (hin : s.InRoom p n) (hin' : s'.InRoom p n)
    (hjoin : msg.command = lit "JOIN" → q = p → caseFold (msg.getSingleParam 0) ≠ caseFold n) :
    Change n s s' (newsTo fd n res.replies) := by
  obtain ⟨hlive, hqfd⟩ := h.wf.links.fdOwner g q hq
  have hfd : 0 ≤ fd := by
    rw [← (h.wf.links.fdOwner fd p hp).2]
    exact (h.tidy p).fd
  have hw' := h.wf.outcome hlive ho
  have hp' : s'.client.fdToClient[fd]? = some p := by rw [ho.ownData.fds, hp]
  have welcomed : ∀ s₁ : ServerState,
      newsTo fd n (CommandDispatcher.maybeRegister q {} s₁).1.replies = [] := by
    intro s₁
    rcases maybeRegister_cases q {} s₁ with hs | hs <;> rw [hs]
    · rfl
    · exact newsTo_reply fun _ => heard_numericReply (by decide)
  cases ho with
  | silent | pass | quit => exact .kept fun _ _ => Iff.rfl
  | refused he =>
    rw [newsTo_reply fun _ => heard_error he.error]
    exact .kept fun _ _ => Iff.rfl
  | answered ha =>
    rw [newsTo_reply fun _ => heard_answer ha]
    exact .kept fun _ _ => Iff.rfl
  | @nick s₁ _ _ _ hs' =>
    have hch := updateNick_channels s q (msg.getSingleParam 0)
    rw [hs'] at hch
    rw [welcomed]
    refine .kept (ranks_of_room ?_)
    rw [room_of_eq (maybeRegister_channels q {} s₁), room_of_eq hch]
  | user _ _ _ _ hs' =>
    rw [welcomed, hs']
    exact .kept (ranks_of_room (room_of_eq (maybeRegister_channels q {} _) n))
  | @join a s₁ hcmd hreg hvalid _ hs' =>
    have hplain := h.plain hreg
    have hsame := SameClients.addClientToChannel s addr q (msg.getSingleParam 0)
    rw [hs'] at hsame
    obtain ⟨cs, hcs⟩ := hsame.data q
    have hplain' : (s'.clientAt q).Plain := by
      rw [hcs]
      exact ⟨hplain.nick, hplain.username, hplain.host⟩
    rw [newsTo_joinReplies hw' hp' hfd hin' (getElem?_addClientToChannel h.wf hs')
      (isToken_of_channelName hvalid) hplain', hcs]
    -- the client that joins is another one, and is not sent the names
    have hother : ¬ (g = fd ∧ caseFold (msg.getSingleParam 0) = caseFold n) := by
      rintro ⟨rfl, hf⟩
      rw [hq] at hp
      exact hjoin hcmd (Option.some.inj hp) hf
    rw [if_neg hother, List.append_nil]
    exact .join h.wf (h.getClientByNick hq hreg) hs' hin
  | part _ hreg ha hm =>
    rw [newsTo_broadcast h.wf hp hfd hin ha (heard_part (h.plain hreg) (h.token ha))]
    exact .leave h.wf.links ha (h.getClientByNick hq hreg) hm
  | textChannel _ hcmd hreg ha =>
    rw [newsTo_broadcast_none (heard_relayed (h.plain hreg) ?_ (h.token ha))]
    · exact .kept fun _ _ => Iff.rfl
    · rcases hcmd with rfl | rfl <;> decide
  | textNick _ hcmd hreg ht =>
    rw [newsTo_reply fun _ => heard_relayed (h.plain hreg) ?_ (h.nick_token ht)]
    · exact .kept fun _ _ => Iff.rfl
    · rcases hcmd with rfl | rfl <;> decide
  | kick _ hreg ha _ _ ht htm =>
    rw [newsTo_broadcast h.wf hp hfd hin ha
      (heard_kick (h.plain hreg) (h.token ha) (h.nick_token ht))]
    exact .leave h.wf.links ha ht htm
  | @invite a t _ hreg ht ha =>
    have hnone : newsTo fd n ((reply g (inviting (s.clientAt q) (msg.getSingleParam 0)
        (msg.getSingleParam 1))).addReply (s.clientAt t).fd (ReplyBuilder.invite
          (s.clientAt q).getFullPrefix (msg.getSingleParam 0) (msg.getSingleParam 1))).replies = [] := by
      refine newsTo_eq_nil fun m hm _ => ?_
      rcases List.mem_append.1 hm with hm | hm
      · cases List.mem_singleton.1 hm
        exact heard_inviting
      · cases List.mem_singleton.1 hm
        exact heard_invite (h.plain hreg) (h.nick_token ht)
    rw [hnone]
    exact .update h.wf.links ha rfl
  | topic _ hreg _ ha _ _ hs' =>
    subst hs'
    have hnone : heard n (ReplyBuilder.topic (s.clientAt q).getFullPrefix (lit "TOPIC")
        (msg.getSingleParam 0) (msg.getSingleParam 1)) = none :=
      heard_relayed (h.plain hreg) (by decide) (h.token ha)
    rw [newsTo_broadcast_none hnone]
    exact .update h.wf.links ha rfl
  | @mode a s₁ modes modeArg _ hreg ha _ _ htoken _ hs' hflag =>
    subst hs'
    have hplus : msg.getSingleParam 1 ≠ lit "+o" := fun he => hflag (by rw [he]; decide)
    have hminus : msg.getSingleParam 1 ≠ lit "-o" := fun he => hflag (by rw [he]; decide)
    rw [newsTo_broadcast_none (heard_mode_other (h.plain hreg) (h.token ha)
      (isToken_of_modeToken htoken) hplus hminus modeArg)]
    exact .update h.wf.links ha rfl
  | @oper a t s₁ _ hreg ha _ _ htoken ht htm hs' hflag =>
    subst hs'
    have hheard := heard_mode_operator n (h.plain hreg) (h.token ha) (h.nick_token ht)
      ((msg.getSingleParam 1).head? == some (chr '+'))
    rw [← modeToken_eq htoken hflag] at hheard
    have hnew := room_modifyChannel h.wf.links ha
      (·.setOperator t ((msg.getSingleParam 1).head? == some (chr '+'))) n
    rw [newsTo_broadcast hw' hp' hfd hin' ha hheard]
    split_ifs at hnew ⊢ with hf
    · have hroom := room_of_spelling ha hf
      exact .marked ht ⟨_, hroom, htm⟩ (ranks_setOperator hroom hnew htm)
    · exact .kept (ranks_of_room hnew)

end Ircserv
