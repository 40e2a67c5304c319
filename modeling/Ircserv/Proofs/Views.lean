import Mathlib.Data.List.Induction
import Ircserv.Proofs.Told

/-!
# The views of the members

A JOIN gives the client a true view of the channel (`Joins.trueView`), and each later turn that is
no NICK of a member keeps it true (`Turn.change`), so it is true at the end (`run_views`).
-/

open Std

namespace Ircserv

open ServerState CommandResult Ircserv.Parser

variable {s s' : ServerState} {p q a : Addr} {fd g : Fd} {n : Str} {msg : Message} {t : Turn}

namespace Outcome

variable {addr : Addr} {r : CommandResult}

/-- A NICK does nothing, or gives the client the nick. -/
theorem nick_cases (ho : Outcome addr g msg s q r s') (hcmd : msg.command = lit "NICK") :
    s' = s ∨ isValidNickname (msg.getSingleParam 0) = true ∧ ∃ s₁,
      s.updateNick q (msg.getSingleParam 0) = (true, s₁) ∧
        s' = (CommandDispatcher.maybeRegister q {} s₁).2 := by
  cases ho with
  | nick _ _ hvalid hs' => exact .inr ⟨hvalid, _, hs', rfl⟩
  | silent | refused | answered | quit | textChannel | textNick => exact .inl rfl
  | pass h | user h | join h | part h | kick h | invite h | topic h | mode h | oper h =>
    rw [hcmd] at h
    exact absurd h (by decide)

/-- A JOIN does nothing, or adds the client to the channel. -/
theorem join_cases (ho : Outcome addr g msg s q r s') (hcmd : msg.command = lit "JOIN") :
    s' = s ∨ ∃ a, s.addClientToChannel addr q (msg.getSingleParam 0) = (some a, s') ∧
      r = CommandDispatcher.joinReplies g s' q a (msg.getSingleParam 0) := by
  cases ho with
  | join _ _ _ _ hs' => exact .inr ⟨_, hs', rfl⟩
  | silent | refused | answered | quit | textChannel | textNick => exact .inl rfl
  | pass h | nick h | user h | part h | kick h | invite h | topic h | mode h | oper h =>
    rw [hcmd] at h
    exact absurd h (by decide)

/-- A command other than NICK changes no nick. -/
theorem nickname_own (hlive : q ∈ s.client.objects) (ho : Outcome addr g msg s q r s')
    (hcmd : msg.command ≠ lit "NICK") : (s'.clientAt q).nickname = (s.clientAt q).nickname := by
  obtain ⟨c, cs, hc, hs'⟩ := ho.own hlive
  rw [hs']
  cases hc with
  | kept | pass => rfl
  | nick h => exact absurd h hcmd
  | user =>
    rw [Client.enroll_data]
    rfl

end Outcome

/-- A nick that is accepted and not new is the client's own up to letter case. -/
theorem caseFold_updateNick (hw : WellFormed s) {m : Str} {s₁ : ServerState}
    (hs : s.updateNick q m = (true, s₁)) (hknown : s.getClientByNick m ≠ none) :
    caseFold m = caseFold (s.clientAt q).nickname := by
  rcases s.updateNick_cases q m with ⟨hsame, -⟩ | ⟨owner, -, -, hs'⟩ | ⟨-, hfree, -⟩
  · rw [hsame]
  · rw [hs'] at hs
    cases hs
  · obtain ⟨owner, howner⟩ := Option.ne_none_iff_exists'.1 hknown
    rw [← (hw.nicks.owner m owner howner).2.1, hfree owner howner]

/-- The members keep their nicks up to letter case. -/
theorem nick_of_not_renames (hw : WellFormed s) (ht : ¬ t.Renames n s)
    (hq : (s.act t.action).InRoom q n) :
    caseFold ((s.act t.action).clientAt q).nickname = caseFold (s.clientAt q).nickname := by
  rcases turn_cases s t with ⟨hs, -⟩ | ⟨addr, g, host, rfl, hg⟩ |
    ⟨addr, now, g, msg, monitor, r, rfl, hg, ho⟩ | ⟨g, reason, r, rfl, hg⟩
  · rw [hs]
  · have hin : s.InRoom q n := hq
    obtain ⟨ch, hch, hm⟩ := hin
    obtain ⟨a, -, rfl⟩ := room_eq_some_iff.1 hch
    rw [Turn.action, act, clientAt_addClient addr host hg, if_neg]
    rintro rfl
    exact Heap.fresh_not_mem _ _ (hw.links.memberLive hm)
  · have hlive := (hw.links.fdOwner g r hg).1
    by_cases hqr : q = r
    · subst hqr
      by_cases hcmd : msg.command = lit "NICK"
      · rcases ho.nick_cases hcmd with hs | ⟨hvalid, s₁, hs₁, hs⟩
        · rw [hs]
        · have hin : s.InRoom q n := by
            have hch := Outcome.updateNick_channels s q (msg.getSingleParam 0)
            rw [hs₁] at hch
            rw [hs, InRoom, room_of_eq (Outcome.maybeRegister_channels q {} s₁), room_of_eq hch] at hq
            exact hq
          have hknown : s.getClientByNick (msg.getSingleParam 0) ≠ none :=
            fun hnone => ht ⟨hcmd, hvalid, hnone, q, hg, hin⟩
          obtain ⟨hlive₁, hat⟩ := clientAt_updateNick hlive hs₁
          rw [hs, clientAt_maybeRegister hlive₁, hat, Client.enroll_data]
          exact caseFold_updateNick hw hs₁ hknown
      · rw [ho.nickname_own hlive hcmd]
    · rw [ho.nickname hqr]
  · obtain ⟨b, hrank⟩ := inRoom_iff_ranks.1 hq
    have hqr := ((ranks_forget (room_removeClient hw hg n) q b).1 hrank).2
    obtain ⟨cs, hcs⟩ := (hw.removeClient_client hg).2.2.1 q hqr
    rw [Turn.action, act, hcs]

/-- The others in its channels are told that a client disconnects. -/
theorem Orderly.depart (h : Orderly s) (hq : s.client.fdToClient[g]? = some q)
    (hp : s.client.fdToClient[fd]? = some p) (hin : s.InRoom p n) (hgf : g ≠ fd) (reason : Str) :
    Change n s (s.removeClient g) (newsTo fd n (DisconnectNotifier.build g reason s).replies) := by
  have hranks := ranks_forget (room_removeClient h.wf hq n)
  have hpfd := (h.wf.links.fdOwner fd p hp).2
  have hqp : q ≠ p := by
    rintro rfl
    rw [← (h.wf.links.fdOwner g q hq).2, hpfd] at hgf
    exact hgf rfl
  obtain ⟨fds, hb, hnodup, hmem⟩ := DisconnectNotifier.build_spec h.wf.links hq reason
  have hlines : linesTo fd (DisconnectNotifier.build g reason s).replies =
      if fd ∈ fds then [ReplyBuilder.quit (s.clientAt q).getFullPrefix reason] else [] := by
    rw [← map_filter_eq hnodup, hb, linesTo, DisconnectNotifier.broadcast, List.filter_map,
      List.map_map]
    rfl
  have hshares : s.InRoom q n → fd ∈ fds := by
    rintro ⟨ch, hch, hqm⟩
    obtain ⟨a, -, rfl⟩ := room_eq_some_iff.1 hch
    obtain ⟨ch', hch', hpm⟩ := hin
    cases hch.symm.trans hch'
    exact (hmem fd).2 ⟨p, ⟨hqp.symm, a, hqm, hpm⟩, hpfd⟩
  rw [newsTo, hlines]
  split_ifs with hfd
  · obtain ⟨-, ⟨-, a, hqm, -⟩, -⟩ := (hmem fd).1 hfd
    have hreg := h.registration.members q _ (inRoom_of_mem h.wf.links hqm)
    rw [List.filterMap_cons_some (heard_quit (h.plain hreg)), List.filterMap_nil]
    exact .goes (h.getClientByNick hq hreg) hranks
  · refine .kept fun r b => (hranks r b).trans (and_iff_left_of_imp ?_)
    rintro hrank rfl
    exact hfd (hshares hrank.inRoom)

/-- A member that stays in the channel and does not join it again is told what happens to it. -/
theorem Turn.change (h : Orderly s) (hp : s.getClientByFd fd = some p) (hin : s.InRoom p n)
    (hin' : (s.act t.action).InRoom p n) (hstay : t.isDepartureOf fd = false)
    (hjoin : ¬ Joins p n s t.action) :
    Change n s (s.act t.action) (newsTo fd n (t.result s).replies) := by
  rcases turn_cases s t with ⟨hs, hres⟩ | ⟨addr, g, host, rfl, hg⟩ |
    ⟨addr, now, g, msg, monitor, q, rfl, hg, ho⟩ | ⟨g, reason, q, rfl, hg⟩
  · rw [hs, hres]
    exact .kept fun _ _ => Iff.rfl
  · exact .kept fun _ _ => Iff.rfl
  · refine ho.change h hg hp hin hin' fun hcmd hqp hf => hjoin ?_
    subst hqp
    exact ⟨hg, hcmd, hf, hin'⟩
  · have hgf : g ≠ fd := by simpa [Turn.isDepartureOf] using hstay
    exact h.depart hg hp hin hgf reason

theorem handleJoin_member {addr : Addr} (hreg : (s.clientAt p).registered = true)
    (hvalid : isValidChannelName (msg.getSingleParam 0) = true)
    (ha : s.channels[msg.getSingleParam 0]? = some a) (hm : p ∈ (s.channelAt a).members) :
    CommandDispatcher.handleJoin addr fd msg s p =
      (CommandDispatcher.joinReplies fd s p a (msg.getSingleParam 0), s) := by
  have hparam := Message.hasParam_of_ne_nil (isToken_of_channelName hvalid).ne_nil
  have hm' := (Channel.hasMember_iff _ _).2 hm
  unfold CommandDispatcher.handleJoin
  simp only [hreg, hparam, hvalid, getChannel, ha, hm', addClientToChannel, getOrCreateChannel,
    Bool.not_true, Bool.false_eq_true, if_false, if_true]

/-- The replies to a JOIN that succeeds. -/
theorem Joins.replies (h : Orderly s) (hj : Joins p n s t.action) (hown : t.isCommandOf fd = true) :
    ∃ m a, caseFold m = caseFold n ∧ (s.act t.action).channels[m]? = some a ∧
      (t.result s).replies =
        (CommandDispatcher.joinReplies fd (s.act t.action) p a m).replies := by
  obtain ⟨addr, now, msg, monitor, rfl⟩ := Turn.eq_command hown
  obtain ⟨hp, hcmd, hf, hin'⟩ := hj
  have hact : s.act (.dispatch addr now fd msg monitor) =
      (CommandDispatcher.handleJoin addr fd msg s p).2 ∧
      (CommandDispatcher.dispatchWith addr now fd msg s monitor).1 =
        (CommandDispatcher.handleJoin addr fd msg s p).1 := by
    rw [act, CommandDispatcher.dispatchWith_handleCommand addr now monitor hp (by rw [hcmd]; decide),
      CommandDispatcher.handleCommand_join hcmd]
    exact ⟨rfl, rfl⟩
  rw [Turn.action, Turn.result, hact.1, hact.2]
  rw [hact.1] at hin'
  refine ⟨msg.getSingleParam 0, ?_⟩
  by_cases hin : s.InRoom p n
  · have hreg := h.registration.members p n hin
    obtain ⟨ch, hch, hm⟩ := hin
    rw [← room_congr s hf] at hch
    obtain ⟨a, ha, rfl⟩ := room_eq_some_iff.1 hch
    have hvalid : isValidChannelName (msg.getSingleParam 0) = true := by
      rw [← isValidChannelName_congr (h.wf.links.nameOwner _ a ha).2]
      exact (h.rooms _ _ hch).named
    rw [handleJoin_member hreg hvalid ha hm]
    exact ⟨a, hf, ha, rfl⟩
  · have ho : Outcome addr fd msg s p _ _ := CommandDispatcher.handleJoin_outcome hcmd
    rcases ho.join_cases hcmd with hs | ⟨a, hadd, hr⟩
    · rw [hs] at hin'
      exact absurd hin' hin
    · rw [hr]
      exact ⟨a, hf, getElem?_addClientToChannel h.wf hadd, rfl⟩

/-- A client that joins a channel gets a true view of it. -/
theorem Joins.trueView (h : Orderly s) (ht : t.Real) (hp : s.getClientByFd fd = some p)
    (hj : Joins p n s t.action) (hown : t.isCommandOf fd = true) (view : IrcMap Bool) :
    (s.act t.action).TrueView n ((newsTo fd n (t.result s).replies).foldl News.apply view) := by
  have h' := h.turn ht
  have hp' : (s.act t.action).client.fdToClient[fd]? = some p := by
    refine getClientByFd_act h.wf hp ?_
    cases t with
    | arrive | depart => cases hown
    | command => rfl
  have hfd : 0 ≤ fd := by
    rw [← (h'.wf.links.fdOwner fd p hp').2]
    exact (h'.tidy p).fd
  have hin' : (s.act t.action).InRoom p n := by
    cases t with
    | arrive | depart => cases hown
    | command => exact hj.2.2.2
  obtain ⟨m, a, hf, ha, hreplies⟩ := hj.replies h hown
  have hch : (s.act t.action).room n = some ((s.act t.action).channelAt a) := by
    rw [← room_congr _ hf, room_eq ha]
  rw [hreplies, newsTo_joinReplies h'.wf hp' hfd hin' ha (h'.token ha)
    (h'.plain (h'.registration.members p n hin')), if_pos hf, if_pos ⟨rfl, hf⟩]
  exact TrueView.names h'.registration h'.wf h'.rooms hch

/-- A member that has not just joined was one before. -/
theorem inRoom_before (hw : WellFormed s) (hp : (s.act t.action).getClientByFd fd = some p)
    (hin : (s.act t.action).InRoom p n) (hjoin : ¬ Joins p n s t.action) :
    s.getClientByFd fd = some p ∧ s.InRoom p n ∧ t.isDepartureOf fd = false := by
  have hin₀ : s.InRoom p n := by
    rcases turn_cases s t with ⟨hs, -⟩ | ⟨addr, g, host, rfl, hg⟩ |
      ⟨addr, now, g, msg, monitor, q, rfl, hg, ho⟩ | ⟨g, reason, q, rfl, hg⟩
    · rwa [hs] at hin
    · exact hin
    · by_contra hout
      obtain ⟨rfl, hcmd, hf⟩ := ho.joined_of_inRoom hw hout hin
      exact hjoin ⟨hg, hcmd, hf, hin⟩
    · obtain ⟨b, hrank⟩ := inRoom_iff_ranks.1 hin
      exact ((ranks_forget (room_removeClient hw hg n) p b).1 hrank).1.inRoom
  have hstay : t.isDepartureOf fd = false := by
    cases t with
    | arrive | command => rfl
    | depart g reason =>
      rw [Turn.isDepartureOf, beq_eq_false_iff_ne]
      rintro rfl
      rw [Turn.action, act, getClientByFd_depart hw] at hp
      cases hp
  refine ⟨?_, hin₀, hstay⟩
  rcases hfree : s.getClientByFd fd with _ | p'
  · -- the descriptor was free, so its client is new and in no channel
    obtain ⟨addr, host, rfl⟩ := eq_arrive_of_taken (t := t) hw hfree (by simp [hp])
    rw [Turn.action, act, getClientByFd_addClient hfree addr host] at hp
    cases hp
    obtain ⟨ch, hch, hm⟩ := hin₀
    obtain ⟨a, -, rfl⟩ := room_eq_some_iff.1 hch
    exact absurd (hw.links.memberLive hm) (Heap.fresh_not_mem _ _)
  · rw [getClientByFd_act hw hfree hstay] at hp
    exact hp

/-- A JOIN of the client comes from its descriptor. -/
theorem Joins.own (hw : WellFormed s) (hp : (s.act t.action).getClientByFd fd = some p)
    (hj : Joins p n s t.action) : t.isCommandOf fd = true := by
  cases t with
  | arrive | depart => exact hj.elim
  | command addr now g msg monitor =>
    obtain ⟨hg, -⟩ := hj
    have ho := CommandDispatcher.dispatchWith_outcome addr now msg monitor hg
    have hp' : s.client.fdToClient[fd]? = some p := by
      rw [← ho.ownData.fds]
      exact hp
    have hgf : g = fd := by
      rw [← (hw.links.fdOwner g p hg).2, (hw.links.fdOwner fd p hp').2]
    simp [Turn.isCommandOf, hgf]

/-- The turns after which the client of `fd` last joined the channel `n`. -/
structure LatestJoin (s : ServerState) (fd : Fd) (p : Addr) (n : Str) (before : List Turn) (t : Turn)
    (after : List Turn) : Prop where
  own : t.isCommandOf fd = true
  joins : Joins p n (s.play before) t.action
  stays : ∀ u ∈ after, u.isDepartureOf fd = false
  latest : ∀ past u rest, after = past ++ u :: rest →
    ¬ Joins p n (s.play (before ++ t :: past)) u.action

namespace LatestJoin

variable {before past rest : List Turn}

theorem client {after : List Turn} (h : LatestJoin s fd p n before t after) :
    (s.play before).getClientByFd fd = some p := by
  obtain ⟨hown, hjoins, -, -⟩ := h
  obtain ⟨addr, now, msg, monitor, rfl⟩ := Turn.eq_command hown
  exact hjoins.1

/-- At an earlier point it was the latest as well. -/
theorem earlier (h : LatestJoin s fd p n before t (past ++ rest)) :
    LatestJoin s fd p n before t past where
  own := h.own
  joins := h.joins
  stays u hu := h.stays u (List.mem_append_left rest hu)
  latest kept u more hu := h.latest kept u (more ++ rest) (by simp [hu])

end LatestJoin

theorem play_concat (s : ServerState) (turns : List Turn) (t : Turn) :
    s.play (turns ++ [t]) = (s.play turns).act t.action := play_append s turns [t]

/-- Every member has a JOIN that is its latest. -/
theorem exists_latestJoin (password : Str) : ∀ turns : List Turn,
    (play { password := password } turns).getClientByFd fd = some p →
    (play { password := password } turns).InRoom p n →
    ∃ before t after, turns = before ++ t :: after ∧
      LatestJoin { password := password } fd p n before t after := by
  intro turns
  induction turns using List.reverseRecOn with
  | nil =>
    rintro - ⟨ch, hch, -⟩
    simp [play, room] at hch
  | append_singleton turns t ih =>
    intro hp hin
    have hw := WellFormed.play (.start password) turns
    rw [play_concat] at hp hin
    by_cases hjoin : Joins p n (play { password := password } turns) t.action
    · refine ⟨turns, t, [], rfl, hjoin.own hw hp, hjoin, by simp, fun past u rest h => ?_⟩
      simp at h
    · obtain ⟨hp₀, hin₀, hstay⟩ := inRoom_before hw hp hin hjoin
      obtain ⟨before, u, after, rfl, h⟩ := ih hp₀ hin₀
      refine ⟨before, u, after ++ [t], by simp, h.own, h.joins, fun v hv => ?_,
        fun past v rest hv => ?_⟩
      · rcases List.mem_append.1 hv with hv | hv
        · exact h.stays v hv
        · cases List.mem_singleton.1 hv
          exact hstay
      · rcases List.eq_nil_or_concat rest with rfl | ⟨rest, w, rfl⟩
        · obtain ⟨rfl, ht⟩ := List.append_inj' hv rfl
          cases ht
          exact hjoin
        · rw [List.concat_eq_append, ← List.cons_append, ← List.append_assoc] at hv
          obtain ⟨hv, -⟩ := List.append_inj' hv rfl
          exact h.latest past v rest hv

theorem traffic_concat_cons (s : ServerState) (t u : Turn) (past : List Turn) :
    s.traffic (t :: (past ++ [u])) =
      s.traffic (t :: past) ++ (u.result (s.play (t :: past))).replies := by
  rw [← List.cons_append, traffic_append]
  exact congrArg (List.append _) (List.append_nil _)

theorem viewOf_append (n : Str) (first second : List Str) :
    viewOf n (first ++ second) = (second.filterMap (heard n)).foldl News.apply (viewOf n first) := by
  rw [viewOf, List.foldl_append, foldl_hear]
  rfl

theorem linesTo_append (fd : Fd) (first second : List OutgoingMessage) :
    linesTo fd (first ++ second) = linesTo fd first ++ linesTo fd second := by
  simp [linesTo]

/-- The client has been a member since its latest JOIN. -/
theorem LatestJoin.member {before past : List Turn} (hw : WellFormed s) : ∀ rest : List Turn,
    LatestJoin s fd p n before t (past ++ rest) →
    (s.play (before ++ t :: (past ++ rest))).getClientByFd fd = some p →
    (s.play (before ++ t :: (past ++ rest))).InRoom p n →
    (s.play (before ++ t :: past)).getClientByFd fd = some p ∧
      (s.play (before ++ t :: past)).InRoom p n := by
  intro rest
  induction rest using List.reverseRecOn with
  | nil =>
    intro _ hp hin
    rw [List.append_nil] at hp hin
    exact ⟨hp, hin⟩
  | append_singleton rest u ih =>
    intro hj hp hin
    have hshift : before ++ t :: (past ++ (rest ++ [u])) = (before ++ t :: (past ++ rest)) ++ [u] := by
      simp
    rw [hshift, play_concat] at hp hin
    have hjoin := hj.latest (past ++ rest) u [] (by simp)
    obtain ⟨hp₁, hin₁, -⟩ := inRoom_before (hw.play _) hp hin hjoin
    rw [← List.append_assoc] at hj
    exact ih hj.earlier hp₁ hin₁

/-- From a JOIN on, a member's view is true as long as no member is renamed. -/
theorem LatestJoin.trueView {before : List Turn} (h : Orderly (s.play before)) (ht : t.Real) :
    ∀ after : List Turn, (∀ u ∈ after, u.Real) → LatestJoin s fd p n before t after →
      (s.play (before ++ t :: after)).getClientByFd fd = some p →
      (s.play (before ++ t :: after)).InRoom p n →
      (∀ past u rest, after = past ++ u :: rest → ¬ u.Renames n (s.play (before ++ t :: past))) →
      (s.play (before ++ t :: after)).TrueView n
        (viewOf n (linesTo fd ((s.play before).traffic (t :: after)))) := by
  intro after
  induction after using List.reverseRecOn with
  | nil =>
    intro _ hj _ _ _
    rw [play_append, traffic, traffic, List.append_nil, viewOf, foldl_hear]
    exact hj.joins.trueView h ht hj.client hj.own ∅
  | append_singleton after u ih =>
    intro hreal hj hp hin hkeep
    have hshift : before ++ t :: (after ++ [u]) = (before ++ t :: after) ++ [u] := by simp
    rw [hshift, play_concat] at hp hin ⊢
    have horder : Orderly (s.play (before ++ t :: after)) := by
      rw [play_append]
      refine h.play (t :: after) fun v hv => ?_
      rcases List.mem_cons.1 hv with rfl | hv
      · exact ht
      · exact hreal v (List.mem_append_left _ hv)
    have hjoin := hj.latest after u [] (by simp)
    obtain ⟨hp₁, hin₁, hstay⟩ := inRoom_before horder.wf hp hin hjoin
    have htrue := ih (fun v hv => hreal v (List.mem_append_left _ hv)) hj.earlier hp₁ hin₁
      fun past v rest hv => hkeep past v (rest ++ [u]) (by simp [hv])
    rw [traffic_concat_cons, linesTo_append, viewOf_append, ← play_append]
    exact htrue.change horder.registration horder.wf
      (fun r hr => nick_of_not_renames horder.wf (hkeep after u [] (by simp)) hr)
      (Turn.change horder hp₁ hin₁ hin hstay hjoin)

/-- A member that asks for a nick that nobody has gets it, and nobody is told. -/
theorem Renames.state (h : Orderly s) (ht : t.Renames n s) :
    (t.result s).replies = [] ∧ ∃ q m, s.InRoom q n ∧ s.getClientByNick m = none ∧
      (s.act t.action).room n = s.room n ∧ ((s.act t.action).clientAt q).nickname = m := by
  cases t with
  | arrive | depart => exact ht.elim
  | command addr now g msg monitor =>
    obtain ⟨hcmd, hvalid, hfree, q, hq, hin⟩ := ht
    have hlive := (h.wf.links.fdOwner g q hq).1
    have hreg := h.registration.members q n hin
    have hpass : (s.clientAt q).passOk = true := by
      rw [(h.registration.clients q).registered, Client.canRegister_iff] at hreg
      exact hreg.1
    have hparam := Message.hasParam_of_ne_nil (isValidNickname_ne_nil hvalid)
    obtain ⟨s₁, hs₁⟩ : ∃ s₁, s.updateNick q (msg.getSingleParam 0) = (true, s₁) := by
      rcases s.updateNick_cases q (msg.getSingleParam 0) with ⟨-, hs⟩ | ⟨owner, ho, -, -⟩ | ⟨-, -, hs⟩
      · exact ⟨_, hs⟩
      · rw [show s.client.nicknameToClient[msg.getSingleParam 0]? = none from hfree] at ho
        cases ho
      · exact ⟨_, hs⟩
    obtain ⟨hlive₁, hat⟩ := clientAt_updateNick hlive hs₁
    have hreg₁ : (s₁.clientAt q).registered = true := by
      rw [hat]
      exact hreg
    have hhandled : CommandDispatcher.handleNick g msg s q = ({}, s₁) := by
      unfold CommandDispatcher.handleNick
      simp only [hparam, hvalid, hs₁, CommandDispatcher.maybeRegister, hreg₁, Bool.not_true,
        Bool.false_eq_true, if_false, Bool.false_and]
    have hch := Outcome.updateNick_channels s q (msg.getSingleParam 0)
    rw [hs₁] at hch
    rw [Turn.action, act, Turn.result, CommandDispatcher.dispatchWith_handleCommand addr now monitor hq
      (by rw [hcmd]; decide), CommandDispatcher.handleCommand_nick hcmd]
    simp only [hpass, Bool.not_true, Bool.false_eq_true, if_false, hhandled]
    exact ⟨trivial, q, msg.getSingleParam 0, hin, hfree, room_of_eq hch n, by rw [hat]; rfl⟩

/-- So the members' views of it are no longer true. -/
theorem Renames.not_trueView (h : Orderly s) (ht : t.Renames n s) {view : IrcMap Bool}
    (hv : s.TrueView n view) :
    ¬ (s.act t.action).TrueView n ((newsTo fd n (t.result s).replies).foldl News.apply view) := by
  intro hv'
  obtain ⟨hreplies, q, m, hin, hfree, hroom, hnick⟩ := Renames.state h ht
  rw [hreplies] at hv'
  obtain ⟨b, hrank⟩ := inRoom_iff_ranks.1 hin
  have hentry := (hv' m b).2 ⟨q, (ranks_of_room hroom q b).2 hrank, by rw [hnick]⟩
  obtain ⟨r, hr, hf⟩ := (hv m b).1 hentry
  have hown := h.registration.getClientByNick h.wf hr.inRoom
  have hfree' : s.client.nicknameToClient[m]? = none := hfree
  rw [← ExtTreeMap.getElem?_congr ((ircCmp_eq_iff _ _).2 hf)] at hfree'
  rw [show s.getClientByNick _ = _ from hfree'] at hown
  cases hown

/-- Views: every member has a latest JOIN, and the view it can put together from the lines since
then is true at every point since then if and only if no NICK of a member was accepted for a nick
that is new up to letter case. -/
theorem run_views (password : Str) (turns : List Turn) (fd : Fd) (p : Addr) (n : Str)
    (hreal : ∀ t ∈ turns, t.Real) :
    let start : ServerState := { password := password }
    (start.play turns).getClientByFd fd = some p → (start.play turns).InRoom p n →
      (∃ before t after, turns = before ++ t :: after ∧ LatestJoin start fd p n before t after) ∧
      ∀ before t after, turns = before ++ t :: after → LatestJoin start fd p n before t after →
        ((∀ past rest, after = past ++ rest → (start.play (before ++ t :: past)).TrueView n
            (viewOf n (linesTo fd ((start.play before).traffic (t :: past))))) ↔
          ∀ past u rest, after = past ++ u :: rest →
            ¬ u.Renames n (start.play (before ++ t :: past))) := by
  intro start hp hin
  refine ⟨exists_latestJoin password turns hp hin, ?_⟩
  rintro before t after rfl hj
  have horder : ∀ past rest, after = past ++ rest → Orderly (start.play (before ++ t :: past)) := by
    rintro past rest rfl
    refine (Orderly.start password).play _ fun u hu => hreal u ?_
    rw [← List.cons_append, ← List.append_assoc]
    exact List.mem_append_left _ hu
  have hbefore : Orderly (start.play before) :=
    (Orderly.start password).play before fun u hu => hreal u (List.mem_append_left _ hu)
  constructor
  · rintro htrue past u rest rfl hu
    have hthen := htrue (past ++ [u]) rest (by simp)
    rw [show before ++ t :: (past ++ [u]) = (before ++ t :: past) ++ [u] by simp, play_concat,
      traffic_concat_cons, linesTo_append, viewOf_append, ← play_append] at hthen
    exact Renames.not_trueView (horder past (u :: rest) rfl) hu (htrue past (u :: rest) rfl) hthen
  · rintro hkeep past rest rfl
    obtain ⟨hp₁, hin₁⟩ := hj.member (.start password) rest hp hin
    refine LatestJoin.trueView hbefore (hreal t (by simp)) past (fun u hu => hreal u (by simp [hu]))
      hj.earlier hp₁ hin₁ fun kept u more hu => hkeep kept u (more ++ rest) (by simp [hu])

theorem eq_of_singleton {past rest : List Turn} {u : Turn} (h : [t] = past ++ u :: rest) :
    past = [] ∧ t = u ∧ rest = [] := by
  rcases List.append_eq_singleton_iff.1 h.symm with ⟨hpast, hrest⟩ | ⟨-, hrest⟩
  · cases hrest
    exact ⟨hpast, rfl, rfl⟩
  · cases hrest

/-- The case of a member that becomes an operator after it joined. -/
theorem run_views_operator :
    let start : ServerState := { password := lit "pw" }
    let before : List Turn := [
      .arrive 4 6 (lit "k"), .command 0 0 6 (parse (lit "PASS pw")) none,
      .command 0 0 6 (parse (lit "NICK b")) none, .command 0 0 6 (parse (lit "USER b 0 * b")) none,
      .command 7 0 6 (parse (lit "JOIN #c")) none,
      .arrive 3 5 (lit "h"), .command 0 0 5 (parse (lit "PASS pw")) none,
      .command 0 0 5 (parse (lit "NICK a")) none, .command 0 0 5 (parse (lit "USER a 0 * a")) none]
    let join : Turn := .command 0 0 5 (parse (lit "JOIN #C")) none
    let mode : Turn := .command 0 0 6 (parse (lit "MODE #c +o A")) none
    (start.play (before ++ [join, mode])).TrueView (lit "#c")
      (viewOf (lit "#c") (linesTo 5 ((start.play before).traffic [join, mode]))) := by
  intro start before join mode
  have hreal : ∀ t ∈ before ++ [join, mode], t.Real := by
    simp only [before, join, mode, List.cons_append, List.nil_append, List.forall_mem_cons, Turn.Real]
    exact ⟨by decide, ⟨_, rfl⟩, ⟨_, rfl⟩, ⟨_, rfl⟩, ⟨_, rfl⟩, by decide, ⟨_, rfl⟩, ⟨_, rfl⟩, ⟨_, rfl⟩,
      ⟨_, rfl⟩, ⟨_, rfl⟩, by simp⟩
  have hlatest : LatestJoin start 5 3 (lit "#c") before join [mode] := by
    refine ⟨rfl, ⟨by decide +kernel, by decide +kernel, by decide +kernel, by decide +kernel⟩, by decide,
      fun past u rest h hj => ?_⟩
    obtain ⟨rfl, rfl, -⟩ := eq_of_singleton h
    exact absurd hj.2.1 (by decide +kernel)
  refine ((run_views (lit "pw") (before ++ [join, mode]) 5 3 (lit "#c") hreal (by decide +kernel)
    (by decide +kernel)).2 before join [mode] rfl hlatest).2 (fun past u rest h hu => ?_) [mode] [] rfl
  obtain ⟨rfl, rfl, -⟩ := eq_of_singleton h
  exact absurd hu.1 (by decide +kernel)

/-- A member is not told of the new nick of another. -/
theorem run_views_nick :
    let start : ServerState := { password := lit "pw" }
    let before : List Turn := [
      .arrive 4 6 (lit "k"), .command 0 0 6 (parse (lit "PASS pw")) none,
      .command 0 0 6 (parse (lit "NICK b")) none, .command 0 0 6 (parse (lit "USER b 0 * b")) none,
      .command 7 0 6 (parse (lit "JOIN #c")) none,
      .arrive 3 5 (lit "h"), .command 0 0 5 (parse (lit "PASS pw")) none,
      .command 0 0 5 (parse (lit "NICK a")) none, .command 0 0 5 (parse (lit "USER a 0 * a")) none]
    let join : Turn := .command 0 0 5 (parse (lit "JOIN #c")) none
    let nick : Turn := .command 0 0 6 (parse (lit "NICK z")) none
    (∀ t ∈ before ++ [join, nick], t.Real) ∧
      (start.play (before ++ [join, nick])).getClientByFd 5 = some 3 ∧
      (start.play (before ++ [join, nick])).InRoom 3 (lit "#c") ∧
      LatestJoin start 5 3 (lit "#c") before join [nick] ∧
      ¬ (start.play (before ++ [join, nick])).TrueView (lit "#c")
        (viewOf (lit "#c") (linesTo 5 ((start.play before).traffic [join, nick]))) := by
  intro start before join nick
  refine ⟨?_, by decide +kernel, by decide +kernel, ?_, fun hview => ?_⟩
  · simp only [before, join, nick, List.cons_append, List.nil_append, List.forall_mem_cons, Turn.Real]
    exact ⟨by decide, ⟨_, rfl⟩, ⟨_, rfl⟩, ⟨_, rfl⟩, ⟨_, rfl⟩, by decide, ⟨_, rfl⟩, ⟨_, rfl⟩, ⟨_, rfl⟩,
      ⟨_, rfl⟩, ⟨_, rfl⟩, by simp⟩
  · refine ⟨rfl, ⟨by decide +kernel, by decide +kernel, by decide +kernel, by decide +kernel⟩, by decide,
      fun past u rest h hj => ?_⟩
    obtain ⟨rfl, rfl, -⟩ := eq_of_singleton h
    exact absurd hj.2.1 (by decide +kernel)
  · have hnew := (hview (lit "z") true).2 ⟨4, by decide +kernel, by decide +kernel⟩
    exact absurd hnew (by decide +kernel)

end Ircserv
