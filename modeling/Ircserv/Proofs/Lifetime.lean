import Ircserv.Proofs.Channels

/-!
# Channels come and go

A channel goes when its last member leaves, whichever way it leaves (`Departure`), and a channel
that appears where there was none is a fresh one.
-/

open Std

namespace Ircserv

open ServerState

/-- The actions that take `p` out of the channel `n`: its own PART, the KICK of an operator and its
removal. -/
inductive Departure (s : ServerState) (p : Addr) (n : Str) : Action → Prop
  | part {addr : Addr} {now : Time} {fd : Fd} {msg : Message}
      {monitor : Option ConnectionHealthMonitor} (hp : s.getClientByFd fd = some p)
      (h : msg.command = lit "PART") (hparam : msg.hasParam 0 = true)
      (hname : caseFold (msg.getSingleParam 0) = caseFold n) :
      Departure s p n (.dispatch addr now fd msg monitor)
  | kick {addr : Addr} {now : Time} {fd : Fd} {msg : Message}
      {monitor : Option ConnectionHealthMonitor} {q : Addr} {ch : Channel}
      (hq : s.getClientByFd fd = some q) (h : msg.command = lit "KICK")
      (hparam : 2 ≤ msg.getParamCount) (hname : caseFold (msg.getSingleParam 0) = caseFold n)
      (hch : s.room n = some ch) (hop : ch.isOperator q = true)
      (hvalid : isValidNickname (msg.getSingleParam 1) = true)
      (htarget : s.getClientByNick (msg.getSingleParam 1) = some p) :
      Departure s p n (.dispatch addr now fd msg monitor)
  | disconnect {fd : Fd} (hp : s.getClientByFd fd = some p) : Departure s p n (.removeClient fd)

variable {s : ServerState} {p q : Addr} {n name : Str} {msg : Message} {fd : Fd} {ch : Channel}

theorem Channel.mem_of_isOperator (h : ch.isOperator p = true) : p ∈ ch.members := by
  unfold isOperator at h
  split at h
  · rename_i info hi
    rw [ExtTreeMap.mem_iff_isSome_getElem?, hi]
    rfl
  · cases h

theorem Channel.not_mem_of_leave {left : Channel} (h : ch.leave p = some left) :
    p ∉ left.members := by
  obtain ⟨-, rfl⟩ := leave_eq_some_iff.1 h
  simp

theorem handlePart_state {a : Addr} (hreg : (s.clientAt p).registered = true)
    (hparam : msg.hasParam 0 = true) (hvalid : isValidChannelName (msg.getSingleParam 0) = true)
    (ha : s.channels[msg.getSingleParam 0]? = some a) (hm : p ∈ (s.channelAt a).members) :
    (CommandDispatcher.handlePart fd msg s p).2 =
      s.removeClientFromChannel p (msg.getSingleParam 0) := by
  unfold CommandDispatcher.handlePart
  simp only [hreg, hparam, hvalid, getChannel, ha, (Channel.hasMember_iff _ _).2 hm, Bool.not_true,
    Bool.false_eq_true, if_false]

theorem handleKick_state {a : Addr} (hreg : (s.clientAt p).registered = true)
    (hparam : 2 ≤ msg.getParamCount) (hvalid : isValidChannelName (msg.getSingleParam 0) = true)
    (ha : s.channels[msg.getSingleParam 0]? = some a)
    (hop : (s.channelAt a).isOperator p = true)
    (hnick : isValidNickname (msg.getSingleParam 1) = true)
    (hq : s.getClientByNick (msg.getSingleParam 1) = some q) (hqm : q ∈ (s.channelAt a).members) :
    (ChannelCommandHandler.handleKick fd msg s p).2 =
      s.removeClientFromChannel q (msg.getSingleParam 0) := by
  unfold ChannelCommandHandler.handleKick
  simp only [hreg, Nat.not_lt.2 hparam, hvalid, getChannel, ha, hop, hnick, hq,
    (Channel.hasMember_iff _ _).2 (Channel.mem_of_isOperator hop),
    (Channel.hasMember_iff _ _).2 hqm, Bool.not_true, Bool.false_eq_true, if_false]

/-- A departure leaves the channel without `p`, and without the channel when `p` was alone. -/
theorem Departure.room_eq (hw : WellFormed s) (hs : SoundRooms s) (hr : Registration s)
    {action : Action} (hd : Departure s p n action) (hin : s.InRoom p n) :
    (s.act action).room n = (s.room n).bind (·.leave p) := by
  obtain ⟨ch, hch, hm⟩ := hin
  obtain ⟨a, ha, rfl⟩ := room_eq_some_iff.1 hch
  have hnamed : ∀ m, caseFold m = caseFold n →
      isValidChannelName m = true ∧ s.channels[m]? = some a := by
    intro m hm
    have hf := (fold_eq_iff hw.links ha).1 hm.symm
    refine ⟨?_, hf⟩
    rw [isValidChannelName_congr (hm.trans (hw.links.nameOwner n a ha).2.symm)]
    exact (hs n _ hch).named
  rw [hch]
  cases hd with
  | @part addr now fd msg monitor hp h hparam hname =>
    obtain ⟨hvalid, ha'⟩ := hnamed _ hname
    have hreg := hr.members p n ⟨_, hch, hm⟩
    rw [act, CommandDispatcher.dispatchWith_handleCommand addr now monitor hp (by rw [h]; decide),
      CommandDispatcher.handleCommand_part h]
    show (CommandDispatcher.handlePart fd msg s p).2.room n = _
    rw [handlePart_state hreg hparam hvalid ha' hm, room_removeClientFromChannel hw.links ha' hm,
      if_pos hname]
    rfl
  | @kick addr now fd msg monitor q _ hq h hparam hname hch' hop hvalid' htarget =>
    obtain ⟨hvalid, ha'⟩ := hnamed _ hname
    cases hch.symm.trans hch'
    have hreg := hr.members q n ⟨_, hch, Channel.mem_of_isOperator hop⟩
    rw [act, CommandDispatcher.dispatchWith_handleCommand addr now monitor hq (by rw [h]; decide),
      CommandDispatcher.handleCommand_kick h]
    show (ChannelCommandHandler.handleKick fd msg s q).2.room n = _
    rw [handleKick_state hreg hparam hvalid ha' hop hvalid' htarget hm,
      room_removeClientFromChannel hw.links ha' hm, if_pos hname]
    rfl
  | disconnect hp =>
    rw [act, room_removeClient hw hp, hch]
    exact if_pos ((Channel.hasMember_iff _ _).2 hm)

/-- A member a command takes out of a channel leaves it. -/
theorem RoomChange.eq_leave {new : Option Channel} (hc : RoomChange msg s p name new)
    (hch : s.room name = some ch) (hq : q ∈ ch.members)
    (hout : ∀ left, new = some left → q ∉ left.members) : new = ch.leave q := by
  cases hc with
  | join =>
    exact absurd (mem_joined.2 (.inr ⟨ch, hch, hq⟩)) (hout _ rfl)
  | @leave ch' r _ hch' hr =>
    cases hch.symm.trans hch'
    by_cases hqr : q = r
    · rw [hqr]
    · have hleft := Channel.leave_eq_some_iff.2 ⟨⟨q, hq, hqr⟩, rfl⟩
      exact absurd (by simp [hq, Ne.symm hqr]) (hout _ hleft)
  | invite _ hch' | topic hch' | mode hch' =>
    cases hch.symm.trans hch'
    exact (hout _ rfl hq).elim
  | oper hch' =>
    cases hch.symm.trans hch'
    exact (hout _ rfl ((Channel.mem_setOperator _ _ _ _).2 hq)).elim

/-- A channel whose only member is gone after the action is gone too. -/
theorem WellFormed.room_of_last (hw : WellFormed s) {action : Action} (hin : s.InRoom p n)
    (honly : ∀ q, s.InRoom q n → q = p) (hout : ¬ (s.act action).InRoom p n) :
    (s.act action).room n = none := by
  obtain ⟨ch, hch, hm⟩ := hin
  have hall : ∀ q ∈ ch.members, q = p := fun q hq => honly q ⟨ch, hch, hq⟩
  have hout' : ∀ left, (s.act action).room n = some left → p ∉ left.members :=
    fun left hl hp => hout ⟨left, hl, hp⟩
  rcases hw.act_rooms action with hsame | ⟨fd, r, -, -, hroom⟩ |
    ⟨addr, now, fd, msg, monitor, r, name, new, -, -, hc, hroom⟩
  · exact absurd hm (hout' ch (by rw [hsame, hch]))
  · rw [hroom, hch] at hout' ⊢
    by_cases hr : r ∈ ch.members
    · rw [hall r hr]
      show ch.forget p = none
      rw [Channel.forget, if_pos ((Channel.hasMember_iff _ _).2 hm), Channel.leave_eq_none_iff]
      exact hall
    · have hforget : ch.forget r = some (ch.removeInvite r) :=
        if_neg fun h => hr ((Channel.hasMember_iff _ _).1 h)
      exact (hout' _ hforget hm).elim
  · rw [hroom] at hout' ⊢
    by_cases hf : caseFold name = caseFold n
    · rw [if_pos hf] at hout' ⊢
      rw [hc.eq_leave (by rw [room_congr s hf, hch]) hm hout', Channel.leave_eq_none_iff]
      exact hall
    · rw [if_neg hf] at hout'
      exact absurd hm (hout' ch hch)

/-- A channel that was not there before was founded by a client that joined it. -/
theorem WellFormed.founded_of_new (hw : WellFormed s) {action : Action} (hn : s.room n = none)
    (hch : (s.act action).room n = some ch) :
    ∃ addr now fd msg monitor p, action = .dispatch addr now fd msg monitor ∧
      s.getClientByFd fd = some p ∧ msg.command = lit "JOIN" ∧
      ch = .founded (msg.getSingleParam 0) p := by
  rcases hw.act_rooms action with hsame | ⟨fd, r, -, -, hroom⟩ |
    ⟨addr, now, fd, msg, monitor, r, name, new, rfl, hr, hc, hroom⟩
  · rw [hsame, hn] at hch
    cases hch
  · rw [hroom, hn] at hch
    cases hch
  · rw [hroom] at hch
    by_cases hf : caseFold name = caseFold n
    · rw [if_pos hf] at hch
      have hn' : s.room name = none := by rw [room_congr s hf, hn]
      cases hc with
      | join h hname =>
        rw [hn'] at hch
        refine ⟨addr, now, fd, msg, monitor, r, rfl, hr, h, ?_⟩
        rw [hname]
        exact (Option.some.inj hch).symm
      | leave _ hold | invite _ hold | topic hold | mode hold | oper hold =>
        rw [hn'] at hold
        cases hold
    · rw [if_neg hf, hn] at hch
      cases hch

/-- Lifetime: every channel of the map has a member, is called what its key says and has a valid
name, no two have one name, a channel goes with its last member, and a channel that appears is a
fresh one with the client that joined it as its only member and operator. -/
theorem run_channels (password : Str) (actions : List Action) :
    let s := ServerState.run password actions
    (∀ k a, (k, a) ∈ s.channels.toList → (∃ p ∈ (s.channelAt a).members, s.OwnsClient p) ∧
        (s.channelAt a).name = k ∧ isValidChannelName k = true) ∧
      (∀ k a k' a', (k, a) ∈ s.channels.toList → (k', a') ∈ s.channels.toList →
        caseFold (s.channelAt a).name = caseFold (s.channelAt a').name → k = k' ∧ a = a') ∧
      (∀ action n p, s.InRoom p n → Departure s p n action → ¬ (s.act action).InRoom p n) ∧
      (∀ action n p, s.InRoom p n → (∀ q, s.InRoom q n → q = p) →
        ¬ (s.act action).InRoom p n → (s.act action).getChannel n = none) ∧
      ∀ action n ch, s.getChannel n = none → (s.act action).room n = some ch →
        ∃ addr now fd msg monitor p, action = .dispatch addr now fd msg monitor ∧
          s.getClientByFd fd = some p ∧ msg.command = lit "JOIN" ∧
          ch.modes = {} ∧ ch.topic = [] ∧ (∀ q, q ∉ ch.invitedClients) ∧
          (∀ q, q ∈ ch.members ↔ q = p) ∧ ch.isOperator p = true := by
  intro s
  have hw : WellFormed s := .run password actions
  have hs : SoundRooms s := .run password actions
  have hr : Registration s := .run password actions
  have hkey : ∀ k a, (k, a) ∈ s.channels.toList →
      s.channels[k]? = some a ∧ (s.channelAt a).name = k := by
    intro k a hka
    obtain ⟨hk, ha⟩ := OrderedMap.mem_toList_iff.1 hka
    obtain ⟨hobj, hf⟩ := hw.links.nameOwner k a ha
    have hname := (hw.links.channelOwned a hobj).2
    rw [ExtTreeMap.getKey?_congr ((ircCmp_eq_iff _ _).2 hf), hk] at hname
    exact ⟨ha, (Option.some.inj hname).symm⟩
  refine ⟨fun k a hka => ?_, fun k a k' a' hka hka' hf => ?_, fun action n p hin hd => ?_,
    fun action n p hin honly hout => ?_, fun action n ch hn hch => ?_⟩
  · obtain ⟨ha, hname⟩ := hkey k a hka
    have hsound := hs k _ (room_eq ha)
    obtain ⟨p, hp⟩ := hsound.populated
    exact ⟨⟨p, hp, hw.ownsClient_iff.2 (hw.links.memberLive hp)⟩, hname,
      hname ▸ hsound.named⟩
  · obtain ⟨ha, hname⟩ := hkey k a hka
    obtain ⟨ha', hname'⟩ := hkey k' a' hka'
    rw [hname, hname'] at hf
    have haa : a = a' := by
      rw [ExtTreeMap.getElem?_congr ((ircCmp_eq_iff _ _).2 hf), ha'] at ha
      exact (Option.some.inj ha).symm
    refine ⟨?_, haa⟩
    rw [← hname, ← hname', haa]
  · rintro ⟨left, hl, hp⟩
    rw [hd.room_eq hw hs hr hin] at hl
    obtain ⟨ch, -, hleave⟩ := Option.bind_eq_some_iff.1 hl
    exact Channel.not_mem_of_leave hleave hp
  · exact room_eq_none_iff.1 (hw.room_of_last hin honly hout)
  · obtain ⟨addr, now, fd, msg, monitor, p, ha, hp, hjoin, rfl⟩ :=
      hw.founded_of_new (room_eq_none_iff.2 hn) hch
    refine ⟨addr, now, fd, msg, monitor, p, ha, hp, hjoin, rfl, rfl, fun q => ?_, fun q =>
      RoomChange.mem_founded, isOperator_founded _ p⟩
    simp [Channel.founded, Channel.setOperator, Channel.addMember, Channel.removeInvite]

end Ircserv
