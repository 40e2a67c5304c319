import Ircserv.Rooms
import Ircserv.Proofs.Privilege

/-!
# What the operations do to the rooms

Each operation on a channel changes the room of that name and no other (`room_update`), and the
removal of a client takes it out of all rooms.
-/

open Std

namespace Ircserv

namespace ServerState

variable {s : ServerState} {p q a b : Addr} {n m name : Str}

theorem room_congr (s : ServerState) (h : caseFold n = caseFold m) : s.room n = s.room m := by
  rw [room, room, ExtTreeMap.getElem?_congr ((ircCmp_eq_iff n m).2 h)]

theorem room_eq (ha : s.channels[n]? = some a) : s.room n = some (s.channelAt a) := by
  rw [room, ha]
  rfl

theorem room_eq_none_iff : s.room n = none ↔ s.channels[n]? = none := Option.map_eq_none_iff

theorem room_eq_some_iff {ch : Channel} :
    s.room n = some ch ↔ ∃ a, s.channels[n]? = some a ∧ s.channelAt a = ch :=
  Option.map_eq_some_iff

/-- The names of one channel are the same up to letter case. -/
theorem fold_eq_iff (h : Links s) (ha : s.channels[n]? = some a) :
    caseFold n = caseFold m ↔ s.channels[m]? = some a := by
  refine ⟨fun hf => ?_, fun hm => h.fold_eq ha hm⟩
  rw [← ExtTreeMap.getElem?_congr ((ircCmp_eq_iff n m).2 hf), ha]

/-- A state in which one channel was replaced, seen through the rooms. -/
theorem room_update {s' : ServerState} (h : Links s) (ha : s.channels[n]? = some a)
    (hnames : s'.channels = s.channels) (hother : ∀ b, b ≠ a → s'.channelAt b = s.channelAt b)
    (m : Str) : s'.room m = if caseFold n = caseFold m then some (s'.channelAt a) else s.room m := by
  rw [room, hnames]
  split_ifs with hf
  · rw [(fold_eq_iff h ha).1 hf]
    rfl
  · rw [room]
    rcases hm : s.channels[m]? with _ | b
    · rfl
    · have hb : b ≠ a := by
        rintro rfl
        exact hf ((fold_eq_iff h ha).2 hm)
      rw [Option.map_some, Option.map_some, hother b hb]

theorem room_modifyChannel (h : Links s) (ha : s.channels[n]? = some a) (f : Channel → Channel)
    (m : Str) : (s.modifyChannel a f).room m =
      if caseFold n = caseFold m then some (f (s.channelAt a)) else s.room m := by
  have hobj := (h.nameOwner n a ha).1
  refine (room_update h ha (channels_modifyChannel s a f) (fun b hb => ?_) m).trans ?_
  · rw [channelAt_modifyChannel, if_neg fun hab => hb hab.1.symm]
  · simp [hobj]

theorem room_modifyClient (s : ServerState) (p : Addr) (f : Client → Client) (m : Str) :
    (s.modifyClient p f).room m = s.room m := rfl

/-- The room of the name goes when it is empty. -/
theorem room_removeChannelIfEmpty (h : Links s) (ha : s.channels[n]? = some a) (m : Str) :
    (s.removeChannelIfEmpty n).room m = if caseFold n = caseFold m then
      if (s.channelAt a).isEmpty then none else some (s.channelAt a) else s.room m := by
  unfold removeChannelIfEmpty
  simp only [ha]
  by_cases he : (s.channelAt a).isEmpty = true
  · rw [if_pos he, if_pos he, room, ExtTreeMap.getElem?_erase]
    simp only [ircCmp_eq_iff]
    split_ifs with hf
    · rfl
    · rw [room]
      rcases hm : s.channels[m]? with _ | b
      · rfl
      · have hab : a ≠ b := by
          rintro rfl
          exact hf ((fold_eq_iff h ha).2 hm)
        simp [channelAt, hab]
  · rw [if_neg he, if_neg he]
    split_ifs with hf
    · rw [← room_congr s hf, room_eq ha]
    · rfl

theorem room_leave (h : Links s) (ha : s.channels[n]? = some a) (p : Addr) (m : Str) :
    (((s.modifyChannel a (·.removeClientState p)).modifyClient p (·.leaveChannel a)
      ).removeChannelIfEmpty n).room m =
      if caseFold n = caseFold m then (s.channelAt a).leave p else s.room m := by
  have hobj := (h.nameOwner n a ha).1
  rw [room_removeChannelIfEmpty (h.unlink p a) ha, room_modifyClient, room_modifyChannel h ha]
  simp only [channelAt_modifyClient, channelAt_modifyChannel, hobj, and_self, if_true, Channel.leave]
  split_ifs <;> rfl

theorem room_removeClientFromChannel (h : Links s) (ha : s.channels[n]? = some a)
    (hm : p ∈ (s.channelAt a).members) (m : Str) :
    (s.removeClientFromChannel p n).room m =
      if caseFold n = caseFold m then (s.channelAt a).leave p else s.room m := by
  rw [← room_leave h ha p m]
  simp [removeClientFromChannel, getChannel, ha, (Channel.hasMember_iff _ _).2 hm]

/-- What joining does to the state: nothing to a member, and otherwise a new member of the channel
or a new channel. -/
theorem addClientToChannel_eq (h : WellFormed s) {addr : Addr} {s' : ServerState}
    (hadd : s.addClientToChannel addr p name = (some a, s')) :
    s.channels[name]? = some a ∧ p ∈ (s.channelAt a).members ∧ s' = s ∨
      s.channels[name]? = some a ∧ p ∉ (s.channelAt a).members ∧
        s' = (s.modifyChannel a (·.addMember p)).modifyClient p (·.joinChannel a) ∨
      s.channels[name]? = none ∧ a ∉ s.objects ∧
        s' = (s.withChannel a name (.founded name p)).modifyClient p (·.joinChannel a) := by
  rcases s.addClientToChannel_cases addr p name with ⟨b, hb, hm, hs⟩ | ⟨b, s₁, s₂, hc, hm, hs₂, hs⟩
  · rw [hs] at hadd
    cases hadd
    exact .inl ⟨hb, hm, rfl⟩
  rw [hs] at hadd
  cases hadd
  unfold getOrCreateChannel getChannel at hc
  rcases hn : s.channels[name]? with _ | b
  · -- the channel is new, so the client is its first member
    rw [hn] at hc
    cases hc
    have hat : s₂.channelAt (Heap.fresh s.objects addr) =
        ({ name := name } : Channel).addMember p := by
      rw [hs₂, channelAt_modifyClient, channelAt_modifyChannel]
      simp [channelAt]
    have hcount : (s₂.channelAt (Heap.fresh s.objects addr)).memberCount = 1 := by
      rw [hat]
      simp [Channel.memberCount, Channel.addMember, Channel.removeInvite, ExtTreeMap.size_insert]
    refine .inr (.inr ⟨rfl, Heap.fresh_not_mem _ _, ?_⟩)
    rw [if_pos hcount, hs₂]
    simp only [withChannel, modifyChannel, modifyClient, Heap.modify_insert, Channel.founded]
  · rw [hn] at hc
    cases hc
    obtain ⟨q, hq⟩ := h.populated a (h.links.nameOwner name a hn).1
    have hcount : (s₂.channelAt a).memberCount ≠ 1 := by
      have hne := Channel.memberCount_addMember_ne_one hm hq
      simpa [hs₂, (h.links.nameOwner name a hn).1] using hne
    exact .inr (.inl ⟨rfl, hm, by rw [if_neg hcount, hs₂]⟩)

theorem room_withChannel (hn : s.channels[name]? = none) (ha : a ∉ s.objects) (h : Links s)
    (ch : Channel) (m : Str) : (s.withChannel a name ch).room m =
      if caseFold name = caseFold m then some ch else s.room m := by
  have hn' : name ∉ s.channels := by
    rw [ExtTreeMap.mem_iff_isSome_getElem?, hn]
    simp
  simp only [room, withChannel, ExtTreeMap.getElem?_insertIfNew, ircCmp_eq_iff, hn', not_false_eq_true,
    and_true]
  split_ifs with hf
  · simp [channelAt]
  · rcases hm : s.channels[m]? with _ | b
    · rfl
    · have hab : a ≠ b := by
        rintro rfl
        exact ha (h.nameOwner m a hm).1
      simp [channelAt, hab]

theorem room_addClientToChannel (h : WellFormed s) {addr : Addr} {s' : ServerState}
    (hadd : s.addClientToChannel addr p name = (some a, s')) (hp : ¬ s.InRoom p name) (m : Str) :
    s'.room m = if caseFold name = caseFold m then some (.joined (s.room name) name p)
      else s.room m := by
  rcases addClientToChannel_eq h hadd with ⟨ha, hm, -⟩ | ⟨ha, -, rfl⟩ | ⟨hn, ha, rfl⟩
  · exact absurd ⟨_, room_eq ha, hm⟩ hp
  · rw [room_modifyClient, room_modifyChannel h.links ha, room_eq ha]
    rfl
  · rw [room_modifyClient, room_withChannel hn ha h.links, room_eq_none_iff.2 hn]
    rfl

theorem inRoom_iff (ha : s.channels[n]? = some a) : s.InRoom p n ↔ p ∈ (s.channelAt a).members := by
  simp [InRoom, room_eq ha]

/-- A member of a channel is in the room of its name. -/
theorem inRoom_of_mem (h : Links s) (hm : p ∈ (s.channelAt a).members) :
    s.InRoom p (s.channelAt a).name :=
  (inRoom_iff (h.channelOwned a (mem_of_mem_members hm)).1).2 hm

theorem room_of_eq {s' : ServerState} (h : s'.channels = s.channels ∧ s'.objects = s.objects)
    (m : Str) : s'.room m = s.room m := by
  unfold room channelAt
  rw [h.1, h.2]

end ServerState

namespace Channel

variable {ch left : Channel} {p q : Addr}

theorem leave_eq_some_iff : ch.leave p = some left ↔
    (∃ q ∈ ch.members, q ≠ p) ∧ left = ch.removeClientState p := by
  unfold leave
  split_ifs with he
  · rw [isEmpty_iff] at he
    simp only [mem_removeClientState, not_and] at he
    refine iff_of_false (by simp) ?_
    rintro ⟨⟨q, hq, hqp⟩, -⟩
    exact he q (Ne.symm hqp) hq
  · rw [isEmpty_iff] at he
    push Not at he
    obtain ⟨q, hq⟩ := he
    rw [mem_removeClientState] at hq
    rw [Option.some.injEq, eq_comm]
    exact ⟨fun hl => ⟨⟨q, hq.2, Ne.symm hq.1⟩, hl⟩, And.right⟩

/-- The channel goes with its last member. -/
theorem leave_eq_none_iff : ch.leave p = none ↔ ∀ q ∈ ch.members, q = p := by
  rw [Option.eq_none_iff_forall_ne_some]
  simp only [ne_eq, leave_eq_some_iff, not_and]
  constructor
  · intro h q hq
    by_contra hqp
    exact h _ ⟨q, hq, hqp⟩ rfl
  · rintro h left ⟨q, hq, hqp⟩ -
    exact hqp (h q hq)

theorem removeInvite_removeInvite (ch : Channel) (p : Addr) :
    (ch.removeInvite p).removeInvite p = ch.removeInvite p := by
  have hinv : (ch.invitedClients.erase p).erase p = ch.invitedClients.erase p := by
    refine ExtTreeSet.ext_mem fun q => ?_
    simp
  simp [removeInvite, hinv]

/-- Who left is not invited either. -/
theorem removeInvite_leave : (ch.leave p).map (·.removeInvite p) = ch.leave p := by
  unfold leave
  split_ifs
  · rfl
  · simp [removeClientState, removeInvite_removeInvite]

/-- A client that is forgotten is no member, and the other members stay. -/
theorem mem_forget_iff (h : ch.forget p = some left) :
    q ∈ left.members ↔ q ∈ ch.members ∧ q ≠ p := by
  unfold forget at h
  split_ifs at h with hm
  · obtain ⟨-, rfl⟩ := leave_eq_some_iff.1 h
    simp [and_comm, eq_comm]
  · cases h
    refine ⟨fun hq => ⟨hq, ?_⟩, And.left⟩
    rintro rfl
    exact hm ((hasMember_iff _ _).2 hq)

end Channel

namespace ServerState

variable {s : ServerState} {p : Addr} {fd : Fd}

/-- What the first loop of `removeClient` leaves of a channel. -/
def withoutMember (p : Addr) (ch : Channel) : Option Channel :=
  if ch.hasMember p then ch.leave p else some ch

theorem withoutMember_of_mem {ch : Channel} (h : p ∈ ch.members) :
    withoutMember p ch = ch.leave p := if_pos ((Channel.hasMember_iff _ _).2 h)

theorem withoutMember_of_not_mem {ch : Channel} (h : p ∉ ch.members) :
    withoutMember p ch = some ch := if_neg fun hm => h ((Channel.hasMember_iff _ _).1 hm)

theorem withoutMember_leave (ch : Channel) : (ch.leave p).bind (withoutMember p) = ch.leave p := by
  rcases hl : ch.leave p with _ | left
  · rfl
  · obtain ⟨-, rfl⟩ := Channel.leave_eq_some_iff.1 hl
    exact withoutMember_of_not_mem (by simp)

/-- The loop of `removeClient` over the client's channels, seen through the rooms. -/
theorem room_foldl_removeFromChannel (m : Str) : ∀ (rest : List Addr) (s : ServerState), Links s →
    Populated s → rest.Nodup → (∀ b, b ∈ (s.clientAt p).channels ↔ b ∈ rest) →
      (rest.foldl (removeFromChannel p) s).room m = (s.room m).bind (withoutMember p)
  | [], s, h, _, _, hmem => by
    rcases hm : s.room m with _ | ch
    · simpa using hm
    · obtain ⟨a, -, rfl⟩ := room_eq_some_iff.1 hm
      have hout : p ∉ (s.channelAt a).members := fun hp => by
        simpa using (hmem a).1 ((h.linked p a).1 hp)
      simpa [withoutMember_of_not_mem hout] using hm
  | a :: rest, s, h, hpop, hnd, hmem => by
    obtain ⟨ha, hnd⟩ := List.nodup_cons.1 hnd
    have hm : p ∈ (s.channelAt a).members := (h.linked p a).2 ((hmem a).2 List.mem_cons_self)
    have hname := (h.channelOwned a (mem_of_mem_members hm)).1
    obtain ⟨h₁, hpop₁⟩ := h.leave (p := p) hpop hname
    have ih := room_foldl_removeFromChannel m rest (s.removeFromChannel p a) h₁ hpop₁ hnd
      (fun b => by
        rw [mem_channels_removeFromChannel, hmem, List.mem_cons]
        constructor
        · rintro ⟨hab, rfl | hb⟩
          · exact absurd rfl hab
          · exact hb
        · exact fun hb => ⟨by rintro rfl; exact ha hb, .inr hb⟩)
    rw [List.foldl_cons, ih, removeFromChannel_eq, room_leave h hname]
    split_ifs with hf
    · rw [← room_congr s hf, room_eq hname, withoutMember_leave]
      exact (withoutMember_of_mem hm).symm
    · rfl

/-- The loop over the entries of the channel map. -/
theorem channelAt_foldl_removeInvite : ∀ (entries : List (Str × Addr)) (s : ServerState) (a : Addr),
    (entries.foldl (fun s entry => s.modifyChannel entry.2 (·.removeInvite p)) s).channelAt a =
      if a ∈ entries.map (·.2) ∧ a ∈ s.objects then (s.channelAt a).removeInvite p
      else s.channelAt a
  | [], s, a => by simp
  | e :: entries, s, a => by
    rw [List.foldl_cons, channelAt_foldl_removeInvite entries, channelAt_modifyChannel]
    by_cases hobj : a ∈ s.objects
    · by_cases he : a = e.2
      · simp [hobj, ← he, Channel.removeInvite_removeInvite]
      · have he' : e.2 ≠ a := fun h => he h.symm
        by_cases hm : a ∈ entries.map (·.2) <;> simp [hobj, he, he', hm]
    · simp [hobj]

theorem room_removeClientFromAllInvites (h : Links s) (m : Str) :
    (s.removeClientFromAllInvites p).room m = (s.room m).map (·.removeInvite p) := by
  have hch : (s.removeClientFromAllInvites p).channels = s.channels :=
    List.foldlRecOn (motive := fun s' : ServerState => s'.channels = s.channels) _ _ rfl
      fun _ h _ _ => h
  rw [room, hch, room]
  rcases hm : s.channels[m]? with _ | a
  · rfl
  · have hobj := (h.nameOwner m a hm).1
    obtain ⟨h1, h2⟩ := h.channelOwned a hobj
    have hin : a ∈ s.channels.toList.map (·.2) :=
      List.mem_map.2 ⟨(_, a), OrderedMap.mem_toList_iff.2 ⟨h2, h1⟩, rfl⟩
    have hat := channelAt_foldl_removeInvite (p := p) s.channels.toList s a
    rw [if_pos ⟨hin, hobj⟩] at hat
    exact congrArg some hat

/-- A client that is removed is forgotten by every channel. -/
theorem room_removeClient (h : WellFormed s) (hp : s.client.fdToClient[fd]? = some p) (m : Str) :
    (s.removeClient fd).room m = (s.room m).bind (·.forget p) := by
  obtain ⟨h₁, -, -, -⟩ := foldl_removeFromChannel (p := p) (s.clientAt p).getChannels s h.links
    h.populated (ExtTreeSet.distinct_toList.imp (by simp)) (by simp [Client.getChannels])
  have hloop := room_foldl_removeFromChannel (p := p) m (s.clientAt p).getChannels s h.links
    h.populated (ExtTreeSet.distinct_toList.imp (by simp)) (by simp [Client.getChannels])
  have hroom : (s.removeClient fd).room m = (s.detached p).room m := by
    rw [removeClient_eq hp]
    rfl
  rw [hroom, detached, room_removeClientFromAllInvites h₁, hloop]
  rcases s.room m with _ | ch
  · rfl
  · show (withoutMember p ch).map _ = ch.forget p
    by_cases hm : p ∈ ch.members
    · rw [withoutMember_of_mem hm, Channel.removeInvite_leave, Channel.forget,
        if_pos ((Channel.hasMember_iff _ _).2 hm)]
    · rw [withoutMember_of_not_mem hm, Channel.forget,
        if_neg fun hm' => hm ((Channel.hasMember_iff _ _).1 hm')]
      rfl

theorem room_addClient (s : ServerState) (addr : Addr) (fd : Fd) (host : Str) (m : Str) :
    (s.addClient addr fd host).room m = s.room m := rfl

end ServerState

/-- What one command of `p` can do to the channel with the name: to found or to join it, and
otherwise to change the channel that is there. -/
inductive RoomChange (msg : Message) (s : ServerState) (p : Addr) (name : Str) :
    Option Channel → Prop
  | join (h : msg.command = lit "JOIN") (hname : msg.getSingleParam 0 = name)
      (hreg : (s.clientAt p).registered = true) (hvalid : isValidChannelName name = true)
      (hout : ¬ s.InRoom p name)
      (hadmitted : ∀ ch, s.room name = some ch →
        CommandDispatcher.refuseJoin msg (s.clientAt p) p ch name = none) :
      RoomChange msg s p name (some (.joined (s.room name) name p))
  | leave {ch : Channel} {q : Addr} (h : msg.command = lit "PART" ∨ msg.command = lit "KICK")
      (hch : s.room name = some ch) (hq : q ∈ ch.members) :
      RoomChange msg s p name (ch.leave q)
  | invite {ch : Channel} {q : Addr} (h : msg.command = lit "INVITE") (hch : s.room name = some ch)
      (hq : q ∉ ch.members) :
      RoomChange msg s p name (some (ch.addInvite q))
  | topic {ch : Channel} {topic : Str} (hch : s.room name = some ch) :
      RoomChange msg s p name (some (ch.setTopic topic))
  | mode {ch : Channel} {modes : ChannelModes} {modeToken modeArg : Str}
      (hch : s.room name = some ch) (hmodes : ChannelCommandHandler.changeModes msg (s.clientAt p)
        name modeToken ch.modes = .ok (modes, modeArg)) :
      RoomChange msg s p name (some (ch.setModes modes))
  | oper {ch : Channel} {q : Addr} {isOperator : Bool} (hch : s.room name = some ch)
      (hq : q ∈ ch.members) : RoomChange msg s p name (some (ch.setOperator q isOperator))

namespace RoomChange

variable {msg : Message} {s : ServerState} {p q : Addr} {name : Str} {ch : Channel}

theorem mem_founded : q ∈ (Channel.founded name p).members ↔ q = p := by
  rw [Channel.founded, Channel.mem_setOperator, Channel.mem_addMember, eq_comm]
  exact or_iff_left ExtTreeMap.not_mem_empty

theorem mem_joined {old : Option Channel} : q ∈ (Channel.joined old name p).members ↔
    q = p ∨ ∃ ch, old = some ch ∧ q ∈ ch.members := by
  cases old with
  | none => simp [Channel.joined, mem_founded]
  | some ch => simp [Channel.joined, eq_comm]

/-- A command adds its sender to the channel, if anyone. -/
theorem mem (hc : RoomChange msg s p name (some ch)) (hq : q ∈ ch.members) :
    s.InRoom q name ∨ q = p ∧ (s.clientAt p).registered = true := by
  generalize hnew : some ch = new at hc
  cases hc with
  | join _ _ hreg =>
    cases hnew
    rcases mem_joined.1 hq with rfl | hold
    · exact .inr ⟨rfl, hreg⟩
    · exact .inl hold
  | leave _ hch =>
    obtain ⟨-, rfl⟩ := Channel.leave_eq_some_iff.1 hnew.symm
    exact .inl ⟨_, hch, ((Channel.mem_removeClientState _ _ _).1 hq).2⟩
  | invite _ hch | topic hch | mode hch =>
    cases hnew
    exact .inl ⟨_, hch, hq⟩
  | oper hch =>
    cases hnew
    exact .inl ⟨_, hch, (Channel.mem_setOperator _ _ _ _).1 hq⟩

end RoomChange

namespace Outcome

open ServerState

variable {addr : Addr} {fd : Fd} {msg : Message} {s s' : ServerState} {p : Addr}
  {r : CommandResult}

/-- A command changes no channel, or the channel of one name. -/
theorem rooms (h : WellFormed s) (ho : Outcome addr fd msg s p r s') :
    (∀ m, s'.room m = s.room m) ∨ ∃ name new, RoomChange msg s p name new ∧
      ∀ m, s'.room m = if caseFold name = caseFold m then new else s.room m := by
  cases ho with
  | silent | refused | answered | quit | textChannel | textNick => exact .inl fun _ => rfl
  | pass => exact .inl fun _ => rfl
  | @nick s₁ _ _ _ hs' =>
    have hch := updateNick_channels s p (msg.getSingleParam 0)
    rw [hs'] at hch
    refine .inl fun m => ?_
    rw [room_of_eq (maybeRegister_channels p {} s₁), room_of_eq hch]
  | user _ _ _ _ hs' =>
    rw [hs']
    exact .inl fun m => room_of_eq (maybeRegister_channels p {} _) m
  | join hcmd hreg hvalid hadmitted hs' =>
    by_cases hin : s.InRoom p (msg.getSingleParam 0)
    · rcases addClientToChannel_eq h hs' with ⟨-, -, rfl⟩ | ⟨ha, hm, -⟩ | ⟨hn, -, -⟩
      · exact .inl fun _ => rfl
      · exact absurd ((inRoom_iff ha).1 hin) hm
      · rw [← room_eq_none_iff] at hn
        simp [InRoom, hn] at hin
    · refine .inr ⟨_, _, .join hcmd rfl hreg hvalid hin fun ch hch => ?_,
        room_addClientToChannel h hs' hin⟩
      obtain ⟨b, hb, rfl⟩ := room_eq_some_iff.1 hch
      exact hadmitted b hb fun hm => hin ((inRoom_iff hb).2 hm)
  | part hcmd _ ha hm =>
    exact .inr ⟨_, _, .leave (.inl hcmd) (room_eq ha) hm, room_removeClientFromChannel h.links ha hm⟩
  | kick hcmd _ ha _ _ _ hqm =>
    exact .inr ⟨_, _, .leave (.inr hcmd) (room_eq ha) hqm, room_removeClientFromChannel h.links ha hqm⟩
  | invite hcmd _ _ ha _ hqm =>
    exact .inr ⟨_, _, .invite hcmd (room_eq ha) hqm, room_modifyChannel h.links ha _⟩
  | topic _ _ _ ha _ _ hs' =>
    rw [hs']
    exact .inr ⟨_, _, .topic (room_eq ha), room_modifyChannel h.links ha _⟩
  | mode _ _ ha _ _ _ hmodes hs' =>
    rw [hs']
    exact .inr ⟨_, _, .mode (room_eq ha) hmodes, room_modifyChannel h.links ha _⟩
  | oper _ _ ha _ _ _ _ hqm hs' =>
    rw [hs']
    exact .inr ⟨_, _, .oper (room_eq ha) hqm, room_modifyChannel h.links ha _⟩

end Outcome

/-- What an action does to the rooms. -/
theorem WellFormed.act_rooms {s : ServerState} (h : WellFormed s) (action : Action) :
    (∀ m, (s.act action).room m = s.room m) ∨
      (∃ fd p, action = .removeClient fd ∧ s.client.fdToClient[fd]? = some p ∧
        ∀ m, (s.act action).room m = (s.room m).bind (·.forget p)) ∨
      ∃ addr now fd msg monitor p name new, action = .dispatch addr now fd msg monitor ∧
        s.client.fdToClient[fd]? = some p ∧ RoomChange msg s p name new ∧
        ∀ m, (s.act action).room m = if caseFold name = caseFold m then new else s.room m := by
  rcases s.act_cases action with ⟨hs, -⟩ | ⟨addr, fd, host, rfl, -⟩ | ⟨fd, p, rfl, hp⟩ |
    ⟨addr, now, fd, msg, monitor, p, rfl, hp, ho⟩
  · exact .inl fun m => by rw [hs]
  · exact .inl fun m => ServerState.room_addClient s addr fd host m
  · exact .inr (.inl ⟨fd, p, rfl, hp, ServerState.room_removeClient h hp⟩)
  · rcases ho.rooms h with hsame | ⟨name, new, hc, hroom⟩
    · exact .inl hsame
    · exact .inr (.inr ⟨addr, now, fd, msg, monitor, p, name, new, rfl, hp, hc, hroom⟩)

end Ircserv
