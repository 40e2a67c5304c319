import Ircserv.Proofs.Registration

/-!
# The life of a channel

Every channel has a member, a valid name and a limit that is none or positive, and none of its
members is invited to it (`Channel.Sound`). It goes with its last member, and a client joins it
exactly when it is admitted.
-/

open Std

namespace Ircserv

open ServerState

theorem isChannelStringChar_ircTolower :
    ∀ c : UInt8, isChannelStringChar (ircTolower c) = isChannelStringChar c :=
  forall_byte (by decide +kernel)

theorem ircTolower_eq_hash : ∀ c : UInt8, ircTolower c = chr '#' ↔ c = chr '#' :=
  forall_byte (by decide +kernel)

theorem isValidChannelName_caseFold (n : Str) :
    isValidChannelName (caseFold n) = isValidChannelName n := by
  cases n with
  | nil => rfl
  | cons c cs =>
    have hhash : (ircTolower c != chr '#') = (c != chr '#') := by
      rw [Bool.eq_iff_iff]
      simp [ircTolower_eq_hash]
    have hall : (caseFold cs).all isChannelStringChar = cs.all isChannelStringChar := by
      rw [caseFold, List.all_map]
      congr 1
      funext d
      exact isChannelStringChar_ircTolower d
    have hlen : (caseFold (c :: cs)).length = (c :: cs).length := List.length_map _
    show (if decide ((caseFold (c :: cs)).length < 2) || ircTolower c != chr '#' then false
      else (caseFold cs).all isChannelStringChar) = _
    rw [hhash, hall, hlen]
    rfl

/-- A channel's name is valid in every spelling or in none. -/
theorem isValidChannelName_congr {n m : Str} (h : caseFold n = caseFold m) :
    isValidChannelName n = isValidChannelName m := by
  rw [← isValidChannelName_caseFold n, h, isValidChannelName_caseFold]

structure Channel.Sound (ch : Channel) : Prop where
  populated : ∃ q, q ∈ ch.members
  named : isValidChannelName ch.name = true
  limited : ch.modes.limit = -1 ∨ 1 ≤ ch.modes.limit
  uninvited : ∀ q ∈ ch.members, q ∉ ch.invitedClients

theorem changeModes_limit {msg : Message} {c : Client} {channelName modeToken modeArg : Str}
    {modes modes' : ChannelModes}
    (h : ChannelCommandHandler.changeModes msg c channelName modeToken modes = .ok (modes', modeArg))
    (hlimit : modes.limit = -1 ∨ 1 ≤ modes.limit) : modes'.limit = -1 ∨ 1 ≤ modes'.limit := by
  unfold ChannelCommandHandler.changeModes at h
  dsimp only at h
  split_ifs at h
  · cases h
    exact hlimit
  · cases h
    exact hlimit
  · cases h
    exact hlimit
  · cases h
    exact hlimit
  · split at h <;> cases h
    unfold ChannelModes.setLimit
    split_ifs with hnew
    · exact hnew.symm
    · exact hlimit
  · cases h
    exact .inl rfl
  · cases h
    exact hlimit

namespace Channel.Sound

variable {ch left : Channel} {p q : Addr} {name : Str}

theorem founded (p : Addr) (h : isValidChannelName name = true) : (founded name p).Sound where
  populated := ⟨p, RoomChange.mem_founded.2 rfl⟩
  named := h
  limited := .inl rfl
  uninvited q _ := by simp [Channel.founded, setOperator, addMember, removeInvite]

theorem addMember (h : ch.Sound) (p : Addr) : (ch.addMember p).Sound where
  populated := ⟨p, by simp⟩
  named := h.named
  limited := h.limited
  uninvited q hq hinv := by
    rw [mem_invited_addMember] at hinv
    exact h.uninvited q (((mem_addMember _ _ _).1 hq).resolve_left hinv.1) hinv.2

theorem leave (h : ch.Sound) (hl : ch.leave p = some left) : left.Sound := by
  obtain ⟨⟨q, hq, hqp⟩, rfl⟩ := leave_eq_some_iff.1 hl
  refine ⟨⟨q, by simp [hq, hqp.symm]⟩, h.named, h.limited, fun r hr hinv => ?_⟩
  rw [mem_removeClientState] at hr
  rw [mem_invited_removeClientState] at hinv
  exact h.uninvited r hr.2 hinv.2

theorem forget (h : ch.Sound) (hf : ch.forget p = some left) : left.Sound := by
  unfold Channel.forget at hf
  split_ifs at hf
  · exact h.leave hf
  · cases hf
    exact ⟨h.populated, h.named, h.limited, fun q hq hinv =>
      h.uninvited q hq ((mem_invited_removeInvite _ _ _).1 hinv).2⟩

theorem addInvite (h : ch.Sound) (hq : q ∉ ch.members) : (ch.addInvite q).Sound where
  populated := h.populated
  named := h.named
  limited := h.limited
  uninvited r hr hinv := by
    rcases (mem_invited_addInvite _ _ _).1 hinv with rfl | hinv
    · exact hq hr
    · exact h.uninvited r hr hinv

theorem setOperator (h : ch.Sound) (q : Addr) (b : Bool) : (ch.setOperator q b).Sound where
  populated := by
    obtain ⟨r, hr⟩ := h.populated
    exact ⟨r, by simpa using hr⟩
  named := h.named
  limited := h.limited
  uninvited r hr := h.uninvited r ((mem_setOperator _ _ _ _).1 hr)

end Channel.Sound

/-- Every channel is sound. -/
def SoundRooms (s : ServerState) : Prop := ∀ n ch, s.room n = some ch → ch.Sound

variable {addr : Addr} {fd : Fd} {msg : Message} {s s' : ServerState} {p q : Addr}
  {r : CommandResult} {name : Str}

theorem RoomChange.sound {ch : Channel} (h : SoundRooms s)
    (hc : RoomChange msg s p name (some ch)) : ch.Sound := by
  generalize hnew : some ch = new at hc
  cases hc with
  | join _ _ _ hvalid =>
    cases hnew
    rcases hroom : s.room name with _ | old
    · exact .founded p hvalid
    · exact (h name old hroom).addMember p
  | leave _ hch => exact (h name _ hch).leave hnew.symm
  | invite _ hch hq =>
    cases hnew
    exact (h name _ hch).addInvite hq
  | topic hch =>
    cases hnew
    have hs := h name _ hch
    exact ⟨hs.populated, hs.named, hs.limited, hs.uninvited⟩
  | mode hch hmodes =>
    cases hnew
    have hs := h name _ hch
    exact ⟨hs.populated, hs.named, changeModes_limit hmodes hs.limited, hs.uninvited⟩
  | oper hch =>
    cases hnew
    exact (h name _ hch).setOperator _ _

namespace SoundRooms

theorem start (password : Str) : SoundRooms { password := password } := by
  intro n ch hch
  simp [room] at hch

theorem act (h : SoundRooms s) (hw : WellFormed s) (action : Action) :
    SoundRooms (s.act action) := by
  intro n ch hch
  rcases hw.act_rooms action with hsame | ⟨fd, p, -, -, hroom⟩ |
    ⟨addr, now, fd, msg, monitor, p, name, new, -, -, hc, hroom⟩
  · rw [hsame] at hch
    exact h n ch hch
  · rw [hroom] at hch
    obtain ⟨old, hold, hforget⟩ := Option.bind_eq_some_iff.1 hch
    exact (h n old hold).forget hforget
  · rw [hroom] at hch
    split_ifs at hch
    · subst hch
      exact hc.sound h
    · exact h n ch hch

theorem run (password : Str) (actions : List Action) :
    SoundRooms (ServerState.run password actions) :=
  WellFormed.run_induction password actions (.start password) fun _ hw h action => h.act hw action

end SoundRooms

namespace Channel

variable {ch left : Channel}

theorem memberCount_addMember (h : p ∉ ch.members) :
    (ch.addMember p).memberCount = ch.memberCount + 1 := by
  have hc : ch.members.contains p = false := by
    rw [← Bool.not_eq_true, ExtTreeMap.contains_iff_mem]
    exact h
  simp only [memberCount, addMember, removeInvite, ExtTreeMap.size_insert, hc, Bool.false_eq_true,
    if_false]

theorem memberCount_leave (h : ch.leave p = some left) : left.memberCount ≤ ch.memberCount := by
  obtain ⟨-, rfl⟩ := leave_eq_some_iff.1 h
  exact ExtTreeMap.size_erase_le

theorem memberCount_forget (h : ch.forget p = some left) : left.memberCount ≤ ch.memberCount := by
  unfold forget at h
  split_ifs at h
  · exact memberCount_leave h
  · cases h
    exact Nat.le_refl _

theorem memberCount_setOperator (b : Bool) : (ch.setOperator p b).memberCount = ch.memberCount :=
  ExtTreeMap.size_modify

end Channel

theorem Message.getElem?_params (msg : Message) (i : Nat) (v : Str) :
    msg.params[i]? = some v ↔ msg.hasParam i = true ∧ msg.getSingleParam i = v := by
  simp only [hasParam, getSingleParam, List.getD_eq_getElem?_getD, decide_eq_true_eq]
  rcases Nat.lt_or_ge i msg.params.length with hi | hi
  · simp [hi]
  · simp [Nat.not_lt.2 hi]

theorem Message.hasParam_of_ne_nil {msg : Message} {i : Nat} (h : msg.getSingleParam i ≠ []) :
    msg.hasParam i = true := by
  by_contra hno
  have hout : msg.params.length ≤ i := by simpa [hasParam] using hno
  exact h (by simp [getSingleParam, hout])

/-- The checks of `JOIN`. -/
theorem refuseJoin_eq_none_iff (msg : Message) (p : Addr) (name : Str) {ch : Channel}
    (h : ch.Sound) (c : Client) :
    CommandDispatcher.refuseJoin msg c p ch name = none ↔ ch.Admits p msg.params[1]? := by
  unfold CommandDispatcher.refuseJoin Channel.Admits
  rw [Message.getElem?_params]
  have hlimit := h.limited
  have hinv : ch.isInvited p = true ↔ p ∈ ch.invitedClients := ExtTreeSet.contains_iff_mem
  have hfull : (ch.modes.limit ≥ 0 ∧ ch.modes.limit.toNat ≤ ch.memberCount) ↔
      ¬ (ch.modes.limit = -1 ∨ (ch.memberCount : Int) < ch.modes.limit) := by
    omega
  split_ifs with h1 h2 h3
  · simp only [Bool.and_eq_true, Bool.not_eq_true'] at h1
    refine iff_of_false (by simp) fun hadm => ?_
    have := hinv.2 (hadm.1 h1.1)
    rw [h1.2] at this
    cases this
  · simp only [Bool.and_eq_true, Bool.or_eq_true, Bool.not_eq_true', bne_iff_ne] at h2
    refine iff_of_false (by simp) fun hadm => ?_
    obtain ⟨hp, hk⟩ := hadm.2.1 h2.1
    rcases h2.2 with hn | hn
    · rw [hp] at hn
      cases hn
    · exact hn hk
  · exact iff_of_false (by simp) fun hadm => hfull.1 h3 hadm.2.2
  · refine iff_of_true rfl ⟨fun hi => ?_, fun hk => ?_, not_not.1 (mt hfull.2 h3)⟩
    · simpa [hi, hinv] using h1
    · simpa [hk] using h2

/-- What `JOIN` makes of the state, for a client that is not in the channel yet. -/
theorem handleJoin_state (addr : Addr) (fd : Fd) (hs : SoundRooms s)
    (hreg : (s.clientAt p).registered = true) (hparam : msg.hasParam 0 = true)
    (hout : ¬ s.InRoom p (msg.getSingleParam 0)) :
    (isValidChannelName (msg.getSingleParam 0) = true ∧
        (∀ ch, s.room (msg.getSingleParam 0) = some ch → ch.Admits p msg.params[1]?) →
      (CommandDispatcher.handleJoin addr fd msg s p).2 =
        (s.addClientToChannel addr p (msg.getSingleParam 0)).2) ∧
    (¬ (isValidChannelName (msg.getSingleParam 0) = true ∧
        ∀ ch, s.room (msg.getSingleParam 0) = some ch → ch.Admits p msg.params[1]?) →
      (CommandDispatcher.handleJoin addr fd msg s p).2 = s) := by
  obtain ⟨b, s₁, hadd⟩ := CommandDispatcher.addClientToChannel_some s addr p (msg.getSingleParam 0)
  unfold CommandDispatcher.handleJoin
  simp only [hreg, hparam, hadd, Bool.not_true, Bool.false_eq_true, if_false]
  by_cases hvalid : isValidChannelName (msg.getSingleParam 0) = true
  · simp only [hvalid, Bool.not_true, Bool.false_eq_true, if_false, true_and]
    rcases hn : s.getChannel (msg.getSingleParam 0) with _ | a
    · have hroom : s.room (msg.getSingleParam 0) = none := room_eq_none_iff.2 hn
      refine ⟨fun _ => rfl, fun hadm => (hadm fun ch hch => ?_).elim⟩
      rw [hroom] at hch
      cases hch
    · have hm : (s.channelAt a).hasMember p = false := by
        rw [← Bool.not_eq_true, Channel.hasMember_iff, ← inRoom_iff hn]
        exact hout
      have hadm := refuseJoin_eq_none_iff msg p (msg.getSingleParam 0) (hs _ _ (room_eq hn))
        (s.clientAt p)
      simp only [hm, Bool.not_false, if_true, room_eq hn, Option.some.injEq, forall_eq']
      rcases hr : CommandDispatcher.refuseJoin msg (s.clientAt p) p (s.channelAt a)
        (msg.getSingleParam 0) with _ | m
      · rw [hr] at hadm
        exact ⟨fun _ => rfl, fun hn => absurd (hadm.1 rfl) hn⟩
      · rw [hr] at hadm
        exact ⟨fun hn => absurd (hadm.2 hn) (by simp), fun _ => rfl⟩
  · simp [hvalid]

/-- A command that raises the number of members of a channel leaves it within its limit. -/
theorem RoomChange.headcount_le {ch : Channel} (h : SoundRooms s)
    (hc : RoomChange msg s p name (some ch)) (hmore : s.headcount name < ch.memberCount) :
    (ch.modes.limit = -1 ∨ (ch.memberCount : Int) ≤ ch.modes.limit) ∧
      ∀ old, s.room name = some old → ch.modes = old.modes := by
  have hcount : ∀ old, s.room name = some old → s.headcount name = old.memberCount := by
    intro old hold
    simp [headcount, hold]
  generalize hnew : some ch = new at hc
  cases hc with
  | join _ _ _ _ hout hadm =>
    cases hnew
    rcases hroom : s.room name with _ | old
    · exact ⟨.inl rfl, by simp⟩
    · have hm : p ∉ old.members := fun hm => hout ⟨old, hroom, hm⟩
      refine ⟨?_, fun old' hold' => by cases hold'; rfl⟩
      have hfree := ((refuseJoin_eq_none_iff msg p name (h name old hroom) _).1 (hadm old hroom)).2.2
      show old.modes.limit = -1 ∨ ((old.addMember p).memberCount : Int) ≤ old.modes.limit
      rw [Channel.memberCount_addMember hm]
      omega
  | leave _ hch =>
    have := Channel.memberCount_leave hnew.symm
    rw [hcount _ hch] at hmore
    omega
  | invite _ hch | topic hch | mode hch =>
    cases hnew
    rw [hcount _ hch] at hmore
    exact absurd hmore (Nat.lt_irrefl _)
  | oper hch =>
    cases hnew
    rw [hcount _ hch, Channel.memberCount_setOperator] at hmore
    exact absurd hmore (Nat.lt_irrefl _)

theorem SoundRooms.headcount_le (h : SoundRooms s) (hw : WellFormed s) (action : Action) (n : Str)
    (hmore : s.headcount n < (s.act action).headcount n) :
    ∃ ch, (s.act action).room n = some ch ∧ (ch.modes.limit = -1 ∨
        ((s.act action).headcount n : Int) ≤ ch.modes.limit) ∧
      ∀ old, s.room n = some old → ch.modes = old.modes := by
  rcases hch : (s.act action).room n with _ | ch
  · simp [headcount, hch] at hmore
  have hcount : (s.act action).headcount n = ch.memberCount := by simp [headcount, hch]
  rw [hcount] at hmore ⊢
  refine ⟨ch, rfl, ?_⟩
  rcases hw.act_rooms action with hsame | ⟨fd, p, -, -, hroom⟩ |
    ⟨addr, now, fd, msg, monitor, p, name, new, -, -, hc, hroom⟩
  · rw [hsame] at hch
    simp [headcount, hch] at hmore
  · rw [hroom] at hch
    obtain ⟨old, hold, hforget⟩ := Option.bind_eq_some_iff.1 hch
    have hle := Channel.memberCount_forget hforget
    simp only [headcount, hold, Option.elim_some] at hmore
    omega
  · rw [hroom] at hch
    split_ifs at hch with hf
    · subst hch
      have hn : s.room n = s.room name := (room_congr s hf).symm
      rw [headcount, hn] at hmore
      rw [hn]
      exact hc.headcount_le h hmore
    · simp [headcount, hch] at hmore

theorem isOperator_founded (name : Str) (p : Addr) : (Channel.founded name p).isOperator p = true := by
  simp [Channel.founded, Channel.setOperator, Channel.isOperator, Channel.addMember,
    Channel.removeInvite]

theorem founded_eq (name : Str) (p : Addr) : Channel.founded name p =
    { name := name
      members := (∅ : ExtTreeMap Addr MemberInfo).insert p { isOperator := true } } := by
  simp [Channel.founded, Channel.setOperator, Channel.addMember, Channel.removeInvite,
    Heap.modify_insert]

/-- Who joins a channel is a new member of it. -/
theorem Joined.of_addClientToChannel (h : WellFormed s) {a : Addr}
    (hadd : s.addClientToChannel addr p name = (some a, s')) (hout : ¬ s.InRoom p name) :
    Joined s s' p a name := by
  rcases addClientToChannel_eq h hadd with ⟨ha, hm, -⟩ | ⟨ha, -, hs'⟩ | ⟨hn, hnew, hs'⟩
  · exact absurd ((inRoom_iff ha).2 hm) hout
  · have hat : s'.channelAt a = (s.channelAt a).addMember p := by
      simp [hs', (h.links.nameOwner name a ha).1]
    have hget : s'.getChannel name = some a := by rw [hs']; exact ha
    refine ⟨hget, by simp [hat], by simp [hat], ?_, .inl ⟨ha, hs'⟩⟩
    rw [hat, Channel.isOperator_addMember, if_pos rfl, getChannel, ha]
    simp
  · have hn' : name ∉ s.channels := by
      rw [ExtTreeMap.mem_iff_isSome_getElem?, hn]
      simp
    have hat : s'.channelAt a = .founded name p := by
      rw [hs', channelAt_modifyClient]
      simp [withChannel, channelAt]
    have hget : s'.getChannel name = some a := by
      rw [hs']
      show (s.channels.insertIfNew name a)[name]? = some a
      rw [ExtTreeMap.getElem?_insertIfNew]
      simp [hn']
    refine ⟨hget, ?_, ?_, ?_, .inr ⟨hn, hnew, founded_eq name p ▸ hs'⟩⟩
    · rw [hat]
      exact RoomChange.mem_founded.2 rfl
    · rw [hat]
      simp [Channel.founded, Channel.setOperator, Channel.addMember, Channel.removeInvite]
    · rw [hat]
      exact iff_of_true (isOperator_founded name p) hn

/-- A member that joins again changes nothing. -/
theorem addClientToChannel_of_inRoom (hw : WellFormed s) (hin : s.InRoom p name) {a : Addr}
    {t : ServerState}
    (hadd : s.addClientToChannel addr p name = (some a, t)) :
    s.channels[name]? = some a ∧ t = s := by
  rcases addClientToChannel_eq hw hadd with ⟨ha, -, rfl⟩ | ⟨ha, hm, -⟩ | ⟨hn, -⟩
  · exact ⟨ha, rfl⟩
  · exact absurd ((inRoom_iff ha).1 hin) hm
  · rw [← room_eq_none_iff] at hn
    simp [InRoom, hn] at hin

theorem inRoom_addClientToChannel (hw : WellFormed s) {a : Addr}
    (hadd : s.addClientToChannel addr p name = (some a, s')) : s'.InRoom p name := by
  by_cases hin : s.InRoom p name
  · obtain ⟨-, rfl⟩ := addClientToChannel_of_inRoom hw hin hadd
    exact hin
  · have hjoined := Joined.of_addClientToChannel hw hadd hin
    exact (inRoom_iff hjoined.found).2 hjoined.member

/-- The channel a client joins is found by its name. -/
theorem getElem?_addClientToChannel (hw : WellFormed s) {a : Addr} {t : ServerState}
    (hadd : s.addClientToChannel addr p name = (some a, t)) : t.channels[name]? = some a := by
  by_cases hin : s.InRoom p name
  · obtain ⟨ha, rfl⟩ := addClientToChannel_of_inRoom hw hin hadd
    exact ha
  · exact (Joined.of_addClientToChannel hw hadd hin).found

/-- Admission: a registered client that is not in the channel is in it after its `JOIN` if and only
if the name is valid and the channel, if there is one, admits it. Then the channel, the invite list
and the client's own channels change by the membership alone; otherwise nothing changes. No action
raises the number of members of a channel above its limit. -/
theorem run_admission (password : Str) (actions : List Action) :
    let s := ServerState.run password actions
    (∀ addr now fd msg monitor p, s.getClientByFd fd = some p →
      (s.clientAt p).registered = true → msg.command = lit "JOIN" → msg.hasParam 0 = true →
      ¬ s.InRoom p (msg.getSingleParam 0) →
        let name := msg.getSingleParam 0
        let s' := s.act (.dispatch addr now fd msg monitor)
        (s'.InRoom p name ↔ isValidChannelName name = true ∧
          ∀ ch, s.room name = some ch → ch.Admits p msg.params[1]?) ∧
        (s'.InRoom p name → ∃ a, Joined s s' p a name) ∧
        (¬ s'.InRoom p name → s' = s)) ∧
      ∀ action n, s.headcount n < (s.act action).headcount n →
        ∃ ch, (s.act action).room n = some ch ∧
          (ch.modes.limit = -1 ∨ ((s.act action).headcount n : Int) ≤ ch.modes.limit) ∧
          ∀ old, s.room n = some old → ch.modes = old.modes := by
  intro s
  have hw : WellFormed s := .run password actions
  have hs : SoundRooms s := .run password actions
  refine ⟨fun addr now fd msg monitor p hp hreg hjoin hparam hout => ?_,
    fun action n hmore => hs.headcount_le hw action n hmore⟩
  intro name s'
  have hs' : s' = (CommandDispatcher.handleJoin addr fd msg s p).2 := by
    show (CommandDispatcher.dispatchWith addr now fd msg s monitor).2.1 = _
    rw [CommandDispatcher.dispatchWith_handleCommand addr now monitor hp (by rw [hjoin]; decide),
      CommandDispatcher.handleCommand_join hjoin]
  obtain ⟨hyes, hno⟩ := handleJoin_state addr fd hs hreg hparam hout
  by_cases hadm : isValidChannelName name = true ∧
    ∀ ch, s.room name = some ch → ch.Admits p msg.params[1]?
  · obtain ⟨a, s₁, hadd⟩ := CommandDispatcher.addClientToChannel_some s addr p name
    have hs₁ : s' = s₁ := by rw [hs', hyes hadm, hadd]
    have hjoined : Joined s s' p a name := .of_addClientToChannel hw (hs₁ ▸ hadd) hout
    have hin : s'.InRoom p name := (inRoom_iff hjoined.found).2 hjoined.member
    exact ⟨iff_of_true hin hadm, fun _ => ⟨a, hjoined⟩, fun hn => absurd hin hn⟩
  · have hsame : s' = s := hs'.trans (hno hadm)
    have hin : ¬ s'.InRoom p name := by rwa [hsame]
    exact ⟨iff_of_false hin hadm, fun h => absurd h hin, fun _ => hsame⟩

/-- A client with the key joins a channel that was given one. -/
theorem run_admission_keyed :
    let s := ServerState.run [] [
      .addClient 3 5 (lit "h"), .dispatch 0 0 5 (Parser.parse (lit "PASS :")) none,
      .dispatch 0 0 5 (Parser.parse (lit "NICK a")) none,
      .dispatch 0 0 5 (Parser.parse (lit "USER a 0 * a")) none,
      .dispatch 7 0 5 (Parser.parse (lit "JOIN #c")) none,
      .dispatch 0 0 5 (Parser.parse (lit "MODE #c +k x")) none,
      .addClient 4 6 (lit "h"), .dispatch 0 0 6 (Parser.parse (lit "PASS :")) none,
      .dispatch 0 0 6 (Parser.parse (lit "NICK b")) none,
      .dispatch 0 0 6 (Parser.parse (lit "USER b 0 * b")) none]
    let s' := s.act (.dispatch 0 0 6 (Parser.parse (lit "JOIN #C x")) none)
    ∃ a, Joined s s' 4 a (lit "#C") := by
  have h := (run_admission [] [
      .addClient 3 5 (lit "h"), .dispatch 0 0 5 (Parser.parse (lit "PASS :")) none,
      .dispatch 0 0 5 (Parser.parse (lit "NICK a")) none,
      .dispatch 0 0 5 (Parser.parse (lit "USER a 0 * a")) none,
      .dispatch 7 0 5 (Parser.parse (lit "JOIN #c")) none,
      .dispatch 0 0 5 (Parser.parse (lit "MODE #c +k x")) none,
      .addClient 4 6 (lit "h"), .dispatch 0 0 6 (Parser.parse (lit "PASS :")) none,
      .dispatch 0 0 6 (Parser.parse (lit "NICK b")) none,
      .dispatch 0 0 6 (Parser.parse (lit "USER b 0 * b")) none]).1 0 0 6
    (Parser.parse (lit "JOIN #C x")) none 4 (by decide +kernel) (by decide +kernel)
    (by decide +kernel) (by decide +kernel) (by decide +kernel)
  exact h.2.1 (by decide +kernel)

end Ircserv
