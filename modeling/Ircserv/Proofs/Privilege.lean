import Ircserv.Proofs.Actions

/-!
# Privilege

`Entitled` lists what a command of one client may do to a channel, with what it asks of the client.
Each outcome of a command is checked against it; the work is in the commands that move members,
where a channel may also be deleted.
-/

open Std

namespace Ircserv

/-- What happened to channel `a` between `s` and `s'` was within the rights `p` had in `s`. -/
structure Entitled (s s' : ServerState) (p a : Addr) : Prop where
  modes : s'.OwnsChannel a → (s'.channelAt a).modes ≠ (s.channelAt a).modes →
    p ∈ (s.channelAt a).members ∧ (s.channelAt a).isOperator p = true
  operators : ∀ q, q ∈ (s.channelAt a).members → q ∈ (s'.channelAt a).members →
    (s'.channelAt a).isOperator q ≠ (s.channelAt a).isOperator q →
    p ∈ (s.channelAt a).members ∧ (s.channelAt a).isOperator p = true
  leavers : ∀ q, q ≠ p → q ∈ (s.channelAt a).members → q ∉ (s'.channelAt a).members →
    p ∈ (s.channelAt a).members ∧ (s.channelAt a).isOperator p = true
  topic : s'.OwnsChannel a → (s'.channelAt a).topic ≠ (s.channelAt a).topic →
    p ∈ (s.channelAt a).members ∧
      ((s.channelAt a).modes.topicRestricted = true → (s.channelAt a).isOperator p = true)
  invited : ∀ q, q ∈ (s'.channelAt a).invitedClients → q ∉ (s.channelAt a).invitedClients →
    p ∈ (s.channelAt a).members ∧
      ((s.channelAt a).modes.inviteOnly = true → (s.channelAt a).isOperator p = true)
  joiners : ∀ q, q ∈ (s'.channelAt a).members → q ∉ (s.channelAt a).members →
    q = p ∧ (s'.channelAt a).isOperator p = false

namespace Channel

@[simp] theorem isOperator_addMember (ch : Channel) (p q : Addr) :
    (ch.addMember p).isOperator q = if p = q then false else ch.isOperator q := by
  simp only [addMember, removeInvite, isOperator, ExtTreeMap.getElem?_insert, Nat.compare_eq_eq]
  split_ifs <;> rfl

@[simp] theorem isOperator_removeClientState (ch : Channel) (p q : Addr) :
    (ch.removeClientState p).isOperator q = if p = q then false else ch.isOperator q := by
  simp only [removeClientState, removeMember, removeInvite, isOperator,
    ExtTreeMap.getElem?_erase, Nat.compare_eq_eq]
  split_ifs <;> rfl

/-- The first member is the only one the operator flag is given to. -/
theorem memberCount_addMember_ne_one {ch : Channel} {p q : Addr} (hp : p ∉ ch.members)
    (hq : q ∈ ch.members) : (ch.addMember p).memberCount ≠ 1 := by
  have hpos : ch.members.size ≠ 0 := by
    intro h
    rw [← ExtTreeMap.eq_empty_iff_size_eq_zero, ExtTreeMap.eq_empty_iff_forall_not_mem] at h
    exact h q hq
  have hc : ch.members.contains p = false := by
    rw [← Bool.not_eq_true, ExtTreeMap.contains_iff_mem]
    exact hp
  simp only [memberCount, addMember, removeInvite, ExtTreeMap.size_insert, hc, Bool.false_eq_true,
    if_false]
  omega

end Channel

namespace ServerState

variable {s : ServerState} {p a : Addr} {name : Str}

theorem removeChannelIfEmpty_channelAt (h : Links s) (ha : s.channels[name]? = some a) :
    (∀ b, b ≠ a → (s.removeChannelIfEmpty name).channelAt b = s.channelAt b) ∧
      ((s.removeChannelIfEmpty name).channelAt a = s.channelAt a ∨
        (∀ q, q ∉ (s.channelAt a).members) ∧ ¬ (s.removeChannelIfEmpty name).OwnsChannel a ∧
          (s.removeChannelIfEmpty name).channelAt a = default) := by
  have hd := h.removeChannelIfEmpty name
  unfold removeChannelIfEmpty at hd ⊢
  simp only [ha] at hd ⊢
  split_ifs at hd ⊢ with he
  · refine ⟨fun b hb => by simp [channelAt, hb.symm], .inr ⟨(Channel.isEmpty_iff _).1 he, ?_, ?_⟩⟩
    · rintro ⟨n, hn⟩
      have := (hd.nameOwner n a hn).1
      simp at this
    · simp [channelAt]
  · exact ⟨fun _ _ => rfl, .inl rfl⟩

/-- What a member's leaving does to the channels. -/
theorem removeClientFromChannel_channelAt (h : Links s) (ha : s.channels[name]? = some a)
    (hm : p ∈ (s.channelAt a).members) :
    (∀ b, b ≠ a → (s.removeClientFromChannel p name).channelAt b = s.channelAt b) ∧
      ((s.removeClientFromChannel p name).channelAt a = (s.channelAt a).removeClientState p ∨
        (∀ q ∈ (s.channelAt a).members, q = p) ∧
          ¬ (s.removeClientFromChannel p name).OwnsChannel a ∧
          (s.removeClientFromChannel p name).channelAt a = default) := by
  have hobj : a ∈ s.objects := mem_of_mem_members hm
  have hs : s.removeClientFromChannel p name = ((s.modifyChannel a (·.removeClientState p)
      ).modifyClient p (·.leaveChannel a)).removeChannelIfEmpty name := by
    simp [removeClientFromChannel, getChannel, ha, (Channel.hasMember_iff _ _).2 hm]
  have ha' : ((s.modifyChannel a (·.removeClientState p)).modifyClient p
      (·.leaveChannel a)).channels[name]? = some a := ha
  obtain ⟨hother, hself⟩ := removeChannelIfEmpty_channelAt (h.unlink p a) ha'
  rw [hs]
  refine ⟨fun b hb => ?_, ?_⟩
  · rw [hother b hb]
    simp [hb.symm]
  · rcases hself with he | ⟨hnone, hgone⟩
    · left
      rw [he]
      simp [hobj]
    · refine .inr ⟨fun q hq => ?_, hgone⟩
      by_contra hqp
      exact hnone q (by simp [hobj, hq, Ne.symm hqp])

/-- What a client's joining does to a channel it was not in. -/
theorem addClientToChannel_channelAt (hpop : Populated s) {addr b : Addr} {s' : ServerState}
    (hadd : s.addClientToChannel addr p name = (some b, s')) (ha : a ∈ s.objects) :
    s'.channelAt a = s.channelAt a ∨
      p ∉ (s.channelAt a).members ∧ s'.channelAt a = (s.channelAt a).addMember p := by
  rcases s.addClientToChannel_cases addr p name with ⟨c, -, -, hs⟩ | ⟨c, s₁, s₂, hc, hm, rfl, hs⟩
  · rw [hs] at hadd
    cases hadd
    exact .inl rfl
  · rw [hs] at hadd
    cases hadd
    by_cases hab : b = a
    · subst hab
      -- the channel was there, so it has a member and the newcomer is not the first
      have hs₁ : s₁ = s := by
        unfold getOrCreateChannel at hc
        split at hc <;> cases hc
        · rfl
        · exact absurd ha (Heap.fresh_not_mem _ _)
      rw [hs₁] at hm ⊢
      obtain ⟨q, hq⟩ := hpop b ha
      have hcount := Channel.memberCount_addMember_ne_one hm hq
      exact .inr ⟨hm, by simp [ha, hcount]⟩
    · have hsame := (getOrCreateChannel_channelAt hc hab).1
      left
      rw [← hsame]
      split_ifs <;> simp [hab]

end ServerState

namespace Entitled

variable {s s' : ServerState} {p q a : Addr}

/-- A channel nothing happened to. -/
theorem of_eq (h : s'.channelAt a = s.channelAt a) : Entitled s s' p a where
  modes := by simp [h]
  operators := by simp [h]
  leavers := by simp_all
  topic := by simp [h]
  invited := by simp_all
  joiners := by simp_all

/-- An operator may do anything but add members. -/
theorem of_operator (hm : p ∈ (s.channelAt a).members) (hop : (s.channelAt a).isOperator p = true)
    (hjoin : ∀ q ∈ (s'.channelAt a).members, q ∈ (s.channelAt a).members) :
    Entitled s s' p a where
  modes _ _ := ⟨hm, hop⟩
  operators _ _ _ _ := ⟨hm, hop⟩
  leavers _ _ _ _ := ⟨hm, hop⟩
  topic _ _ := ⟨hm, fun _ => hop⟩
  invited _ _ _ := ⟨hm, fun _ => hop⟩
  joiners q hq hn := absurd (hjoin q hq) hn

theorem of_modifyChannel {b : Addr} {f : Channel → Channel}
    (h : b = a → a ∈ s.objects → Entitled s (s.modifyChannel b f) p a) :
    Entitled s (s.modifyChannel b f) p a := by
  by_cases hb : b = a ∧ a ∈ s.objects
  · exact h hb.1 hb.2
  · exact .of_eq (by rw [ServerState.channelAt_modifyChannel, if_neg hb])

theorem setTopic {topic : Str} (hm : p ∈ (s.channelAt a).members)
    (hop : (s.channelAt a).modes.topicRestricted = true → (s.channelAt a).isOperator p = true) :
    Entitled s (s.modifyChannel a (·.setTopic topic)) p a := by
  have hobj : a ∈ s.objects := ServerState.mem_of_mem_members hm
  have hch : (s.modifyChannel a (·.setTopic topic)).channelAt a =
      (s.channelAt a).setTopic topic := by simp [hobj]
  constructor
  · exact fun _ hne => absurd (by rw [hch]; rfl) hne
  · exact fun q _ _ hne => absurd (by rw [hch]; rfl) hne
  · exact fun q _ hq hn => absurd (by rw [hch]; exact hq) hn
  · exact fun _ _ => ⟨hm, hop⟩
  · exact fun q hq hn => absurd (by rw [hch] at hq; exact hq) hn
  · exact fun q hq hn => absurd (by rw [hch] at hq; exact hq) hn

theorem addInvite (hm : p ∈ (s.channelAt a).members)
    (hop : (s.channelAt a).modes.inviteOnly = true → (s.channelAt a).isOperator p = true) :
    Entitled s (s.inviteClientToChannel q a) p a := by
  have hobj : a ∈ s.objects := ServerState.mem_of_mem_members hm
  have hch : (s.inviteClientToChannel q a).channelAt a = (s.channelAt a).addInvite q := by
    simp [ServerState.inviteClientToChannel, hobj]
  constructor
  · exact fun _ hne => absurd (by rw [hch]; rfl) hne
  · exact fun r _ _ hne => absurd (by rw [hch]; rfl) hne
  · exact fun r _ hr hn => absurd (by rw [hch]; exact hr) hn
  · exact fun _ hne => absurd (by rw [hch]; rfl) hne
  · exact fun _ _ _ => ⟨hm, hop⟩
  · exact fun r hr hn => absurd (by rw [hch] at hr; exact hr) hn

theorem addMember (hm : p ∉ (s.channelAt a).members)
    (hch : s'.channelAt a = (s.channelAt a).addMember p) : Entitled s s' p a := by
  constructor
  · exact fun _ hne => absurd (by rw [hch]; rfl) hne
  · intro q hq _ hne
    have hpq : p ≠ q := by
      rintro rfl
      exact hm hq
    exact absurd (by rw [hch, Channel.isOperator_addMember, if_neg hpq]) hne
  · exact fun q _ hq hn => absurd (by rw [hch, Channel.mem_addMember]; exact .inr hq) hn
  · exact fun _ hne => absurd (by rw [hch]; rfl) hne
  · intro q hq hn
    rw [hch, Channel.mem_invited_addMember] at hq
    exact absurd hq.2 hn
  · intro q hq hn
    rw [hch, Channel.mem_addMember] at hq
    exact ⟨(hq.resolve_right hn).symm, by rw [hch, Channel.isOperator_addMember, if_pos rfl]⟩

/-- Anyone may leave, and the last one to leave may take the channel along. -/
theorem leave (hch : s'.channelAt a = (s.channelAt a).removeClientState p ∨
      (∀ q ∈ (s.channelAt a).members, q = p) ∧ ¬ s'.OwnsChannel a ∧ s'.channelAt a = default) :
    Entitled s s' p a := by
  rcases hch with hch | ⟨honly, hgone, hch⟩
  · constructor
    · exact fun _ hne => absurd (by rw [hch]; rfl) hne
    · intro q _ hq hne
      rw [hch, Channel.mem_removeClientState] at hq
      exact absurd (by rw [hch, Channel.isOperator_removeClientState, if_neg hq.1]) hne
    · exact fun q hqp hq hn => absurd
        (by rw [hch, Channel.mem_removeClientState]; exact ⟨hqp.symm, hq⟩) hn
    · exact fun _ hne => absurd (by rw [hch]; rfl) hne
    · intro q hq hn
      rw [hch, Channel.mem_invited_removeClientState] at hq
      exact absurd hq.2 hn
    · intro q hq hn
      rw [hch, Channel.mem_removeClientState] at hq
      exact absurd hq.2 hn
  · have hnone : ∀ q, q ∉ (s'.channelAt a).members := by
      intro q
      rw [hch]
      exact ExtTreeMap.not_mem_empty
    constructor
    · exact fun hown => absurd hown hgone
    · exact fun q _ hq => absurd hq (hnone q)
    · exact fun q hqp hq => absurd (honly q hq) hqp
    · exact fun hown => absurd hown hgone
    · intro q hq
      rw [hch] at hq
      exact absurd hq ExtTreeSet.not_mem_empty
    · exact fun q hq => absurd hq (hnone q)

theorem members_of_kicked (hch : s'.channelAt a = (s.channelAt a).removeClientState q ∨
      (∀ r ∈ (s.channelAt a).members, r = q) ∧ ¬ s'.OwnsChannel a ∧ s'.channelAt a = default) :
    ∀ r ∈ (s'.channelAt a).members, r ∈ (s.channelAt a).members := by
  intro r hr
  rcases hch with hch | ⟨-, -, hch⟩ <;> rw [hch] at hr
  · exact ((Channel.mem_removeClientState _ _ _).1 hr).2
  · exact absurd hr ExtTreeMap.not_mem_empty

end Entitled

namespace Outcome

variable {addr : Addr} {fd : Fd} {msg : Message} {s s' : ServerState} {p a : Addr}
  {r : CommandResult}

theorem maybeRegister_channels (p : Addr) (r : CommandResult) (s : ServerState) :
    (CommandDispatcher.maybeRegister p r s).2.channels = s.channels ∧
      (CommandDispatcher.maybeRegister p r s).2.objects = s.objects := by
  rcases ServerState.maybeRegister_cases p r s with hs | hs <;> rw [hs] <;> exact ⟨rfl, rfl⟩

theorem updateNick_channels (s : ServerState) (p : Addr) (n : Str) :
    (s.updateNick p n).2.channels = s.channels ∧ (s.updateNick p n).2.objects = s.objects := by
  rcases s.updateNick_cases p n with ⟨-, hs⟩ | ⟨q, -, -, hs⟩ | ⟨-, -, hs⟩ <;> rw [hs] <;>
    exact ⟨rfl, rfl⟩

/-- A command that is not about a channel leaves the channels alone, and so does any command of a
client that is not registered. -/
theorem channels_eq (ho : Outcome addr fd msg s p r s')
    (hreg : (s.clientAt p).registered = false) :
    s'.channels = s.channels ∧ s'.objects = s.objects := by
  cases ho with
  | silent | refused | answered | quit => exact ⟨rfl, rfl⟩
  | pass => exact ⟨rfl, rfl⟩
  | @nick s₁ _ _ _ hs' =>
    have hch := updateNick_channels s p (msg.getSingleParam 0)
    rw [hs'] at hch
    obtain ⟨h1, h2⟩ := maybeRegister_channels p {} s₁
    exact ⟨h1.trans hch.1, h2.trans hch.2⟩
  | user _ _ _ _ hs' =>
    rw [hs']
    exact maybeRegister_channels p {} _
  | join _ hreg' | part _ hreg' | textChannel _ _ hreg' | textNick _ _ hreg' | kick _ hreg'
  | invite _ hreg' | topic _ hreg' | mode _ hreg' | oper _ hreg' =>
    rw [hreg] at hreg'
    cases hreg'

theorem entitled (h : WellFormed s) (ha : a ∈ s.objects) (ho : Outcome addr fd msg s p r s') :
    Entitled s s' p a := by
  cases ho with
  | silent | refused | answered | quit | textChannel | textNick | pass => exact .of_eq rfl
  | @nick s₁ _ _ _ hs' =>
    have hch := (updateNick_channels s p (msg.getSingleParam 0)).2
    rw [hs'] at hch
    refine .of_eq ?_
    rw [ServerState.channelAt, (maybeRegister_channels p {} s₁).2, hch]
    rfl
  | user _ _ _ _ hs' =>
    rw [hs']
    refine .of_eq ?_
    rw [ServerState.channelAt, (maybeRegister_channels p {} _).2]
    rfl
  | join _ _ _ _ hs' =>
    rcases ServerState.addClientToChannel_channelAt h.populated hs' ha with he | ⟨hm, he⟩
    · exact .of_eq he
    · exact .addMember hm he
  | @part b _ _ hb hm =>
    obtain ⟨hother, hself⟩ := ServerState.removeClientFromChannel_channelAt h.links hb hm
    by_cases hab : a = b
    · subst hab
      exact .leave hself
    · exact .of_eq (hother a hab)
  | @kick b q _ _ _ hb hm hop _ hqm =>
    obtain ⟨hother, hself⟩ := ServerState.removeClientFromChannel_channelAt h.links hb hqm
    by_cases hab : a = b
    · subst hab
      exact .of_operator hm hop (Entitled.members_of_kicked hself)
    · exact .of_eq (hother a hab)
  | invite _ _ _ _ hm _ hop =>
    refine .of_modifyChannel ?_
    rintro rfl -
    exact .addInvite hm hop
  | topic _ _ _ _ hm hop hs' =>
    rw [hs']
    refine .of_modifyChannel ?_
    rintro rfl -
    exact .setTopic hm hop
  | mode _ _ _ hm hop _ _ hs' | oper _ _ _ hm hop _ _ _ hs' =>
    rw [hs']
    refine .of_modifyChannel ?_
    rintro rfl hobj
    exact .of_operator hm hop fun q hq => by simpa [hobj, Channel.setModes] using hq

end Outcome

/-- Privilege safety: in every state of a run, what a command does to a channel that existed before
is within the sender's rights, and a sender that is not registered changes no channel. -/
theorem run_privilege (password : Str) (actions : List Action) (addr : Addr) (now : Time) (fd : Fd)
    (msg : Message) (healthMonitor : Option ConnectionHealthMonitor) (p : Addr)
    (hp : (ServerState.run password actions).getClientByFd fd = some p) :
    let s := ServerState.run password actions
    let s' := s.act (.dispatch addr now fd msg healthMonitor)
    (∀ a, s.OwnsChannel a → Entitled s s' p a) ∧
      ((s.clientAt p).registered = false →
        s'.channels = s.channels ∧ ∀ a, s'.channelAt a = s.channelAt a) := by
  intro s s'
  have h : WellFormed s := .run password actions
  have ho := CommandDispatcher.dispatchWith_outcome addr now msg healthMonitor hp
  refine ⟨fun a ha => ho.entitled h (h.ownsChannel_iff.1 ha), fun hreg => ?_⟩
  obtain ⟨hch, hobj⟩ := ho.channels_eq hreg
  exact ⟨hch, fun a => congrArg (fun m => Heap.deref m a) hobj⟩

/-- The case of an operator who sets `+t` on the channel it created. -/
theorem run_privilege_creator :
    let s := ServerState.run (lit "pw") [.addClient 3 5 (lit "h"),
      .dispatch 0 0 5 (Parser.parse (lit "PASS pw")) none,
      .dispatch 0 0 5 (Parser.parse (lit "NICK a")) none,
      .dispatch 0 0 5 (Parser.parse (lit "USER a 0 * a")) none,
      .dispatch 7 0 5 (Parser.parse (lit "JOIN #c")) none]
    let s' := s.act (.dispatch 0 0 5 (Parser.parse (lit "MODE #c +t")) none)
    s.getClientByFd 5 = some 3 ∧ (s'.channelAt 7).modes ≠ (s.channelAt 7).modes ∧
      Entitled s s' 3 7 := by
  refine ⟨by decide +kernel, by decide +kernel, ?_⟩
  exact (run_privilege _ _ _ _ _ _ _ 3 (by decide +kernel)).1 7 ⟨lit "#c", by decide +kernel⟩

end Ircserv
