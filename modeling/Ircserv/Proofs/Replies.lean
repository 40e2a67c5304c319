import Ircserv.Proofs.Actions

/-!
# What a command leaves alone, and where its replies go

A command changes the data of no client but the sender's, except for the channels the others are in
(`OwnData`). Every reply goes to a client that is registered and is a line that ends in CRLF.
-/

open Std

namespace Ircserv

/-- The registries agree except for the data of `p` and the channels of the clients. -/
structure OwnData (p : Addr) (s s' : ServerState) : Prop where
  fds : s'.client.fdToClient = s.client.fdToClient
  live : ∀ q, q ∈ s'.client.objects ↔ q ∈ s.client.objects
  fd : ∀ q, (s'.clientAt q).fd = (s.clientAt q).fd
  others : ∀ q, q ≠ p → ∃ channels, s'.clientAt q = { s.clientAt q with channels := channels }

namespace OwnData

variable {p : Addr} {s s' s'' : ServerState}

theorem refl (p : Addr) (s : ServerState) : OwnData p s s :=
  ⟨rfl, fun _ => Iff.rfl, fun _ => rfl, fun _ _ => ⟨_, rfl⟩⟩

theorem trans (h : OwnData p s s') (h' : OwnData p s' s'') : OwnData p s s'' where
  fds := h'.fds.trans h.fds
  live q := (h'.live q).trans (h.live q)
  fd q := (h'.fd q).trans (h.fd q)
  others q hq := by
    obtain ⟨cs, hcs⟩ := h.others q hq
    obtain ⟨cs', hcs'⟩ := h'.others q hq
    exact ⟨cs', by rw [hcs', hcs]⟩

theorem of_sameClients (h : SameClients s s') : OwnData p s s' where
  fds := h.fds
  live := h.live
  fd q := by
    obtain ⟨cs, hcs⟩ := h.data q
    rw [hcs]
  others q _ := h.data q

theorem modifyClient (s : ServerState) {f : Client → Client} (hf : ∀ c, (f c).fd = c.fd) :
    OwnData p s (s.modifyClient p f) := by
  refine ⟨rfl, by simp, fun q => ?_, fun q hq => ?_⟩
  · rw [ServerState.clientAt_modifyClient]
    split_ifs <;> simp [hf]
  · rw [ServerState.clientAt_modifyClient, if_neg (fun h => hq h.1.symm)]
    exact ⟨_, rfl⟩

theorem maybeRegister (r : CommandResult) (s : ServerState) :
    OwnData p s (CommandDispatcher.maybeRegister p r s).2 := by
  rcases ServerState.maybeRegister_cases p r s with hs | hs <;> rw [hs]
  · exact refl p s
  · exact modifyClient s fun _ => rfl

theorem updateNick (s : ServerState) (n : Str) : OwnData p s (s.updateNick p n).2 := by
  rcases s.updateNick_cases p n with ⟨-, hs⟩ | ⟨q, -, -, hs⟩ | ⟨-, -, hs⟩ <;> rw [hs]
  · exact refl p s
  · exact refl p s
  · refine ⟨rfl, by simp, fun q => ?_, fun q hq => ?_⟩
    · rw [ServerState.clientAt_renamed]
      split_ifs <;> rfl
    · rw [ServerState.clientAt_renamed, if_neg (fun h => hq h.1.symm)]
      exact ⟨_, rfl⟩

end OwnData

namespace Outcome

variable {addr : Addr} {fd : Fd} {msg : Message} {s s' : ServerState} {p q : Addr}
  {r : CommandResult}

theorem ownData (ho : Outcome addr fd msg s p r s') : OwnData p s s' := by
  cases ho with
  | silent | refused | answered | quit | textChannel | textNick => exact .refl p s
  | pass => exact .modifyClient s fun _ => rfl
  | nick _ _ _ hs' =>
    have h := OwnData.updateNick (p := p) s (msg.getSingleParam 0)
    rw [hs'] at h
    exact h.trans (.maybeRegister {} _)
  | user _ _ _ _ hs' =>
    rw [hs']
    refine OwnData.trans (OwnData.trans (.modifyClient s ?_) (.modifyClient _ ?_))
      (.maybeRegister {} _)
    · exact fun _ => rfl
    · exact fun _ => rfl
  | join _ _ _ _ hs' =>
    have h := SameClients.addClientToChannel s addr p (msg.getSingleParam 0)
    rw [hs'] at h
    exact .of_sameClients h
  | part | kick => exact .of_sameClients (.removeClientFromChannel s _ _)
  | invite => exact .of_sameClients (.modifyChannel s _ _)
  | topic _ _ _ _ _ _ hs' | mode _ _ _ _ _ _ _ hs' | oper _ _ _ _ _ _ _ _ hs' =>
    rw [hs']
    exact .of_sameClients (.modifyChannel s _ _)

/-- A command changes no nick but the sender's. -/
theorem nickname (ho : Outcome addr fd msg s p r s') (hq : q ≠ p) :
    (s'.clientAt q).nickname = (s.clientAt q).nickname := by
  obtain ⟨cs, hcs⟩ := ho.ownData.others q hq
  rw [hcs]

end Outcome

/-- The replies of a broadcast, in the order of the members. -/
theorem addRepliesToMembers_eq (s : ServerState) (message : Str) (exceptFd : Fd) :
    ∀ (members : List Addr) (r : CommandResult),
      addRepliesToMembers r s members message exceptFd =
        { r with replies := r.replies ++ ((members.map fun q => (s.clientAt q).fd).filter
          (· ≠ exceptFd)).map (⟨·, message⟩) }
  | [], r => by simp [addRepliesToMembers]
  | q :: members, r => by
    have ih := addRepliesToMembers_eq s message exceptFd members
      (addReplyToMember s message exceptFd r q)
    simp only [addRepliesToMembers, List.foldl_cons] at ih ⊢
    rw [ih]
    by_cases hq : (s.clientAt q).fd = exceptFd <;>
      simp [addReplyToMember, CommandResult.addReply, hq]

/-- A line of output: it ends in CRLF. -/
def EndsLine (message : Str) : Prop := ∃ line, message = line ++ ReplyBuilder.crlf

theorem EndsLine.ne_nil {message : Str} (h : EndsLine message) : message ≠ [] := by
  obtain ⟨line, rfl⟩ := h
  simp [ReplyBuilder.crlf]

/-- Every reply is a line for a client that is registered. -/
def Addressed (s : ServerState) (r : CommandResult) : Prop :=
  ∀ m ∈ r.replies, m.fd ∈ s.client.fdToClient ∧ EndsLine m.message

namespace Addressed

variable {s s' : ServerState} {r : CommandResult} {p : Addr} {fd : Fd} {message : Str}

theorem nil (s : ServerState) : Addressed s {} := by
  intro m hm
  simp at hm

theorem addReply (h : Addressed s r) (hfd : fd ∈ s.client.fdToClient) (hm : EndsLine message) :
    Addressed s (r.addReply fd message) := by
  intro m hmem
  simp only [CommandResult.addReply, List.mem_append, List.mem_singleton] at hmem
  rcases hmem with hmem | rfl
  · exact h m hmem
  · exact ⟨hfd, hm⟩

theorem reply (hfd : fd ∈ s.client.fdToClient) (hm : EndsLine message) :
    Addressed s (CommandResult.reply fd message) := (nil s).addReply hfd hm

theorem congr (h : Addressed s' r) (hs : s'.client.fdToClient = s.client.fdToClient) :
    Addressed s r := by
  intro m hm
  rw [← hs]
  exact h m hm

/-- A client that is alive is registered under its descriptor. -/
theorem mem_of_live (h : Links s) (hp : p ∈ s.client.objects) :
    (s.clientAt p).fd ∈ s.client.fdToClient := by
  rw [ExtTreeMap.mem_iff_isSome_getElem?, h.clientOwned p hp]
  rfl

theorem members (h : Links s) (hr : Addressed s r) (a : Addr) (exceptFd : Fd)
    (hm : EndsLine message) :
    Addressed s (addRepliesToMembers r s (s.channelAt a).getMembers message exceptFd) := by
  intro m hmem
  simp only [addRepliesToMembers_eq, List.mem_append, List.mem_map, List.mem_filter] at hmem
  rcases hmem with hmem | ⟨g, ⟨⟨q, hq, rfl⟩, -⟩, rfl⟩
  · exact hr m hmem
  · rw [Channel.getMembers, ExtTreeMap.mem_keys] at hq
    exact ⟨mem_of_live h (h.memberLive hq), hm⟩

end Addressed

theorem ErrorReply.endsLine {c : Client} {m : Str} (h : ErrorReply c m) : EndsLine m := by
  cases h <;> exact ⟨_, rfl⟩

theorem Answer.endsLine {msg : Message} {s : ServerState} {p : Addr} {m : Str}
    (h : Answer msg s p m) : EndsLine m := by
  cases h <;> exact ⟨_, rfl⟩

namespace Outcome

open ReplyBuilder

variable {addr : Addr} {fd : Fd} {msg : Message} {s s' : ServerState} {p : Addr}
  {r : CommandResult}

theorem maybeRegister_addressed (h : Links s) (hp : p ∈ s.client.objects) :
    Addressed s (CommandDispatcher.maybeRegister p {} s).1 := by
  rcases ServerState.maybeRegister_cases p {} s with hs | hs <;> rw [hs]
  · exact .nil s
  · have hown := OwnData.modifyClient (p := p) s (f := (·.markRegistered)) fun _ => rfl
    refine (Addressed.nil s).addReply ?_ ⟨_, rfl⟩
    rw [hown.fd]
    exact Addressed.mem_of_live h hp

/-- The replies of a command go to registered clients. -/
theorem addressed (h : WellFormed s) (hp : s.client.fdToClient[fd]? = some p)
    (ho : Outcome addr fd msg s p r s') : Addressed s r := by
  have hlive := (h.links.fdOwner fd p hp).1
  have hfd : fd ∈ s.client.fdToClient := by
    rw [ExtTreeMap.mem_iff_isSome_getElem?, hp]
    rfl
  have hown := ho.ownData
  have h' := h.outcome hlive ho
  cases ho with
  | silent | pass => exact .nil s
  | quit => exact fun m hm => absurd hm (by simp [CommandDispatcher.handleQuit])
  | refused he => exact .reply hfd he.error.endsLine
  | answered ha => exact .reply hfd ha.endsLine
  | @nick s₁ _ _ hvalid hs' =>
    have h₁ := h.updateNick hlive (isValidNickname_ne_nil hvalid)
    have hown₁ := OwnData.updateNick (p := p) s (msg.getSingleParam 0)
    rw [hs'] at h₁ hown₁
    exact (maybeRegister_addressed h₁.links ((hown₁.live p).2 hlive)).congr hown₁.fds
  | user _ _ _ _ hs' =>
    subst hs'
    refine (maybeRegister_addressed ?_ (by simpa using hlive)).congr rfl
    refine Links.modifyClient ?_ (fun _ => rfl) fun _ => rfl
    exact h.links.modifyClient (fun _ => rfl) fun _ => rfl
  | @join a s₁ _ _ _ _ hs' =>
    refine Addressed.congr ?_ hown.fds
    rw [← hown.fds] at hfd
    have hline : EndsLine (ReplyBuilder.join (s'.clientAt p).getFullPrefix (lit "JOIN")
        (msg.getSingleParam 0)) := ⟨_, rfl⟩
    have hjoin := (Addressed.nil s').members h'.links a (-1) hline
    unfold CommandDispatcher.joinReplies
    dsimp only
    split_ifs
    · exact ((hjoin.addReply hfd ⟨_, rfl⟩).addReply hfd ⟨_, rfl⟩).addReply hfd ⟨_, rfl⟩
    · exact ((hjoin.addReply hfd ⟨_, rfl⟩).addReply hfd ⟨_, rfl⟩).addReply hfd ⟨_, rfl⟩
  | part | textChannel | kick => exact (Addressed.nil s).members h.links _ _ ⟨_, rfl⟩
  | textNick _ _ _ hq =>
    exact .reply (Addressed.mem_of_live h.links (h.nicks.owner _ _ hq).1) ⟨_, rfl⟩
  | invite _ _ hq =>
    exact (Addressed.reply hfd ⟨_, rfl⟩).addReply
      (Addressed.mem_of_live h.links (h.nicks.owner _ _ hq).1) ⟨_, rfl⟩
  | topic | mode | oper =>
    exact ((Addressed.nil _).members h'.links _ _ ⟨_, rfl⟩).congr hown.fds

/-- Only QUIT requests a disconnection. -/
theorem quit_of_shouldDisconnect (ho : Outcome addr fd msg s p r s')
    (hr : r.shouldDisconnect = true) : msg.command = lit "QUIT" := by
  have hregister : ∀ s, (CommandDispatcher.maybeRegister p {} s).1.shouldDisconnect = false := by
    intro s
    rcases ServerState.maybeRegister_cases p {} s with hs | hs
    all_goals rw [hs]
    rfl
  cases ho with
  | quit h => exact h
  | silent | refused | answered | pass | textNick | invite => cases hr
  | nick | user =>
    rw [hregister] at hr
    cases hr
  | join =>
    simp only [CommandDispatcher.joinReplies, addRepliesToMembers_eq, CommandResult.addReply] at hr
    split_ifs at hr
  | part | textChannel | kick | topic | mode | oper =>
    rw [addRepliesToMembers_eq] at hr
    cases hr

end Outcome

end Ircserv
