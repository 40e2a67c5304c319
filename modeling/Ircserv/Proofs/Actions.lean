import Ircserv.Turns
import Ircserv.Proofs.Handlers

/-!
# The state over a run

Every action keeps the state well formed, so a run can be done on `SoundState`, whose values carry
the invariant. What the claims about references and nicks say is read off there.
-/

open Std

namespace Ircserv

structure WellFormed (s : ServerState) : Prop where
  links : Links s
  nicks : Nicks s
  populated : Populated s

variable {addr : Addr} {fd : Fd} {msg : Message} {s s' : ServerState} {p q : Addr}

theorem isValidNickname_ne_nil {n : Str} (h : isValidNickname n = true) : n ≠ [] := by
  rintro rfl
  cases h

namespace ServerState

/-- `maybeRegister` sets the flag of the client, or nothing. -/
theorem maybeRegister_cases (p : Addr) (result : CommandResult) (s : ServerState) :
    CommandDispatcher.maybeRegister p result s = (result, s) ∨
      CommandDispatcher.maybeRegister p result s =
        (result.addReply ((s.modifyClient p (·.markRegistered)).clientAt p).fd
          (ReplyBuilder.welcome ((s.modifyClient p (·.markRegistered)).clientAt p)),
        s.modifyClient p (·.markRegistered)) := by
  unfold CommandDispatcher.maybeRegister
  dsimp only
  split_ifs
  · exact .inr rfl
  · exact .inl rfl

end ServerState

namespace WellFormed

theorem start (password : Str) : WellFormed { password := password } where
  links := .start password
  nicks := .start password
  populated := by
    intro a ha
    simp at ha

/-- An update of a client's own data, other than its nick. -/
theorem modifyClient (h : WellFormed s) {f : Client → Client} (hfd : ∀ c, (f c).fd = c.fd)
    (hch : ∀ c, (f c).channels = c.channels) (hnick : ∀ c, (f c).nickname = c.nickname) :
    WellFormed (s.modifyClient p f) where
  links := h.links.modifyClient hfd hch
  nicks := h.nicks.modifyClient hnick
  populated := h.populated

/-- An update of a channel that keeps its name and its members. -/
theorem modifyChannel (h : WellFormed s) {a : Addr} {f : Channel → Channel}
    (hname : ∀ ch, (f ch).name = ch.name) (hmem : ∀ ch q, q ∈ (f ch).members ↔ q ∈ ch.members)
    (hinv : ∀ ch, ∀ q ∈ (f ch).invitedClients, q ∈ ch.invitedClients ∨ q ∈ s.client.objects) :
    WellFormed (s.modifyChannel a f) where
  links := h.links.modifyChannel hname hmem hinv
  nicks := h.nicks.sameClients (.modifyChannel s a f)
  populated := by
    intro b hb
    obtain ⟨q, hq⟩ := h.populated b (by simpa using hb)
    refine ⟨q, ?_⟩
    rw [ServerState.channelAt_modifyChannel]
    split_ifs
    · exact (hmem _ q).2 hq
    · exact hq

theorem maybeRegister (h : WellFormed s) (result : CommandResult) :
    WellFormed (CommandDispatcher.maybeRegister p result s).2 := by
  rcases ServerState.maybeRegister_cases p result s with hs | hs <;> rw [hs]
  · exact h
  · exact h.modifyClient (fun _ => rfl) (fun _ => rfl) fun _ => rfl

theorem updateNick (h : WellFormed s) (hp : p ∈ s.client.objects) {n : Str} (hn : n ≠ []) :
    WellFormed (s.updateNick p n).2 := by
  refine ⟨?_, h.nicks.updateNick hp hn, ?_⟩
  all_goals
    rcases s.updateNick_cases p n with ⟨-, hs⟩ | ⟨q, -, -, hs⟩ | ⟨-, -, hs⟩ <;> rw [hs]
  · exact h.links
  · exact h.links
  · exact h.links.renamed
  · exact h.populated
  · exact h.populated
  · exact h.populated

theorem addClientToChannel (h : WellFormed s) (hp : p ∈ s.client.objects) (addr : Addr)
    (name : Str) : WellFormed (s.addClientToChannel addr p name).2 :=
  have hl := h.links.addClientToChannel h.populated hp addr name
  ⟨hl.1, h.nicks.sameClients (.addClientToChannel s addr p name), hl.2⟩

theorem removeClientFromChannel (h : WellFormed s) (p : Addr) (name : Str) :
    WellFormed (s.removeClientFromChannel p name) :=
  have hl := h.links.removeClientFromChannel (p := p) h.populated name
  ⟨hl.1, h.nicks.sameClients (.removeClientFromChannel s p name), hl.2⟩

/-- What a command can do keeps the state well formed. -/
theorem outcome (h : WellFormed s) (hp : p ∈ s.client.objects) {r : CommandResult}
    (ho : Outcome addr fd msg s p r s') : WellFormed s' := by
  cases ho with
  | silent | refused | answered | quit | textChannel | textNick => exact h
  | pass => exact h.modifyClient (fun _ => rfl) (fun _ => rfl) fun _ => rfl
  | @nick s₁ _ _ hvalid hs' =>
    have h₁ := h.updateNick hp (isValidNickname_ne_nil hvalid)
    rw [hs'] at h₁
    exact h₁.maybeRegister {}
  | user _ _ _ _ hs' =>
    rw [hs']
    refine WellFormed.maybeRegister ?_ {}
    refine WellFormed.modifyClient ?_ (fun _ => rfl) (fun _ => rfl) fun _ => rfl
    exact h.modifyClient (fun _ => rfl) (fun _ => rfl) fun _ => rfl
  | join _ _ _ _ hs' =>
    have h₁ := h.addClientToChannel hp addr (msg.getSingleParam 0)
    rwa [hs'] at h₁
  | part | kick => exact h.removeClientFromChannel _ _
  | @invite a q _ _ hq =>
    refine h.modifyChannel (fun _ => rfl) (fun _ _ => Iff.rfl) fun ch r hr => ?_
    rcases (Channel.mem_invited_addInvite ch q r).1 hr with rfl | hr
    · exact .inr (h.nicks.owner _ _ hq).1
    · exact .inl hr
  | topic _ _ _ _ _ _ hs' | mode _ _ _ _ _ _ _ hs' =>
    rw [hs']
    exact h.modifyChannel (fun _ => rfl) (fun _ _ => Iff.rfl) fun _ _ hr => .inl hr
  | oper _ _ _ _ _ _ _ _ hs' =>
    rw [hs']
    exact h.modifyChannel (fun _ => rfl) (by simp) fun _ _ hr => .inl hr

theorem dispatchWith (h : WellFormed s) (addr : Addr) (now : Time) (fd : Fd) (msg : Message)
    (monitor : Option ConnectionHealthMonitor) :
    WellFormed (CommandDispatcher.dispatchWith addr now fd msg s monitor).2.1 := by
  rcases hp : s.client.fdToClient[fd]? with _ | p
  · rw [CommandDispatcher.dispatchWith_unknown addr now msg monitor hp]
    exact h
  · exact h.outcome (h.links.fdOwner fd p hp).1
      (CommandDispatcher.dispatchWith_outcome addr now msg monitor hp)

theorem addClient (h : WellFormed s) (addr : Addr) (fd : Fd) (host : Str) :
    WellFormed (s.addClient addr fd host) :=
  ⟨h.links.addClient addr fd host, h.nicks.addClient addr fd host, h.populated⟩

theorem removeClient (h : WellFormed s) (fd : Fd) : WellFormed (s.removeClient fd) :=
  have hl := h.links.removeClient h.populated fd
  ⟨hl.1, h.nicks.removeClient h.links h.populated fd, hl.2⟩

theorem act (h : WellFormed s) (action : Action) : WellFormed (s.act action) := by
  cases action with
  | addClient addr fd host => exact h.addClient addr fd host
  | removeClient fd => exact h.removeClient fd
  | dispatch addr now fd msg monitor => exact h.dispatchWith addr now fd msg monitor

/-- A client is alive if and only if the map of descriptors owns it. -/
theorem ownsClient_iff (h : WellFormed s) : s.OwnsClient p ↔ p ∈ s.client.objects :=
  ⟨fun ⟨fd, hp⟩ => (h.links.fdOwner fd p hp).1, fun hp => ⟨_, h.links.clientOwned p hp⟩⟩

/-- A channel is alive if and only if the map of channels owns it. -/
theorem ownsChannel_iff (h : WellFormed s) {a : Addr} : s.OwnsChannel a ↔ a ∈ s.objects :=
  ⟨fun ⟨n, ha⟩ => (h.links.nameOwner n a ha).1, fun ha => ⟨_, (h.links.channelOwned a ha).1⟩⟩

/-- The nickname map finds exactly the holder of a nick. -/
theorem getClientByNick_iff (h : WellFormed s) {n : Str} (hn : n ≠ []) :
    s.getClientByNick n = some p ↔
      p ∈ s.client.objects ∧ caseFold (s.clientAt p).nickname = caseFold n := by
  constructor
  · intro hp
    exact ⟨(h.nicks.owner n p hp).1, (h.nicks.owner n p hp).2.1⟩
  · rintro ⟨hp, hf⟩
    have hne : (s.clientAt p).nickname ≠ [] := by
      rw [Ne, ← caseFold_eq_nil, hf, caseFold_eq_nil]
      exact hn
    have hown := h.nicks.holder p hp hne
    rwa [ExtTreeMap.getElem?_congr ((ircCmp_eq_iff _ _).2 hf)] at hown

end WellFormed

/-- A state with its invariant. -/
structure SoundState where
  state : ServerState
  wf : WellFormed state

namespace SoundState

def start (password : Str) : SoundState := ⟨{ password := password }, .start password⟩

def act (s : SoundState) (action : Action) : SoundState :=
  ⟨s.state.act action, s.wf.act action⟩

def run (password : Str) (actions : List Action) : SoundState :=
  actions.foldl act (start password)

/-- A run never leaves the well-formed states. -/
theorem state_run (password : Str) (actions : List Action) :
    (run password actions).state = ServerState.run password actions :=
  (List.foldl_hom SoundState.state fun _ _ => rfl).symm

end SoundState

theorem WellFormed.run (password : Str) (actions : List Action) :
    WellFormed (ServerState.run password actions) :=
  SoundState.state_run password actions ▸ (SoundState.run password actions).wf

/-- An invariant that each action keeps in a well-formed state holds in every state of a run. -/
theorem WellFormed.run_induction {P : ServerState → Prop} (password : Str) (actions : List Action)
    (start : P { password := password })
    (act : ∀ s, WellFormed s → P s → ∀ action, P (s.act action)) :
    P (ServerState.run password actions) := by
  have h : WellFormed (ServerState.run password actions) ∧ P (ServerState.run password actions) :=
    List.foldlRecOn (motive := fun s => WellFormed s ∧ P s) _ _ ⟨.start password, start⟩
      fun s ⟨hw, h⟩ action _ => ⟨hw.act action, act s hw h action⟩
  exact h.2

/-- What an action can be: nothing, the arrival of a client, a removal or a command of a client. -/
theorem ServerState.act_cases (s : ServerState) (action : Action) :
    (s.act action = s ∧ ∀ addr now fd msg monitor, action = .dispatch addr now fd msg monitor →
        s.client.fdToClient[fd]? = none) ∨
      (∃ addr fd host, action = .addClient addr fd host ∧ s.client.fdToClient[fd]? = none) ∨
      (∃ fd p, action = .removeClient fd ∧ s.client.fdToClient[fd]? = some p) ∨
      ∃ addr now fd msg monitor p, action = .dispatch addr now fd msg monitor ∧
        s.client.fdToClient[fd]? = some p ∧
        Outcome addr fd msg s p (CommandDispatcher.dispatchWith addr now fd msg s monitor).1
          (s.act action) := by
  cases action with
  | addClient addr fd host =>
    rcases hp : s.client.fdToClient[fd]? with _ | p
    · exact .inr (.inl ⟨addr, fd, host, rfl, hp⟩)
    · refine .inl ⟨?_, by simp⟩
      simp only [act, addClient, ClientRegistry.addClient, ClientRegistry.getClientByFd, hp]
  | removeClient fd =>
    rcases hp : s.client.fdToClient[fd]? with _ | p
    · exact .inl ⟨removeClient_unknown hp, by simp⟩
    · exact .inr (.inr (.inl ⟨fd, p, rfl, hp⟩))
  | dispatch addr now fd msg monitor =>
    rcases hp : s.client.fdToClient[fd]? with _ | p
    · refine .inl ⟨?_, by rintro _ _ _ _ _ ⟨⟩; exact hp⟩
      rw [act, CommandDispatcher.dispatchWith_unknown addr now msg monitor hp]
    · exact .inr (.inr (.inr ⟨addr, now, fd, msg, monitor, p, rfl, hp,
        CommandDispatcher.dispatchWith_outcome addr now msg monitor hp⟩))

end Ircserv
