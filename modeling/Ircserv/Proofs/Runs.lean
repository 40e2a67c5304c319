import Ircserv.Proofs.Replies

/-!
# References and nicks over a run

In every state of a run each reference leads to an object that its owner still has, and the nickname
map finds exactly the holder of a nick. A nick that is held becomes free in one way only: its holder
is removed or takes another one.
-/

open Std

namespace Ircserv

open ServerState

/-- Members and joined channels agree, and no reference leads to a client or a channel that is not
owned any more. -/
theorem run_references (password : Str) (actions : List Action) :
    let s := run password actions
    (∀ p a, s.OwnsClient p → s.OwnsChannel a →
        (p ∈ (s.channelAt a).members ↔ a ∈ (s.clientAt p).channels)) ∧
      (∀ a, s.OwnsChannel a → ∀ p,
        p ∈ (s.channelAt a).members ∨ p ∈ (s.channelAt a).invitedClients → s.OwnsClient p) ∧
      (∀ n p, s.getClientByNick n = some p → s.OwnsClient p) ∧
      (∀ p, s.OwnsClient p → ∀ a ∈ (s.clientAt p).channels,
        s.OwnsChannel a ∧ ((s.channelAt a).name, a) ∈ s.channels.toList) ∧
      (∀ p, p ∈ s.client.objects ↔ s.OwnsClient p) ∧
      ∀ a, a ∈ s.objects ↔ s.OwnsChannel a := by
  intro s
  have h : WellFormed s := .run password actions
  refine ⟨fun p a _ _ => h.links.linked p a, fun a _ p hp => ?_, fun n p hp => ?_,
    fun p _ a ha => ?_, fun p => h.ownsClient_iff.symm, fun a => h.ownsChannel_iff.symm⟩
  · rw [h.ownsClient_iff]
    rcases hp with hp | hp
    · exact h.links.memberLive hp
    · exact h.links.invitedLive a p hp
  · exact h.ownsClient_iff.2 (h.nicks.owner n p hp).1
  · have hobj : a ∈ s.objects := mem_of_mem_members ((h.links.linked p a).2 ha)
    obtain ⟨hget, hkey⟩ := h.links.channelOwned a hobj
    exact ⟨⟨_, hget⟩, OrderedMap.mem_toList_iff.2 ⟨hkey, hget⟩⟩

section Clients

variable {s : ServerState} {p q : Addr}

/-- The clients after the removal of the client `p` of the descriptor. -/
theorem WellFormed.removeClient_client (h : WellFormed s) {fd : Fd}
    (hp : s.client.fdToClient[fd]? = some p) :
    (∀ q, q ∈ (s.removeClient fd).client.objects ↔ q ∈ s.client.objects ∧ q ≠ p) ∧
      (s.removeClient fd).clientAt p = default ∧
      (∀ q, q ≠ p → ∃ channels, (s.removeClient fd).clientAt q =
        { s.clientAt q with channels := channels }) ∧
      (s.removeClient fd).client.fdToClient = s.client.fdToClient.erase fd ∧
      (s.removeClient fd).client.nicknameToClient =
        s.client.nicknameToClient.erase (s.clientAt p).nickname := by
  obtain ⟨-, -, hsame, -, -⟩ := detached_spec h.links h.populated p
  have hp' : (s.detached p).client.fdToClient[fd]? = some p := by rw [hsame.fds, hp]
  have hreg : (s.removeClient fd).client =
      { nicknameToClient := s.client.nicknameToClient.erase (s.clientAt p).nickname
        fdToClient := s.client.fdToClient.erase fd
        objects := (s.detached p).client.objects.erase p } := by
    obtain ⟨cs, hcs⟩ := hsame.data p
    have hnick : ((s.detached p).client.deref p).nickname = (s.clientAt p).nickname := by
      show ((s.detached p).clientAt p).nickname = _
      rw [hcs]
    rw [removeClient_eq hp]
    simp only [ClientRegistry.removeClient, ClientRegistry.getClientByFd, hp', hnick]
    rw [hsame.fds, hsame.nicks]
  refine ⟨fun q => ?_, ?_, fun q hq => ?_, by rw [hreg], by rw [hreg]⟩
  · rw [hreg]
    simp [hsame.live q, and_comm, @eq_comm _ q p]
  · simp [clientAt, ClientRegistry.deref, hreg]
  · obtain ⟨cs, hcs⟩ := hsame.data q
    refine ⟨cs, ?_⟩
    rw [← hcs]
    simp [clientAt, ClientRegistry.deref, hreg, hq.symm]

/-- `removeClient` deletes the client of the descriptor and changes nobody else's nick. -/
theorem WellFormed.removeClient_clients (h : WellFormed s) (fd : Fd) (q : Addr) :
    (q ∈ (s.removeClient fd).client.objects ↔
        q ∈ s.client.objects ∧ s.client.fdToClient[fd]? ≠ some q) ∧
      (q ∈ (s.removeClient fd).client.objects →
        ((s.removeClient fd).clientAt q).nickname = (s.clientAt q).nickname) := by
  rcases hp : s.client.fdToClient[fd]? with _ | p
  · rw [removeClient_unknown hp]
    simp
  · obtain ⟨hlive, -, hdata, -⟩ := h.removeClient_client hp
    refine ⟨by simp [hlive q, eq_comm], fun hq => ?_⟩
    obtain ⟨cs, hcs⟩ := hdata q ((hlive q).1 hq).2
    rw [hcs]

/-- The clients after an arrival on a descriptor that was free. -/
theorem clientAt_addClient (addr : Addr) {fd : Fd} (host : Str)
    (hp : s.client.fdToClient[fd]? = none) (q : Addr) :
    (s.addClient addr fd host).clientAt q =
      if Heap.fresh s.client.objects addr = q then { host := host, fd := fd }
      else s.clientAt q := by
  simp only [addClient, ClientRegistry.addClient, ClientRegistry.getClientByFd, hp]
  simp [clientAt, ClientRegistry.deref]

theorem addClient_known (addr : Addr) {fd : Fd} (host : Str)
    (hp : s.client.fdToClient[fd]? = some p) : s.addClient addr fd host = s := by
  simp only [addClient, ClientRegistry.addClient, ClientRegistry.getClientByFd, hp]

/-- A new client has no nick, and the others keep theirs. -/
theorem addClient_clients (s : ServerState) (addr : Addr) (fd : Fd) (host : Str) (q : Addr) :
    (q ∈ s.client.objects → q ∈ (s.addClient addr fd host).client.objects) ∧
      (((s.addClient addr fd host).clientAt q).nickname = (s.clientAt q).nickname) := by
  rcases hp : s.client.fdToClient[fd]? with _ | p
  · refine ⟨fun hq => ?_, ?_⟩
    · simp [addClient, ClientRegistry.addClient, ClientRegistry.getClientByFd, hp, hq]
    · rw [clientAt_addClient addr host hp]
      split_ifs with hq
      · have hnew := Heap.fresh_not_mem s.client.objects addr
        rw [hq] at hnew
        exact (congrArg Client.nickname (clientAt_of_not_mem hnew)).symm
      · rfl
  · rw [addClient_known addr host hp]
    exact ⟨id, rfl⟩

/-- A client lives on until it is removed. -/
theorem WellFormed.act_live (h : WellFormed s) (action : Action) (hp : p ∈ s.client.objects) :
    p ∈ (s.act action).client.objects ↔ action ≠ .removeClient (s.clientAt p).fd := by
  cases action with
  | addClient addr fd host => simp [ServerState.act, (addClient_clients s addr fd host p).1 hp]
  | removeClient fd =>
    rw [ServerState.act, (h.removeClient_clients fd p).1]
    simp only [hp, true_and, ne_eq, Action.removeClient.injEq, not_iff_not]
    constructor
    · intro hfd
      exact (h.links.fdOwner fd p hfd).2.symm
    · rintro rfl
      exact h.links.clientOwned p hp
  | dispatch addr now fd msg monitor =>
    simp only [ServerState.act, ne_eq, reduceCtorEq, not_false_eq_true, iff_true]
    rcases hq : s.client.fdToClient[fd]? with _ | q
    · rwa [CommandDispatcher.dispatchWith_unknown addr now msg monitor hq]
    · exact ((CommandDispatcher.dispatchWith_outcome addr now msg monitor hq).ownData.live p).2 hp

/-- A client that has a nick after an action had it before, unless the action is its own command. -/
theorem WellFormed.act_nickname (h : WellFormed s) (action : Action)
    (hq : q ∈ (s.act action).client.objects) (hne : ((s.act action).clientAt q).nickname ≠ []) :
    q ∈ s.client.objects ∧ (((s.act action).clientAt q).nickname = (s.clientAt q).nickname ∨
      ∃ addr now fd msg monitor, action = .dispatch addr now fd msg monitor ∧
        s.client.fdToClient[fd]? = some q) := by
  cases action with
  | addClient addr fd host =>
    have hnick := (addClient_clients s addr fd host q).2
    refine ⟨?_, .inl hnick⟩
    by_contra hnew
    rw [ServerState.act, hnick, clientAt_of_not_mem hnew] at hne
    exact hne rfl
  | removeClient fd =>
    obtain ⟨hlive, hnick⟩ := h.removeClient_clients fd q
    exact ⟨(hlive.1 hq).1, .inl (hnick hq)⟩
  | dispatch addr now fd msg monitor =>
    rcases hp : s.client.fdToClient[fd]? with _ | p
    · simp only [ServerState.act, CommandDispatcher.dispatchWith_unknown addr now msg monitor hp] at hq ⊢
      exact ⟨hq, .inl trivial⟩
    · have ho := CommandDispatcher.dispatchWith_outcome addr now msg monitor hp
      refine ⟨(ho.ownData.live q).1 hq, ?_⟩
      by_cases hqp : q = p
      · subst hqp
        exact .inr ⟨_, _, _, _, _, rfl, hp⟩
      · exact .inl (ho.nickname hqp)

/-- A nick that is held becomes free when its holder is removed or takes a nick that is another one
up to letter case, and stays the holder's otherwise. -/
theorem WellFormed.act_nick_free (h : WellFormed s) (action : Action) {n : Str} (hn : n ≠ [])
    (hp : s.getClientByNick n = some p) :
    ((s.act action).getClientByNick n = none ↔
        action = .removeClient (s.clientAt p).fd ∨
          caseFold ((s.act action).clientAt p).nickname ≠ caseFold n) ∧
      ∀ q, (s.act action).getClientByNick n = some q → q = p := by
  obtain ⟨hlive, hfold⟩ := (h.getClientByNick_iff hn).1 hp
  have h' := h.act action
  have honly : ∀ q, (s.act action).getClientByNick n = some q → q = p := by
    intro q hq
    obtain ⟨hq', hf⟩ := (h'.getClientByNick_iff hn).1 hq
    have hne : ((s.act action).clientAt q).nickname ≠ [] := by
      rw [Ne, ← caseFold_eq_nil, hf, caseFold_eq_nil]
      exact hn
    obtain ⟨hqs, hsame | ⟨addr, now, fd, msg, monitor, rfl, hown⟩⟩ :=
      h.act_nickname action hq' hne
    · have hq₀ := (h.getClientByNick_iff hn).2 ⟨hqs, by rw [← hsame, hf]⟩
      exact Option.some.inj (hq₀.symm.trans hp)
    · -- the sender took the nick: if the holder is someone else, it still has it
      by_contra hqp
      have hp' := (CommandDispatcher.dispatchWith_outcome addr now msg monitor hown).nickname
        (Ne.symm hqp)
      have hpl := (h.act_live (.dispatch addr now fd msg monitor) hlive).2 (by simp)
      have hhold := (h'.getClientByNick_iff hn).2 ⟨hpl, (congrArg caseFold hp').trans hfold⟩
      exact hqp (Option.some.inj (hq.symm.trans hhold))
  refine ⟨?_, honly⟩
  have hsome : (s.act action).getClientByNick n = none ↔
      (s.act action).getClientByNick n ≠ some p := by
    constructor
    · intro hnone
      rw [hnone]
      exact nofun
    · intro hnp
      rcases hq : (s.act action).getClientByNick n with _ | q
      · rfl
      · rw [honly q hq] at hq
        exact absurd hq hnp
  rw [hsome, Ne, h'.getClientByNick_iff hn, h.act_live action hlive]
  by_cases ha : action = .removeClient (s.clientAt p).fd <;> simp [ha]

end Clients

/-- Nicks are unique up to letter case, the nickname map is exact, and a nick is freed by its
holder alone. -/
theorem run_nicks (password : Str) (actions : List Action) :
    let s := run password actions
    (∀ n p, n ≠ [] → (s.getClientByNick n = some p ↔
        s.OwnsClient p ∧ caseFold (s.clientAt p).nickname = caseFold n)) ∧
      (∀ p q, s.OwnsClient p → s.OwnsClient q → (s.clientAt p).nickname ≠ [] →
        caseFold (s.clientAt p).nickname = caseFold (s.clientAt q).nickname → p = q) ∧
      (∀ p, s.OwnsClient p → (s.clientAt p).nickname ≠ [] →
        s.getClientByNick (s.clientAt p).nickname = some p) ∧
      (∀ n p, (n, p) ∈ s.client.nicknameToClient.toList →
        s.OwnsClient p ∧ n = (s.clientAt p).nickname) ∧
      ∀ action n p, n ≠ [] → s.getClientByNick n = some p →
        ((s.act action).getClientByNick n = none ↔
          action = .removeClient (s.clientAt p).fd ∨
            caseFold ((s.act action).clientAt p).nickname ≠ caseFold n) ∧
        ∀ q, (s.act action).getClientByNick n = some q → q = p := by
  intro s
  have h : WellFormed s := .run password actions
  have hiff : ∀ n p, n ≠ [] → (s.getClientByNick n = some p ↔
      s.OwnsClient p ∧ caseFold (s.clientAt p).nickname = caseFold n) := by
    intro n p hn
    rw [h.getClientByNick_iff hn, h.ownsClient_iff]
  refine ⟨hiff, fun p q hp hq hne hf => ?_, fun p hp hne => ?_, fun n p hnp => ?_,
    fun action n p hn hp => h.act_nick_free action hn hp⟩
  · have hp' := (hiff _ p hne).2 ⟨hp, rfl⟩
    have hq' := (hiff _ q hne).2 ⟨hq, hf.symm⟩
    exact Option.some.inj (hp'.symm.trans hq')
  · exact (hiff _ p hne).2 ⟨hp, rfl⟩
  · obtain ⟨hkey, hget⟩ := OrderedMap.mem_toList_iff.1 hnp
    obtain ⟨hlive, -, hkey'⟩ := h.nicks.owner n p hget
    rw [hkey] at hkey'
    exact ⟨h.ownsClient_iff.2 hlive, Option.some.inj hkey'⟩

end Ircserv
