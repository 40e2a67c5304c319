import Ircserv.Proofs.Links

/-!
# Arrivals and removals of clients

The operations on channels leave the registry alone except for the channels of the clients
(`SameClients`). `removeClient` first takes the client out of every channel it is in and out of
every invite list, so nothing refers to it when the registry deletes it.
-/

open Std

namespace Ircserv

/-- The registries agree except for the channels of the clients. -/
structure SameClients (s s' : ServerState) : Prop where
  fds : s'.client.fdToClient = s.client.fdToClient
  nicks : s'.client.nicknameToClient = s.client.nicknameToClient
  live : ∀ q, q ∈ s'.client.objects ↔ q ∈ s.client.objects
  data : ∀ q, ∃ channels, s'.clientAt q = { s.clientAt q with channels := channels }

namespace SameClients

variable {s s' s'' : ServerState}

theorem refl (s : ServerState) : SameClients s s := ⟨rfl, rfl, fun _ => Iff.rfl, fun _ => ⟨_, rfl⟩⟩

theorem trans (h : SameClients s s') (h' : SameClients s' s'') : SameClients s s'' where
  fds := h'.fds.trans h.fds
  nicks := h'.nicks.trans h.nicks
  live q := (h'.live q).trans (h.live q)
  data q := by
    obtain ⟨cs, hcs⟩ := h.data q
    obtain ⟨cs', hcs'⟩ := h'.data q
    exact ⟨cs', by rw [hcs', hcs]⟩

theorem of_client_eq (h : s'.client = s.client) : SameClients s s' := by
  refine ⟨by rw [h], by rw [h], by simp [h], fun q => ⟨(s.clientAt q).channels, ?_⟩⟩
  simp [ServerState.clientAt, h]

theorem modifyChannel (s : ServerState) (a : Addr) (f : Channel → Channel) :
    SameClients s (s.modifyChannel a f) := of_client_eq rfl

theorem modifyClient (s : ServerState) (p : Addr) {f : Client → Client}
    (hf : ∀ c, ∃ channels, f c = { c with channels := channels }) :
    SameClients s (s.modifyClient p f) := by
  refine ⟨rfl, rfl, by simp, fun q => ?_⟩
  rw [ServerState.clientAt_modifyClient]
  split_ifs
  · exact hf _
  · exact ⟨_, rfl⟩

theorem joinChannel (s : ServerState) (p a : Addr) :
    SameClients s (s.modifyClient p (·.joinChannel a)) := modifyClient s p fun _ => ⟨_, rfl⟩

theorem leaveChannel (s : ServerState) (p a : Addr) :
    SameClients s (s.modifyClient p (·.leaveChannel a)) := modifyClient s p fun _ => ⟨_, rfl⟩

theorem removeChannelIfEmpty (s : ServerState) (name : Str) :
    SameClients s (s.removeChannelIfEmpty name) :=
  of_client_eq (ServerState.removeChannelIfEmpty_client name)

theorem addClientToChannel (s : ServerState) (addr p : Addr) (name : Str) :
    SameClients s (s.addClientToChannel addr p name).2 := by
  rcases s.addClientToChannel_cases addr p name with ⟨a, -, -, hs⟩ | ⟨a, s₁, s₂, hc, -, rfl, hs⟩
  · rw [hs]
    exact refl s
  · rw [hs]
    have h := ((of_client_eq (ServerState.getOrCreateChannel_client hc)).trans
      (modifyChannel s₁ a (·.addMember p))).trans (joinChannel _ p a)
    dsimp only
    split_ifs
    · exact h.trans (modifyChannel _ a _)
    · exact h

theorem removeClientFromChannel (s : ServerState) (p : Addr) (name : Str) :
    SameClients s (s.removeClientFromChannel p name) := by
  unfold ServerState.removeClientFromChannel
  split
  · exact refl s
  · split_ifs
    · exact refl s
    · exact ((modifyChannel s _ _).trans (leaveChannel _ p _)).trans (removeChannelIfEmpty _ name)

theorem removeFromChannel (s : ServerState) (p a : Addr) :
    SameClients s (s.removeFromChannel p a) :=
  ((modifyChannel s a _).trans (leaveChannel _ p a)).trans (removeChannelIfEmpty _ _)

end SameClients

namespace ServerState

variable {p : Addr}

theorem removeFromChannel_eq (s : ServerState) (p a : Addr) :
    s.removeFromChannel p a = ((s.modifyChannel a (·.removeClientState p)).modifyClient p
      (·.leaveChannel a)).removeChannelIfEmpty (s.channelAt a).name := rfl

theorem mem_channels_removeFromChannel (s : ServerState) (p a b : Addr) :
    b ∈ ((s.removeFromChannel p a).clientAt p).channels ↔ a ≠ b ∧ b ∈ (s.clientAt p).channels := by
  have hc : ((s.removeFromChannel p a).clientAt p).channels =
      (((s.modifyChannel a (·.removeClientState p)).modifyClient p
        (·.leaveChannel a)).clientAt p).channels := by
    rw [removeFromChannel_eq]
    simp only [clientAt, removeChannelIfEmpty_client]
  rw [hc, clientAt_modifyClient]
  split_ifs with hp
  · simp
  · have hp' : b ∉ (s.clientAt p).channels := fun hb => hp ⟨rfl, mem_of_mem_channels hb⟩
    exact iff_of_false hp' fun h => hp' h.2

/-- The loop of `removeClient` over the client's channels. -/
theorem foldl_removeFromChannel : ∀ (rest : List Addr) (s : ServerState), Links s → Populated s →
    rest.Nodup → (∀ b, b ∈ (s.clientAt p).channels ↔ b ∈ rest) →
      Links (rest.foldl (removeFromChannel p) s) ∧ Populated (rest.foldl (removeFromChannel p) s)
        ∧ SameClients s (rest.foldl (removeFromChannel p) s)
        ∧ ∀ b, b ∉ ((rest.foldl (removeFromChannel p) s).clientAt p).channels
  | [], s, h, hpop, _, hmem => ⟨h, hpop, .refl s, by simpa using hmem⟩
  | a :: rest, s, h, hpop, hnd, hmem => by
    obtain ⟨ha, hnd⟩ := List.nodup_cons.1 hnd
    have hobj : a ∈ s.objects :=
      mem_of_mem_members ((h.linked p a).2 ((hmem a).2 List.mem_cons_self))
    obtain ⟨h₁, hpop₁⟩ := h.leave (p := p) hpop (h.channelOwned a hobj).1
    obtain ⟨h₂, hpop₂, hsame, hnone⟩ := foldl_removeFromChannel rest (s.removeFromChannel p a)
      h₁ hpop₁ hnd (fun b => by
        rw [mem_channels_removeFromChannel, hmem, List.mem_cons]
        constructor
        · rintro ⟨hab, rfl | hb⟩
          · exact absurd rfl hab
          · exact hb
        · exact fun hb => ⟨by rintro rfl; exact ha hb, .inr hb⟩)
    exact ⟨h₂, hpop₂, (SameClients.removeFromChannel s p a).trans hsame, hnone⟩

theorem removeClientFromAllInvites_client (s : ServerState) (p : Addr) :
    (s.removeClientFromAllInvites p).client = s.client := by
  unfold removeClientFromAllInvites
  exact List.foldlRecOn (motive := fun s' : ServerState => s'.client = s.client) _ _ rfl
    fun _ h _ _ => h

theorem removeClientFromAllInvites_links {s : ServerState} (h : Links s) (hpop : Populated s)
    (p : Addr) : Links (s.removeClientFromAllInvites p)
      ∧ Populated (s.removeClientFromAllInvites p) := by
  unfold removeClientFromAllInvites
  refine List.foldlRecOn (motive := fun s : ServerState => Links s ∧ Populated s) _ _ ⟨h, hpop⟩
    fun s ⟨h, hpop⟩ e _ => ⟨h.modifyChannel (fun _ => rfl) (fun _ _ => Iff.rfl) ?_, fun b hb => ?_⟩
  · exact fun _ q hq => .inl ((Channel.mem_invited_removeInvite _ _ _).1 hq).2
  · obtain ⟨q, hq⟩ := hpop b (by simpa using hb)
    refine ⟨q, ?_⟩
    rw [channelAt_modifyChannel]
    split_ifs <;> exact hq

/-- A channel that still invites `p` was not among the entries. -/
theorem invited_foldl_removeInvite : ∀ (entries : List (Str × Addr)) (s : ServerState) {a : Addr},
    p ∈ ((entries.foldl (fun s entry => s.modifyChannel entry.2 (·.removeInvite p)) s
      ).channelAt a).invitedClients →
    p ∈ (s.channelAt a).invitedClients ∧ a ∉ entries.map (·.2)
  | [], _, _, h => ⟨h, by simp⟩
  | e :: entries, s, a, h => by
    obtain ⟨h1, h2⟩ := invited_foldl_removeInvite entries _ h
    rw [channelAt_modifyChannel] at h1
    split_ifs at h1 with hea
    · simp at h1
    · refine ⟨h1, ?_⟩
      rw [List.map_cons, List.mem_cons, not_or]
      refine ⟨?_, h2⟩
      rintro rfl
      exact hea ⟨rfl, mem_of_mem_invited h1⟩

theorem not_invited_removeClientFromAllInvites {s : ServerState} (h : Links s) (p a : Addr) :
    p ∉ ((s.removeClientFromAllInvites p).channelAt a).invitedClients := by
  intro hp
  obtain ⟨hp, ha⟩ := invited_foldl_removeInvite _ _ hp
  obtain ⟨h1, h2⟩ := h.channelOwned a (mem_of_mem_invited hp)
  exact ha (List.mem_map.2 ⟨(_, a), OrderedMap.mem_toList_iff.2 ⟨h2, h1⟩, rfl⟩)

/-- The state `removeClient` has come to when it hands the client to the registry. -/
def detached (s : ServerState) (p : Addr) : ServerState :=
  ((s.clientAt p).getChannels.foldl (removeFromChannel p) s).removeClientFromAllInvites p

theorem detached_spec {s : ServerState} (h : Links s) (hpop : Populated s) (p : Addr) :
    Links (s.detached p) ∧ Populated (s.detached p) ∧ SameClients s (s.detached p)
      ∧ (∀ b, b ∉ ((s.detached p).clientAt p).channels)
      ∧ ∀ b, p ∉ ((s.detached p).channelAt b).invitedClients := by
  obtain ⟨h₁, hpop₁, hsame, hnone⟩ := foldl_removeFromChannel (p := p) (s.clientAt p).getChannels s
    h hpop (ExtTreeSet.distinct_toList.imp (by simp)) (by simp [Client.getChannels])
  have hc := removeClientFromAllInvites_client
    ((s.clientAt p).getChannels.foldl (removeFromChannel p) s) p
  obtain ⟨h₂, hpop₂⟩ := removeClientFromAllInvites_links h₁ hpop₁ p
  refine ⟨h₂, hpop₂, hsame.trans (.of_client_eq hc), fun b => ?_,
    not_invited_removeClientFromAllInvites h₁ p⟩
  have : (s.detached p).clientAt p =
      ((s.clientAt p).getChannels.foldl (removeFromChannel p) s).clientAt p :=
    congrArg (fun r => ClientRegistry.deref r p) hc
  rw [this]
  exact hnone b

theorem removeClient_eq {s : ServerState} {fd : Fd} (hp : s.client.fdToClient[fd]? = some p) :
    s.removeClient fd =
      { s.detached p with client := (s.detached p).client.removeClient fd } := by
  unfold removeClient getClientByFd ClientRegistry.getClientByFd
  rw [hp]
  rfl

theorem removeClient_unknown {s : ServerState} {fd : Fd} (hp : s.client.fdToClient[fd]? = none) :
    s.removeClient fd = s := by
  unfold removeClient getClientByFd ClientRegistry.getClientByFd
  rw [hp]

variable {s : ServerState} {p : Addr}

/-- The registry without a client. -/
theorem client_removeClient {fd : Fd} (hp : s.client.fdToClient[fd]? = some p) :
    s.client.removeClient fd =
      { nicknameToClient := s.client.nicknameToClient.erase (s.clientAt p).nickname
        fdToClient := s.client.fdToClient.erase fd
        objects := s.client.objects.erase p } := by
  simp only [ClientRegistry.removeClient, ClientRegistry.getClientByFd, hp]
  rfl

theorem clientAt_erase {fd : Fd} (hp : s.client.fdToClient[fd]? = some p) (q : Addr) :
    clientAt { s with client := s.client.removeClient fd } q =
      if p = q then default else s.clientAt q := by
  simp [client_removeClient hp, clientAt, ClientRegistry.deref]

theorem mem_erase {fd : Fd} (hp : s.client.fdToClient[fd]? = some p) (q : Addr) :
    q ∈ (s.client.removeClient fd).objects ↔ p ≠ q ∧ q ∈ s.client.objects := by
  simp [client_removeClient hp]

end ServerState

namespace Links

variable {s : ServerState} {p : Addr}

/-- The registry deletes a client that nothing refers to. -/
theorem erase (h : Links s) {fd : Fd} (hp : s.client.fdToClient[fd]? = some p)
    (hjoined : ∀ b, b ∉ (s.clientAt p).channels)
    (hinvited : ∀ b, p ∉ (s.channelAt b).invitedClients) :
    Links { s with client := s.client.removeClient fd } := by
  set s' : ServerState := { s with client := s.client.removeClient fd } with hs'
  have hreg := ServerState.client_removeClient hp
  have hat : ∀ q, s'.clientAt q = _ := ServerState.clientAt_erase hp
  have hobj : ∀ q, q ∈ s'.client.objects ↔ _ := ServerState.mem_erase hp
  have hkey : ∀ g, s'.client.fdToClient[g]? = if fd = g then none
      else s.client.fdToClient[g]? := by
    intro g
    simp [hs', hreg, ExtTreeMap.getElem?_erase]
  refine ⟨fun g q hq => ?_, fun q hq => ?_, h.nameOwner, h.channelOwned, fun q b => ?_,
    fun b q hq => ?_⟩
  · rw [hkey] at hq
    split_ifs at hq with hg
    obtain ⟨h1, h2⟩ := h.fdOwner g q hq
    have hpq : p ≠ q := by
      rintro rfl
      exact hg ((h.fdOwner fd p hp).2.symm.trans h2)
    rw [hobj, hat, if_neg hpq]
    exact ⟨⟨hpq, h1⟩, h2⟩
  · obtain ⟨hpq, hq⟩ := (hobj q).1 hq
    have hown := h.clientOwned q hq
    rw [hat, if_neg hpq, hkey, if_neg]
    · exact hown
    · rintro rfl
      exact hpq (Option.some.inj (hp.symm.trans hown))
  · rw [hat]
    split_ifs with hpq
    · subst hpq
      exact iff_of_false (fun hm => hjoined b ((h.linked p b).1 hm)) ExtTreeSet.not_mem_empty
    · exact h.linked q b
  · rw [hobj]
    refine ⟨?_, h.invitedLive b q hq⟩
    rintro rfl
    exact hinvited b hq

theorem removeClient (h : Links s) (hpop : Populated s) (fd : Fd) :
    Links (s.removeClient fd) ∧ Populated (s.removeClient fd) := by
  rcases hp : s.client.fdToClient[fd]? with _ | p
  · rw [ServerState.removeClient_unknown hp]
    exact ⟨h, hpop⟩
  · obtain ⟨h₁, hpop₁, hsame, hjoined, hinvited⟩ := ServerState.detached_spec h hpop p
    rw [ServerState.removeClient_eq hp]
    exact ⟨h₁.erase (by rw [hsame.fds]; exact hp) hjoined hinvited, hpop₁⟩

/-- A new client, on a descriptor that was free. -/
theorem insert (h : Links s) {fd : Fd} {host : Str} (hp : p ∉ s.client.objects)
    (hfd : s.client.fdToClient[fd]? = none) :
    Links { s with client := { s.client with
      objects := s.client.objects.insert p { host := host, fd := fd }
      fdToClient := s.client.fdToClient.insertIfNew fd p } } := by
  set s' : ServerState := { s with client := { s.client with
    objects := s.client.objects.insert p { host := host, fd := fd }
    fdToClient := s.client.fdToClient.insertIfNew fd p } } with hs'
  have hfd' : fd ∉ s.client.fdToClient := by
    rw [ExtTreeMap.mem_iff_isSome_getElem?, hfd]
    simp
  have hat : ∀ q, s'.clientAt q = if p = q then { host := host, fd := fd } else s.clientAt q := by
    intro q
    simp [hs', ServerState.clientAt, ClientRegistry.deref]
  have hobj : ∀ q, q ∈ s'.client.objects ↔ p = q ∨ q ∈ s.client.objects := by simp [hs']
  have hkey : ∀ g, s'.client.fdToClient[g]? = if fd = g then some p
      else s.client.fdToClient[g]? := by
    intro g
    simp [hs', ExtTreeMap.getElem?_insertIfNew, hfd']
  refine ⟨fun g q hq => ?_, fun q hq => ?_, h.nameOwner, h.channelOwned, fun q b => ?_,
    fun b q hq => ?_⟩
  · rw [hkey] at hq
    split_ifs at hq with hg
    · cases hq
      exact ⟨(hobj p).2 (.inl rfl), by rw [hat, if_pos rfl, hg]⟩
    · obtain ⟨h1, h2⟩ := h.fdOwner g q hq
      exact ⟨(hobj q).2 (.inr h1), by rw [hat, if_neg (by rintro rfl; exact hp h1), h2]⟩
  · rcases (hobj q).1 hq with rfl | hq
    · rw [hat, if_pos rfl, hkey, if_pos rfl]
    · have hown := h.clientOwned q hq
      rw [hat, if_neg (by rintro rfl; exact hp hq), hkey, if_neg]
      · exact hown
      · rintro rfl
        rw [hfd] at hown
        cases hown
  · rw [hat]
    split_ifs with hpq
    · subst hpq
      refine iff_of_false (fun hm => hp (h.memberLive hm)) ExtTreeSet.not_mem_empty
    · exact h.linked q b
  · exact (hobj q).2 (.inr (h.invitedLive b q hq))

theorem addClient (h : Links s) (addr : Addr) (fd : Fd) (host : Str) :
    Links (s.addClient addr fd host) := by
  rcases hfd : s.client.fdToClient[fd]? with _ | p
  all_goals simp only [ServerState.addClient, ClientRegistry.addClient,
    ClientRegistry.getClientByFd, hfd]
  · exact h.insert (Heap.fresh_not_mem _ _) hfd
  · exact h

end Links

end Ircserv
