import Ircserv.Proofs.State

/-!
# The object graph of the state

`Links` says that the two owning maps own exactly the objects alive, and that members, invites and
joined channels refer to objects alive, members and joined channels in step. Each update of the
state keeps it; only `Populated`, that no channel is empty, is lost between the creation of a
channel and its first member, and between a member's leaving and `removeChannelIfEmpty`.
-/

open Std

namespace Ircserv

structure Links (s : ServerState) : Prop where
  fdOwner : ∀ fd p, s.client.fdToClient[fd]? = some p →
    p ∈ s.client.objects ∧ (s.clientAt p).fd = fd
  clientOwned : ∀ p ∈ s.client.objects, s.client.fdToClient[(s.clientAt p).fd]? = some p
  nameOwner : ∀ n a, s.channels[n]? = some a →
    a ∈ s.objects ∧ caseFold (s.channelAt a).name = caseFold n
  channelOwned : ∀ a ∈ s.objects, s.channels[(s.channelAt a).name]? = some a ∧
    s.channels.getKey? (s.channelAt a).name = some (s.channelAt a).name
  linked : ∀ p a, p ∈ (s.channelAt a).members ↔ a ∈ (s.clientAt p).channels
  invitedLive : ∀ a, ∀ p ∈ (s.channelAt a).invitedClients, p ∈ s.client.objects

/-- Every channel has a member. -/
def Populated (s : ServerState) : Prop := ∀ a ∈ s.objects, ∃ p, p ∈ (s.channelAt a).members

namespace Links

variable {s : ServerState} {p a : Addr}

theorem memberLive (h : Links s) (hm : p ∈ (s.channelAt a).members) : p ∈ s.client.objects :=
  ServerState.mem_of_mem_channels ((h.linked p a).1 hm)

theorem start (password : Str) : Links { password := password } where
  fdOwner := by simp
  clientOwned := by simp
  nameOwner := by simp
  channelOwned := by simp
  linked := by
    intro p a
    simp [ServerState.channelAt, ServerState.clientAt, ClientRegistry.deref, Heap.deref]
    exact iff_of_false ExtTreeMap.not_mem_empty ExtTreeSet.not_mem_empty
  invitedLive := by
    intro a p hp
    simp [ServerState.channelAt, Heap.deref] at hp
    exact absurd hp ExtTreeSet.not_mem_empty

/-- Two names of one channel are the same up to letter case. -/
theorem fold_eq (h : Links s) {n m : Str} (hn : s.channels[n]? = some a)
    (hm : s.channels[m]? = some a) : caseFold n = caseFold m :=
  (h.nameOwner n a hn).2.symm.trans (h.nameOwner m a hm).2

/-- An update of objects in place: the owning maps, the objects alive, the descriptors and the
names stay as they are. -/
theorem inPlace {s' : ServerState} (h : Links s)
    (hfds : s'.client.fdToClient = s.client.fdToClient) (hnames : s'.channels = s.channels)
    (hclients : ∀ q, q ∈ s'.client.objects ↔ q ∈ s.client.objects)
    (hchannels : ∀ b, b ∈ s'.objects ↔ b ∈ s.objects)
    (hfd : ∀ q, (s'.clientAt q).fd = (s.clientAt q).fd)
    (hname : ∀ b, (s'.channelAt b).name = (s.channelAt b).name)
    (hlinked : ∀ q b, q ∈ (s'.channelAt b).members ↔ b ∈ (s'.clientAt q).channels)
    (hinvited : ∀ b, ∀ q ∈ (s'.channelAt b).invitedClients, q ∈ s.client.objects) :
    Links s' where
  fdOwner := by
    intro fd q hq
    rw [hfds] at hq
    rw [hclients, hfd]
    exact h.fdOwner fd q hq
  clientOwned := by
    intro q hq
    rw [hfds, hfd]
    exact h.clientOwned q ((hclients q).1 hq)
  nameOwner := by
    intro n b hb
    rw [hnames] at hb
    rw [hchannels, hname]
    exact h.nameOwner n b hb
  channelOwned := by
    intro b hb
    rw [hnames, hname]
    exact h.channelOwned b ((hchannels b).1 hb)
  linked := hlinked
  invitedLive := by
    intro b q hq
    exact (hclients q).2 (hinvited b q hq)

/-- An update of a client's own data. -/
theorem modifyClient (h : Links s) {f : Client → Client} (hfd : ∀ c, (f c).fd = c.fd)
    (hch : ∀ c, (f c).channels = c.channels) : Links (s.modifyClient p f) := by
  refine h.inPlace rfl rfl (by simp) (by simp) (fun q => ?_) (by simp) (fun q b => ?_) (by
    simpa using h.invitedLive)
  · rw [ServerState.clientAt_modifyClient]
    split_ifs <;> simp [hfd]
  · rw [ServerState.channelAt_modifyClient, h.linked, ServerState.clientAt_modifyClient]
    split_ifs <;> simp [hch]

/-- An update of a channel's own data, which may invite clients that are alive. -/
theorem modifyChannel (h : Links s) {f : Channel → Channel} (hname : ∀ ch, (f ch).name = ch.name)
    (hmem : ∀ ch q, q ∈ (f ch).members ↔ q ∈ ch.members)
    (hinv : ∀ ch, ∀ q ∈ (f ch).invitedClients, q ∈ ch.invitedClients ∨ q ∈ s.client.objects) :
    Links (s.modifyChannel a f) := by
  refine h.inPlace rfl rfl (by simp) (by simp) (by simp) (fun b => ?_) (fun q b => ?_)
    (fun b q hq => ?_)
  · rw [ServerState.channelAt_modifyChannel]
    split_ifs <;> simp [hname]
  · rw [ServerState.clientAt_modifyChannel, ← h.linked, ServerState.channelAt_modifyChannel]
    split_ifs <;> simp [hmem]
  · rw [ServerState.channelAt_modifyChannel] at hq
    split_ifs at hq
    · exact (hinv _ q hq).elim (h.invitedLive b q) id
    · exact h.invitedLive b q hq

/-- An update of a channel and of a client. -/
theorem modifyBoth (h : Links s) {f : Channel → Channel} {g : Client → Client}
    (hname : ∀ ch, (f ch).name = ch.name) (hfd : ∀ c, (g c).fd = c.fd)
    (hlinked : ∀ q b, q ∈ ((s.modifyChannel a f).channelAt b).members ↔
      b ∈ (((s.modifyChannel a f).modifyClient p g).clientAt q).channels)
    (hinvited : ∀ b, ∀ q ∈ ((s.modifyChannel a f).channelAt b).invitedClients,
      q ∈ s.client.objects) : Links ((s.modifyChannel a f).modifyClient p g) := by
  refine h.inPlace rfl rfl (by simp) (by simp) (fun q => ?_) (fun b => ?_) hlinked hinvited
  · rw [ServerState.clientAt_modifyClient]
    split_ifs
    · exact hfd _
    · rfl
  · rw [ServerState.channelAt_modifyClient, ServerState.channelAt_modifyChannel]
    split_ifs
    · exact hname _
    · rfl

/-- The two halves of a `JOIN`. -/
theorem link (h : Links s) (hp : p ∈ s.client.objects) (ha : a ∈ s.objects) :
    Links ((s.modifyChannel a (·.addMember p)).modifyClient p (·.joinChannel a)) := by
  refine h.modifyBoth (fun _ => rfl) (fun _ => rfl) (fun q b => ?_) (fun b q hq => ?_)
  · have := h.linked q b
    simp only [ServerState.channelAt_modifyChannel, ServerState.clientAt_modifyClient]
    by_cases hpq : p = q <;> by_cases hab : a = b <;> simp_all
  · have := h.invitedLive b q
    simp only [ServerState.channelAt_modifyChannel] at hq
    split_ifs at hq <;> simp_all

/-- The two halves of a `PART`. -/
theorem unlink (h : Links s) (p a : Addr) :
    Links ((s.modifyChannel a (·.removeClientState p)).modifyClient p (·.leaveChannel a)) := by
  refine h.modifyBoth (fun _ => rfl) (fun _ => rfl) (fun q b => ?_) (fun b q hq => ?_)
  · have hlink := h.linked q b
    have hb : q ∈ (s.channelAt b).members → b ∈ s.objects := ServerState.mem_of_mem_members
    have hq : b ∈ (s.clientAt q).channels → q ∈ s.client.objects :=
      ServerState.mem_of_mem_channels
    simp only [ServerState.channelAt_modifyChannel, ServerState.clientAt_modifyClient]
    by_cases hpq : p = q <;> by_cases hab : a = b <;> split_ifs <;> simp_all
  · have := h.invitedLive b q
    simp only [ServerState.channelAt_modifyChannel] at hq
    split_ifs at hq <;> simp_all

/-- A new channel without members, under a name that was free. -/
theorem create (h : Links s) {name : Str} (ha : a ∉ s.objects) (hn : name ∉ s.channels) :
    Links { s with
      objects := s.objects.insert a { name := name }
      channels := s.channels.insertIfNew name a } := by
  set s' : ServerState := { s with
    objects := s.objects.insert a { name := name }
    channels := s.channels.insertIfNew name a } with hs'
  have hat : ∀ b, s'.channelAt b = if a = b then { name := name } else s.channelAt b := by
    intro b
    simp [hs', ServerState.channelAt]
  have hobj : ∀ b, b ∈ s'.objects ↔ a = b ∨ b ∈ s.objects := by simp [hs']
  have hkey : ∀ n, s'.channels[n]? = if caseFold name = caseFold n then some a
      else s.channels[n]? := by
    intro n
    simp [hs', ExtTreeMap.getElem?_insertIfNew, hn]
  have hstored : ∀ n, s'.channels.getKey? n = if caseFold name = caseFold n then some name
      else s.channels.getKey? n := by
    intro n
    simp [hs', ExtTreeMap.getKey?_insertIfNew, hn]
  refine ⟨h.fdOwner, h.clientOwned, fun n b hb => ?_, fun b hb => ?_, fun q b => ?_,
    fun b q hq => ?_⟩
  · rw [hkey] at hb
    split_ifs at hb with hf
    · cases hb
      exact ⟨(hobj a).2 (.inl rfl), by rw [hat, if_pos rfl, hf]⟩
    · obtain ⟨h1, h2⟩ := h.nameOwner n b hb
      refine ⟨(hobj b).2 (.inr h1), ?_⟩
      rw [hat, if_neg (by rintro rfl; exact ha h1), h2]
  · rcases (hobj b).1 hb with rfl | hb
    · rw [hat, if_pos rfl, hkey, hstored]
      simp
    · have hab : a ≠ b := by rintro rfl; exact ha hb
      obtain ⟨h1, h2⟩ := h.channelOwned b hb
      have hne : caseFold name ≠ caseFold (s.channelAt b).name := by
        intro he
        apply hn
        rw [ExtTreeMap.mem_congr ((ircCmp_eq_iff _ _).2 he)]
        rw [ExtTreeMap.mem_iff_isSome_getElem?, h1]
        rfl
      rw [hat, if_neg hab, hkey, if_neg hne, hstored, if_neg hne]
      exact ⟨h1, h2⟩
  · rw [hat]
    split_ifs with hab
    · subst hab
      refine iff_of_false ExtTreeMap.not_mem_empty fun hq => ha ?_
      exact ServerState.mem_of_mem_members ((h.linked q a).2 hq)
    · exact h.linked q b
  · rw [hat] at hq
    split_ifs at hq
    · exact absurd hq ExtTreeSet.not_mem_empty
    · exact h.invitedLive b q hq

/-- The deletion of a channel without members. -/
theorem delete (h : Links s) {name : Str} (ha : s.channels[name]? = some a)
    (he : ∀ q, q ∉ (s.channelAt a).members) :
    Links { s with objects := s.objects.erase a, channels := s.channels.erase name } := by
  set s' : ServerState := { s with
    objects := s.objects.erase a
    channels := s.channels.erase name } with hs'
  have hat : ∀ b, s'.channelAt b = if a = b then default else s.channelAt b := by
    intro b
    simp [hs', ServerState.channelAt]
  have hobj : ∀ b, b ∈ s'.objects ↔ a ≠ b ∧ b ∈ s.objects := by simp [hs']
  have hkey : ∀ n, s'.channels[n]? = if caseFold name = caseFold n then none
      else s.channels[n]? := by
    intro n
    simp [hs', ExtTreeMap.getElem?_erase]
  refine ⟨h.fdOwner, h.clientOwned, fun n b hb => ?_, fun b hb => ?_, fun q b => ?_,
    fun b q hq => ?_⟩
  · rw [hkey] at hb
    split_ifs at hb with hf
    have hab : a ≠ b := by
      rintro rfl
      exact hf (h.fold_eq ha hb)
    rw [hobj, hat, if_neg hab]
    exact ⟨⟨hab, (h.nameOwner n b hb).1⟩, (h.nameOwner n b hb).2⟩
  · obtain ⟨hab, hb⟩ := (hobj b).1 hb
    obtain ⟨h1, h2⟩ := h.channelOwned b hb
    have hne : caseFold name ≠ caseFold (s.channelAt b).name := by
      intro hf
      rw [ExtTreeMap.getElem?_congr ((ircCmp_eq_iff _ _).2 hf), h1] at ha
      exact hab (Option.some.inj ha).symm
    rw [hat, if_neg hab, hkey, if_neg hne]
    exact ⟨h1, by simp [hs', ExtTreeMap.getKey?_erase, hne, h2]⟩
  · rw [hat]
    split_ifs with hab
    · subst hab
      exact iff_of_false ExtTreeMap.not_mem_empty fun hq => he q ((h.linked q a).2 hq)
    · exact h.linked q b
  · rw [hat] at hq
    split_ifs at hq
    · exact absurd hq ExtTreeSet.not_mem_empty
    · exact h.invitedLive b q hq

theorem removeChannelIfEmpty (h : Links s) (name : Str) : Links (s.removeChannelIfEmpty name) := by
  unfold ServerState.removeChannelIfEmpty
  split
  · exact h
  · rename_i a ha
    split_ifs with he
    · exact h.delete ha ((Channel.isEmpty_iff _).1 he)
    · exact h

theorem getOrCreateChannel (h : Links s) (addr : Addr) (name : Str) :
    Links (s.getOrCreateChannel addr name).2
      ∧ (s.getOrCreateChannel addr name).1 ∈ (s.getOrCreateChannel addr name).2.objects := by
  unfold ServerState.getOrCreateChannel ServerState.getChannel
  rcases hn : s.channels[name]? with _ | a
  · refine ⟨h.create (Heap.fresh_not_mem _ _) ?_, by simp⟩
    rw [ExtTreeMap.mem_iff_isSome_getElem?, hn]
    simp
  · exact ⟨h, (h.nameOwner name a hn).1⟩

end Links

namespace ServerState

variable {s : ServerState} {p a : Addr}

/-- A `JOIN`'s state: nothing for a member, and otherwise the two halves of the link, with the
operator flag for the first member. -/
theorem addClientToChannel_cases (s : ServerState) (addr p : Addr) (name : Str) :
    (∃ a, s.channels[name]? = some a ∧ p ∈ (s.channelAt a).members ∧
        s.addClientToChannel addr p name = (some a, s)) ∨
      ∃ a s₁ s₂, s.getOrCreateChannel addr name = (a, s₁) ∧ p ∉ (s₁.channelAt a).members ∧
        s₂ = (s₁.modifyChannel a (·.addMember p)).modifyClient p (·.joinChannel a) ∧
        s.addClientToChannel addr p name = (some a,
          if (s₂.channelAt a).memberCount = 1 then s₂.modifyChannel a (·.setOperator p true)
          else s₂) := by
  rcases hc : s.getOrCreateChannel addr name with ⟨a, s₁⟩
  by_cases hm : p ∈ (s₁.channelAt a).members
  · refine .inl ⟨a, ?_, ?_, ?_⟩
    all_goals
      unfold getOrCreateChannel getChannel at hc
      split at hc
      · simp_all [addClientToChannel, getOrCreateChannel, getChannel, Channel.hasMember_iff]
      · cases hc
        simp [channelAt] at hm
  · refine .inr ⟨a, s₁, _, rfl, hm, rfl, ?_⟩
    rw [← Channel.hasMember_iff, Bool.not_eq_true] at hm
    simp only [addClientToChannel, hc, hm]
    split_ifs <;> simp_all

/-- What creating a channel leaves alone. -/
theorem getOrCreateChannel_channelAt {addr a : Addr} {name : Str} {s₁ : ServerState}
    (hc : s.getOrCreateChannel addr name = (a, s₁)) {b : Addr} (hb : a ≠ b) :
    s₁.channelAt b = s.channelAt b ∧ (b ∈ s₁.objects ↔ b ∈ s.objects) := by
  unfold getOrCreateChannel at hc
  split at hc <;> cases hc
  · exact ⟨rfl, Iff.rfl⟩
  · simp [channelAt, hb]

theorem getOrCreateChannel_client {addr a : Addr} {name : Str} {s₁ : ServerState}
    (hc : s.getOrCreateChannel addr name = (a, s₁)) : s₁.client = s.client := by
  unfold getOrCreateChannel at hc
  split at hc <;> cases hc <;> rfl

theorem removeChannelIfEmpty_client (name : Str) : (s.removeChannelIfEmpty name).client = s.client := by
  unfold removeChannelIfEmpty
  split
  · rfl
  · split_ifs <;> rfl

end ServerState

/-- The channel a member left goes if it is empty; the others were populated already. -/
theorem Populated.removeChannelIfEmpty {s : ServerState} {a : Addr} {name : Str}
    (h : ∀ b ∈ s.objects, b ≠ a → ∃ p, p ∈ (s.channelAt b).members)
    (ha : s.channels[name]? = some a) : Populated (s.removeChannelIfEmpty name) := by
  intro b hb
  unfold ServerState.removeChannelIfEmpty at hb ⊢
  simp only [ha] at hb ⊢
  by_cases he : (s.channelAt a).isEmpty = true
  · rw [if_pos he] at hb ⊢
    have hab : a ≠ b ∧ b ∈ s.objects := by simpa using hb
    obtain ⟨p, hp⟩ := h b hab.2 hab.1.symm
    exact ⟨p, by simpa [ServerState.channelAt, hab.1] using hp⟩
  · rw [if_neg he] at hb ⊢
    by_cases hab : b = a
    · subst hab
      rw [Channel.isEmpty_iff] at he
      push Not at he
      exact he
    · exact h b hb hab

namespace Links

variable {s : ServerState} {p a : Addr}

theorem addClientToChannel (h : Links s) (hpop : Populated s) (hp : p ∈ s.client.objects)
    (addr : Addr) (name : Str) : Links (s.addClientToChannel addr p name).2
      ∧ Populated (s.addClientToChannel addr p name).2 := by
  rcases s.addClientToChannel_cases addr p name with ⟨a, -, -, hs⟩ | ⟨a, s₁, s₂, hc, -, rfl, hs⟩
  · rw [hs]
    exact ⟨h, hpop⟩
  · have hcr := h.getOrCreateChannel addr name
    rw [hc] at hcr
    have hp₁ : p ∈ s₁.client.objects := by rwa [ServerState.getOrCreateChannel_client hc]
    have hlink := hcr.1.link hp₁ hcr.2
    rw [hs]
    set s₂ := (s₁.modifyChannel a (·.addMember p)).modifyClient p (·.joinChannel a) with hs₂
    have hpop₂ : Populated s₂ := by
      intro b hb
      have hb₁ : b ∈ s₁.objects := by simpa [hs₂] using hb
      by_cases hab : a = b
      · exact ⟨p, by simp [hs₂, hab, hb₁]⟩
      · obtain ⟨he, hi⟩ := ServerState.getOrCreateChannel_channelAt hc hab
        obtain ⟨q, hq⟩ := hpop b (hi.1 hb₁)
        exact ⟨q, by simpa [hs₂, hab, he] using hq⟩
    dsimp only
    split_ifs
    · refine ⟨hlink.modifyChannel (fun _ => rfl) (by simp) (fun _ q hq => .inl hq), fun b hb => ?_⟩
      obtain ⟨q, hq⟩ := hpop₂ b (by simpa using hb)
      refine ⟨q, ?_⟩
      rw [ServerState.channelAt_modifyChannel]
      split_ifs <;> simp [hq]
    · exact ⟨hlink, hpop₂⟩

/-- A member's leaving, with the removal of the channel if it was the last one. -/
theorem leave (h : Links s) (hpop : Populated s) {name : Str} (ha : s.channels[name]? = some a) :
    Links (((s.modifyChannel a (·.removeClientState p)).modifyClient p
        (·.leaveChannel a)).removeChannelIfEmpty name)
      ∧ Populated (((s.modifyChannel a (·.removeClientState p)).modifyClient p
        (·.leaveChannel a)).removeChannelIfEmpty name) := by
  refine ⟨(h.unlink p a).removeChannelIfEmpty name, Populated.removeChannelIfEmpty ?_ ha⟩
  intro b hb hab
  obtain ⟨q, hq⟩ := hpop b (by simpa using hb)
  exact ⟨q, by simpa [hab.symm] using hq⟩

theorem removeClientFromChannel (h : Links s) (hpop : Populated s) (name : Str) :
    Links (s.removeClientFromChannel p name) ∧ Populated (s.removeClientFromChannel p name) := by
  unfold ServerState.removeClientFromChannel ServerState.getChannel
  split
  · exact ⟨h, hpop⟩
  · rename_i a ha
    split_ifs
    · exact ⟨h, hpop⟩
    · exact h.leave hpop ha

end Links

end Ircserv
