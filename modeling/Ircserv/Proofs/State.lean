import Ircserv.State

/-!
# What the primitive updates of the state read back
-/

open Std

namespace Ircserv

namespace Channel

@[simp] theorem mem_addMember (ch : Channel) (p q : Addr) :
    q ∈ (ch.addMember p).members ↔ p = q ∨ q ∈ ch.members := by
  simp [addMember, removeInvite]

@[simp] theorem mem_removeClientState (ch : Channel) (p q : Addr) :
    q ∈ (ch.removeClientState p).members ↔ p ≠ q ∧ q ∈ ch.members := by
  simp [removeClientState, removeMember, removeInvite]

@[simp] theorem mem_setOperator (ch : Channel) (p q : Addr) (b : Bool) :
    q ∈ (ch.setOperator p b).members ↔ q ∈ ch.members := by
  simp [setOperator]

@[simp] theorem mem_invited_addMember (ch : Channel) (p q : Addr) :
    q ∈ (ch.addMember p).invitedClients ↔ p ≠ q ∧ q ∈ ch.invitedClients := by
  simp [addMember, removeInvite]

@[simp] theorem mem_invited_removeClientState (ch : Channel) (p q : Addr) :
    q ∈ (ch.removeClientState p).invitedClients ↔ p ≠ q ∧ q ∈ ch.invitedClients := by
  simp [removeClientState, removeMember, removeInvite]

@[simp] theorem mem_invited_addInvite (ch : Channel) (p q : Addr) :
    q ∈ (ch.addInvite p).invitedClients ↔ p = q ∨ q ∈ ch.invitedClients := by
  simp [addInvite]

@[simp] theorem mem_invited_removeInvite (ch : Channel) (p q : Addr) :
    q ∈ (ch.removeInvite p).invitedClients ↔ p ≠ q ∧ q ∈ ch.invitedClients := by
  simp [removeInvite]

theorem hasMember_iff (ch : Channel) (p : Addr) : ch.hasMember p = true ↔ p ∈ ch.members :=
  ExtTreeMap.contains_iff_mem

theorem isEmpty_iff (ch : Channel) : ch.isEmpty = true ↔ ∀ p, p ∉ ch.members := by
  rw [isEmpty, ExtTreeMap.isEmpty_iff, ExtTreeMap.eq_empty_iff_forall_not_mem]

end Channel

namespace Client

@[simp] theorem mem_joinChannel (c : Client) (a b : Addr) :
    b ∈ (c.joinChannel a).channels ↔ a = b ∨ b ∈ c.channels := by
  simp [joinChannel]

@[simp] theorem mem_leaveChannel (c : Client) (a b : Addr) :
    b ∈ (c.leaveChannel a).channels ↔ a ≠ b ∧ b ∈ c.channels := by
  simp [leaveChannel]

end Client

namespace ServerState

variable (s : ServerState) (p q a b : Addr)

@[simp] theorem clientAt_modifyClient (f : Client → Client) :
    (s.modifyClient p f).clientAt q =
      if p = q ∧ q ∈ s.client.objects then f (s.clientAt q) else s.clientAt q := by
  simp [modifyClient, ClientRegistry.modify, clientAt, ClientRegistry.deref]

@[simp] theorem channelAt_modifyChannel (f : Channel → Channel) :
    (s.modifyChannel a f).channelAt b =
      if a = b ∧ b ∈ s.objects then f (s.channelAt b) else s.channelAt b := by
  simp [modifyChannel, channelAt]

@[simp] theorem channelAt_modifyClient (f : Client → Client) :
    (s.modifyClient p f).channelAt a = s.channelAt a := rfl

theorem modifyChannel_congr {f g : Channel → Channel} (h : f (s.channelAt a) = g (s.channelAt a)) :
    s.modifyChannel a f = s.modifyChannel a g := by
  rw [modifyChannel, Heap.modify_congr h, modifyChannel]

@[simp] theorem clientAt_modifyChannel (f : Channel → Channel) :
    (s.modifyChannel a f).clientAt p = s.clientAt p := rfl

@[simp] theorem mem_modifyClient (f : Client → Client) :
    q ∈ (s.modifyClient p f).client.objects ↔ q ∈ s.client.objects := by
  simp [modifyClient, ClientRegistry.modify]

@[simp] theorem mem_modifyChannel (f : Channel → Channel) :
    b ∈ (s.modifyChannel a f).objects ↔ b ∈ s.objects := by
  simp [modifyChannel]

@[simp] theorem fdToClient_modifyClient (f : Client → Client) :
    (s.modifyClient p f).client.fdToClient = s.client.fdToClient := rfl

@[simp] theorem nicknameToClient_modifyClient (f : Client → Client) :
    (s.modifyClient p f).client.nicknameToClient = s.client.nicknameToClient := rfl

@[simp] theorem channels_modifyClient (f : Client → Client) :
    (s.modifyClient p f).channels = s.channels := rfl

@[simp] theorem objects_modifyClient (f : Client → Client) :
    (s.modifyClient p f).objects = s.objects := rfl

@[simp] theorem client_modifyChannel (f : Channel → Channel) :
    (s.modifyChannel a f).client = s.client := rfl

@[simp] theorem channels_modifyChannel (f : Channel → Channel) :
    (s.modifyChannel a f).channels = s.channels := rfl

variable {s p a}

theorem clientAt_of_not_mem (h : p ∉ s.client.objects) : s.clientAt p = default := by
  simp [clientAt, ClientRegistry.deref, Heap.deref, ExtTreeMap.getD_eq_fallback h]

theorem channelAt_of_not_mem (h : a ∉ s.objects) : s.channelAt a = default := by
  simp [channelAt, Heap.deref, ExtTreeMap.getD_eq_fallback h]

/-- A dangling channel has no members. -/
theorem mem_of_mem_members (h : p ∈ (s.channelAt a).members) : a ∈ s.objects := by
  by_contra ha
  rw [channelAt_of_not_mem ha] at h
  exact ExtTreeMap.not_mem_empty h

/-- A dangling channel has no invites. -/
theorem mem_of_mem_invited (h : p ∈ (s.channelAt a).invitedClients) : a ∈ s.objects := by
  by_contra ha
  rw [channelAt_of_not_mem ha] at h
  exact ExtTreeSet.not_mem_empty h

/-- A dangling client is in no channel. -/
theorem mem_of_mem_channels (h : a ∈ (s.clientAt p).channels) : p ∈ s.client.objects := by
  by_contra hp
  rw [clientAt_of_not_mem hp] at h
  exact ExtTreeSet.not_mem_empty h

end ServerState

end Ircserv
