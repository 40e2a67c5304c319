import Ircserv.Proofs.Channels
import Ircserv.Proofs.Notice

/-!
# Who a broadcast reaches

A broadcast on a channel goes to the descriptors of its members, but for the one it leaves out
(`broadcast_members`). Two members never have the same descriptor, so nobody gets it twice.
-/

open Std

namespace Ircserv

open CommandResult DisconnectNotifier

namespace ServerState

variable {s : ServerState} {p q a : Addr} {fd g : Fd} {n : Str}

/-- The descriptors of the members of the channel at `a`. -/
def memberFds (s : ServerState) (a : Addr) : List Fd :=
  (s.channelAt a).getMembers.map fun q => (s.clientAt q).fd

theorem mem_memberFds_iff :
    g ∈ s.memberFds a ↔ ∃ q ∈ (s.channelAt a).members, (s.clientAt q).fd = g := by
  simp only [memberFds, Channel.getMembers, List.mem_map, ExtTreeMap.mem_keys]

theorem mem_memberFds_of_room (ha : s.channels[n]? = some a) :
    g ∈ s.memberFds a ↔ ∃ q, s.InRoom q n ∧ (s.clientAt q).fd = g := by
  rw [mem_memberFds_iff]
  simp only [inRoom_iff ha]

/-- Clients alive that have the same descriptor are the same. -/
theorem eq_of_fd_eq (h : Links s) (hp : p ∈ s.client.objects) (hq : q ∈ s.client.objects)
    (hfd : (s.clientAt p).fd = (s.clientAt q).fd) : p = q := by
  have hown := h.clientOwned p hp
  rw [hfd, h.clientOwned q hq] at hown
  exact (Option.some.inj hown).symm

theorem memberFds_nodup (h : Links s) (a : Addr) : (s.memberFds a).Nodup := by
  refine List.Nodup.map_on (fun q hq r hr hfd => ?_) (ExtTreeMap.distinct_keys.imp (by simp))
  rw [Channel.getMembers, ExtTreeMap.mem_keys] at hq hr
  exact eq_of_fd_eq h (h.memberLive hq) (h.memberLive hr) hfd

/-- The client of a descriptor is known by it. -/
theorem fd_eq_iff (h : Links s) (hp : s.client.fdToClient[fd]? = some p)
    (hq : q ∈ s.client.objects) : (s.clientAt q).fd = fd ↔ q = p := by
  obtain ⟨hlive, hfd⟩ := h.fdOwner fd p hp
  constructor
  · intro hqfd
    exact eq_of_fd_eq h hq hlive (hqfd.trans hfd.symm)
  · rintro rfl
    exact hfd

end ServerState

theorem broadcast_members (s : ServerState) (a : Addr) (line : Str) (exceptFd : Fd) :
    addRepliesToMembers {} s (s.channelAt a).getMembers line exceptFd =
      broadcast line ((s.memberFds a).filter (· ≠ exceptFd)) := by
  rw [addRepliesToMembers_eq]
  rfl

/-- A broadcast that leaves out a descriptor no client has goes to all members. -/
theorem broadcast_all {s : ServerState} (h : ∀ q, 0 ≤ (s.clientAt q).fd) (a : Addr) (line : Str) :
    addRepliesToMembers {} s (s.channelAt a).getMembers line (-1) =
      broadcast line (s.memberFds a) := by
  rw [broadcast_members, List.filter_eq_self.2]
  intro g hg
  obtain ⟨q, -, rfl⟩ := ServerState.mem_memberFds_iff.1 hg
  refine decide_eq_true fun hbad => ?_
  have hq : 0 ≤ (s.clientAt q).fd := h q
  rw [hbad] at hq
  exact absurd hq (by decide)

theorem reply_eq_broadcast (fd : Fd) (line : Str) : reply fd line = broadcast line [fd] := rfl

/-- Every name that leads to a channel is a valid one. -/
theorem SoundRooms.valid {s : ServerState} (hs : SoundRooms s) (hw : WellFormed s) {n : Str}
    {a : Addr} (ha : s.channels[n]? = some a) : isValidChannelName n = true := by
  rw [← isValidChannelName_congr (hw.links.nameOwner n a ha).2]
  exact (hs n _ (ServerState.room_eq ha)).named

end Ircserv
