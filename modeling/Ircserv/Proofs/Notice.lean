import Mathlib.Data.List.Nodup
import Ircserv.Proofs.Replies

/-!
# The notice of a disconnection

`build` goes over the members of every channel the client is in. The set of descriptors already
notified makes the notice go once to each other client that shares a channel with it.
-/

open Std

namespace Ircserv

namespace DisconnectNotifier

variable {s : ServerState} {fd : Fd} {message : Str}

/-- The same message to each of the descriptors. -/
def broadcast (message : Str) (fds : List Fd) : CommandResult :=
  { replies := fds.map (⟨·, message⟩) }

/-- One reply for each descriptor notified, in the order they were. -/
structure Notices (message : Str) (acc : Notified) : Prop where
  result : acc.1 = broadcast message acc.2.reverse
  nodup : acc.2.Nodup

theorem Notices.notifyMember {acc : Notified} (h : Notices message acc) (fd : Fd) (q : Addr) :
    Notices message (notifyMember s fd message acc q) ∧
      ∀ g, g ∈ (DisconnectNotifier.notifyMember s fd message acc q).2 ↔
        g ∈ acc.2 ∨ g ≠ fd ∧ (s.clientAt q).fd = g := by
  unfold DisconnectNotifier.notifyMember
  dsimp only
  split_ifs with hq hm
  · refine ⟨h, fun g => ⟨.inl, ?_⟩⟩
    rintro (hg | ⟨hg, rfl⟩)
    · exact hg
    · exact absurd hq hg
  · refine ⟨h, fun g => ⟨.inl, ?_⟩⟩
    rintro (hg | ⟨-, rfl⟩)
    · exact hg
    · exact hm
  · refine ⟨⟨by simp [h.result, broadcast, CommandResult.addReply], List.nodup_cons.2 ⟨hm, h.nodup⟩⟩,
      fun g => ?_⟩
    rw [List.mem_cons]
    constructor
    · rintro (rfl | hg)
      · exact .inr ⟨hq, rfl⟩
      · exact .inl hg
    · rintro (hg | ⟨-, rfl⟩)
      · exact .inr hg
      · exact .inl rfl

theorem Notices.foldl (fd : Fd) : ∀ (members : List Addr) {acc : Notified}, Notices message acc →
    Notices message (members.foldl (DisconnectNotifier.notifyMember s fd message) acc) ∧
      ∀ g, g ∈ (members.foldl (DisconnectNotifier.notifyMember s fd message) acc).2 ↔
        g ∈ acc.2 ∨ g ≠ fd ∧ ∃ q ∈ members, (s.clientAt q).fd = g
  | [], acc, h => ⟨h, by simp⟩
  | q :: members, acc, h => by
    obtain ⟨h₁, hmem₁⟩ := h.notifyMember (s := s) fd q
    obtain ⟨h₂, hmem₂⟩ := Notices.foldl fd members h₁
    refine ⟨h₂, fun g => ?_⟩
    rw [List.foldl_cons, hmem₂, hmem₁]
    simp only [List.mem_cons, exists_eq_or_imp]
    tauto

/-- Who shares a channel with the client at `p`. -/
def Shares (s : ServerState) (p q : Addr) : Prop :=
  q ≠ p ∧ ∃ a, p ∈ (s.channelAt a).members ∧ q ∈ (s.channelAt a).members

/-- The notice goes exactly once to each other client that shares a channel, and to nobody else. -/
theorem build_spec (h : Links s) {p : Addr} (hp : s.client.fdToClient[fd]? = some p)
    (reason : Str) :
    ∃ fds, build fd reason s =
        broadcast (ReplyBuilder.quit (s.clientAt p).getFullPrefix reason) fds ∧
      fds.Nodup ∧ ∀ g, g ∈ fds ↔ ∃ q, Shares s p q ∧ (s.clientAt q).fd = g := by
  set message := ReplyBuilder.quit (s.clientAt p).getFullPrefix reason with hmessage
  set members := (s.clientAt p).getChannels.flatMap fun a => (s.channelAt a).getMembers
    with hmembers
  have hbuild : build fd reason s =
      (members.foldl (notifyMember s fd message) ({}, [])).1 := by
    have hp' : s.getClientByFd fd = some p := hp
    simp only [build, hp', hmembers, List.foldl_flatMap]
    rfl
  have hstart : Notices message ({}, []) := ⟨rfl, List.nodup_nil⟩
  obtain ⟨hn, hmem⟩ := hstart.foldl (s := s) fd members
  rw [hbuild, hn.result]
  refine ⟨_, rfl, List.nodup_reverse.2 hn.nodup, fun g => ?_⟩
  have hpfd : (s.clientAt p).fd = fd := (h.fdOwner fd p hp).2
  have hin : ∀ q, q ∈ members ↔ ∃ a, p ∈ (s.channelAt a).members ∧ q ∈ (s.channelAt a).members := by
    intro q
    simp only [hmembers, List.mem_flatMap, Client.getChannels, ExtTreeSet.mem_toList,
      Channel.getMembers, ExtTreeMap.mem_keys, h.linked]
  rw [List.mem_reverse, hmem]
  simp only [List.not_mem_nil, false_or, Shares, hin]
  constructor
  · rintro ⟨hg, q, hq, rfl⟩
    exact ⟨q, ⟨by rintro rfl; exact hg hpfd, hq⟩, rfl⟩
  · rintro ⟨q, ⟨hqp, a, hpa, hqa⟩, rfl⟩
    refine ⟨fun hqfd => hqp ?_, q, ⟨a, hpa, hqa⟩, rfl⟩
    have hown := h.clientOwned q (h.memberLive hqa)
    rw [hqfd, hp] at hown
    exact (Option.some.inj hown).symm

/-- The notice goes to clients that are registered. -/
theorem build_addressed (h : Links s) (fd : Fd) (reason : Str) :
    Addressed s (build fd reason s) := by
  rcases hp : s.client.fdToClient[fd]? with _ | p
  · have hp' : s.getClientByFd fd = none := hp
    simp only [build, hp']
    exact .nil s
  · obtain ⟨fds, hb, -, hmem⟩ := build_spec h hp reason
    rw [hb]
    intro m hm
    obtain ⟨g, hg, rfl⟩ := List.mem_map.1 hm
    obtain ⟨q, ⟨-, a, -, hqa⟩, rfl⟩ := (hmem g).1 hg
    exact ⟨Addressed.mem_of_live h (h.memberLive hqa), _, rfl⟩

end DisconnectNotifier

end Ircserv
