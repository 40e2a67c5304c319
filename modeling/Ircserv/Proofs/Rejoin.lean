import Ircserv.Proofs.Events
import Ircserv.Proofs.Views

/-!
# Joining a channel again

A client that is in the channel already is not refused, and its JOIN changes nothing
(`handleJoin_inRoom`); but the members are told of it as of any other.
-/

open Std

namespace Ircserv

open CommandResult ReplyBuilder ServerState CommandDispatcher

variable {s : ServerState} {p q : Addr} {fd : Fd} {msg : Message}

/-- The members of the channel are told of a JOIN if and only if the sender becomes a member by it,
and a JOIN of a member does nothing. -/
def AnnouncedWhenJoined (s s' : ServerState) (p : Addr) (msg : Message) (r : CommandResult) : Prop :=
  let name := msg.getSingleParam 0
  let line := join (s.clientAt p).getFullPrefix (lit "JOIN") name
  (∀ q, q ≠ p → s'.InRoom q name →
    (⟨(s.clientAt q).fd, line⟩ ∈ r.replies ↔ ¬ s.InRoom p name ∧ s'.InRoom p name)) ∧
  (s.InRoom p name → s' = s ∧
    ∀ q, q ≠ p → s.InRoom q name → ∀ m ∈ r.replies, m.fd ≠ (s.clientAt q).fd)

/-- The members are told of a JOIN that is not refused. -/
theorem Announced.mem_replies {t : ServerState} {line : Str} {r : CommandResult} {a : Addr}
    (h : Announced t p fd msg line r a) (hq : t.InRoom q (msg.getSingleParam 0)) :
    ⟨(t.clientAt q).fd, line⟩ ∈ r.replies := by
  obtain ⟨numerics, hreplies, -⟩ := h.replies
  rw [hreplies]
  refine List.mem_append_left _ (List.mem_map.2 ⟨_, ?_, rfl⟩)
  exact (mem_memberFds_of_room h.found).2 ⟨q, hq, rfl⟩

/-- A member that joins again is not refused, and stays as it was. -/
theorem handleJoin_inRoom (ho : Orderly s) (addr : Addr) (fd : Fd)
    (hin : s.InRoom p (msg.getSingleParam 0)) :
    (handleJoin addr fd msg s p).2 = s ∧ ¬ Refused fd s p (handleJoin addr fd msg s p) := by
  obtain ⟨ch, hch, hm⟩ := hin
  obtain ⟨a, ha, rfl⟩ := room_eq_some_iff.1 hch
  rw [handleJoin_member (ho.registration.members p _ ⟨_, hch, hm⟩) (ho.rooms.valid ho.wf ha) ha hm]
  refine ⟨rfl, ?_⟩
  rintro ⟨m, -, hr⟩
  -- the answer to a JOIN ends in at least three lines
  have hlen := congrArg (·.1.replies.length) hr
  simp only [joinReplies, addReply, reply] at hlen
  split_ifs at hlen <;> simp at hlen

/-- A JOIN is announced as it should be, unless its sender is already in the channel with another
client. -/
theorem announcedWhenJoined_iff (ho : Orderly s) (addr : Addr) (h : msg.command = lit "JOIN")
    (hp : s.client.fdToClient[fd]? = some p) :
    AnnouncedWhenJoined s (handleJoin addr fd msg s p).2 p msg (handleJoin addr fd msg s p).1 ↔
      ¬ (s.InRoom p (msg.getSingleParam 0) ∧ ∃ q, q ≠ p ∧ s.InRoom q (msg.getSingleParam 0)) := by
  have hfd : ∀ q, s.InRoom q (msg.getSingleParam 0) → q ≠ p → (s.clientAt q).fd ≠ fd := by
    rintro q ⟨ch, hch, hq⟩ hqp hqfd
    obtain ⟨a, -, rfl⟩ := room_eq_some_iff.1 hch
    exact hqp ((fd_eq_iff ho.wf.links hp (ho.wf.links.memberLive hq)).1 hqfd)
  have hline : s.eventLine p msg =
      join (s.clientAt p).getFullPrefix (lit "JOIN") (msg.getSingleParam 0) := by
    rw [eventLine, if_pos (.inl h), h]
  have houtcome : Outcome addr fd msg s p (handleJoin addr fd msg s p).1
      (handleJoin addr fd msg s p).2 := handleJoin_outcome h
  have hafter := houtcome.ownData.fd
  rcases handleJoin_announced ho addr fd h with hr | ⟨a, hann⟩
  · have hout : ¬ s.InRoom p (msg.getSingleParam 0) := fun hin =>
      (handleJoin_inRoom ho addr fd hin).2 hr
    obtain ⟨m, -, hr⟩ := hr
    rw [hr]
    refine iff_of_true ⟨fun q hqp hq => iff_of_false (fun hmem => ?_) fun hj => hout hj.2,
      fun hin => absurd hin hout⟩ fun hc => hout hc.1
    exact hfd q hq hqp (congrArg OutgoingMessage.fd (List.mem_singleton.1 hmem))
  · rw [hline] at hann
    by_cases hin : s.InRoom p (msg.getSingleParam 0)
    · have hsame := (handleJoin_inRoom ho addr fd hin).1
      constructor
      · rintro ⟨-, hnothing⟩ ⟨-, q, hqp, hq⟩
        rw [hsame] at hann
        exact (hnothing hin).2 q hqp hq _ (hann.mem_replies hq) rfl
      · intro halone
        rw [hsame]
        exact ⟨fun q hqp hq => absurd ⟨hin, q, hqp, hq⟩ halone,
          fun _ => ⟨rfl, fun q hqp hq => absurd ⟨hin, q, hqp, hq⟩ halone⟩⟩
    · refine iff_of_true ⟨fun q _ hq => iff_of_true ?_ ⟨hin, ?_⟩, fun hin' => absurd hin' hin⟩
        fun hc => hin hc.1
      · rw [← hafter]
        exact hann.mem_replies hq
      · exact (inRoom_iff hann.found).2 hann.member

/-- A JOIN is told to the other members of the channel exactly when its sender becomes a member by
it, and a JOIN of a member changes nothing and is not told, if and only if the sender is not in the
channel together with another client already. -/
theorem run_rejoin (password : Str) (turns : List Turn) (hreal : ∀ t ∈ turns, t.Real)
    (addr : Addr) (now : Time) (fd : Fd) (msg : Message) (monitor : Option ConnectionHealthMonitor)
    (p : Addr) (hp : (ServerState.play { password := password } turns).getClientByFd fd = some p)
    (hjoin : msg.command = lit "JOIN") :
    let s := ServerState.play { password := password } turns
    let after := dispatchWith addr now fd msg s monitor
    AnnouncedWhenJoined s after.2.1 p msg after.1 ↔
      ¬ (s.InRoom p (msg.getSingleParam 0) ∧ ∃ q, q ≠ p ∧ s.InRoom q (msg.getSingleParam 0)) := by
  intro s after
  have ho : Orderly s := Orderly.play turns (.start password) hreal
  have hafter : after = _ :=
    dispatchWith_handleCommand addr now monitor hp (by rw [hjoin]; decide)
  rw [hafter, handleCommand_join hjoin]
  exact announcedWhenJoined_iff ho addr hjoin hp

/-- The case of a client that joins the channel of another. -/
theorem run_rejoin_second :
    let turns : List Turn := [.arrive 3 5 (lit "h"), .arrive 4 6 (lit "k"),
      .command 0 0 5 (Parser.parse (lit "PASS :")) none,
      .command 0 0 5 (Parser.parse (lit "NICK a")) none,
      .command 0 0 5 (Parser.parse (lit "USER a 0 * a")) none,
      .command 0 0 6 (Parser.parse (lit "PASS :")) none,
      .command 0 0 6 (Parser.parse (lit "NICK b")) none,
      .command 0 0 6 (Parser.parse (lit "USER b 0 * b")) none,
      .command 7 0 5 (Parser.parse (lit "JOIN #x")) none]
    let s := ServerState.play { password := [] } turns
    let after := dispatchWith 0 0 6 (Parser.parse (lit "JOIN #x")) s none
    AnnouncedWhenJoined s after.2.1 4 (Parser.parse (lit "JOIN #x")) after.1 := by
  intro turns s after
  have hreal : ∀ t ∈ turns, t.Real := by
    simp only [turns, List.forall_mem_cons, Turn.Real]
    exact ⟨by decide, by decide, ⟨_, rfl⟩, ⟨_, rfl⟩, ⟨_, rfl⟩, ⟨_, rfl⟩, ⟨_, rfl⟩, ⟨_, rfl⟩, ⟨_, rfl⟩,
      by simp⟩
  refine (run_rejoin [] turns hreal 0 0 6 (Parser.parse (lit "JOIN #x")) none 4 (by decide +kernel)
    (by decide +kernel)).2 fun hin => ?_
  exact absurd hin.1 (by decide +kernel)

/-- The second JOIN of a member is told to the other member. -/
theorem rejoin_announced :
    let turns : List Turn := [.arrive 3 5 (lit "h"), .arrive 4 6 (lit "k"),
      .command 0 0 5 (Parser.parse (lit "PASS :")) none,
      .command 0 0 5 (Parser.parse (lit "NICK a")) none,
      .command 0 0 5 (Parser.parse (lit "USER a 0 * a")) none,
      .command 0 0 6 (Parser.parse (lit "PASS :")) none,
      .command 0 0 6 (Parser.parse (lit "NICK b")) none,
      .command 0 0 6 (Parser.parse (lit "USER b 0 * b")) none,
      .command 7 0 5 (Parser.parse (lit "JOIN #x")) none,
      .command 0 0 6 (Parser.parse (lit "JOIN #x")) none]
    let s := ServerState.play { password := [] } turns
    let after := dispatchWith 0 0 6 (Parser.parse (lit "JOIN #x")) s none
    (∀ t ∈ turns, t.Real) ∧ s.getClientByFd 6 = some 4 ∧ s.InRoom 4 (lit "#x") ∧
      (⟨5, lit ":b!b@k JOIN #x" ++ crlf⟩ : OutgoingMessage) ∈ after.1.replies ∧
      ¬ AnnouncedWhenJoined s after.2.1 4 (Parser.parse (lit "JOIN #x")) after.1 := by
  intro turns s after
  have hin : s.InRoom 4 (lit "#x") := by decide +kernel
  have hline : (⟨5, lit ":b!b@k JOIN #x" ++ crlf⟩ : OutgoingMessage) ∈ after.1.replies := by
    decide +kernel
  refine ⟨?_, by decide +kernel, hin, hline, fun hann => ?_⟩
  · simp only [turns, List.forall_mem_cons, Turn.Real]
    exact ⟨by decide, by decide, ⟨_, rfl⟩, ⟨_, rfl⟩, ⟨_, rfl⟩, ⟨_, rfl⟩, ⟨_, rfl⟩, ⟨_, rfl⟩, ⟨_, rfl⟩,
      ⟨_, rfl⟩, by simp⟩
  · refine (hann.2 hin).2 3 (by decide) (by decide +kernel) _ hline ?_
    decide +kernel

end Ircserv
