import Mathlib.Logic.Relation
import Ircserv.Proofs.Server

/-!
# What the server does, one move at a time

A step of the server loop is a sequence of moves, each of them about one connection that its entry
leads to. `Reachable.invariant` is the rule every invariant of the server is proved by: it holds at
the start, and every move keeps it.
-/

open Std

namespace Ircserv

open Server

/-- One move of the server, with the descriptor it is about. -/
inductive Move (s : Server) : Option Fd → Server → Prop
  | polled : Move s none (s.log (.poll (s.pollfds.map (·.fd))))
  | ready (revents : Nat → PollMask) : Move s none
      { s with pollfds := s.pollfds.mapIdx fun i p => { p with revents := revents i } }
  | accept {k : Syscalls} {cs : Accepted} (hcs : k.accept = some cs) (hnb : cs.nonBlocking = true)
      (hfresh : cs.fd ∉ openFds s.trace) : Move s (some cs.fd) (s.acceptClient k).2
  | receive {fd : Fd} {p : Addr} {c : Connection} (data : Option Str) (hat : s.At fd p c) :
      Move s (some fd) ((s.setConnection p (c.readFromSocket data).2).log (.recv fd data))
  | tooLong {fd : Fd} {p : Addr} {c : Connection} (hat : s.At fd p c)
      (hlong : c.isLineTooLong = true) : Move s (some fd) (s.log (.tooLong fd))
  | activity {fd : Fd} {p : Addr} {c : Connection} (now : Time) (hat : s.At fd p c) :
      Move s (some fd) { s with healthMonitor := s.healthMonitor.updateActivity fd now }
  | look {fd : Fd} {p : Addr} {c : Connection} (hat : s.At fd p c) :
      Move s (some fd) (s.setConnection p c.hasCompleteLine.2)
  | line {fd : Fd} {p : Addr} {c : Connection} (k : Syscalls) (n : Nat) (hat : s.At fd p c)
      (hnl : c.nlPos = c.recvBuffer.findIdx? (· == lf)) (hsome : c.nlPos.isSome = true) :
      Move s (some fd) (s.handleLine k fd p c n).2
  | write {fd : Fd} {p : Addr} {c : Connection} (k : Syscalls) (hat : s.At fd p c) :
      Move s (some fd) (s.handleWrite k fd).2
  | disconnect {fd : Fd} {p : Addr} {c : Connection} (reason : Str) (hat : s.At fd p c) :
      Move s (some fd) (s.notifyAndDisconnect fd reason)

/-- Moves about one descriptor. -/
abbrev Moves (g : Option Fd) : Server → Server → Prop :=
  Relation.ReflTransGen fun s s' => Move s g s'

theorem Move.tables {s s' : Server} {g : Option Fd} (h : Tables s) (hm : Move s g s') :
    Tables s' := by
  cases hm with
  | polled =>
    refine h.log rfl fun fd hfd => (h.opened fd).2 ((h.polled fd).1 hfd)
  | ready revents => exact h.setRevents revents
  | accept hcs hnb hfresh => exact h.acceptClient hcs hnb hfresh
  | @receive fd p c data hat =>
    have hfd : (c.readFromSocket data).2.fd = c.fd := by
      unfold Connection.readFromSocket
      split <;> rfl
    exact (h.setConnection hat hfd).log (e := .recv fd data) rfl (h.mem_opened hat.mem)
  | tooLong hat => exact h.log rfl (h.mem_opened hat.mem)
  | activity now hat => exact h.updateActivity hat.mem now
  | look hat => exact h.setConnection hat rfl
  | line k n hat => exact h.handleLine hat k n
  | write k hat => exact h.handleWrite hat k
  | disconnect reason hat => exact h.notifyAndDisconnect hat.mem reason

theorem Moves.tables {s s' : Server} {g : Option Fd} (h : Tables s) (hm : Moves g s s') :
    Tables s' := by
  induction hm with
  | refl => exact h
  | tail _ hm ih => exact hm.tables ih

namespace Server

variable {s : Server} {fd : Fd} {p : Addr} {c : Connection}

theorem connections_disconnectClient (hfd : fd ∈ s.connections) :
    (s.disconnectClient fd).connections = s.connections.erase fd := by
  simp [disconnectClient, removeFd, ExtTreeMap.getElem?_eq_some_getElem hfd]

theorem connections_notifyAndDisconnect (hfd : fd ∈ s.connections) (reason : Str) :
    (s.notifyAndDisconnect fd reason).connections = s.connections.erase fd := by
  unfold notifyAndDisconnect
  dsimp only
  rw [connections_disconnectClient (by simpa using hfd)]
  simp

theorem listenFd_notifyAndDisconnect (s : Server) (fd : Fd) (reason : Str) :
    (s.notifyAndDisconnect fd reason).listenFd = s.listenFd := by
  have hclose : ∀ s : Server, (s.disconnectClient fd).listenFd = s.listenFd := by
    intro s
    unfold disconnectClient
    dsimp only
    split <;> rfl
  exact (hclose _).trans (listenFd_enqueueReplies _ _)

theorem not_mem_notifyAndDisconnect (hfd : fd ∈ s.connections) (reason : Str) :
    fd ∉ (s.notifyAndDisconnect fd reason).connections := by
  rw [connections_notifyAndDisconnect hfd]
  simp

/-- A line leaves the connection in place, or disconnects the client. -/
theorem connections_handleLine (k : Syscalls) (n : Nat) (hat : s.At fd p c) :
    (s.handleLine k fd p c n).2.connections =
      if (s.handleLine k fd p c n).1 then s.connections else s.connections.erase fd := by
  have hconn : (s.dispatched k fd p c n).2.connections = s.connections := rfl
  rw [handleLine_eq]
  unfold applyCommandResult
  dsimp only
  by_cases hd : (s.dispatched k fd p c n).1.shouldDisconnect = true
  · simp only [hd, if_true, Bool.not_true, Bool.false_eq_true, if_false]
    rw [connections_notifyAndDisconnect, connections_enqueueReplies, hconn]
    rw [connections_enqueueReplies, hconn]
    exact hat.mem
  · simp [hd, hconn]

/-- The loop over the lines is a sequence of moves; it ends with the connection in place, or with
the client disconnected. -/
theorem handleLines_moves (k : Syscalls) (fd : Fd) (p : Addr) :
    ∀ (fuel n : Nat) (s : Server) (c : Connection), Tables s → s.At fd p c →
      Moves (some fd) s (s.handleLines k fd p fuel n).2 ∧
        ((s.handleLines k fd p fuel n).1 = true →
          ∃ c', (s.handleLines k fd p fuel n).2.At fd p c') ∧
        ((s.handleLines k fd p fuel n).1 = false →
          fd ∉ (s.handleLines k fd p fuel n).2.connections)
  | 0, _, s, c, _, hat => ⟨.refl, fun _ => ⟨c, hat⟩, nofun⟩
  | fuel + 1, n, s, c, h, hat => by
    have hlook : Move s (some fd) (s.setConnection p c.hasCompleteLine.2) := .look hat
    have hat₁ := hat.setConnection c.hasCompleteLine.2
    unfold handleLines
    simp only [hat.object]
    by_cases hdone : c.hasCompleteLine.1 = true
    · have hline : Move (s.setConnection p c.hasCompleteLine.2) (some fd) _ := .line k n hat₁ rfl hdone
      have hconn := connections_handleLine k n hat₁
      have h₁ := hline.tables (hlook.tables h)
      have hmoves : Moves (some fd) s _ := (Relation.ReflTransGen.single hlook).tail hline
      generalize (s.setConnection p c.hasCompleteLine.2).handleLine k fd p c.hasCompleteLine.2 n
        = r at hline hconn h₁ hmoves
      rcases r with ⟨_ | _, s₁⟩
      · simp only [hdone, Bool.not_true, Bool.false_eq_true, if_false, Bool.not_false, if_true]
        refine ⟨hmoves, nofun, fun _ => ?_⟩
        rw [hconn]
        simp
      · simp only [hdone, Bool.not_true, Bool.false_eq_true, if_false]
        have hentry : s₁.connections[fd]? = some (some p) := by
          rw [hconn]
          exact hat.entry
        obtain ⟨q, d, hq, hobj, -⟩ := h₁.live fd _ hentry
        cases hq
        obtain ⟨hrest, hkept⟩ := handleLines_moves k fd p fuel (n + 1) s₁ d h₁ ⟨hentry, hobj⟩
        exact ⟨hmoves.trans hrest, hkept⟩
    · simp only [hdone, Bool.not_false, if_true]
      exact ⟨.single hlook, fun _ => ⟨_, hat₁⟩, nofun⟩

theorem handleRead_eq (k : Syscalls) (hat : s.At fd p c) :
    s.handleRead k fd =
      let s₁ := (s.setConnection p (c.readFromSocket k.recv).2).log (.recv fd k.recv)
      if !(c.readFromSocket k.recv).1 then (false, s₁)
      else if (c.readFromSocket k.recv).2.isLineTooLong then (false, s₁.log (.tooLong fd))
      else handleLines k fd p ((c.readFromSocket k.recv).2.recvBuffer.length + 1) 0
        { s₁ with healthMonitor := s₁.healthMonitor.updateActivity fd (k.time 0) } := by
  simp only [handleRead, insertIfNew_eq hat.mem, hat.entry, hat.connection, Option.getD_some]

/-- A read is a sequence of moves. When it fails the client may or may not be there still. -/
theorem handleRead_moves (k : Syscalls) (h : Tables s) (hat : s.At fd p c) :
    Moves (some fd) s (s.handleRead k fd).2 ∧
      ((s.handleRead k fd).1 = true → fd ∈ (s.handleRead k fd).2.connections) := by
  have hrecv : Move s (some fd) _ := .receive k.recv hat
  have hat₁ : ((s.setConnection p (c.readFromSocket k.recv).2).log (.recv fd k.recv)).At fd p
      (c.readFromSocket k.recv).2 :=
    ⟨hat.entry, (hat.setConnection (c.readFromSocket k.recv).2).object⟩
  rw [handleRead_eq k hat]
  dsimp only
  split_ifs with hfail hlong
  · exact ⟨.single hrecv, nofun⟩
  · exact ⟨(Relation.ReflTransGen.single hrecv).tail (.tooLong hat₁ hlong), nofun⟩
  · have hact : Move _ (some fd) _ := .activity (k.time 0) hat₁
    obtain ⟨hlines, hkept, -⟩ := handleLines_moves k fd p
      ((c.readFromSocket k.recv).2.recvBuffer.length + 1) 0 _ _
      (hact.tables (hrecv.tables h)) ⟨hat₁.entry, hat₁.object⟩
    refine ⟨((Relation.ReflTransGen.single hrecv).tail hact).trans hlines, fun hgo => ?_⟩
    obtain ⟨c', hat'⟩ := hkept hgo
    exact hat'.mem

theorem readBranch_moves (k : Syscalls) (h : Tables s) (hfd : fd ∈ s.connections) :
    Moves (some fd) s (s.readBranch k fd).2 ∧
      ((s.readBranch k fd).1 = true ↔ fd ∈ (s.readBranch k fd).2.connections) := by
  obtain ⟨p, c, hat⟩ := h.exists_at hfd
  obtain ⟨hmoves, hgo⟩ := handleRead_moves k h hat
  unfold readBranch
  generalize s.handleRead k fd = r at hmoves hgo
  rcases r with ⟨_ | _, s₁⟩
  · simp only [Bool.not_false, if_true]
    split_ifs with hthere
    · rw [ExtTreeMap.contains_iff_mem] at hthere
      obtain ⟨p₁, c₁, hat₁⟩ := (hmoves.tables h).exists_at hthere
      refine ⟨hmoves.tail (.disconnect _ hat₁), iff_of_false nofun ?_⟩
      exact not_mem_notifyAndDisconnect hthere _
    · rw [ExtTreeMap.contains_iff_mem] at hthere
      exact ⟨hmoves, iff_of_false nofun hthere⟩
  · exact ⟨hmoves, iff_of_true rfl (hgo rfl)⟩

theorem connections_handleWrite (k : Syscalls) (hat : s.At fd p c) :
    (s.handleWrite k fd).2.connections = s.connections := by
  have hsent : (s.sent k fd p c).connections = s.connections := by
    unfold sent
    split_ifs <;> rfl
  rw [handleWrite_eq hat]
  split_ifs <;> exact hsent

theorem writeBranch_moves (k : Syscalls) (h : Tables s) (hfd : fd ∈ s.connections) :
    Moves (some fd) s (s.writeBranch k fd).2 ∧
      ((s.writeBranch k fd).1 = true ↔ fd ∈ (s.writeBranch k fd).2.connections) := by
  obtain ⟨p, c, hat⟩ := h.exists_at hfd
  have hmove : Move s (some fd) _ := .write k hat
  have hconn := connections_handleWrite k hat
  unfold writeBranch
  generalize s.handleWrite k fd = r at hmove hconn
  rcases r with ⟨_ | _, s₁⟩
  · have hthere : fd ∈ s₁.connections := by
      rw [hconn]
      exact hfd
    obtain ⟨p₁, c₁, hat₁⟩ := (hmove.tables h).exists_at hthere
    refine ⟨(Relation.ReflTransGen.single hmove).tail (.disconnect _ hat₁), iff_of_false nofun ?_⟩
    exact not_mem_notifyAndDisconnect hthere _
  · have hthere : fd ∈ s₁.connections := by
      rw [hconn]
      exact hfd
    exact ⟨.single hmove, iff_of_true rfl hthere⟩

theorem handleClient_moves (k : Syscalls) (rev : PollMask) (h : Tables s)
    (hfd : fd ∈ s.connections) : Moves (some fd) s (s.handleClient k fd rev).2 ∧
      ((s.handleClient k fd rev).1 = true ↔ fd ∈ (s.handleClient k fd rev).2.connections) := by
  have hread : ∃ r, (if rev.has POLLIN then s.readBranch k fd else (true, s)) = r ∧
      Moves (some fd) s r.2 ∧ (r.1 = true ↔ fd ∈ r.2.connections) := by
    refine ⟨_, rfl, ?_⟩
    split_ifs
    · exact readBranch_moves k h hfd
    · exact ⟨.refl, iff_of_true rfl hfd⟩
  obtain ⟨⟨go₁, s₁⟩, he₁, hm₁, hgo₁⟩ := hread
  unfold handleClient
  rw [he₁]
  cases go₁ with
  | false => exact ⟨hm₁, hgo₁⟩
  | true =>
    have hfd₁ : fd ∈ s₁.connections := hgo₁.1 rfl
    have h₁ := hm₁.tables h
    have hwrite : ∃ r, (if rev.has POLLOUT then s₁.writeBranch k fd else (true, s₁)) = r ∧
        Moves (some fd) s₁ r.2 ∧ (r.1 = true ↔ fd ∈ r.2.connections) := by
      refine ⟨_, rfl, ?_⟩
      split_ifs
      · exact writeBranch_moves k h₁ hfd₁
      · exact ⟨.refl, iff_of_true rfl hfd₁⟩
    obtain ⟨⟨go₂, s₂⟩, he₂, hm₂, hgo₂⟩ := hwrite
    simp only [Bool.not_true, Bool.false_eq_true, if_false, he₂]
    cases go₂ with
    | false => exact ⟨hm₁.trans hm₂, hgo₂⟩
    | true =>
      have hfd₂ : fd ∈ s₂.connections := hgo₂.1 rfl
      simp only [Bool.not_true, Bool.false_eq_true, if_false]
      split_ifs
      · obtain ⟨p, c, hat⟩ := (hm₂.tables h₁).exists_at hfd₂
        refine ⟨(hm₁.trans hm₂).tail (.disconnect _ hat), iff_of_false nofun ?_⟩
        exact not_mem_notifyAndDisconnect hfd₂ _
      · exact ⟨hm₁.trans hm₂, iff_of_true rfl hfd₂⟩

/-- The handling of one entry of the poll array. It leaves the loop only when `accept` gave back a
descriptor that cannot be made non-blocking. -/
theorem visit_moves (k : Syscalls) (i : Nat) (h : Tables s)
    (hfresh : ∀ cs, k.accept = some cs → cs.fd ∉ openFds s.trace) :
    (∃ j g, (s.visit k i).1 = some j ∧ Moves g s (s.visit k i).2) ∨
      (s.visit k i).1 = none ∧ ∃ fd, fd ∉ openFds s.trace ∧
        (s.visit k i).2 = s.log (.accept fd) := by
  unfold visit
  split
  · exact .inl ⟨i, none, rfl, .refl⟩
  · rename_i e he
    split_ifs with hrev hlisten hin
    · exact .inl ⟨i, none, rfl, .refl⟩
    · rcases hcs : k.accept with _ | cs
      · simp only [acceptClient, hcs]
        exact .inl ⟨i, none, rfl, .refl⟩
      · have hf := hfresh cs hcs
        by_cases hnb : cs.nonBlocking = true
        · have hmove : Move s (some cs.fd) _ := .accept hcs hnb hf
          simp only [acceptClient, hcs, hnb, Bool.not_true, Bool.false_eq_true, if_false] at hmove ⊢
          exact .inl ⟨i, _, rfl, .single hmove⟩
        · simp only [acceptClient, hcs, hnb]
          exact .inr ⟨rfl, cs.fd, hf, rfl⟩
    · exact .inl ⟨i, none, rfl, .refl⟩
    · have hmem : e.fd ∈ s.connections := by
        have hpoll := (h.polled e.fd).1 (List.mem_map.2 ⟨e, List.mem_of_getElem? he, rfl⟩)
        exact hpoll.resolve_left hlisten
      exact .inl ⟨_, _, rfl, (handleClient_moves k e.revents h hmem).1⟩

end Server

/-- A move about another descriptor leaves a client connected, or not. -/
theorem Move.mem_connections {s s' : Server} {o : Option Fd} {fd : Fd} (hm : Move s o s')
    (ho : o ≠ some fd) : fd ∈ s'.connections ↔ fd ∈ s.connections := by
  have herase : ∀ {g : Fd}, some g ≠ some fd →
      (fd ∈ s.connections.erase g ↔ fd ∈ s.connections) := by
    intro g hg
    rw [ExtTreeMap.mem_erase, Ne, Int.compare_eq_eq]
    exact and_iff_right fun he => hg (congrArg some he)
  cases hm with
  | polled | ready | receive | tooLong | activity | look => rfl
  | @accept k cs hcs hnb =>
    have hne : cs.fd ≠ fd := fun he => ho (congrArg some he)
    simp [acceptClient_eq hcs hnb, hne]
  | line k n hat =>
    rw [connections_handleLine k n hat]
    split_ifs
    · rfl
    · exact herase ho
  | write k hat => rw [connections_handleWrite k hat]
  | disconnect reason hat =>
    rw [connections_notifyAndDisconnect hat.mem]
    exact herase ho

theorem Moves.mem_connections {s s' : Server} {o : Option Fd} {fd : Fd} (hms : Moves o s s')
    (ho : o ≠ some fd) : fd ∈ s'.connections ↔ fd ∈ s.connections := by
  induction hms with
  | refl => rfl
  | tail _ hm ih => exact (hm.mem_connections ho).trans ih

/-- The listening descriptor does not change. -/
theorem Move.listenFd {s s' : Server} {g : Option Fd} (hm : Move s g s') :
    s'.listenFd = s.listenFd := by
  cases hm with
  | polled | ready | receive | tooLong | activity | look => rfl
  | @accept k cs hcs =>
    unfold acceptClient
    simp only [hcs]
    split_ifs <;> rfl
  | line k n hat =>
    rw [handleLine_eq]
    unfold applyCommandResult
    dsimp only
    split_ifs
    · exact (listenFd_notifyAndDisconnect _ _ _).trans (listenFd_enqueueReplies _ _)
    · exact listenFd_enqueueReplies _ _
  | write k hat =>
    rw [handleWrite_eq hat]
    unfold sent
    split_ifs <;> rfl
  | disconnect reason => exact listenFd_notifyAndDisconnect s _ reason

namespace Machine

/-- The tables, and the clients that timed out and are still to be disconnected. -/
structure Good (m : Machine) : Prop where
  tables : m.phase ≠ .stopped → Tables m.server
  disciplined : Disciplined m.server.trace
  due : ∀ fds, m.phase = .timeouts fds → fds.Nodup ∧ ∀ fd ∈ fds, fd ∈ m.server.connections

theorem Good.of_tables {m : Machine} (h : Tables m.server) (hdue : ∀ fds, m.phase ≠ .timeouts fds) :
    Good m :=
  ⟨fun _ => h, h.disciplined, fun fds hf => absurd hf (hdue fds)⟩

theorem pollStep_moves (s : Server) (inp : Input) : Moves none s (pollStep s inp).server := by
  unfold pollStep
  split
  · exact .refl
  · dsimp only
    split
    · exact .single .polled
    · exact .single .polled
    · exact (Relation.ReflTransGen.single .polled).tail (.ready _)

/-- A step of the machine is a sequence of moves, or the refusal of a descriptor that stops it. -/
theorem Good.step {m : Machine} (h : Good m) {inp : Input} (hfresh : inp.Fresh m) :
    Good (m.step inp) ∧ ((∃ g, Moves g m.server (m.step inp).server) ∨
      (m.step inp).phase = .stopped ∧ Tables m.server ∧ ∃ fd, fd ∉ openFds m.server.trace ∧
        (m.step inp).server = m.server.log (.accept fd)) := by
  rcases m with ⟨s, phase⟩
  cases phase with
  | poll =>
    have ht : Tables s := h.tables nofun
    have hpoll := pollStep_moves s inp
    refine ⟨.of_tables (Moves.tables ht hpoll) fun fds => ?_, .inl ⟨none, hpoll⟩⟩
    dsimp only [Machine.step, pollStep]
    split
    · exact nofun
    · split
      · exact nofun
      · split_ifs <;> exact nofun
      · split_ifs <;> exact nofun
  | scan i =>
    have ht : Tables s := h.tables nofun
    dsimp only [Machine.step, scanStep]
    split_ifs with hi
    · rcases visit_moves inp.calls i ht hfresh with ⟨j, g, hj, hm⟩ | ⟨hnone, fd, hfd, hs⟩
      · generalize s.visit inp.calls i = r at hj hm
        rcases r with ⟨_, s₁⟩
        cases hj
        exact ⟨.of_tables (hm.tables ht) nofun, .inl ⟨g, hm⟩⟩
      · generalize s.visit inp.calls i = r at hnone hs
        rcases r with ⟨_, s₁⟩
        cases hnone
        refine ⟨⟨nofun, ?_, nofun⟩, .inr ⟨rfl, ht, fd, hfd, hs⟩⟩
        dsimp only at hs ⊢
        rw [hs]
        exact ⟨hfd, ht.disciplined⟩
    · refine ⟨⟨fun _ => ht, ht.disciplined, fun fds hfds => ?_⟩, .inl ⟨none, .refl⟩⟩
      cases hfds
      refine ⟨ExtTreeMap.nodup_keys.filter _, fun fd hfd => ?_⟩
      exact ht.monitored fd (ExtTreeMap.mem_keys.1 (List.mem_filter.1 hfd).1)
  | timeouts fds =>
    have ht : Tables s := h.tables nofun
    obtain ⟨hnd, hdue⟩ := h.due fds rfl
    cases fds with
    | nil => exact ⟨.of_tables ht nofun, .inl ⟨none, .refl⟩⟩
    | cons fd fds =>
      have hfd : fd ∈ s.connections := hdue fd List.mem_cons_self
      obtain ⟨p, c, hat⟩ := ht.exists_at hfd
      have hm : Move s (some fd) _ := .disconnect (lit "Ping timeout") hat
      have ht' := hm.tables ht
      refine ⟨⟨fun _ => ht', ht'.disciplined, fun fds' hfds => ?_⟩, .inl ⟨_, .single hm⟩⟩
      cases hfds
      obtain ⟨hnot, hnd⟩ := List.nodup_cons.1 hnd
      refine ⟨hnd, fun g hg => ?_⟩
      have hconn : ((Machine.step ⟨s, .timeouts (fd :: fds)⟩ inp).server).connections =
          s.connections.erase fd := connections_notifyAndDisconnect hfd _
      rw [hconn, ExtTreeMap.mem_erase, Ne, Int.compare_eq_eq]
      exact ⟨by rintro rfl; exact hnot hg, hdue g (List.mem_cons_of_mem _ hg)⟩
  | stopped => exact ⟨h, .inl ⟨none, .refl⟩⟩

end Machine

namespace Reachable

variable {listenFd : Fd} {password : Str} {m : Machine}

theorem good (h : Reachable listenFd password m) : m.Good := by
  induction h with
  | start => exact .of_tables (.start listenFd password) nofun
  | step inp _ hfresh ih => exact (ih.step hfresh).1

/-- The rule for invariants of the server. -/
theorem invariant {I : Server → Prop} (hstart : I (.construct listenFd password))
    (hmove : ∀ {s s' : Server} {g : Option Fd}, Tables s → I s → Move s g s' → I s')
    (hrefuse : ∀ {s : Server} {fd : Fd}, Tables s → I s → fd ∉ openFds s.trace →
      I (s.log (.accept fd)))
    (h : Reachable listenFd password m) : I m.server := by
  have hmoves : ∀ {s s' : Server} {g : Option Fd}, Tables s → I s → Moves g s s' → I s' := by
    intro s s' g ht hI hms
    have : Tables s' ∧ I s' := by
      induction hms with
      | refl => exact ⟨ht, hI⟩
      | tail _ hm ih => exact ⟨hm.tables ih.1, hmove ih.1 ih.2 hm⟩
    exact this.2
  induction h with
  | start => exact hstart
  | @step m inp hreach hfresh ih =>
    rcases (hreach.good.step hfresh).2 with ⟨g, hms⟩ | ⟨-, ht, fd, hfd, hs⟩
    · by_cases hstop : m.phase = .stopped
      · have : m.step inp = m := by
          rcases m with ⟨s, phase⟩
          cases hstop
          rfl
        rwa [this]
      · exact hmoves (hreach.good.tables hstop) ih hms
    · rw [hs]
      exact hrefuse ht ih hfd

/-- Every entry leads to a connection, also after the loop has stopped. -/
theorem exists_at (h : Reachable listenFd password m) :
    ∀ fd ∈ m.server.connections, ∃ p c, m.server.At fd p c := by
  refine h.invariant (I := fun s => ∀ fd ∈ s.connections, ∃ p c, s.At fd p c)
    (fun fd => (Tables.start listenFd password).exists_at) (fun ht _ hm fd => (hm.tables ht).exists_at)
    fun ht _ _ fd hfd => ?_
  obtain ⟨p, c, hat⟩ := ht.exists_at hfd
  exact ⟨p, c, hat.entry, hat.object⟩

end Reachable

end Ircserv
