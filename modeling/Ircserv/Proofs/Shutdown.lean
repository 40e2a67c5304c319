import Ircserv.Shutdown
import Ircserv.Proofs.Agreement
import Ircserv.Proofs.Moves

/-!
# Nothing is left open

Every connection object belongs to an entry (`Owned`), and the destructor takes every entry out, so
nothing is left on the heap. Each descriptor that is opened is closed once, but for one whose
`fcntl` fails: it is closed nowhere (`ircserv_closes`).
-/

open Std

namespace Ircserv

open Server

variable {s s' : Server} {fd g : Fd} {p q : Addr} {c c' : Connection} {tr : List Event}

/-- Every connection object belongs to an entry. -/
def Server.Owned (s : Server) : Prop := ∀ p ∈ s.objects, ∃ fd :
    Fd, s.connections[fd]? = some (some p)

namespace Server.Owned

theorem setConnection (h : s.Owned) (p : Addr) (c : Connection) : (s.setConnection p c).Owned := by
  intro q hq
  rw [Server.setConnection, ExtTreeMap.mem_modify] at hq
  exact h q hq

theorem enqueueReply (h : s.Owned) (m : OutgoingMessage) : (s.enqueueReply m).Owned := by
  unfold Server.enqueueReply
  split
  · exact h
  · split
    · exact h.setConnection _ _
    · exact h

theorem enqueueReplies (h : s.Owned) (r : CommandResult) : (s.enqueueReplies r).Owned :=
  r.replies.foldlRecOn Server.enqueueReply h fun _ hs m _ => enqueueReply hs m

theorem disconnectClient (h : s.Owned) (hat : s.At fd p c) : (s.disconnectClient fd).Owned := by
  rw [disconnectClient_eq hat]
  intro q hq
  rw [ExtTreeMap.mem_erase, Ne, Nat.compare_eq_eq] at hq
  obtain ⟨g, hg⟩ := h q hq.2
  have hne : fd ≠ g := by
    rintro rfl
    rw [hat.entry] at hg
    cases hg
    exact hq.1 rfl
  exact ⟨g, by simpa [ExtTreeMap.getElem?_erase, hne] using hg⟩

theorem notifyAndDisconnect (ht : Tables s) (h : s.Owned) (hfd : fd ∈ s.connections)
    (reason : Str) : (s.notifyAndDisconnect fd reason).Owned := by
  obtain ⟨p, c, hat⟩ := ht.at_logDisconnect hfd reason
  exact disconnectClient (enqueueReplies (s := s.log (.disconnect fd reason s.state)) h _) hat

theorem move {o : Option Fd} (ht : Tables s) (h : s.Owned) (hm : Move s o s') : s'.Owned := by
  cases hm with
  | polled | ready | tooLong | activity => exact h
  | receive | look => exact setConnection h _ _
  | @accept k cs hcs hnb hfresh =>
    rw [acceptClient_eq hcs hnb]
    intro q hq
    by_cases hnew : Heap.fresh s.objects (k.addr 0) = q
    · exact ⟨cs.fd, by simp [hnew]⟩
    · rw [ExtTreeMap.mem_insert, Nat.compare_eq_eq] at hq
      obtain ⟨g, hg⟩ := h q (hq.resolve_left hnew)
      have hne : cs.fd ≠ g := by
        rintro rfl
        refine hfresh (ht.mem_opened ?_)
        rw [ExtTreeMap.mem_iff_isSome_getElem?, hg]
        rfl
      exact ⟨g, by simpa [ExtTreeMap.getElem?_insert, hne] using hg⟩
  | @line fd p c k n hat =>
    obtain ⟨htab, haddr, hfds⟩ := ht.dispatched hat k n
    have haddr' := htab.of_addressed (haddr.congr hfds.symm)
    have hd : (s.dispatched k fd p c n).2.Owned := setConnection h _ _
    rw [handleLine_eq]
    unfold applyCommandResult
    dsimp only
    split_ifs
    · refine notifyAndDisconnect (htab.enqueueReplies haddr') (hd.enqueueReplies _) ?_ _
      rw [connections_enqueueReplies]
      exact hat.mem
    · exact hd.enqueueReplies _
  | @write fd p c k hat =>
    have hsent : (s.sent k fd p c).Owned := by
      unfold sent
      split_ifs <;> exact setConnection h _ _
    rw [handleWrite_eq hat]
    split_ifs <;> exact hsent
  | disconnect reason hat => exact notifyAndDisconnect ht h hat.mem reason

end Server.Owned

/-- What the destructor relies on: the part of the tables that says nothing about the trace. -/
structure Entries (s : Server) : Prop where
  wf : WellFormed s.state
  live : ∀ (fd : Fd) (conn : Option Addr), s.connections[fd]? = some conn →
    ∃ (p : Addr) (c : Connection), conn = some p ∧ s.objects[p]? = some c ∧ c.fd = fd
  known : ∀ fd, fd ∈ s.connections ↔ fd ∈ s.state.client.fdToClient
  monitored : ∀ fd ∈ s.healthMonitor.clients, fd ∈ s.connections
  owned : s.Owned

theorem Tables.entries (h : Tables s) (hown : s.Owned) : Entries s :=
  ⟨h.wf, h.live, h.known, h.monitored, hown⟩

namespace Entries

theorem exists_at (h : Entries s) (hfd : fd ∈ s.connections) : ∃ p c, s.At fd p c := by
  have hconn := ExtTreeMap.getElem?_eq_some_getElem hfd
  obtain ⟨p, c, hp, hobj, -⟩ := h.live fd _ hconn
  exact ⟨p, c, hconn.trans (congrArg some hp), hobj⟩

theorem disconnectClient (h : Entries s) (hat : s.At fd p c) : Entries (s.disconnectClient fd) := by
  have howned := h.owned.disconnectClient hat
  rw [disconnectClient_eq hat] at howned ⊢
  have hmem : ∀ g, g ∈ s.connections.erase fd ↔ fd ≠ g ∧ g ∈ s.connections := by
    intro g
    rw [ExtTreeMap.mem_erase, Ne, Int.compare_eq_eq]
  refine ⟨h.wf.removeClient fd, fun g conn hg => ?_, fun g => ?_, fun g hg => ?_, howned⟩
  · have hfg : fd ≠ g ∧ s.connections[g]? = some conn := by
      simp only [ExtTreeMap.getElem?_erase, Int.compare_eq_eq] at hg
      split_ifs at hg with he
      exact ⟨he, hg⟩
    obtain ⟨q, d, rfl, hobj, hd⟩ := h.live g conn hfg.2
    have hpq : p ≠ q := by
      rintro rfl
      obtain ⟨q, d', hq, hobj', hd'⟩ := h.live fd _ hat.entry
      cases hq
      rw [hobj] at hobj'
      cases hobj'
      exact hfg.1 (hd'.symm.trans hd)
    exact ⟨q, d, rfl, by simpa [ExtTreeMap.getElem?_erase, hpq] using hobj, hd⟩
  · rw [hmem, ServerState.fdToClient_removeClient h.wf ((h.known fd).1 hat.mem),
      ExtTreeMap.mem_erase, Ne,
      Ne, Int.compare_eq_eq, h.known]
  · simp only [ConnectionHealthMonitor.removeClient, ExtTreeMap.mem_erase, ne_eq,
      Int.compare_eq_eq] at hg
    exact (hmem g).2 ⟨hg.1, h.monitored g hg.2⟩

/-- With no entry left, nothing is left on the heap, of the connections, the clients and the
channels. -/
theorem cleared (h : Entries s) (hlisten : s.listenFd = -1) (hpollfds : s.pollfds = [])
    (hempty : s.connections = ∅) : s.Cleared := by
  have hconn : ∀ g, g ∉ s.connections := by simp [hempty]
  have hfds : ∀ g, g ∉ s.state.client.fdToClient := fun g hg => hconn g ((h.known g).2 hg)
  have hclients : ∀ p, p ∉ s.state.client.objects := by
    intro p hp
    refine hfds (s.state.clientAt p).fd ?_
    rw [ExtTreeMap.mem_iff_isSome_getElem?, h.wf.links.clientOwned p hp]
    rfl
  have hchannels : ∀ a, a ∉ s.state.objects := by
    intro a ha
    obtain ⟨p, hp⟩ := h.wf.populated a ha
    exact hclients p (h.wf.links.memberLive hp)
  refine ⟨hlisten, hpollfds, hempty, ?_, ?_, ?_, ?_, ?_, ?_, ?_⟩ <;>
    refine ExtTreeMap.eq_empty_iff_forall_not_mem.2 ?_
  · intro p hp
    obtain ⟨g, hg⟩ := h.owned p hp
    refine hconn g ?_
    rw [ExtTreeMap.mem_iff_isSome_getElem?, hg]
    rfl
  · exact hfds
  · exact fun n hn => hclients _ (h.wf.nicks.owner n _ (ExtTreeMap.getElem?_eq_some_getElem hn)).1
  · exact hclients
  · exact fun n hn =>
      hchannels _ (h.wf.links.nameOwner n _ (ExtTreeMap.getElem?_eq_some_getElem hn)).1
  · exact hchannels
  · exact fun g hg => hconn g (h.monitored g hg)

end Entries

/-- The loop of the destructor takes every entry out, and closes its descriptor. -/
theorem closeConnections_spec : ∀ (fuel : Nat) {s : Server}, Entries s → s.connections.size ≤ fuel →
    Entries (s.closeConnections fuel) ∧ (s.closeConnections fuel).connections = ∅ ∧
      (s.closeConnections fuel).listenFd = s.listenFd ∧ ∃ fds : List Fd, fds.Nodup ∧
        (∀ fd, fd ∈ fds ↔ fd ∈ s.connections) ∧
        (s.closeConnections fuel).trace = fds.map Event.close ++ s.trace
  | fuel, s, h, hfuel => by
    rcases hmin : s.connections.minKey? with _ | fd
    · have hempty : s.connections = ∅ := ExtTreeMap.minKey?_eq_none_iff.1 hmin
      have hdone : s.closeConnections fuel = s := by
        cases fuel with
        | zero => rfl
        | succ fuel => simp [closeConnections, hmin]
      rw [hdone]
      exact ⟨h, hempty, rfl, [], List.nodup_nil, by simp [hempty], rfl⟩
    · have hfd : fd ∈ s.connections := (ExtTreeMap.minKey?_eq_some_iff_mem_and_forall.1 hmin).1
      obtain ⟨p, c, hat⟩ := h.exists_at hfd
      have hrest : (s.disconnectClient fd).connections = s.connections.erase fd :=
        connections_disconnectClient hfd
      have hsize : (s.connections.erase fd).size + 1 = s.connections.size := by
        have hle := ExtTreeMap.size_le_size_erase (t := s.connections) (k := fd)
        have hpos : s.connections.size ≠ 0 := by
          intro hzero
          rw [ExtTreeMap.eq_empty_iff_size_eq_zero.2 hzero] at hfd
          exact ExtTreeMap.not_mem_empty hfd
        rw [ExtTreeMap.size_erase, if_pos (ExtTreeMap.contains_iff_mem.2 hfd)]
        omega
      cases fuel with
      | zero => omega
      | succ fuel =>
        obtain ⟨hentries, hempty, hlisten, fds, hnodup, hmem, htrace⟩ :=
          closeConnections_spec fuel (h.disconnectClient hat) (by rw [hrest]; omega)
        have hmem' : ∀ g, g ∈ fds ↔ fd ≠ g ∧ g ∈ s.connections := by
          intro g
          rw [hmem, hrest, ExtTreeMap.mem_erase, Ne, Int.compare_eq_eq]
        have hloop : s.closeConnections (fuel + 1) =
            (s.disconnectClient fd).closeConnections fuel := by
          simp [closeConnections, hmin]
        rw [hloop]
        refine ⟨hentries, hempty, hlisten.trans (by rw [disconnectClient_eq hat]), fds ++ [fd], ?_,
          fun g => ?_, ?_⟩
        · rw [List.nodup_append]
          refine ⟨hnodup, List.nodup_singleton fd, fun g hg g' hg' => ?_⟩
          rw [List.mem_singleton.1 hg']
          exact fun he => ((hmem' g).1 hg).1 he.symm
        · rw [List.mem_append, List.mem_singleton, hmem']
          by_cases hg : fd = g
          · simp [← hg, hfd]
          · simp [hg, Ne.symm hg]
        · rw [htrace, disconnectClient_eq hat]
          simp

/-- Closing descriptors that are open, each once. -/
theorem Disciplined.closeAll : ∀ {fds : List Fd}, fds.Nodup → (∀ fd ∈ fds, fd ∈ openFds tr) →
    Disciplined tr →
    Disciplined (fds.map Event.close ++ tr) ∧
      ∀ fd, fd ∈ openFds (fds.map Event.close ++ tr) ↔ fd ∈ openFds tr ∧ fd ∉ fds
  | [], _, _, h => ⟨h, by simp⟩
  | fd :: fds, hnodup, hopen, h => by
    rw [List.nodup_cons] at hnodup
    rw [List.forall_mem_cons] at hopen
    obtain ⟨hdisc, hmem⟩ := closeAll hnodup.2 hopen.2 h
    refine ⟨⟨(hmem fd).2 ⟨hopen.1, hnodup.1⟩, hdisc⟩, fun g => ?_⟩
    rw [List.map_cons, List.cons_append, openFds, List.mem_filter, hmem]
    by_cases hg : g = fd
    · simp [hg]
    · simp [hg]

theorem Disciplined.nodup_openFds : ∀ {tr : List Event}, Disciplined tr → (openFds tr).Nodup
  | [], _ => List.nodup_nil
  | e :: tr, ⟨hsound, h⟩ => by
    have ih := nodup_openFds h
    cases e with
    | listen g =>
      cases (show tr = [] from hsound)
      exact List.nodup_singleton g
    | accept g => exact List.nodup_cons.2 ⟨hsound, ih⟩
    | close g => exact ih.filter _
    | _ => exact ih

/-- A descriptor is opened as often as it is closed, and once more while it is open. -/
theorem Disciplined.balance (fd : Fd) : ∀ {tr : List Event}, Disciplined tr →
    tr.countP (Event.opensFd fd) = tr.countP (Event.closesFd fd) + (openFds tr).count fd
  | [], _ => rfl
  | e :: tr, ⟨hsound, h⟩ => by
    have ih := balance fd h
    cases e with
    | listen g =>
      cases (show tr = [] from hsound)
      by_cases hg : g = fd <;> simp [openFds, Event.opensFd, Event.closesFd, hg]
    | accept g =>
      by_cases hg : g = fd
      · simp [openFds, Event.opensFd, Event.closesFd, hg, ih]
        omega
      · simpa [openFds, Event.opensFd, Event.closesFd, hg] using ih
    | close g =>
      have hnodup := h.nodup_openFds
      by_cases hg : g = fd
      · subst hg
        have hopen : (openFds tr).count g = 1 := List.count_eq_one_of_mem hnodup hsound
        have hclosed : ((openFds tr).filter (· ≠ g)).count g = 0 := by
          simp [List.count_eq_zero]
        simp only [openFds, hclosed]
        simp [Event.opensFd, Event.closesFd]
        omega
      · have hkept : ((openFds tr).filter (· ≠ g)).count fd = (openFds tr).count fd := by
          rw [List.count_filter]
          simpa using Ne.symm hg
        simp only [openFds, hkept]
        simpa [Event.opensFd, Event.closesFd, hg] using ih
    | _ => simpa [openFds, Event.opensFd, Event.closesFd] using ih

theorem Reachable.entries {listenFd : Fd} {password : Str} {m : Machine}
    (h : Reachable listenFd password m) : Entries m.server := by
  refine h.invariant ((Tables.start listenFd password).entries fun p hp => ?_)
    (fun ht hs hm => (hm.tables ht).entries (hs.owned.move ht hm))
    fun _ hs _ => ⟨hs.wf, hs.live, hs.known, hs.monitored, hs.owned⟩
  simp [construct, addFd, Server.log] at hp

/-- Also after a refusal, the listening socket and the clients are open. -/
theorem Reachable.known_open {listenFd : Fd} {password : Str} {m : Machine}
    (h : Reachable listenFd password m) :
    m.server.listenFd ∉ m.server.connections ∧ ∀ fd, fd = m.server.listenFd ∨
    fd ∈ m.server.connections →
      fd ∈ openFds m.server.trace := by
  refine h.invariant (I := fun s => s.listenFd ∉ s.connections ∧
    ∀ fd, fd = s.listenFd ∨ fd ∈ s.connections → fd ∈ openFds s.trace) ?_ (fun ht _ hm => ?_) ?_
  · have ht := Tables.start listenFd password
    exact ⟨ht.listening, fun fd => (ht.opened fd).2⟩
  · have ht' := hm.tables ht
    exact ⟨ht'.listening, fun fd => (ht'.opened fd).2⟩
  · exact fun _ hs _ => ⟨hs.1, fun fd hfd => List.mem_cons_of_mem _ (hs.2 fd hfd)⟩

namespace Machine

variable {m : Machine} {inp : Input}

theorem run_stopped (hstop : m.phase = .stopped) : ∀ inputs, m.run inputs = m
  | [] => rfl
  | inp :: inputs => by
    have hstep : m.step inp = m := by
      rcases m with ⟨s, phase⟩
      cases hstop
      rfl
    rw [run, hstep]
    exact run_stopped hstop inputs

theorem not_refuses (hstop : m.phase = .stopped) : ¬ m.Refuses inp fd := by
  rintro ⟨cs, -, -, -, hs⟩
  have hstep : m.step inp = m := run_stopped hstop [inp]
  rw [hstep] at hs
  exact List.cons_ne_self _ _ (congrArg Server.trace hs).symm

theorem Server.visit_refuses {k : Syscalls} {i : Nat} (h : (s.visit k i).1 = none) :
    ∃ cs, k.accept = some cs ∧ cs.nonBlocking = false ∧
      (s.visit k i).2 = s.log (.accept cs.fd) := by
  unfold visit acceptClient at h ⊢
  split at h
  · cases h
  split_ifs at h ⊢ with hrev hlisten hin
  rcases hcs : k.accept with _ | cs
  · simp [hcs] at h
  · cases hnb : cs.nonBlocking with
    | false => exact ⟨cs, rfl, hnb, by simp [hnb]⟩
    | true => simp [hcs, hnb] at h

/-- A step keeps the tables, unless it refuses a descriptor. -/
theorem Good.tables_or_refuses (h : m.Good) (hgo : m.phase ≠ .stopped) (hfresh : inp.Fresh m) :
    Tables (m.step inp).server ∨ (m.step inp).phase = .stopped ∧ ∃ fd, m.Refuses inp fd := by
  by_cases hstop : (m.step inp).phase = .stopped
  · have ht := h.tables hgo
    rcases m with ⟨s, phase⟩
    cases phase with
    | stopped => exact absurd rfl hgo
    | poll => exact .inl ((pollStep_moves s inp).tables ht)
    | timeouts fds => cases fds <;> cases hstop
    | scan i =>
      refine .inr ⟨hstop, ?_⟩
      unfold Refuses
      dsimp only [Machine.step, scanStep] at hstop ⊢
      split_ifs at hstop ⊢
      have hvisit := Server.visit_refuses (s := s) (k := inp.calls) (i := i)
      generalize s.visit inp.calls i = r at hstop hvisit
      obtain ⟨_ | j, s'⟩ := r
      · obtain ⟨cs, hcs, hnb, hs'⟩ := hvisit rfl
        exact ⟨cs.fd, cs, hcs, rfl, hnb, hs'⟩
      · cases hstop
  · exact .inl ((h.step hfresh).1.tables hstop)

/-- What is open at the end of a run and not known to the server is what was refused. -/
theorem run_lost {listenFd : Fd} {password : Str} : ∀ (inputs : List Input) {m : Machine},
    Reachable listenFd password m → m.FreshRun inputs → m.phase ≠ .stopped → ∀ fd,
      (fd ∈ openFds (m.run inputs).server.trace ∧
        ¬ (fd = (m.run inputs).server.listenFd ∨ fd ∈ (m.run inputs).server.connections) ↔
          ∃ before inp after, inputs = before ++ inp :: after ∧ (m.run before).Refuses inp fd)
  | [], m, hreach, _, hgo, fd => by
    rw [run, (hreach.good.tables hgo).opened]
    exact iff_of_false (fun h => h.2 h.1) (by simp)
  | inp :: inputs, m, hreach, hf, hgo, fd => by
    have hreach' : Reachable listenFd password (m.step inp) := .step inp hreach hf.1
    have hsplit : (∃ before i after, inp :: inputs = before ++ i :: after ∧
          (m.run before).Refuses i fd) ↔
        m.Refuses inp fd ∨
          ∃ before i after, inputs = before ++ i :: after ∧
            ((m.step inp).run before).Refuses i fd := by
      constructor
      · rintro ⟨before, i, after, heq, hr⟩
        cases before with
        | nil =>
          cases heq
          exact .inl hr
        | cons i' before =>
          cases heq
          exact .inr ⟨before, i, after, rfl, hr⟩
      · rintro (hr | ⟨before, i, after, rfl, hr⟩)
        · exact ⟨[], inp, inputs, rfl, hr⟩
        · exact ⟨inp :: before, i, after, rfl, hr⟩
    rw [hsplit, run]
    have ht := hreach.good.tables hgo
    -- a step that refuses a descriptor leaves a server without tables
    have hnot : Tables (m.step inp).server → ¬ m.Refuses inp fd := by
      rintro ht' ⟨cs, hcs, rfl, -, hs⟩
      rw [hs] at ht'
      have hmem := (ht'.opened cs.fd).1 List.mem_cons_self
      exact hf.1 cs hcs ((ht.opened cs.fd).2 hmem)
    have hnone (hstop : (m.step inp).phase = .stopped) : ¬ ∃ before i after,
        inputs = before ++ i :: after ∧ ((m.step inp).run before).Refuses i fd := by
      rintro ⟨before, i, after, -, hr⟩
      rw [run_stopped hstop] at hr
      exact not_refuses hstop hr
    rcases hreach.good.tables_or_refuses hgo hf.1 with ht' | ⟨hstop, g, cs, hcs, rfl, hnb, hs⟩
    · by_cases hstop : (m.step inp).phase = .stopped
      · rw [run_stopped hstop, ht'.opened]
        exact iff_of_false (fun h => h.2 h.1) (not_or.2 ⟨hnot ht', hnone hstop⟩)
      · rw [run_lost inputs hreach' hf.2 hstop fd, or_iff_right (hnot ht')]
    · have hr : m.Refuses inp fd ↔ fd = cs.fd := by
        constructor
        · rintro ⟨cs', hcs', rfl, -, -⟩
          rw [Option.some.inj (hcs'.symm.trans hcs)]
        · rintro rfl
          exact ⟨cs, hcs, rfl, hnb, hs⟩
      have hnew := hf.1 cs hcs
      rw [ht.opened] at hnew
      rw [run_stopped hstop, or_iff_left (hnone hstop), hs, hr, Server.log, openFds,
        List.mem_cons, ht.opened]
      constructor
      · rintro ⟨h | h, hout⟩
        · exact h
        · exact absurd h hout
      · rintro rfl
        exact ⟨.inl rfl, hnew⟩

end Machine

/-- The destructor closes the listening socket and every descriptor that has an entry. -/
theorem Server.closeAllFds_spec (h : Entries s) (hlisten : 0 ≤ s.listenFd)
    (hnot : s.listenFd ∉ s.connections)
    (hopen : ∀ fd, fd = s.listenFd ∨ fd ∈ s.connections → fd ∈ openFds s.trace)
    (hdisc : Disciplined s.trace) : s.closeAllFds.Cleared ∧ Disciplined s.closeAllFds.trace ∧
      ∀ fd, fd ∈ openFds s.closeAllFds.trace ↔
        fd ∈ openFds s.trace ∧ ¬ (fd = s.listenFd ∨ fd ∈ s.connections) := by
  obtain ⟨hentries, hempty, hlisten', fds, hnodup, hmem, htrace⟩ :=
    closeConnections_spec _ h (Nat.le_refl _)
  have htrace' : s.closeAllFds.trace = (s.listenFd :: fds).map Event.close ++ s.trace := by
    simp [closeAllFds, hlisten', hlisten, removeFd, Server.log, htrace]
  have hnodup' : (s.listenFd :: fds).Nodup := List.nodup_cons.2 ⟨by rwa [hmem], hnodup⟩
  have hmem' : ∀ fd, fd ∈ s.listenFd :: fds ↔ fd = s.listenFd ∨ fd ∈ s.connections := by
    simp [hmem]
  obtain ⟨hdisc', hopen'⟩ :=
    Disciplined.closeAll hnodup' (fun fd hfd => hopen fd ((hmem' fd).1 hfd)) hdisc
  rw [htrace']
  refine ⟨?_, hdisc', fun fd => by rw [hopen', hmem']⟩
  have hentries' : Entries s.closeAllFds := by
    unfold closeAllFds
    dsimp only
    split_ifs <;>
      exact ⟨hentries.wf, hentries.live, hentries.known, hentries.monitored, hentries.owned⟩
  refine hentries'.cleared ?_ rfl ?_
  · simp [closeAllFds, hlisten', hlisten]
  · simp only [closeAllFds, hlisten', hlisten, if_true]
    exact hempty

theorem Server.create_some {k : Setup} {password : Str} {trace : List Event}
    (h : Server.create k password = (trace, some s)) :
    0 ≤ k.socket ∧ k.nonBlocking = true ∧ s = .construct k.socket password := by
  unfold create at h
  split_ifs at h <;> simp_all

/-- A constructor that throws has closed the listening socket, but for a failed `fcntl`. -/
theorem Server.create_none {k : Setup} {password : Str} {trace : List Event}
    (h : Server.create k password = (trace, none)) : Disciplined trace ∧ ∀ fd, (fd ∈ openFds trace ↔
      k.sigint ∧ k.sigpipe ∧ 0 ≤ k.socket ∧ k.setsockopt ∧ k.nonBlocking = false ∧
      fd = k.socket) := by
  unfold create at h
  simp only [← Int.not_lt]
  split_ifs at h <;> cases h <;> simp_all [-Int.not_lt, Disciplined, Event.Sound, openFds]

/-- Whatever the system calls give, no descriptor is used after it is closed or closed twice, a
descriptor stays open only when its own `fcntl` fails, and the destructor leaves nothing behind. -/
theorem ircserv_closes (k : Setup) (password : Str) (inputs : List Input)
    (hf : (Machine.start k.socket password).FreshRun inputs) :
    Disciplined (ircserv k password inputs) ∧
      (∀ fd, (ircserv k password inputs).countP (Event.opensFd fd) =
          (ircserv k password inputs).countP (Event.closesFd fd) ↔ ¬ k.Loses password inputs fd) ∧
      ∀ trace s, Server.create k password = (trace, some s) →
        (Machine.run ⟨s, .poll⟩ inputs).server.closeAllFds.Cleared := by
  have hopened : Disciplined (ircserv k password inputs) ∧
      (∀ fd, fd ∈ openFds (ircserv k password inputs) ↔ k.Loses password inputs fd) ∧
      ∀ trace s, Server.create k password = (trace, some s) →
        (Machine.run ⟨s, .poll⟩ inputs).server.closeAllFds.Cleared := by
    unfold ircserv Setup.Loses
    rcases hcreate : Server.create k password with ⟨trace, _ | s⟩
    · obtain ⟨hdisc, hopen⟩ := Server.create_none hcreate
      simpa using ⟨hdisc, hopen⟩
    · obtain ⟨hsocket, hnb, rfl⟩ := Server.create_some hcreate
      have hreach := Reachable.run inputs .start hf
      obtain ⟨hnot, hopen⟩ := hreach.known_open
      obtain ⟨hclear, hdisc, hclose⟩ := closeAllFds_spec hreach.entries
        (by rw [hreach.listenFd_eq]; exact hsocket) hnot hopen hreach.good.disciplined
      refine ⟨hdisc, fun fd => ?_, fun _ _ h => by cases h; exact hclear⟩
      refine (hclose fd).trans ((Machine.run_lost inputs .start hf nofun fd).trans ?_)
      rw [or_iff_right (by simp [hnb])]
      constructor
      · exact fun h => ⟨trace, _, rfl, h⟩
      · rintro ⟨_, _, heq, h⟩
        cases heq
        exact h
  refine ⟨hopened.1, fun fd => ?_, hopened.2.2⟩
  rw [hopened.1.balance fd, ← hopened.2.1, ← List.count_eq_zero]
  omega

/-- The second client's `fcntl` fails, and no other descriptor stays open. -/
theorem ircserv_closes_refused :
    let inputs : List Input := [.ready [POLLIN], .accepts 4, {}, {}, {}, .ready [POLLIN, 0],
      { calls := { accept := some { fd := 5, nonBlocking := false } } }]
    let trace := ircserv { socket := 3 } [] inputs
    Disciplined trace ∧
      ∀ fd, trace.countP (Event.opensFd fd) = trace.countP (Event.closesFd fd) ↔ fd ≠ 5 := by
  intro inputs trace
  obtain ⟨hdisc, hcount, -⟩ := ircserv_closes { socket := 3 } [] inputs (by decide)
  refine ⟨hdisc, fun fd => (hcount fd).trans (not_congr ⟨?_, ?_⟩)⟩
  · rintro (⟨-, -, -, -, hnb, -⟩ | ⟨_, _, -, before, inp, after, heq, cs, hcs, rfl, hnb, -⟩)
    · cases hnb
    · have hrefused : ∀ inp ∈ inputs, ∀ cs ∈ inp.calls.accept, cs.nonBlocking = false →
          cs.fd = 5 := by
        decide
      exact hrefused inp (by simp [heq]) cs hcs hnb
  · rintro rfl
    exact .inr ⟨_, _, rfl, inputs.dropLast, _, [], rfl, _, rfl, rfl, rfl, rfl⟩

end Ircserv
