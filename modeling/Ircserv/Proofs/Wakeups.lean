import Ircserv.Proofs.Agreement

/-!
# Wake-ups

The POLLOUT bit of a client's entry follows its send buffer: a reply sets it along with the bytes it
appends, and a write clears it when it has taken the last of them.
-/

open Std

namespace Ircserv

open Server

namespace PollMask

variable (mask : PollMask)

@[simp] theorem has_or_POLLOUT : (mask ||| POLLOUT).has POLLOUT = true := by
  simp only [has, bne_iff_ne, BitVec.and_or_distrib_right]
  intro h
  exact absurd (BitVec.or_eq_zero_iff.1 h).2 (by decide)

@[simp] theorem has_or_POLLIN : (mask ||| POLLOUT).has POLLIN = mask.has POLLIN := by
  have h : POLLOUT &&& POLLIN = 0 := by decide
  simp only [has, BitVec.and_or_distrib_right, h]
  simp

@[simp] theorem has_clear_POLLOUT : (mask &&& ~~~POLLOUT).has POLLOUT = false := by
  have h : ~~~POLLOUT &&& POLLOUT = 0 := by decide
  simp only [has, BitVec.and_assoc, h]
  simp

@[simp] theorem has_clear_POLLIN : (mask &&& ~~~POLLOUT).has POLLIN = mask.has POLLIN := by
  have h : ~~~POLLOUT &&& POLLIN = POLLIN := by decide
  simp only [has, BitVec.and_assoc, h]

end PollMask

/-- The bits of a client's entry fit its connection. -/
structure Wakeup (events : PollMask) (c : Connection) : Prop where
  output : events.has POLLOUT = true ↔ c.sendBuffer ≠ []
  input : events.has POLLIN = true

/-- The bits of every client's entry fit its connection. -/
def Wakeful (s : Server) : Prop :=
  ∀ e ∈ s.pollfds, ∀ p c, s.At e.fd p c → Wakeup e.events c

namespace Server

variable {fd : Fd}

theorem modifyEvents_id (fd : Fd) : ∀ ps : List PollFd, modifyEvents fd id ps = ps
  | [] => rfl
  | p :: ps => by
    unfold modifyEvents
    split_ifs
    · rfl
    · rw [modifyEvents_id fd ps]

/-- With distinct descriptors, the entry written is the only one of its descriptor. -/
theorem mem_modifyEvents {f : PollMask → PollMask} {e : PollFd} : ∀ {ps : List PollFd},
    (ps.map (·.fd)).Nodup → e ∈ modifyEvents fd f ps →
      e.fd ≠ fd ∧ e ∈ ps ∨ ∃ e₀ ∈ ps, e₀.fd = fd ∧ e = { e₀ with events := f e₀.events }
  | [], _, he => by simp [modifyEvents] at he
  | p :: ps, hnd, he => by
    rw [List.map_cons, List.nodup_cons] at hnd
    unfold modifyEvents at he
    split_ifs at he with hp
    · rcases List.mem_cons.1 he with rfl | he
      · exact .inr ⟨p, List.mem_cons_self, hp, rfl⟩
      · refine .inl ⟨fun hfd => hnd.1 ?_, List.mem_cons_of_mem p he⟩
        rw [hp, ← hfd]
        exact List.mem_map_of_mem he
    · rcases List.mem_cons.1 he with rfl | he
      · exact .inl ⟨hp, List.mem_cons_self⟩
      · rcases mem_modifyEvents hnd.2 he with ⟨hne, hmem⟩ | ⟨e₀, he₀, hfd, rfl⟩
        · exact .inl ⟨hne, List.mem_cons_of_mem p hmem⟩
        · exact .inr ⟨e₀, List.mem_cons_of_mem p he₀, hfd, rfl⟩

end Server

namespace Wakeful

variable {s s' : Server} {fd : Fd} {p : Addr} {c c' : Connection}

/-- A step that leaves the events and the send buffers alone. -/
theorem congr (h : Wakeful s)
    (hpoll : ∀ e ∈ s'.pollfds, ∃ e₀ ∈ s.pollfds, e₀.fd = e.fd ∧ e₀.events = e.events)
    (hat : ∀ g q d, s'.At g q d → ∃ d₀, s.At g q d₀ ∧ d₀.sendBuffer = d.sendBuffer) :
    Wakeful s' := by
  intro e he q d hd
  obtain ⟨e₀, he₀, hfd, hev⟩ := hpoll e he
  obtain ⟨d₀, hd₀, hbuf⟩ := hat e.fd q d hd
  rw [← hfd] at hd₀
  obtain ⟨ho, hi⟩ := h e₀ he₀ q d₀ hd₀
  rw [hev] at ho hi
  exact ⟨hbuf ▸ ho, hi⟩

/-- A step about one connection, which writes the events of its entry. -/
theorem update (h : Wakeful s) (ht : Tables s) (hat : s.At fd p c) (f : PollMask → PollMask)
    (c' : Connection) (hpoll : s'.pollfds = modifyEvents fd f s.pollfds)
    (hconn : s'.connections = s.connections)
    (hobj : ∀ q : Addr, s'.objects[q]? = (s.setConnection p c').objects[q]?)
    (hok : ∀ events, Wakeup events c → Wakeup (f events) c') : Wakeful s' := by
  intro e he q d hd
  have hd' : (s.setConnection p c').At e.fd q d := ⟨hconn ▸ hd.entry, hobj q ▸ hd.object⟩
  rw [hpoll] at he
  rcases mem_modifyEvents ht.nodup he with ⟨hne, he⟩ | ⟨e₀, he₀, rfl, rfl⟩
  · -- another entry leads to another connection, which the step did not touch
    rcases ht.at_setConnection hat hd' with ⟨hfd, -⟩ | ⟨-, hold⟩
    · exact absurd hfd.symm hne
    · exact h e he q d hold
  · obtain ⟨-, rfl⟩ := (hat.setConnection c').unique hd'
    exact hok e₀.events (h e₀ he₀ p c hat)

theorem setConnection (h : Wakeful s) (ht : Tables s) (hat : s.At fd p c)
    (hbuf : c'.sendBuffer = c.sendBuffer) : Wakeful (s.setConnection p c') :=
  h.update ht hat id c' (modifyEvents_id fd s.pollfds).symm rfl (fun _ => rfl)
    fun _ hw => ⟨hbuf ▸ hw.output, hw.input⟩

theorem log (h : Wakeful s) (e : Event) : Wakeful (s.log e) :=
  h.congr (fun e he => ⟨e, he, rfl, rfl⟩) fun _ _ d hd => ⟨d, ⟨hd.entry, hd.object⟩, rfl⟩

theorem enqueueReply (h : Wakeful s) (ht : Tables s) {m : OutgoingMessage}
    (hm : m.fd ∈ s.connections) (hne : m.message ≠ []) : Wakeful (s.enqueueReply m) := by
  obtain ⟨p, c, hat⟩ := ht.exists_at hm
  rw [enqueueReply_eq hat]
  refine h.update ht hat (· ||| POLLOUT) (c.bufferSend m.message) rfl rfl (fun _ => rfl)
    fun events hw => ⟨?_, ?_⟩
  · simp [Connection.bufferSend, hne]
  · rw [PollMask.has_or_POLLIN]
    exact hw.input

theorem foldl_enqueueReply : ∀ (ms : List OutgoingMessage) (s : Server), Wakeful s → Tables s →
    (∀ m ∈ ms, m.fd ∈ s.connections ∧ m.message ≠ []) →
      Wakeful (ms.foldl Server.enqueueReply s)
  | [], _, h, _, _ => h
  | m :: ms, s, h, ht, hms => by
    obtain ⟨hfd, hne⟩ := hms m List.mem_cons_self
    refine foldl_enqueueReply ms (s.enqueueReply m) (h.enqueueReply ht hfd hne)
      (ht.enqueueReply hfd) fun m' hm' => ?_
    rw [(enqueueReply_frame s m).1]
    exact hms m' (List.mem_cons_of_mem m hm')

theorem enqueueReplies (h : Wakeful s) (ht : Tables s) {r : CommandResult}
    (hr : Addressed s.state r) : Wakeful (s.enqueueReplies r) := by
  refine Wakeful.log (foldl_enqueueReply r.replies s h ht fun m hm => ?_) _
  exact ⟨ht.of_addressed hr m hm, (hr m hm).2.ne_nil⟩

theorem disconnectClient (h : Wakeful s) (hat : s.At fd p c) :
    Wakeful (s.disconnectClient fd) := by
  refine h.congr (fun e he => ?_) fun g q d hd => ?_
  · have hmem : e ∈ s.pollfds.eraseP (·.fd == fd) := by
      simpa [disconnectClient_eq hat] using he
    exact ⟨e, List.mem_of_mem_eraseP hmem, rfl, rfl⟩
  · exact ⟨d, (Tables.at_disconnectClient hat hd).2, rfl⟩

theorem notifyAndDisconnect (h : Wakeful s) (ht : Tables s) (hfd : fd ∈ s.connections)
    (reason : Str) : Wakeful (s.notifyAndDisconnect fd reason) := by
  have htlog := ht.log (e := .disconnect fd reason s.state) rfl (ht.mem_opened hfd)
  have hrep := (h.log (.disconnect fd reason s.state)).enqueueReplies htlog
    (DisconnectNotifier.build_addressed ht.wf.links fd reason)
  obtain ⟨p, c, hat⟩ := ht.at_logDisconnect hfd reason
  exact hrep.disconnectClient hat

theorem dispatched (h : Wakeful s) (ht : Tables s) (hat : s.At fd p c) (k : Syscalls) (n : Nat) :
    Wakeful (s.dispatched k fd p c n).2 := by
  have hpop : c.popLine.2.sendBuffer = c.sendBuffer := by
    unfold Connection.popLine
    split <;> rfl
  exact (h.setConnection ht hat hpop).congr (fun e he => ⟨e, he, rfl, rfl⟩)
    fun _ _ d hd => ⟨d, ⟨hd.entry, hd.object⟩, rfl⟩

theorem handleLine (h : Wakeful s) (ht : Tables s) (hat : s.At fd p c) (k : Syscalls) (n : Nat) :
    Wakeful (s.handleLine k fd p c n).2 := by
  obtain ⟨htab, haddr, hfds⟩ := ht.dispatched hat k n
  have haddr' := haddr.congr hfds.symm
  have hrep := (h.dispatched ht hat k n).enqueueReplies htab haddr'
  rw [handleLine_eq]
  unfold applyCommandResult
  dsimp only
  split_ifs
  · refine hrep.notifyAndDisconnect (htab.enqueueReplies (htab.of_addressed haddr')) ?_ _
    rw [connections_enqueueReplies]
    exact hat.mem
  · exact hrep

/-- A write clears the bit when nothing is left, and changes neither otherwise. -/
theorem handleWrite (h : Wakeful s) (ht : Tables s) (hat : s.At fd p c) (k : Syscalls) :
    Wakeful (s.handleWrite k fd).2 := by
  set c' := (c.writeToSocket k.send).2 with hc'
  have hconn : (s.sent k fd p c).connections = s.connections := by
    unfold sent
    split_ifs <;> rfl
  have hpoll : (s.sent k fd p c).pollfds = s.pollfds := by
    unfold sent
    split_ifs <;> rfl
  have hobj : ∀ q : Addr, (s.sent k fd p c).objects[q]? =
      (s.setConnection p c').objects[q]? := by
    intro q
    unfold sent
    split_ifs <;> rfl
  have hkeep : c'.sendBuffer ≠ [] → c.sendBuffer ≠ [] := by
    simp only [hc', Connection.writeToSocket]
    split_ifs with he
    · exact id
    · exact id
    · exact fun _ => he
  have hfail : (c.writeToSocket k.send).1 = false → c'.sendBuffer = c.sendBuffer := by
    simp only [hc', Connection.writeToSocket]
    split_ifs
    · exact nofun
    · exact fun _ => rfl
    · exact nofun
  have hsame : (c'.sendBuffer ≠ [] ↔ c.sendBuffer ≠ []) → Wakeful (s.sent k fd p c) := by
    intro hiff
    refine h.update ht hat id c' ?_ hconn hobj fun events hw => ⟨?_, hw.input⟩
    · rw [hpoll]
      exact (modifyEvents_id fd s.pollfds).symm
    · rw [hiff]
      exact hw.output
  rw [handleWrite_eq hat]
  split_ifs with hw hpend
  · rw [Bool.not_eq_true'] at hw
    exact hsame (by rw [hfail hw])
  · refine h.update ht hat (· &&& ~~~POLLOUT) c' ?_ hconn hobj fun events hw => ⟨?_, ?_⟩
    · rw [disablePollout, hpoll]
    · simpa [Connection.hasPendingOutput] using hpend
    · rw [PollMask.has_clear_POLLIN]
      exact hw.input
  · have hne : c'.sendBuffer ≠ [] := by simpa [Connection.hasPendingOutput] using hpend
    exact hsame (iff_of_true hne (hkeep hne))

theorem acceptClient (h : Wakeful s) (ht : Tables s) {k : Syscalls} {cs : Accepted}
    (hcs : k.accept = some cs) (hnb : cs.nonBlocking = true)
    (hfresh : cs.fd ∉ openFds s.trace) : Wakeful (s.acceptClient k).2 := by
  have hnew : cs.fd ∉ s.pollfds.map (·.fd) := by
    rw [ht.polled, ← ht.opened]
    exact hfresh
  intro e he q d hd
  have hmem : e ∈ s.pollfds ∨ e = { fd := cs.fd, events := POLLIN } := by
    simpa [acceptClient_eq hcs hnb] using he
  rcases ht.at_acceptClient hcs hnb hd with ⟨hfd, rfl⟩ | ⟨hne, hd⟩
  · rcases hmem with hmem | rfl
    · exact absurd (hfd ▸ List.mem_map_of_mem hmem) hnew
    · exact ⟨by simp [POLLIN, POLLOUT, PollMask.has], by simp [POLLIN, PollMask.has]⟩
  · rcases hmem with hmem | rfl
    · exact h e hmem q d hd
    · exact absurd rfl hne

theorem move {g : Option Fd} (ht : Tables s) (h : Wakeful s) (hm : Move s g s') : Wakeful s' := by
  cases hm with
  | polled | tooLong => exact h.log _
  | ready revents =>
    refine h.congr (fun e he => ?_) fun _ _ d hd => ⟨d, ⟨hd.entry, hd.object⟩, rfl⟩
    obtain ⟨i, hi, rfl⟩ := List.mem_mapIdx.1 he
    exact ⟨_, List.getElem_mem hi, rfl, rfl⟩
  | accept hcs hnb hfresh => exact h.acceptClient ht hcs hnb hfresh
  | receive data hat =>
    refine (h.setConnection ht hat ?_).log _
    unfold Connection.readFromSocket
    split <;> rfl
  | activity now hat =>
    exact h.congr (fun e he => ⟨e, he, rfl, rfl⟩) fun _ _ d hd => ⟨d, ⟨hd.entry, hd.object⟩, rfl⟩
  | look hat => exact h.setConnection ht hat rfl
  | line k n hat => exact h.handleLine ht hat k n
  | write k hat => exact h.handleWrite ht hat k
  | disconnect reason hat => exact h.notifyAndDisconnect ht hat.mem reason

theorem start (listenFd : Fd) (password : Str) : Wakeful (.construct listenFd password) := by
  intro e _ p c hat
  have := hat.entry
  simp [construct, addFd, Server.log] at this

end Wakeful

theorem Reachable.wakeful {listenFd : Fd} {password : Str} {m : Machine}
    (h : Reachable listenFd password m) : Wakeful m.server :=
  h.invariant (.start listenFd password) Wakeful.move fun _ hI _ => hI.log _

/-- While the server runs, and so whenever it calls `poll`, the entry of a client asks for POLLOUT
if and only if there is something to send, and always asks for POLLIN. -/
theorem run_wakeups {listenFd : Fd} {password : Str} {m : Machine}
    (h : Reachable listenFd password m) (hrun : m.phase ≠ .stopped) {fd : Fd}
    (hfd : fd ∈ m.server.connections) :
    ∃ c, m.server.connection fd = some c ∧ (∃ e ∈ m.server.pollfds, e.fd = fd) ∧
      ∀ e ∈ m.server.pollfds, e.fd = fd →
        (e.events.has POLLOUT = true ↔ c.sendBuffer ≠ []) ∧ e.events.has POLLIN = true := by
  have ht := h.good.tables hrun
  obtain ⟨p, c, hat⟩ := ht.exists_at hfd
  refine ⟨c, hat.connection, ?_, fun e he hefd => ?_⟩
  · obtain ⟨e, he, hefd⟩ := List.mem_map.1 ((ht.polled fd).2 (.inr hfd))
    exact ⟨e, he, hefd⟩
  · subst hefd
    obtain ⟨ho, hi⟩ := h.wakeful e he p c hat
    exact ⟨ho, hi⟩

/-- The case of a client with a reply to be sent. -/
theorem run_wakeups_pending :
    let m := (Machine.start 3 (lit "pw")).run [.ready [POLLIN], .accepts 5, {}, {}, {},
      .ready [0, POLLIN], {}, .receives "PING x\r\n", {}, {}]
    m.phase = .poll ∧ ∃ c, m.server.connection 5 = some c ∧
      (∃ e ∈ m.server.pollfds, e.fd = 5) ∧ ∀ e ∈ m.server.pollfds, e.fd = 5 →
        (e.events.has POLLOUT = true ↔ c.sendBuffer ≠ []) ∧ e.events.has POLLIN = true := by
  intro m
  have hm : Reachable 3 (lit "pw") m := .run _ .start (by decide +kernel)
  exact ⟨by decide +kernel, run_wakeups hm (by decide +kernel) (by decide +kernel)⟩

end Ircserv
