import Ircserv.Proofs.Notice
import Ircserv.Server

/-!
# The server's tables

`Tables` says that the poll array, the connections, the registered clients, the health monitor and
the descriptors open agree. `At` is a connection that its entry leads to. Each operation of the
server keeps the tables.
-/

open Std

namespace Ircserv

/-- Whether an event, coming after `earlier`, only uses descriptors that are open, and is not a
fault. -/
def Event.Sound (earlier : List Event) : Event → Prop
  | .listen _ => earlier = []
  | .applied _ => True
  | .accept fd => fd ∉ openFds earlier
  | .poll fds => ∀ fd ∈ fds, fd ∈ openFds earlier
  | .recv fd _ | .tooLong fd | .line fd _ | .enqueue fd _ _ | .send fd _ _ | .disconnect fd _ _
  | .close fd => fd ∈ openFds earlier
  | .skip _ | .fault _ => False

/-- Every event of the trace was sound when it happened. -/
def Disciplined : List Event → Prop
  | [] => True
  | e :: earlier => e.Sound earlier ∧ Disciplined earlier

namespace Server

/-- The entry of `fd` leads to the connection `c`, which lives at `p`. -/
structure At (s : Server) (fd : Fd) (p : Addr) (c : Connection) : Prop where
  entry : s.connections[fd]? = some (some p)
  object : s.objects[p]? = some c

/-- The command on the next line, without its replies. -/
def dispatched (k : Syscalls) (fd : Fd) (p : Addr) (c : Connection) (n : Nat) (s : Server) :
    CommandResult × Server :=
  let popped := (s.setConnection p c.popLine.2).log (.line fd c.popLine.1)
  let handled := CommandDispatcher.dispatchWith (k.addr n) (k.time (n + 1)) fd
    (Parser.parse c.popLine.1) s.state (some s.healthMonitor)
  (handled.1, { popped with
    state := handled.2.1
    healthMonitor := handled.2.2.getD s.healthMonitor })

theorem handleLine_eq (k : Syscalls) (fd : Fd) (p : Addr) (c : Connection) (n : Nat) (s : Server) :
    s.handleLine k fd p c n = (!(s.dispatched k fd p c n).1.shouldDisconnect,
      (s.dispatched k fd p c n).2.applyCommandResult (s.dispatched k fd p c n).1 fd) := rfl

section Observables

variable (s : Server) (e : Event) (p : Addr) (c : Connection) (fd : Fd)

@[simp] theorem connections_log : (s.log e).connections = s.connections := rfl
@[simp] theorem objects_log : (s.log e).objects = s.objects := rfl
@[simp] theorem pollfds_log : (s.log e).pollfds = s.pollfds := rfl
@[simp] theorem state_log : (s.log e).state = s.state := rfl
@[simp] theorem healthMonitor_log : (s.log e).healthMonitor = s.healthMonitor := rfl
@[simp] theorem listenFd_log : (s.log e).listenFd = s.listenFd := rfl
@[simp] theorem trace_log : (s.log e).trace = e :: s.trace := rfl

@[simp] theorem connections_setConnection : (s.setConnection p c).connections = s.connections := rfl
@[simp] theorem pollfds_setConnection : (s.setConnection p c).pollfds = s.pollfds := rfl
@[simp] theorem state_setConnection : (s.setConnection p c).state = s.state := rfl
@[simp] theorem healthMonitor_setConnection :
    (s.setConnection p c).healthMonitor = s.healthMonitor := rfl
@[simp] theorem listenFd_setConnection : (s.setConnection p c).listenFd = s.listenFd := rfl
@[simp] theorem trace_setConnection : (s.setConnection p c).trace = s.trace := rfl

@[simp] theorem connections_enablePollout : (s.enablePollout fd).connections = s.connections := rfl
@[simp] theorem objects_enablePollout : (s.enablePollout fd).objects = s.objects := rfl
@[simp] theorem state_enablePollout : (s.enablePollout fd).state = s.state := rfl
@[simp] theorem healthMonitor_enablePollout :
    (s.enablePollout fd).healthMonitor = s.healthMonitor := rfl
@[simp] theorem listenFd_enablePollout : (s.enablePollout fd).listenFd = s.listenFd := rfl
@[simp] theorem trace_enablePollout : (s.enablePollout fd).trace = s.trace := rfl

@[simp] theorem getElem?_setConnection (q : Addr) : (s.setConnection p c).objects[q]? =
    if p = q then s.objects[q]?.map fun _ => c else s.objects[q]? := by
  simp only [setConnection, ExtTreeMap.getElem?_modify, Nat.compare_eq_eq]
  split_ifs with h
  · rw [h]
  · rfl

theorem map_fd_modifyEvents (fd : Fd) (f : PollMask → PollMask) : ∀ ps : List PollFd,
    (modifyEvents fd f ps).map (·.fd) = ps.map (·.fd)
  | [] => rfl
  | p :: ps => by
    unfold modifyEvents
    split_ifs
    · rfl
    · rw [List.map_cons, map_fd_modifyEvents fd f ps, List.map_cons]

theorem map_fd_removeFd (fd : Fd) : ∀ ps : List PollFd,
    (ps.eraseP (·.fd == fd)).map (·.fd) = (ps.map (·.fd)).erase fd
  | [] => rfl
  | p :: ps => by
    by_cases h : p.fd = fd
    · simp [h]
    · simp [h, map_fd_removeFd fd ps]

end Observables

section AtLemmas

variable {s : Server} {fd g : Fd} {p q : Addr} {c c' d : Connection}

theorem At.connection (h : s.At fd p c) : s.connection fd = some c := by
  simp [Server.connection, connectionAt, h.entry, h.object]

theorem At.mem (h : s.At fd p c) : fd ∈ s.connections := by
  rw [ExtTreeMap.mem_iff_isSome_getElem?, h.entry]
  rfl

theorem At.unique (h : s.At fd p c) (h' : s.At fd q d) : p = q ∧ c = d := by
  have hp : p = q := Option.some.inj (Option.some.inj (h.entry.symm.trans h'.entry))
  subst hp
  exact ⟨rfl, Option.some.inj (h.object.symm.trans h'.object)⟩

theorem At.setConnection (h : s.At fd p c) (c' : Connection) :
    (s.setConnection p c').At fd p c' := ⟨h.entry, by simp [h.object]⟩

theorem At.of_setConnection (h : s.At fd p c) (hd : (s.setConnection p c').At g q d) :
    p = q ∧ d = c' ∧ s.At g p c ∨ p ≠ q ∧ s.At g q d := by
  by_cases hpq : p = q
  · subst hpq
    have hobj := (h.setConnection c').object
    rw [hd.object] at hobj
    exact .inl ⟨rfl, Option.some.inj hobj, hd.entry, h.object⟩
  · exact .inr ⟨hpq, hd.entry, by simpa [hpq] using hd.object⟩

/-- What a disconnection does to every table. -/
theorem disconnectClient_eq (h : s.At fd p c) : s.disconnectClient fd =
    { s with
      pollfds := s.pollfds.eraseP (·.fd == fd)
      connections := s.connections.erase fd
      objects := s.objects.erase p
      state := s.state.removeClient fd
      healthMonitor := s.healthMonitor.removeClient fd
      trace := .close fd :: s.trace } := by
  simp [disconnectClient, removeFd, log, h.entry]

/-- What a new client does to every table. -/
theorem acceptClient_eq {k : Syscalls} {cs : Accepted} (hcs : k.accept = some cs)
    (hnb : cs.nonBlocking = true) : s.acceptClient k =
    (true, { s with
      pollfds := s.pollfds ++ [{ fd := cs.fd, events := POLLIN }]
      connections := s.connections.insert cs.fd (some (Heap.fresh s.objects (k.addr 0)))
      objects := s.objects.insert (Heap.fresh s.objects (k.addr 0)) { fd := cs.fd }
      state := s.state.addClient (k.addr 1) cs.fd cs.host
      trace := .accept cs.fd :: s.trace }) := by
  simp [acceptClient, addFd, log, hcs, hnb]

/-- Looking up an entry that is there changes nothing. -/
theorem insertIfNew_eq (h : fd ∈ s.connections) :
    s.connections.insertIfNew fd none = s.connections := by
  refine ExtTreeMap.ext_getElem? fun g => ?_
  rw [ExtTreeMap.getElem?_insertIfNew]
  split_ifs with hg
  · rw [Int.compare_eq_eq] at hg
    exact absurd (hg.1 ▸ h) hg.2
  · rfl

theorem enqueueReply_eq {m : OutgoingMessage} (h : s.At m.fd p c) :
    s.enqueueReply m = ((s.setConnection p (c.bufferSend m.message)).log
      (.enqueue m.fd m.message (c.bufferSend m.message).sendBuffer)).enablePollout m.fd := by
  simp [enqueueReply, connectionAt, h.entry, h.object]

/-- The socket write and its record. -/
def sent (k : Syscalls) (fd : Fd) (p : Addr) (c : Connection) (s : Server) : Server :=
  (if c.sendBuffer = [] then s else s.log (.send fd (c.sendBuffer.take k.send)
    (c.writeToSocket k.send).2.sendBuffer)).setConnection p (c.writeToSocket k.send).2

theorem handleWrite_eq {k : Syscalls} (h : s.At fd p c) :
    s.handleWrite k fd =
      if !(c.writeToSocket k.send).1 then (false, s.sent k fd p c)
      else if !(c.writeToSocket k.send).2.hasPendingOutput then
        (true, (s.sent k fd p c).disablePollout fd)
      else (true, s.sent k fd p c) := by
  simp only [handleWrite, insertIfNew_eq h.mem, h.entry, h.connection, Option.getD_some]
  rfl

end AtLemmas

section Enqueue

variable (s : Server) (m : OutgoingMessage) (r : CommandResult)

/-- A reply touches nothing but buffers, events and the trace. -/
theorem enqueueReply_frame : (s.enqueueReply m).connections = s.connections ∧
    (s.enqueueReply m).state = s.state ∧ (s.enqueueReply m).healthMonitor = s.healthMonitor ∧
    (s.enqueueReply m).listenFd = s.listenFd := by
  unfold enqueueReply
  split
  · exact ⟨rfl, rfl, rfl, rfl⟩
  · split <;> exact ⟨rfl, rfl, rfl, rfl⟩

theorem foldl_enqueueReply_frame : ∀ (ms : List OutgoingMessage) (s : Server),
    (ms.foldl enqueueReply s).connections = s.connections ∧
      (ms.foldl enqueueReply s).state = s.state ∧
      (ms.foldl enqueueReply s).healthMonitor = s.healthMonitor ∧
      (ms.foldl enqueueReply s).listenFd = s.listenFd
  | [], s => ⟨rfl, rfl, rfl, rfl⟩
  | m :: ms, s => by
    obtain ⟨h1, h2, h3, h4⟩ := foldl_enqueueReply_frame ms (s.enqueueReply m)
    obtain ⟨e1, e2, e3, e4⟩ := enqueueReply_frame s m
    exact ⟨h1.trans e1, h2.trans e2, h3.trans e3, h4.trans e4⟩

@[simp] theorem connections_enqueueReplies : (s.enqueueReplies r).connections = s.connections :=
  (foldl_enqueueReply_frame r.replies s).1

@[simp] theorem state_enqueueReplies : (s.enqueueReplies r).state = s.state :=
  (foldl_enqueueReply_frame r.replies s).2.1

@[simp] theorem healthMonitor_enqueueReplies :
    (s.enqueueReplies r).healthMonitor = s.healthMonitor :=
  (foldl_enqueueReply_frame r.replies s).2.2.1

@[simp] theorem listenFd_enqueueReplies : (s.enqueueReplies r).listenFd = s.listenFd :=
  (foldl_enqueueReply_frame r.replies s).2.2.2

end Enqueue

end Server

theorem ConnectionHealthMonitor.mem_modifyState (m : ConnectionHealthMonitor) (fd g : Fd)
    (now : Time) (f : HealthState → HealthState) :
    g ∈ (m.modifyState fd now f).clients ↔ fd = g ∨ g ∈ m.clients := by
  simp [modifyState, getOrCreateState, ExtTreeMap.mem_modify]

theorem CommandDispatcher.dispatchWith_health {addr p : Addr} {now : Time} {fd : Fd} {msg : Message}
    {s : ServerState} {m : Option ConnectionHealthMonitor}
    (hp : s.client.fdToClient[fd]? = some p) :
    (dispatchWith addr now fd msg s m).2.2 =
      if msg.command = lit "PONG" then (handlePong now fd msg (s.clientAt p) m).2 else m := by
  have hp' : s.getClientByFd fd = some p := hp
  simp only [dispatchWith, hp']
  split_ifs <;> rfl

/-- A command touches the health monitor at the sender's descriptor only. -/
theorem CommandDispatcher.mem_dispatchWith {addr p : Addr} {now : Time} {fd g : Fd} {msg : Message}
    {s : ServerState} {m : ConnectionHealthMonitor} (hp : s.client.fdToClient[fd]? = some p)
    (hg : g ∈ ((dispatchWith addr now fd msg s (some m)).2.2.getD m).clients) :
    fd = g ∨ g ∈ m.clients := by
  rw [dispatchWith_health hp] at hg
  split_ifs at hg
  · unfold handlePong at hg
    split at hg
    · exact .inr hg
    · exact (ConnectionHealthMonitor.mem_modifyState m fd g now _).1 hg
  · exact .inr hg

/-- The registry forgets the descriptor of a client that is removed. -/
theorem ServerState.fdToClient_removeClient {s : ServerState} (h : WellFormed s) {fd : Fd}
    (hfd : fd ∈ s.client.fdToClient) :
    (s.removeClient fd).client.fdToClient = s.client.fdToClient.erase fd := by
  have hp := ExtTreeMap.getElem?_eq_some_getElem hfd
  have hfds := (detached_spec h.links h.populated s.client.fdToClient[fd]).2.2.1.fds
  rw [removeClient_eq hp]
  simp only [ClientRegistry.removeClient, ClientRegistry.getClientByFd, hfds, hp]

theorem ServerState.mem_fdToClient_addClient (s : ServerState) (addr : Addr) (fd g : Fd)
    (host : Str) : g ∈ (s.addClient addr fd host).client.fdToClient ↔
      fd = g ∨ g ∈ s.client.fdToClient := by
  rcases hp : s.client.fdToClient[fd]? with _ | p
  all_goals simp only [addClient, ClientRegistry.addClient, ClientRegistry.getClientByFd, hp]
  · simp
  · refine ⟨.inr, ?_⟩
    rintro (rfl | hg)
    · rw [ExtTreeMap.mem_iff_isSome_getElem?, hp]
      rfl
    · exact hg

/-- The tables of the server agree, and its trace is sound. -/
structure Tables (s : Server) : Prop where
  wf : WellFormed s.state
  nodup : (s.pollfds.map (·.fd)).Nodup
  polled : ∀ fd, fd ∈ s.pollfds.map (·.fd) ↔ fd = s.listenFd ∨ fd ∈ s.connections
  listening : s.listenFd ∉ s.connections
  live : ∀ (fd : Fd) (conn : Option Addr), s.connections[fd]? = some conn →
    ∃ (p : Addr) (c : Connection), conn = some p ∧ s.objects[p]? = some c ∧ c.fd = fd
  known : ∀ fd, fd ∈ s.connections ↔ fd ∈ s.state.client.fdToClient
  monitored : ∀ fd ∈ s.healthMonitor.clients, fd ∈ s.connections
  opened : ∀ fd, fd ∈ openFds s.trace ↔ fd = s.listenFd ∨ fd ∈ s.connections
  disciplined : Disciplined s.trace

namespace Tables

open Server

variable {s s' : Server} {fd g : Fd} {p q : Addr} {c c' d : Connection}

theorem exists_at (h : Tables s) (hfd : fd ∈ s.connections) : ∃ p c, s.At fd p c := by
  have hconn := ExtTreeMap.getElem?_eq_some_getElem hfd
  obtain ⟨p, c, hp, hobj, -⟩ := h.live fd _ hconn
  exact ⟨p, c, hconn.trans (congrArg some hp), hobj⟩

theorem at_fd (h : Tables s) (hat : s.At fd p c) : c.fd = fd := by
  obtain ⟨q, d, hq, hobj, hd⟩ := h.live fd _ hat.entry
  cases hq
  rw [hat.object] at hobj
  cases hobj
  exact hd

/-- A descriptor leads to the connection that was updated, or to one that was not. -/
theorem at_setConnection (h : Tables s) (hat : s.At fd p c) (hd : (s.setConnection p c').At g q d) :
    fd = g ∧ d = c' ∨ fd ≠ g ∧ s.At g q d := by
  rcases hat.of_setConnection hd with ⟨rfl, rfl, hold⟩ | ⟨hpq, hold⟩
  · exact .inl ⟨(h.at_fd hat).symm.trans (h.at_fd hold), rfl⟩
  · refine .inr ⟨?_, hold⟩
    rintro rfl
    exact hpq (hat.unique hold).1

/-- Two descriptors do not share a connection. -/
theorem at_ne (h : Tables s) (hat : s.At fd p c) (hat' : s.At g q d) (hne : fd ≠ g) : p ≠ q := by
  rintro rfl
  have hc := Option.some.inj (hat.object.symm.trans hat'.object)
  exact hne ((h.at_fd hat).symm.trans (hc ▸ h.at_fd hat'))

theorem start (listenFd : Fd) (password : Str) : Tables (.construct listenFd password) where
  wf := .start password
  nodup := by simp [construct, addFd]
  polled := by simp [construct, addFd, log]
  listening := by simp [construct, addFd, log]
  live := by simp [construct, addFd, log]
  known := by simp [construct, addFd, log]
  monitored := by simp [construct, addFd, log]
  opened := by simp [construct, addFd, log, openFds]
  disciplined := by simp [construct, addFd, log, Disciplined, Event.Sound]

/-- A step that touches neither the connections nor the registered descriptors. -/
theorem congr (h : Tables s) (hwf : WellFormed s'.state)
    (hreg : s'.state.client.fdToClient = s.state.client.fdToClient)
    (hlisten : s'.listenFd = s.listenFd)
    (hfds : s'.pollfds.map (·.fd) = s.pollfds.map (·.fd))
    (hconn : s'.connections = s.connections)
    (hobj : ∀ (p : Addr) (c : Connection), s.objects[p]? = some c →
      ∃ c', s'.objects[p]? = some c' ∧ c'.fd = c.fd)
    (hhealth : ∀ fd ∈ s'.healthMonitor.clients, fd ∈ s.connections)
    (hopen : openFds s'.trace = openFds s.trace) (hdisc : Disciplined s'.trace) : Tables s' where
  wf := hwf
  nodup := by rw [hfds]; exact h.nodup
  polled := by rw [hfds, hlisten, hconn]; exact h.polled
  listening := by rw [hlisten, hconn]; exact h.listening
  live := by
    intro fd conn hfd
    rw [hconn] at hfd
    obtain ⟨p, c, rfl, hp, hc⟩ := h.live fd conn hfd
    obtain ⟨c', hp', hc'⟩ := hobj p c hp
    exact ⟨p, c', rfl, hp', hc'.trans hc⟩
  known := by rw [hconn, hreg]; exact h.known
  monitored := by rw [hconn]; exact hhealth
  opened := by rw [hopen, hlisten, hconn]; exact h.opened
  disciplined := hdisc

theorem mem_opened (h : Tables s) (hfd : fd ∈ s.connections) : fd ∈ openFds s.trace :=
  (h.opened fd).2 (.inr hfd)

theorem log (h : Tables s) {e : Event} (he : openFds (e :: s.trace) = openFds s.trace)
    (hs : e.Sound s.trace) : Tables (s.log e) :=
  h.congr h.wf rfl rfl rfl rfl (fun _ c hc => ⟨c, hc, rfl⟩) h.monitored he ⟨hs, h.disciplined⟩

theorem setConnection (h : Tables s) (hat : s.At fd p c) (hfd : c'.fd = c.fd) :
    Tables (s.setConnection p c') := by
  refine h.congr h.wf rfl rfl rfl rfl (fun q d hq => ?_) h.monitored rfl h.disciplined
  rw [getElem?_setConnection]
  split_ifs with hpq
  · subst hpq
    rw [hat.object] at hq
    cases hq
    exact ⟨c', by rw [hat.object]; rfl, hfd⟩
  · exact ⟨d, hq, rfl⟩

theorem setEvents (h : Tables s) (fd : Fd) (f : PollMask → PollMask) :
    Tables { s with pollfds := modifyEvents fd f s.pollfds } :=
  h.congr h.wf rfl rfl (map_fd_modifyEvents fd f s.pollfds) rfl (fun _ c hc => ⟨c, hc, rfl⟩)
    h.monitored rfl h.disciplined

theorem setRevents (h : Tables s) (revents : Nat → PollMask) :
    Tables { s with pollfds := s.pollfds.mapIdx fun i p => { p with revents := revents i } } := by
  refine h.congr h.wf rfl rfl ?_ rfl (fun _ c hc => ⟨c, hc, rfl⟩) h.monitored rfl h.disciplined
  refine List.ext_getElem? fun i => ?_
  simp [Function.comp_def]

theorem enqueueReply (h : Tables s) {m : OutgoingMessage} (hm : m.fd ∈ s.connections) :
    Tables (s.enqueueReply m) := by
  obtain ⟨p, c, hat⟩ := h.exists_at hm
  rw [enqueueReply_eq hat]
  have hset : Tables (s.setConnection p (c.bufferSend m.message)) := h.setConnection hat rfl
  have hlog := hset.log (e := .enqueue m.fd m.message (c.bufferSend m.message).sendBuffer) rfl
    (h.mem_opened hm)
  exact hlog.setEvents m.fd _

theorem foldl_enqueueReply : ∀ (ms : List OutgoingMessage) (s : Server), Tables s →
    (∀ m ∈ ms, m.fd ∈ s.connections) → Tables (ms.foldl Server.enqueueReply s)
  | [], _, h, _ => h
  | m :: ms, s, h, hms => by
    refine foldl_enqueueReply ms (s.enqueueReply m) (h.enqueueReply (hms m List.mem_cons_self)) ?_
    intro m' hm'
    rw [(enqueueReply_frame s m).1]
    exact hms m' (List.mem_cons_of_mem m hm')

theorem enqueueReplies (h : Tables s) {r : CommandResult}
    (hr : ∀ m ∈ r.replies, m.fd ∈ s.connections) : Tables (s.enqueueReplies r) :=
  (foldl_enqueueReply r.replies s h hr).log rfl trivial

theorem of_addressed (h : Tables s) {r : CommandResult} (hr : Addressed s.state r) :
    ∀ m ∈ r.replies, m.fd ∈ s.connections :=
  fun m hm => (h.known m.fd).2 (hr m hm).1

theorem updateActivity (h : Tables s) (hfd : fd ∈ s.connections) (now : Time) :
    Tables { s with healthMonitor := s.healthMonitor.updateActivity fd now } := by
  refine h.congr h.wf rfl rfl rfl rfl (fun _ c hc => ⟨c, hc, rfl⟩) (fun g hg => ?_) rfl
    h.disciplined
  rcases (ConnectionHealthMonitor.mem_modifyState _ fd g now _).1 hg with rfl | hg
  · exact hfd
  · exact h.monitored g hg

/-- The client of a descriptor that has a connection. -/
theorem exists_client (h : Tables s) (hfd : fd ∈ s.connections) :
    ∃ p, s.state.client.fdToClient[fd]? = some p :=
  ⟨_, ExtTreeMap.getElem?_eq_some_getElem ((h.known fd).1 hfd)⟩

theorem dispatched (h : Tables s) (hat : s.At fd p c) (k : Syscalls) (n : Nat) :
    Tables (s.dispatched k fd p c n).2 ∧
      Addressed s.state (s.dispatched k fd p c n).1 ∧
      (s.dispatched k fd p c n).2.state.client.fdToClient = s.state.client.fdToClient := by
  obtain ⟨q, hq⟩ := h.exists_client hat.mem
  have ho := CommandDispatcher.dispatchWith_outcome (k.addr n) (k.time (n + 1))
    (Parser.parse c.popLine.1) (some s.healthMonitor) hq
  have hpop : c.popLine.2.fd = c.fd := by
    unfold Connection.popLine
    split <;> rfl
  have hline := (h.setConnection hat hpop).log (e := .line fd c.popLine.1) rfl
    (h.mem_opened hat.mem)
  refine ⟨?_, ho.addressed h.wf hq, ho.ownData.fds⟩
  refine hline.congr (h.wf.dispatchWith _ _ _ _ _) ho.ownData.fds rfl rfl rfl
    (fun _ c hc => ⟨c, hc, rfl⟩) (fun g hg => ?_) rfl hline.disciplined
  rcases CommandDispatcher.mem_dispatchWith hq hg with rfl | hg
  · exact hat.mem
  · exact h.monitored g hg

theorem disconnectClient (h : Tables s) (hat : s.At fd p c) : Tables (s.disconnectClient fd) := by
  have hfd := hat.mem
  have hne : fd ≠ s.listenFd := fun he => h.listening (he ▸ hfd)
  set s' := s.disconnectClient fd with hs'
  have hconns : s'.connections = s.connections.erase fd := by
    rw [hs', disconnectClient_eq hat]
  have hobjs : s'.objects = s.objects.erase p := by
    rw [hs', disconnectClient_eq hat]
  have hstate : s'.state = s.state.removeClient fd := by
    rw [hs', disconnectClient_eq hat]
  have hfds : s'.pollfds.map (·.fd) = (s.pollfds.map (·.fd)).erase fd := by
    rw [← map_fd_removeFd]
    rw [hs', disconnectClient_eq hat]
  have hhealth : s'.healthMonitor = s.healthMonitor.removeClient fd := by
    rw [hs', disconnectClient_eq hat]
  have htrace : s'.trace = .close fd :: s.trace := by
    rw [hs', disconnectClient_eq hat]
  have hlisten : s'.listenFd = s.listenFd := by
    rw [hs', disconnectClient_eq hat]
  have hmem : ∀ g, g ∈ s'.connections ↔ fd ≠ g ∧ g ∈ s.connections := by
    intro g
    rw [hconns, ExtTreeMap.mem_erase, Ne, Int.compare_eq_eq]
  refine ⟨?_, ?_, fun g => ?_, ?_, fun g conn hg => ?_, fun g => ?_, fun g hg => ?_, fun g => ?_, ?_⟩
  · rw [hstate]
    exact h.wf.removeClient fd
  · rw [hfds]
    exact h.nodup.erase fd
  · rw [hfds, h.nodup.mem_erase_iff, h.polled, hmem, hlisten]
    constructor
    · rintro ⟨hg, rfl | hc⟩
      · exact .inl rfl
      · exact .inr ⟨hg.symm, hc⟩
    · rintro (rfl | ⟨hg, hc⟩)
      · exact ⟨hne.symm, .inl rfl⟩
      · exact ⟨hg.symm, .inr hc⟩
  · rw [hlisten, hmem]
    exact fun hl => h.listening hl.2
  · have hfg : fd ≠ g ∧ s.connections[g]? = some conn := by
      simp only [hconns, ExtTreeMap.getElem?_erase, Int.compare_eq_eq] at hg
      split_ifs at hg with he
      exact ⟨he, hg⟩
    obtain ⟨q, d, rfl, hobj, hd⟩ := h.live g conn hfg.2
    have hpq := h.at_ne hat ⟨hfg.2, hobj⟩ hfg.1
    refine ⟨q, d, rfl, ?_, hd⟩
    simp only [hobjs, ExtTreeMap.getElem?_erase, Nat.compare_eq_eq, if_neg hpq, hobj]
  · rw [hmem, hstate, ServerState.fdToClient_removeClient h.wf ((h.known fd).1 hfd),
      ExtTreeMap.mem_erase, Ne, Ne, Int.compare_eq_eq, h.known]
  · rw [hhealth, ConnectionHealthMonitor.removeClient, ExtTreeMap.mem_erase, Ne,
      Int.compare_eq_eq] at hg
    exact (hmem g).2 ⟨hg.1, h.monitored g hg.2⟩
  · rw [htrace, openFds, List.mem_filter, h.opened, hmem, hlisten]
    simp only [ne_eq, decide_not, Bool.not_eq_eq_eq_not, Bool.not_true, decide_eq_false_iff_not]
    constructor
    · rintro ⟨rfl | hc, hg⟩
      · exact .inl rfl
      · exact .inr ⟨Ne.symm hg, hc⟩
    · rintro (rfl | ⟨hg, hc⟩)
      · exact ⟨.inl rfl, hne.symm⟩
      · exact ⟨.inr hc, Ne.symm hg⟩
  · rw [htrace]
    exact ⟨h.mem_opened hfd, h.disciplined⟩

theorem logDisconnect (h : Tables s) (hfd : fd ∈ s.connections) (reason : Str) :
    Tables ((s.log (.disconnect fd reason s.state)).enqueueReplies
      (DisconnectNotifier.build fd reason s.state)) := by
  have hlog := h.log (e := .disconnect fd reason s.state) rfl (h.mem_opened hfd)
  exact hlog.enqueueReplies (hlog.of_addressed
    (DisconnectNotifier.build_addressed h.wf.links fd reason))

theorem at_logDisconnect (h : Tables s) (hfd : fd ∈ s.connections) (reason : Str) :
    ∃ p c, ((s.log (.disconnect fd reason s.state)).enqueueReplies
      (DisconnectNotifier.build fd reason s.state)).At fd p c := by
  refine (h.logDisconnect hfd reason).exists_at ?_
  rw [connections_enqueueReplies]
  exact hfd

theorem notifyAndDisconnect (h : Tables s) (hfd : fd ∈ s.connections) (reason : Str) :
    Tables (s.notifyAndDisconnect fd reason) := by
  obtain ⟨p, c, hat⟩ := h.at_logDisconnect hfd reason
  exact (h.logDisconnect hfd reason).disconnectClient hat

theorem handleLine (h : Tables s) (hat : s.At fd p c) (k : Syscalls) (n : Nat) :
    Tables (s.handleLine k fd p c n).2 := by
  obtain ⟨htab, haddr, hfds⟩ := h.dispatched hat k n
  rw [handleLine_eq]
  unfold applyCommandResult
  have hrep := htab.enqueueReplies (htab.of_addressed (haddr.congr hfds.symm))
  dsimp only
  split_ifs
  · refine hrep.notifyAndDisconnect ?_ _
    rw [connections_enqueueReplies]
    exact hat.mem
  · exact hrep

theorem handleWrite (h : Tables s) (hat : s.At fd p c) (k : Syscalls) :
    Tables (s.handleWrite k fd).2 := by
  have hfd : (c.writeToSocket k.send).2.fd = c.fd := by
    unfold Connection.writeToSocket
    split_ifs <;> rfl
  have hsent : Tables (s.sent k fd p c) := by
    unfold Server.sent
    split_ifs
    · exact h.setConnection hat hfd
    · have hlog := h.log (e := .send fd (c.sendBuffer.take k.send)
        (c.writeToSocket k.send).2.sendBuffer) rfl (h.mem_opened hat.mem)
      exact hlog.setConnection ⟨hat.entry, hat.object⟩ hfd
  rw [handleWrite_eq hat]
  split_ifs
  · exact hsent
  · exact hsent.setEvents fd _
  · exact hsent

theorem acceptClient (h : Tables s) {k : Syscalls} {cs : Accepted} (hcs : k.accept = some cs)
    (hnb : cs.nonBlocking = true) (hfresh : cs.fd ∉ openFds s.trace) :
    Tables (s.acceptClient k).2 := by
  have hnew : cs.fd ≠ s.listenFd ∧ cs.fd ∉ s.connections := by
    rw [h.opened, not_or] at hfresh
    exact hfresh
  set p := Heap.fresh s.objects (k.addr 0) with hp
  set s' := (s.acceptClient k).2 with hs'
  have hconns : s'.connections = s.connections.insert cs.fd (some p) := by
    rw [hs', acceptClient_eq hcs hnb]
  have hobjs : s'.objects = s.objects.insert p { fd := cs.fd } := by
    rw [hs', acceptClient_eq hcs hnb]
  have hstate : s'.state = s.state.addClient (k.addr 1) cs.fd cs.host := by
    rw [hs', acceptClient_eq hcs hnb]
  have hfds : s'.pollfds.map (·.fd) = s.pollfds.map (·.fd) ++ [cs.fd] := by
    rw [hs', acceptClient_eq hcs hnb, List.map_append]
    rfl
  have hhealth : s'.healthMonitor = s.healthMonitor := by
    rw [hs', acceptClient_eq hcs hnb]
  have htrace : s'.trace = .accept cs.fd :: s.trace := by
    rw [hs', acceptClient_eq hcs hnb]
  have hlisten : s'.listenFd = s.listenFd := by
    rw [hs', acceptClient_eq hcs hnb]
  have hmem : ∀ g, g ∈ s'.connections ↔ cs.fd = g ∨ g ∈ s.connections := by
    intro g
    rw [hconns, ExtTreeMap.mem_insert, Int.compare_eq_eq]
  refine ⟨?_, ?_, fun g => ?_, ?_, fun g conn hg => ?_, fun g => ?_, fun g hg => ?_, fun g => ?_, ?_⟩
  · rw [hstate]
    exact h.wf.addClient _ _ _
  · rw [hfds, List.nodup_append]
    refine ⟨h.nodup, List.nodup_singleton _, fun g hg e he => ?_⟩
    rintro rfl
    rw [List.mem_singleton] at he
    rw [he, h.polled] at hg
    exact hg.elim hnew.1 hnew.2
  · rw [hfds, List.mem_append, List.mem_singleton, h.polled, hmem, hlisten]
    tauto
  · rw [hlisten, hmem]
    rintro (he | hl)
    · exact hnew.1 he
    · exact h.listening hl
  · simp only [hconns, ExtTreeMap.getElem?_insert, Int.compare_eq_eq] at hg
    split_ifs at hg with he
    · cases hg
      exact ⟨p, { fd := cs.fd }, rfl, by simp [hobjs], he⟩
    · obtain ⟨q, d, rfl, hobj, hd⟩ := h.live g conn hg
      have hpq : p ≠ q := by
        rintro rfl
        exact Heap.fresh_not_mem s.objects (k.addr 0) (Heap.mem_of_getElem? hobj).1
      refine ⟨q, d, rfl, ?_, hd⟩
      simp only [hobjs, ExtTreeMap.getElem?_insert, Nat.compare_eq_eq, if_neg hpq, hobj]
  · rw [hmem, hstate, ServerState.mem_fdToClient_addClient, h.known]
  · rw [hhealth] at hg
    exact (hmem g).2 (.inr (h.monitored g hg))
  · rw [htrace, openFds, List.mem_cons, h.opened, hmem, hlisten]
    tauto
  · rw [htrace]
    exact ⟨hfresh, h.disciplined⟩

/-- After an `accept` there is a connection with empty buffers, and those that were there. -/
theorem at_acceptClient (h : Tables s) {k : Syscalls} {cs : Accepted} (hcs : k.accept = some cs)
    (hnb : cs.nonBlocking = true) (hat : (s.acceptClient k).2.At g q d) :
    cs.fd = g ∧ d = { fd := cs.fd } ∨ cs.fd ≠ g ∧ s.At g q d := by
  have hentry : (s.connections.insert cs.fd (some (Heap.fresh s.objects (k.addr 0))))[g]? =
      some (some q) := by
    simpa [acceptClient_eq hcs hnb] using hat.entry
  have hobj : (s.objects.insert (Heap.fresh s.objects (k.addr 0)) { fd := cs.fd })[q]? =
      some d := by
    simpa [acceptClient_eq hcs hnb] using hat.object
  simp only [ExtTreeMap.getElem?_insert, Int.compare_eq_eq, Nat.compare_eq_eq] at hentry hobj
  split_ifs at hentry with hg
  · cases hentry
    rw [if_pos rfl] at hobj
    cases hobj
    exact .inl ⟨hg, rfl⟩
  · obtain ⟨q', d', hq', hd', -⟩ := h.live g _ hentry
    cases hq'
    have hpq : Heap.fresh s.objects (k.addr 0) ≠ q := by
      rintro rfl
      exact Heap.fresh_not_mem s.objects (k.addr 0) (Heap.mem_of_getElem? hd').1
    rw [if_neg hpq] at hobj
    exact .inr ⟨hg, hentry, hobj⟩

/-- What is left after a disconnection was there before. -/
theorem at_disconnectClient (hat : s.At fd p c) (hat' : (s.disconnectClient fd).At g q d) :
    fd ≠ g ∧ s.At g q d := by
  have hconn : (s.connections.erase fd)[g]? = some (some q) := by
    simpa [disconnectClient_eq hat] using hat'.entry
  have hobj : (s.objects.erase p)[q]? = some d := by
    simpa [disconnectClient_eq hat] using hat'.object
  simp only [ExtTreeMap.getElem?_erase, Int.compare_eq_eq, Nat.compare_eq_eq] at hconn hobj
  split_ifs at hconn with hg
  split_ifs at hobj
  exact ⟨hg, hconn, hobj⟩

end Tables

end Ircserv
