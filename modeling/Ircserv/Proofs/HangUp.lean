import Ircserv.Proofs.Pings
import Ircserv.Proofs.Reads
import Ircserv.Proofs.Wakeups

/-!
# Hang-ups

One `recv` is made before a hang-up or a failing `send` is acted on. As long as none leaves a whole
line unread, every line a client sent was handed to the parser when the client is disconnected
(`run_hangUp`). No client ever times out, as the server asks none for a PONG.
-/

open Std

namespace Ircserv

open Framing Server

/-- No client is asked for a PONG. -/
def ConnectionHealthMonitor.NoPing (m : ConnectionHealthMonitor) : Prop :=
  ∀ (fd : Fd) (state : HealthState), m.clients[fd]? = some state → state.waitingForPong = false

namespace ConnectionHealthMonitor

variable {m : ConnectionHealthMonitor}

theorem NoPing.modifyState (h : m.NoPing) (fd : Fd) (now : Time) {f : HealthState → HealthState}
    (hf : ∀ state, state.waitingForPong = false → (f state).waitingForPong = false) :
    (m.modifyState fd now f).NoPing :=
  forall_modifyState h rfl hf

theorem NoPing.markPongReceived (h : m.NoPing) (fd : Fd) (token : Str) (now : Time) :
    (m.markPongReceived fd token now).NoPing := by
  refine h.modifyState fd now fun state hs => ?_
  dsimp only
  split_ifs
  · rfl
  · exact hs

theorem NoPing.removeClient (h : m.NoPing) (fd : Fd) : (m.removeClient fd).NoPing := by
  intro g state hg
  rw [ConnectionHealthMonitor.removeClient, ExtTreeMap.getElem?_erase] at hg
  split_ifs at hg
  exact h g state hg

theorem NoPing.collectTimedOutClients (h : m.NoPing) (now : Time) :
    m.collectTimedOutClients now = [] := by
  refine List.filter_eq_nil_iff.2 fun fd _ => ?_
  unfold hasTimedOut
  split
  · nofun
  · rename_i state hs
    rw [h fd state hs]
    nofun

end ConnectionHealthMonitor

namespace Server

theorem healthMonitor_notifyAndDisconnect (s : Server) (fd : Fd) (reason : Str) :
    (s.notifyAndDisconnect fd reason).healthMonitor = s.healthMonitor.removeClient fd := by
  have hclose : ∀ s : Server,
      (s.disconnectClient fd).healthMonitor = s.healthMonitor.removeClient fd := by
    intro s
    unfold disconnectClient removeFd
    dsimp only
    split <;> rfl
  refine (hclose _).trans ?_
  rw [healthMonitor_enqueueReplies, healthMonitor_log]

end Server

/-- There is something to send to the client, if it is there. -/
def Server.Owes (fd : Fd) (s : Server) : Prop := ∀ p c, s.At fd p c → c.sendBuffer ≠ []

namespace Server.Owes

variable {s s' : Server} {fd g : Fd} {p : Addr} {c c' : Connection}

/-- A step that leaves the connections alone. -/
theorem congr (h : s.Owes fd) (hconn : s'.connections = s.connections)
    (hobj : s'.objects = s.objects) : s'.Owes fd := by
  refine fun p c hat => h p c ⟨?_, ?_⟩
  · rw [← hconn]
    exact hat.entry
  · rw [← hobj]
    exact hat.object

theorem setConnection (h : s.Owes fd) (hat : s.At g p c)
    (hbuf : c.sendBuffer ≠ [] → c'.sendBuffer ≠ []) : (s.setConnection p c').Owes fd := by
  intro q d hd
  rcases hat.of_setConnection hd with ⟨rfl, rfl, hold⟩ | ⟨-, hold⟩
  · exact hbuf (h p c hold)
  · exact h q d hold

theorem enqueueReply (h : s.Owes fd) (ht : Tables s) {m : OutgoingMessage}
    (hm : m.fd ∈ s.connections) : (s.enqueueReply m).Owes fd := by
  obtain ⟨p, c, hat⟩ := ht.exists_at hm
  have hbuf : c.sendBuffer ≠ [] → (c.bufferSend m.message).sendBuffer ≠ [] := by
    simp +contextual [Connection.bufferSend]
  rw [enqueueReply_eq hat]
  exact (h.setConnection hat hbuf).congr rfl rfl

theorem foldl_enqueueReply : ∀ (ms : List OutgoingMessage) {s : Server}, s.Owes fd → Tables s →
    (∀ m ∈ ms, m.fd ∈ s.connections) → (ms.foldl Server.enqueueReply s).Owes fd
  | [], _, h, _, _ => h
  | m :: ms, s, h, ht, hms => by
    have hm := hms m List.mem_cons_self
    refine foldl_enqueueReply ms (h.enqueueReply ht hm) (ht.enqueueReply hm) fun m' hm' => ?_
    rw [(enqueueReply_frame s m).1]
    exact hms m' (List.mem_cons_of_mem m hm')

/-- A line that requests no disconnection. -/
theorem handleLine (h : s.Owes fd) (ht : Tables s) (hat : s.At fd p c) (k : Syscalls) (n : Nat)
    (hgo : (s.handleLine k fd p c n).1 = true) : (s.handleLine k fd p c n).2.Owes fd := by
  obtain ⟨htab, haddr, hfds⟩ := ht.dispatched hat k n
  have hpop : c.popLine.2.sendBuffer = c.sendBuffer := by
    unfold Connection.popLine
    split <;> rfl
  have hdisp : (s.dispatched k fd p c n).2.Owes fd :=
    (h.setConnection hat fun hne => hpop.symm ▸ hne).congr rfl rfl
  have hrep := foldl_enqueueReply (s.dispatched k fd p c n).1.replies hdisp htab
    (htab.of_addressed (haddr.congr hfds.symm))
  rw [handleLine_eq] at hgo ⊢
  rw [Bool.not_eq_true'] at hgo
  rw [applyCommandResult, hgo]
  exact hrep.congr rfl rfl

theorem handleLines (k : Syscalls) (fd : Fd) (p : Addr) :
    ∀ (fuel n : Nat) {s : Server} {c : Connection}, Tables s → s.At fd p c → s.Owes fd →
      (s.handleLines k fd p fuel n).1 = true → (s.handleLines k fd p fuel n).2.Owes fd
  | 0, _, _, _, _, _, h, _ => h
  | fuel + 1, n, s, c, ht, hat, h, hgo => by
    have hlook : Move s (some fd) (s.setConnection p c.hasCompleteLine.2) := .look hat
    have ht₁ := hlook.tables ht
    have hat₁ := hat.setConnection c.hasCompleteLine.2
    have h₁ : (s.setConnection p c.hasCompleteLine.2).Owes fd := h.setConnection hat id
    unfold Server.handleLines at hgo ⊢
    simp only [hat.object] at hgo ⊢
    cases hnl : c.hasCompleteLine.1 with
    | false =>
      simp only [Bool.not_false, if_true]
      exact h₁
    | true =>
      have hline : Move (s.setConnection p c.hasCompleteLine.2) (some fd) _ := .line k n hat₁ rfl hnl
      have ht₂ := hline.tables ht₁
      have hconn := connections_handleLine k n hat₁
      have h₂ := h₁.handleLine ht₁ hat₁ k n
      simp only [hnl, Bool.not_true, Bool.false_eq_true, if_false] at hgo ⊢
      generalize (s.setConnection p c.hasCompleteLine.2).handleLine k fd p c.hasCompleteLine.2 n
        = r at hgo ht₂ hconn h₂ ⊢
      obtain ⟨_ | _, s₁⟩ := r
      · cases hgo
      · have hentry : s₁.connections[fd]? = some (some p) := by
          rw [hconn]
          exact hat.entry
        obtain ⟨q, d, hq, hobj, -⟩ := ht₂.live fd _ hentry
        cases hq
        exact handleLines k fd p fuel (n + 1) ht₂ ⟨hentry, hobj⟩ (h₂ rfl) hgo

/-- Reading from a client that stays takes nothing off its send buffer. -/
theorem readBranch (h : s.Owes fd) (k : Syscalls) (ht : Tables s) (hfd : fd ∈ s.connections)
    (hgo : (s.readBranch k fd).1 = true) : (s.readBranch k fd).2.Owes fd := by
  obtain ⟨p, c, hat⟩ := ht.exists_at hfd
  have hrecv : Move s (some fd) _ := .receive k.recv hat
  have hbuf : (c.readFromSocket k.recv).2.sendBuffer = c.sendBuffer := by
    unfold Connection.readFromSocket
    split <;> rfl
  have hat₁ : ((s.setConnection p (c.readFromSocket k.recv).2).log (.recv fd k.recv)).At fd p
      (c.readFromSocket k.recv).2 :=
    ⟨hat.entry, (hat.setConnection (c.readFromSocket k.recv).2).object⟩
  have h₁ : (s.setConnection p (c.readFromSocket k.recv).2).Owes fd :=
    h.setConnection hat fun hne => hbuf.symm ▸ hne
  have hact : Move _ (some fd) _ := .activity (k.time 0) hat₁
  have hlines := handleLines k fd p ((c.readFromSocket k.recv).2.recvBuffer.length + 1) 0
    (hact.tables (hrecv.tables ht)) ⟨hat₁.entry, hat₁.object⟩ (h₁.congr rfl rfl)
  have hread : (s.handleRead k fd).1 = true → (s.handleRead k fd).2.Owes fd := by
    rw [handleRead_eq k hat]
    dsimp only
    split_ifs
    · nofun
    · nofun
    · exact hlines
  unfold Server.readBranch at hgo ⊢
  generalize s.handleRead k fd = r at hgo hread ⊢
  obtain ⟨_ | _, s₁⟩ := r
  · cases hgo
  · exact hread rfl

end Server.Owes

theorem Server.handleClient_hungUp (k : Syscalls) (s : Server) (fd : Fd) {rev : PollMask}
    (h : rev.has hangUp = true) : (s.handleClient k fd rev).1 = false := by
  have hhup : rev.has (POLLERR ||| POLLHUP ||| POLLNVAL) = true := h
  unfold handleClient
  generalize (if rev.has POLLIN then s.readBranch k fd else (true, s)) = r
  obtain ⟨_ | _, s₁⟩ := r
  · rfl
  · simp only [Bool.not_true, Bool.false_eq_true, if_false, hhup, if_true]
    generalize (if rev.has POLLOUT then s₁.writeBranch k fd else (true, s₁)) = r
    obtain ⟨_ | _, s₂⟩ := r <;> rfl

/-- A `send` that fails on what there is to send. -/
theorem Server.handleClient_unsent {k : Syscalls} {s : Server} {fd : Fd} {rev : PollMask}
    (ht : Tables s) (hfd : fd ∈ s.connections) (howes : s.Owes fd) (hout : rev.has POLLOUT = true)
    (hsend : k.send = 0) : (s.handleClient k fd rev).1 = false := by
  have hread : ∃ r, (if rev.has POLLIN then s.readBranch k fd else (true, s)) = r ∧
      (r.1 = true → Tables r.2 ∧ fd ∈ r.2.connections ∧ r.2.Owes fd) := by
    refine ⟨_, rfl, ?_⟩
    split_ifs
    · obtain ⟨hmoves, hgo⟩ := readBranch_moves k ht hfd
      exact fun h => ⟨hmoves.tables ht, hgo.1 h, howes.readBranch k ht hfd h⟩
    · exact fun _ => ⟨ht, hfd, howes⟩
  obtain ⟨⟨_ | _, s₁⟩, he, hkept⟩ := hread
  · unfold handleClient
    rw [he]
    rfl
  · obtain ⟨ht₁, hfd₁, howes₁⟩ := hkept rfl
    obtain ⟨p, c, hat⟩ := ht₁.exists_at hfd₁
    have hfail : (c.writeToSocket k.send).1 = false := by
      simp [Connection.writeToSocket, howes₁ p c hat, hsend]
    have hwrite : (s₁.writeBranch k fd).1 = false := by
      unfold writeBranch
      rw [handleWrite_eq hat, hfail]
      rfl
    unfold handleClient
    simp only [he, Bool.not_true, Bool.false_eq_true, if_false, hout, if_true]
    generalize s₁.writeBranch k fd = r at hwrite
    obtain ⟨_ | _, s₂⟩ := r
    · rfl
    · cases hwrite

/-- A client whose entry was handled with the answer that it does not stay is gone. -/
theorem Machine.step_gone {m : Machine} (hg : m.Good) (inp : Input) {e : PollFd}
    (he : e ∈ m.entry?) (hlisten : e.fd ≠ m.server.listenFd) (hrev : e.revents ≠ 0)
    (hgone : e.fd ∈ m.server.connections → Tables m.server →
      (m.server.handleClient inp.calls e.fd e.revents).1 = false) :
    e.fd ∉ (m.step inp).server.connections := by
  obtain ⟨s, phase⟩ := m
  cases phase with
  | poll | stopped | timeouts => cases he
  | scan i =>
    have ht : Tables s := hg.tables nofun
    have hentry : s.pollfds[i]? = some e := he
    have hmem : e.fd ∈ s.connections := by
      have hpoll := (ht.polled e.fd).1 (List.mem_map.2 ⟨e, List.mem_of_getElem? hentry, rfl⟩)
      exact hpoll.resolve_left hlisten
    obtain ⟨hi, -⟩ := List.getElem?_eq_some_iff.1 hentry
    have hserver : (Machine.step ⟨s, .scan i⟩ inp).server =
        (s.handleClient inp.calls e.fd e.revents).2 := by
      have hne : e.fd ≠ s.listenFd := hlisten
      dsimp only [Machine.step, Machine.scanStep]
      rw [if_pos hi]
      simp only [visit, hentry, hrev, hne, if_false]
    rw [hserver, ← (handleClient_moves inp.calls e.revents ht hmem).2, hgone hmem ht]
    nofun

theorem Move.noPing {s s' : Server} {o : Option Fd} (ht : Tables s) (h : s.healthMonitor.NoPing)
    (hm : Move s o s') : s'.healthMonitor.NoPing := by
  cases hm with
  | polled | ready | receive | tooLong | look => exact h
  | @accept k cs hcs hnb => simpa [acceptClient_eq hcs hnb] using h
  | activity now => exact h.modifyState _ now fun _ hs => hs
  | @line fd p c k n hat =>
    obtain ⟨q, hq⟩ := ht.exists_client hat.mem
    have hdisp : (s.dispatched k fd p c n).2.healthMonitor.NoPing := by
      simp only [dispatched, CommandDispatcher.dispatchWith_health hq]
      split_ifs
      · unfold CommandDispatcher.handlePong
        split_ifs
        · exact h
        · exact h.markPongReceived _ _ _
      · exact h
    rw [handleLine_eq]
    unfold applyCommandResult
    dsimp only
    split_ifs
    · rw [healthMonitor_notifyAndDisconnect, healthMonitor_enqueueReplies]
      exact hdisp.removeClient fd
    · rw [healthMonitor_enqueueReplies]
      exact hdisp
  | write k hat =>
    rw [handleWrite_eq hat]
    unfold sent
    split_ifs <;> exact h
  | disconnect reason hat =>
    rw [healthMonitor_notifyAndDisconnect]
    exact h.removeClient _

/-- No client times out. -/
theorem Reachable.no_timeouts {listenFd : Fd} {password : Str} {m : Machine}
    (h : Reachable listenFd password m) : ∀ fds, m.phase = .timeouts fds → fds = [] := by
  have hping : ∀ {m : Machine}, Reachable listenFd password m → m.server.healthMonitor.NoPing := by
    intro m h
    refine h.invariant (I := fun s => s.healthMonitor.NoPing) ?_ Move.noPing fun _ hI _ => hI
    intro fd state hs
    simp [construct, addFd, log] at hs
  induction h with
  | start =>
    intro fds hphase
    cases hphase
  | @step m inp hm hfresh ih =>
    intro fds hphase
    obtain ⟨s, phase⟩ := m
    cases phase with
    | poll =>
      dsimp only [Machine.step, Machine.pollStep] at hphase
      split at hphase
      · cases hphase
      · split at hphase
        · cases hphase
        · split_ifs at hphase
        · split_ifs at hphase
    | stopped => cases hphase
    | scan i =>
      dsimp only [Machine.step, Machine.scanStep] at hphase
      split_ifs at hphase with hi
      · generalize s.visit inp.calls i = r at hphase
        obtain ⟨_ | j, s₁⟩ := r <;> cases hphase
      · cases hphase
        exact (hping hm).collectTimedOutClients _
    | timeouts fds =>
      obtain rfl := ih fds rfl
      cases hphase

/-- Lines within the limit, none of them a QUIT, and no more than the limit after the last one. -/
structure WellSized (stream : Str) : Prop where
  lines : ∀ l ∈ lines lf stream, l.length ≤ Connection.maxOk ∧ isQuit (stripLine l) = false
  tail : (rest lf stream).length ≤ Connection.maxOk

/-- What came of such a stream so far is such a stream. -/
theorem WellSized.of_append {s t : Str} (h : WellSized (s ++ t)) : WellSized s := by
  obtain ⟨hlines, htail⟩ := h
  rw [lines_append] at hlines
  rw [rest_append] at htail
  refine ⟨fun l hl => hlines l (List.mem_append_left _ hl), ?_⟩
  refine Nat.le_trans (length_le_headD (not_mem_rest s) t) ?_
  rcases hl : Framing.lines lf (rest lf s ++ t) with _ | ⟨l, ls⟩
  · rw [rest_of_not_mem (lines_eq_nil_iff.1 hl)] at htail
    exact htail
  · exact (hlines l (by simp [hl])).1

namespace Socket.Gives

variable {socket : Socket} {data : Option Str}

theorem chunk_isPrefix (h : socket.Gives data) : (chunkOf data).flatten <+: socket.queue := by
  rcases data with _ | _ | ⟨a, data⟩
  · exact List.nil_prefix
  · exact List.nil_prefix
  · simpa [chunkOf] using h.1

/-- When nothing is received there was nothing to receive. -/
theorem queue_eq_nil (h : socket.Gives data) (hnil : chunkOf data = []) : socket.queue = [] := by
  rcases data with _ | _ | ⟨a, data⟩
  · exact h.1
  · exact h.1
  · cases hnil

end Socket.Gives

namespace Session

/-- What makes the server disconnect a client at its entry, whatever it reads there: a hang-up, or a
`send` that fails. -/
def Cuts (e : PollFd) (inp : Input) : Prop :=
  e.revents.has hangUp = true ∨ e.revents.has POLLOUT = true ∧ inp.calls.send = 0

instance (e : PollFd) (inp : Input) : Decidable (Cuts e inp) := inferInstanceAs (Decidable (_ ∨ _))

/-- When a hang-up or a failing `send` is acted on, `recv` has left no whole line unread. -/
def Drains (fd : Fd) (w : Session) : Act → Prop
  | .server inp => ∀ e ∈ w.machine.entry?, e.fd = fd → fd ≠ w.machine.server.listenFd →
      Cuts e inp → lf ∉ w.socket.queue.drop (w.machine.chunk inp fd).flatten.length
  | _ => True

instance (fd : Fd) (w : Session) : (act : Act) → Decidable (w.Drains fd act)
  | .server inp => inferInstanceAs (Decidable (∀ e ∈ w.machine.entry?, e.fd = fd →
      fd ≠ w.machine.server.listenFd → Cuts e inp →
        lf ∉ w.socket.queue.drop (w.machine.chunk inp fd).flatten.length))
  | .send _ | .close => inferInstanceAs (Decidable True)

/-- The entry that the next step handles reports a hang-up, or asks for output. -/
def AsksOutput (w : Session) : Prop :=
  ∀ e ∈ w.machine.entry?, e.revents.has hangUp = true ∨ e.events.has POLLOUT = true

variable {listenFd : Fd} {password : Str} {fd : Fd} {C C' : Session → Act → Prop}
  {w : Session}

theorem Reachable.machine (h : Reachable listenFd password fd C w) :
    Ircserv.Reachable listenFd password w.machine := by
  induction h with
  | start => exact .start
  | @step w act _ hallowed _ ih =>
    cases act with
    | send | close => exact ih
    | server inp => exact .step inp ih hallowed.1

theorem Reachable.mono (hC : ∀ w act, C w act → C' w act)
    (h : Reachable listenFd password fd C w) : Reachable listenFd password fd C' w := by
  induction h with
  | start => exact .start
  | step act _ hallowed hc ih => exact .step act ih hallowed (hC _ _ hc)

/-- `recv` takes its chunk off the front of the queue. -/
theorem chunk_prefix {inp : Input} (hallowed : w.Allowed fd (.server inp)) :
    (w.machine.chunk inp fd).flatten <+: w.socket.queue := by
  unfold Machine.chunk
  split
  · rename_i e he
    split_ifs with hc
    · exact (hallowed.2.2 e he hc.1 hc.2.2).chunk_isPrefix
    · exact List.nil_prefix
  · exact List.nil_prefix

/-- What was received and what is still unread is what was sent. -/
def Balanced (fd : Fd) (w : Session) : Prop :=
  (received fd w.machine.server.trace).flatten ++ w.socket.queue = w.socket.sent

/-- The read loop goes on through what was received of a well-sized stream. -/
theorem Balanced.going (h : Balanced fd w) (hsized : WellSized w.socket.sent) :
    (readingOf fd w.machine.server.trace).status = .going := by
  rw [← show _ = w.socket.sent from h] at hsized
  obtain ⟨hlines, htail⟩ := hsized.of_append
  exact Reading.readChunks_going fd _ (fun _ => ne_nil_of_mem_received) hlines htail

theorem Balanced.server (hreach : Ircserv.Reachable listenFd password w.machine)
    (h : Balanced fd w) {inp : Input} (hallowed : w.Allowed fd (.server inp)) :
    Balanced fd (w.step fd (.server inp)) := by
  have hrecv := (ReadStep.of_step hreach.good hallowed.1 (hreach.reads fd)).received
  obtain ⟨t, ht⟩ := chunk_prefix hallowed
  unfold Balanced step
  cases hacc : w.machine.accepts inp fd with
  | true =>
    rw [hacc] at hrecv
    simp [hrecv, hacc]
  | false =>
    rw [hacc] at hrecv
    simp only [hacc, Bool.false_eq_true, if_false] at hrecv ⊢
    rw [hrecv, List.flatten_append, List.append_assoc, ← show _ = w.socket.sent from h, ← ht,
      List.drop_left]

theorem Reachable.balanced (h : Reachable listenFd password fd C w) : Balanced fd w := by
  induction h with
  | start => rfl
  | @step w act hw hallowed _ ih =>
    cases act with
    | send data =>
      change _ ++ (w.socket.queue ++ data) = w.socket.sent ++ data
      rw [← List.append_assoc, ← show _ = w.socket.sent from ih]
      rfl
    | close => exact ih
    | server inp => exact ih.server hw.machine hallowed

/-- A client that is gone left no whole line unread. -/
theorem Reachable.drained (h : Reachable listenFd password fd (fun w act => w.Drains fd act) w)
    (hsized : WellSized w.socket.sent) (hout : fd ∉ w.machine.server.connections) :
    lf ∉ w.socket.queue := by
  induction h with
  | start => exact nofun
  | @step w act hw hallowed hdrains ih =>
    cases act with
    | send => exact absurd hallowed.1 hout
    | close => exact absurd hallowed hout
    | server inp =>
      have hreach := hw.machine
      have hbalanced := hw.balanced.server hreach hallowed
      have hstep := ReadStep.of_step hreach.good hallowed.1 (hreach.reads fd)
      cases hacc : w.machine.accepts inp fd with
      | true => simp [Session.step, hacc]
      | false =>
        have hsocket : (w.step fd (.server inp)).socket = { w.socket with
            queue := w.socket.queue.drop (w.machine.chunk inp fd).flatten.length } := by
          simp [Session.step, hacc]
        have hgoing : (readingOf fd (w.machine.step inp).server.trace).status = .going :=
          hbalanced.going hsized
        rw [hsocket] at hsized ⊢
        intro hlf
        have hqueue := List.mem_of_mem_drop hlf
        by_cases hin : fd ∈ w.machine.server.connections
        · rcases hstep.departed hin hout with ⟨e, he, hefd, hdep⟩ | ⟨fds, hfds⟩
          · have hlisten : fd ≠ w.machine.server.listenFd := by
              rintro rfl
              have hphase : w.machine.phase ≠ .stopped := fun hs => by
                simp [Machine.entry?, hs] at he
              exact (hreach.good.tables hphase).listening hin
            cases hdep with
            | unread hpoll hnil =>
              rw [(hallowed.2.2 e he hefd hpoll).queue_eq_nil hnil] at hqueue
              cases hqueue
            | stopped hst => exact hst hgoing
            | unsent hpoll hsend => exact hdrains e he hefd hlisten (.inr ⟨hpoll, hsend⟩) hlf
            | hungUp hhup => exact hdrains e he hefd hlisten (.inl hhup) hlf
          · cases hreach.no_timeouts _ hfds
        · exact ih hsized hin hqueue

/-- Where a whole line is left unread, the lines handed on are not all that were sent. -/
theorem Reachable.handedTo_ne_of_unread (h : Reachable listenFd password fd C w)
    (hlf : lf ∈ w.socket.queue) :
    handedTo fd w.machine.server.trace ≠ (lines lf w.socket.sent).map stripLine := by
  have hf : Reading.Follows isQuit (readingOf fd w.machine.server.trace) _ :=
    .readChunks _ fd (received fd w.machine.server.trace) fun _ => ne_nil_of_mem_received
  have hbalanced : _ = w.socket.sent := h.balanced
  obtain ⟨ls, hls, hhanded⟩ := hf.handed
  intro he
  rw [(h.machine.reads fd).handed, hhanded, ← hbalanced, lines_append] at he
  have hlen := congrArg List.length he
  rw [List.length_map, List.length_map, List.length_append] at hlen
  have hle := hls.length_le
  have hnil : lines lf (rest lf (received fd w.machine.server.trace).flatten ++
      w.socket.queue) = [] := List.length_eq_zero_iff.1 (by omega)
  exact lines_eq_nil_iff.1 hnil (List.mem_append_right _ hlf)

/-- After a hang-up or a failing `send` the client is gone. -/
theorem Reachable.gone_of_cuts (h : Reachable listenFd password fd C w) {inp : Input} {e : PollFd}
    (he : e ∈ w.machine.entry?) (hlisten : e.fd ≠ w.machine.server.listenFd) (hcuts : Cuts e inp)
    (hasks : w.AsksOutput) : e.fd ∉ (w.machine.step inp).server.connections := by
  have hrev : e.revents ≠ 0 := by
    intro h0
    rw [Cuts, h0] at hcuts
    rcases hcuts with hhup | ⟨hout, -⟩
    · cases hhup
    · cases hout
  refine Machine.step_gone h.machine.good inp he hlisten hrev fun hmem ht => ?_
  by_cases hhup : e.revents.has hangUp = true
  · exact handleClient_hungUp inp.calls _ e.fd hhup
  · obtain ⟨hout, hsend⟩ := hcuts.resolve_left hhup
    -- output was asked for, so there is some
    have hpoll : e ∈ w.machine.server.pollfds := by
      rw [Option.mem_def, Machine.entry?] at he
      split at he
      · exact List.mem_of_getElem? he
      · cases he
    have howes : w.machine.server.Owes e.fd := fun p c hat =>
      (h.machine.wakeful e hpoll p c hat).output.1 ((hasks e he).resolve_left hhup)
    exact handleClient_unsent ht hmem howes hout hsend

/-- A step that acts on a hang-up or a failing `send` with a whole line unread disconnects the
client without having handed the line on. -/
theorem Reachable.not_drained (h : Reachable listenFd password fd C w) {act : Act}
    (hallowed : w.Allowed fd act) (hnot : ¬ w.Drains fd act) (hasks : w.AsksOutput) :
    fd ∉ (w.step fd act).machine.server.connections ∧
      handedTo fd (w.step fd act).machine.server.trace ≠
        (lines lf (w.step fd act).socket.sent).map stripLine := by
  obtain ⟨inp, rfl⟩ : ∃ inp, act = .server inp := by
    cases act with
    | server inp => exact ⟨inp, rfl⟩
    | send | close => exact absurd trivial hnot
  simp only [Drains, not_forall, not_not, exists_prop] at hnot
  obtain ⟨e, he, rfl, hlisten, hcuts, hlf⟩ := hnot
  have hnext : Reachable listenFd password e.fd (fun _ _ => True) (w.step e.fd (.server inp)) :=
    .step _ (h.mono fun _ _ _ => trivial) hallowed trivial
  have hacc : w.machine.accepts inp e.fd = false := by
    have he' : w.machine.entry? = some e := he
    unfold Machine.accepts
    rw [he']
    split
    · rename_i e' cs heq hcs
      cases heq
      simp [hlisten]
    · rfl
  refine ⟨h.gone_of_cuts he hlisten hcuts hasks, hnext.handedTo_ne_of_unread ?_⟩
  simp only [Session.step, hacc, Bool.false_eq_true, if_false]
  exact hlf

end Session

/-- In every run of the server with a client that sends well-sized lines and no QUIT, in which no
hang-up and no failing `send` is acted on with a whole line still unread: when the client is
disconnected, all of its lines were handed to the parser. A step that acts on one of them with a
whole line unread disconnects the client without having handed it on, as `poll` reports output only
where it is asked for. -/
theorem run_hangUp {listenFd : Fd} {password : Str} {fd : Fd} {w : Session}
    (h : Session.Reachable listenFd password fd (fun w act => w.Drains fd act) w)
    (hsized : WellSized w.socket.sent) :
    (fd ∉ w.machine.server.connections →
      handedTo fd w.machine.server.trace = (lines lf w.socket.sent).map stripLine) ∧
    ∀ act, w.Allowed fd act → ¬ w.Drains fd act → w.AsksOutput →
      fd ∉ (w.step fd act).machine.server.connections ∧
        handedTo fd (w.step fd act).machine.server.trace ≠
          (lines lf (w.step fd act).socket.sent).map stripLine := by
  have hreach := h.machine
  refine ⟨fun hout => ?_, fun act => h.not_drained⟩
  have hbalanced : _ = w.socket.sent := h.balanced
  have hgoing := h.balanced.going hsized
  have hf : Reading.Follows isQuit (readingOf fd w.machine.server.trace) _ :=
    .readChunks _ fd (received fd w.machine.server.trace) fun _ => ne_nil_of_mem_received
  have hunread : lf ∉ rest lf (received fd w.machine.server.trace).flatten ++ w.socket.queue := by
    rw [List.mem_append, not_or]
    exact ⟨not_mem_rest _, h.drained hsized hout⟩
  rw [(hreach.reads fd).handed, hf.lines hgoing, ← hbalanced, lines_append,
    lines_of_not_mem hunread, List.append_nil]

/-- What happens until the reply to the one line of a client can be sent. -/
def afterPing : List Act :=
  [.server (.ready [POLLIN]), .server (.accepts 5), .server {}, .server {}, .server {},
    .send (lit "PING x\r\n"), .server (.ready [0, POLLIN]), .server {},
    .server (.receives "PING x\r\n"), .server {}, .server {}]

/-- The client closes, and the hang-up is reported with the end of the stream. -/
def afterClose : Session := (Session.start 3 (lit "pw")).run 5 (afterPing ++
  [.close, .server (.ready [0, POLLIN ||| POLLHUP]), .server {}, .server (.receives "")])

/-- The client sends another line, which is read in the step in which `send` fails. -/
def afterUnsent : Session := (Session.start 3 (lit "pw")).run 5 (afterPing ++
  [.send (lit "PING y\r\n"), .server (.ready [0, POLLIN ||| POLLOUT]), .server {},
    .server (.receives "PING y\r\n")])

/-- The cases of these two disconnections. -/
theorem run_hangUp_drained :
    ((5 : Fd) ∉ afterClose.machine.server.connections ∧
      handedTo 5 afterClose.machine.server.trace = [lit "PING x"]) ∧
    (5 : Fd) ∉ afterUnsent.machine.server.connections ∧
      handedTo 5 afterUnsent.machine.server.trace = [lit "PING x", lit "PING y"] := by
  have hclose : Session.Reachable 3 (lit "pw") 5 (fun w act => w.Drains 5 act) afterClose :=
    .run _ .start (by decide +kernel)
  have hunsent : Session.Reachable 3 (lit "pw") 5 (fun w act => w.Drains 5 act) afterUnsent :=
    .run _ .start (by decide +kernel)
  have hgone : (5 : Fd) ∉ afterClose.machine.server.connections ∧
      (5 : Fd) ∉ afterUnsent.machine.server.connections := by decide +kernel
  have hlines := (run_hangUp hclose ⟨by decide +kernel, by decide +kernel⟩).1 hgone.1
  have hlines' := (run_hangUp hunsent ⟨by decide +kernel, by decide +kernel⟩).1 hgone.2
  exact ⟨⟨hgone.1, hlines.trans (by decide +kernel)⟩, hgone.2, hlines'.trans (by decide +kernel)⟩

/-- What happens until the entry of a client that sent `data` and closed is handled. -/
def closedAfter (data : Str) : List Act :=
  [.server (.ready [POLLIN]), .server (.accepts 5), .server {}, .server {}, .server {}, .send data,
    .close, .server (.ready [0, POLLIN ||| POLLHUP]), .server {}]

/-- Nine lines of 512 bytes. -/
def nineLines : Str := (List.replicate 9 (List.replicate 511 97 ++ [lf])).flatten

/-- The hang-up is reported together with the input, and one `recv` does not take it all. -/
theorem hangUp_unread : ¬ ∀ w, Session.Reachable 3 (lit "pw") 5 (fun _ _ => True) w →
    WellSized w.socket.sent → (5 : Fd) ∉ w.machine.server.connections →
      handedTo 5 w.machine.server.trace = (lines lf w.socket.sent).map stripLine := by
  intro hall
  set w := (Session.start 3 (lit "pw")).run 5 (closedAfter nineLines) with hw
  set inp : Input := { calls := { recv := some (nineLines.take 4097) } } with hinp
  have hsocket : w.socket = ⟨nineLines, true, nineLines⟩ := rfl
  have hreach : Session.Reachable 3 (lit "pw") 5 (fun _ _ => True) w :=
    .run _ .start (by decide +kernel)
  have hentry : w.machine.entry? = some ⟨5, POLLIN, POLLIN ||| POLLHUP⟩ := by decide +kernel
  have hallowed : w.Allowed 5 (.server inp) := by
    refine ⟨by decide +kernel, by decide +kernel, fun e he _ _ => ?_⟩
    rw [hsocket]
    have htaken : nineLines.take 4097 <+: nineLines := List.take_prefix _ _
    exact ⟨htaken, by decide +kernel⟩
  have hnext : Session.Reachable 3 (lit "pw") 5 (fun _ _ => True) (w.step 5 (.server inp)) :=
    .step _ hreach hallowed trivial
  have hasks : w.AsksOutput := by
    intro e he
    rw [hentry] at he
    cases he
    exact .inl (by decide)
  obtain ⟨hgone, hlost⟩ := hreach.not_drained hallowed (by decide +kernel) hasks
  refine hlost (hall _ hnext ?_ hgone)
  have hacc : w.machine.accepts inp 5 = false := by decide +kernel
  simp only [Session.step, hacc, hsocket, Bool.false_eq_true, if_false]
  exact ⟨by decide +kernel, by decide +kernel⟩

end Ircserv
