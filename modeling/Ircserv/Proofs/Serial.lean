import Ircserv.Serial
import Ircserv.Proofs.Streams
import Ircserv.Proofs.Reuse
import Ircserv.Proofs.Views

/-!
# A run of the server is a sequence of turns

Everything the server does between two calls of `poll` is some turns, one after another (`Plays`):
a line is a command, and a disconnection is a departure. So the state of the server, the replies it
has enqueued and the order of what happened are those of one list of turns (`run_serial`), in which
the commands of each client are the lines its bytes are cut into.
-/

open Std

namespace Ircserv

open Server

/-- An event that no turn accounts for. -/
def Event.Idle (e : Event) : Prop := e.mark? = none ∧ e.reply? = none

namespace Server

variable {s s' s'' : Server} {fd : Fd} {p : Addr} {c : Connection} {turns more : List Turn}

/-- Between the two states these turns were played; nobody arrived. -/
structure Plays (turns : List Turn) (s s' : Server) : Prop where
  state : s'.state = s.state.play turns
  trace : ∃ es, s'.trace = es ++ s.trace ∧
    es.reverse.filterMap Event.mark? = turns.map Turn.mark ∧
    es.reverse.filterMap Event.reply? = s.state.traffic turns
  kept : ∀ fd ∈ s'.connections, fd ∈ s.connections ∧ ∀ t ∈ turns, t.isDepartureOf fd = false
  clients : ∀ t ∈ turns, t.Real ∧ ∀ fd, t.mark ≠ .arrived fd

namespace Plays

/-- Nothing happened that a turn accounts for. -/
theorem idle (es : List Event) (hstate : s'.state = s.state) (htrace : s'.trace = es ++ s.trace)
    (hidle : ∀ e ∈ es, e.Idle) (hconn : s'.connections = s.connections) : Plays [] s s' := by
  refine ⟨hstate, ⟨es, htrace, ?_, ?_⟩, fun fd hfd => ⟨hconn ▸ hfd, by simp⟩, by simp⟩
  · exact List.filterMap_eq_nil_iff.2 fun e he => (hidle e (List.mem_reverse.1 he)).1
  · exact List.filterMap_eq_nil_iff.2 fun e he => (hidle e (List.mem_reverse.1 he)).2

theorem same (hstate : s'.state = s.state) (htrace : s'.trace = s.trace)
    (hconn : s'.connections = s.connections) : Plays [] s s' :=
  idle [] hstate htrace (by simp) hconn

theorem log {e : Event} (he : e.Idle) : Plays [] s (s.log e) :=
  idle [e] rfl rfl (by simpa using he) rfl

theorem trans (h : Plays turns s s') (h' : Plays more s' s'') : Plays (turns ++ more) s s'' := by
  obtain ⟨es, htr, hmarks, hreplies⟩ := h.trace
  obtain ⟨es', htr', hmarks', hreplies'⟩ := h'.trace
  refine ⟨?_, ⟨es' ++ es, ?_, ?_, ?_⟩, fun fd hfd => ?_, fun t ht => ?_⟩
  · rw [h'.state, h.state, ServerState.play_append]
  · rw [htr', htr, List.append_assoc]
  · rw [List.reverse_append, List.filterMap_append, hmarks, hmarks', List.map_append]
  · rw [List.reverse_append, List.filterMap_append, hreplies, hreplies', h.state,
      ServerState.traffic_append]
  · obtain ⟨hfd', hstays'⟩ := h'.kept fd hfd
    obtain ⟨hfd, hstays⟩ := h.kept fd hfd'
    exact ⟨hfd, fun t ht => (List.mem_append.1 ht).elim (hstays t) (hstays' t)⟩
  · exact (List.mem_append.1 ht).elim (h.clients t) (h'.clients t)

end Plays

/-- The replies of a result are enqueued, and nothing else is recorded. -/
theorem enqueued_marks {es : List Event} {ms : List OutgoingMessage}
    (h : es.reverse.map Event.reply? = ms.map some) :
    es.reverse.filterMap Event.mark? = [] ∧ es.reverse.filterMap Event.reply? = ms := by
  refine ⟨List.filterMap_eq_nil_iff.2 fun e he => ?_, ?_⟩
  · obtain ⟨g, message, buffer, rfl⟩ := mem_replies h (List.mem_reverse.1 he)
    rfl
  · have hid : (es.reverse.map Event.reply?).filterMap id = ms := by
      rw [h, List.filterMap_map]
      exact List.filterMap_some
    rwa [List.filterMap_map] at hid

/-- The replies that are enqueued stand in the trace in their order. -/
theorem enqueueReplies_replies (ht : Tables s) {r : CommandResult}
    (hr : ∀ m ∈ r.replies, m.fd ∈ s.connections) :
    ∃ es, (s.enqueueReplies r).trace = es ++ s.trace ∧
      es.reverse.filterMap Event.mark? = [] ∧ es.reverse.filterMap Event.reply? = r.replies := by
  obtain ⟨es, htr, hes⟩ := enqueueReplies_trace ht hr
  obtain ⟨hmarks, hreplies⟩ := enqueued_marks hes
  refine ⟨.applied r :: es, htr, ?_, ?_⟩
  · rw [List.reverse_cons, List.filterMap_append, hmarks]
    rfl
  · rw [List.reverse_cons, List.filterMap_append, hreplies]
    exact List.append_nil _

/-- A disconnection is a departure. -/
theorem notifyAndDisconnect_plays (ht : Tables s) (hfd : fd ∈ s.connections) (reason : Str) :
    Plays [.depart fd reason] s (s.notifyAndDisconnect fd reason) := by
  have hlog := ht.log (e := .disconnect fd reason s.state) rfl (ht.mem_opened hfd)
  obtain ⟨es, htr, hmarks, hreplies⟩ := enqueueReplies_replies hlog
    (hlog.of_addressed (DisconnectNotifier.build_addressed ht.wf.links fd reason))
  obtain ⟨p, c, hat⟩ := ht.at_logDisconnect hfd reason
  have hrev : (Event.close fd :: (es ++ [.disconnect fd reason s.state])).reverse =
      .disconnect fd reason s.state :: (es.reverse ++ [.close fd]) := by simp
  have hclose : s.notifyAndDisconnect fd reason =
      ((s.log (.disconnect fd reason s.state)).enqueueReplies
        (DisconnectNotifier.build fd reason s.state)).disconnectClient fd := rfl
  refine ⟨?_, ⟨.close fd :: (es ++ [.disconnect fd reason s.state]), ?_, ?_, ?_⟩,
    fun g hg => ?_, ?_⟩
  · rw [hclose, disconnectClient_eq hat]
    simp [ServerState.play, ServerState.act, Turn.action]
  · rw [hclose, trace_disconnectClient hat.mem, htr]
    simp
  · rw [hrev, List.filterMap_cons_none rfl, List.filterMap_append, hmarks]
    rfl
  · rw [hrev, List.filterMap_cons_none rfl, List.filterMap_append, hreplies]
    rfl
  · rw [connections_notifyAndDisconnect hfd, ExtTreeMap.mem_erase, Ne, Int.compare_eq_eq] at hg
    exact ⟨hg.2, by simpa [Turn.isDepartureOf] using hg.1⟩
  · simp [Turn.Real, Turn.mark]

/-- A line is a command, and after a QUIT a departure. -/
theorem handleLine_plays (k : Syscalls) (n : Nat) (ht : Tables s) (hat : s.At fd p c) :
    ∃ turns, Plays turns s (s.handleLine k fd p c n).2 := by
  obtain ⟨htab, haddr, hfds⟩ := ht.dispatched hat k n
  have haddr' := htab.of_addressed (haddr.congr hfds.symm)
  obtain ⟨es, htr, hmarks, hreplies⟩ := enqueueReplies_replies htab haddr'
  have hcommand : Plays [.command (k.addr n) (k.time (n + 1)) fd (Parser.parse c.popLine.1)
      (some s.healthMonitor)] s
      ((s.dispatched k fd p c n).2.enqueueReplies (s.dispatched k fd p c n).1) := by
    refine ⟨?_, ⟨es ++ [.line fd c.popLine.1], ?_, ?_, ?_⟩, fun g hg => ?_, ?_⟩
    · rw [state_enqueueReplies]
      rfl
    · rw [htr]
      simp [dispatched]
    · rw [List.reverse_append, List.filterMap_append, hmarks]
      rfl
    · rw [List.reverse_append, List.filterMap_append, hreplies]
      exact (List.append_nil _).symm
    · rw [connections_enqueueReplies] at hg
      exact ⟨hg, by simp [Turn.isDepartureOf]⟩
    · simp [Turn.Real, Turn.mark]
  rw [handleLine_eq]
  unfold applyCommandResult
  dsimp only
  split_ifs
  · refine ⟨_, hcommand.trans (notifyAndDisconnect_plays (htab.enqueueReplies haddr') ?_ _)⟩
    rw [connections_enqueueReplies]
    exact hat.mem
  · exact ⟨_, hcommand⟩

theorem handleLines_plays (k : Syscalls) (fd : Fd) (p : Addr) : ∀ (fuel n : Nat) (s : Server)
    (c : Connection), Tables s → s.At fd p c →
    ∃ turns, Plays turns s (s.handleLines k fd p fuel n).2
  | 0, _, _, _, _, _ => ⟨[], .same rfl rfl rfl⟩
  | fuel + 1, n, s, c, ht, hat => by
    have ht₁ : Tables (s.setConnection p c.hasCompleteLine.2) := ht.setConnection hat rfl
    have hat₁ := hat.setConnection c.hasCompleteLine.2
    have hlook : Plays [] s (s.setConnection p c.hasCompleteLine.2) := .same rfl rfl rfl
    obtain ⟨turns, hline⟩ := handleLine_plays k n ht₁ hat₁
    have ht₂ := ht₁.handleLine hat₁ k n
    have hconn := connections_handleLine k n hat₁
    unfold handleLines
    simp only [hat.object]
    generalize (s.setConnection p c.hasCompleteLine.2).handleLine k fd p c.hasCompleteLine.2 n
      = r at hline hconn ht₂
    obtain ⟨going, s₁⟩ := r
    split_ifs with hdone hgo
    · exact ⟨_, hlook⟩
    · exact ⟨_, hlook.trans hline⟩
    · have hentry : s₁.connections[fd]? = some (some p) := by
        rw [hconn, if_pos (by simpa using hgo)]
        exact hat.entry
      obtain ⟨q, d, hq, hobj, -⟩ := ht₂.live fd _ hentry
      cases hq
      obtain ⟨more, hrest⟩ := handleLines_plays k fd p fuel (n + 1) s₁ d ht₂ ⟨hentry, hobj⟩
      exact ⟨_, (hlook.trans hline).trans hrest⟩

theorem handleRead_plays (k : Syscalls) (ht : Tables s) (hat : s.At fd p c) :
    ∃ turns, Plays turns s (s.handleRead k fd).2 := by
  have hmove : Move s (some fd) _ := .receive k.recv hat
  have ht₁ := hmove.tables ht
  have hat₁ : ((s.setConnection p (c.readFromSocket k.recv).2).log (.recv fd k.recv)).At fd p
      (c.readFromSocket k.recv).2 :=
    ⟨hat.entry, (hat.setConnection (c.readFromSocket k.recv).2).object⟩
  have hrecv : Plays [] s ((s.setConnection p (c.readFromSocket k.recv).2).log (.recv fd k.recv)) :=
    .idle [.recv fd k.recv] rfl rfl (by simp [Event.Idle, Event.mark?, Event.reply?]) rfl
  rw [handleRead_eq k hat]
  generalize (s.setConnection p (c.readFromSocket k.recv).2).log (.recv fd k.recv) = s₁ at *
  dsimp only
  split_ifs
  · exact ⟨_, hrecv⟩
  · exact ⟨_, hrecv.trans (.log ⟨rfl, rfl⟩)⟩
  · have hactive : Plays [] s₁
        { s₁ with healthMonitor := s₁.healthMonitor.updateActivity fd (k.time 0) } :=
      .same rfl rfl rfl
    obtain ⟨turns, hlines⟩ := handleLines_plays k fd p
      ((c.readFromSocket k.recv).2.recvBuffer.length + 1) 0 _ _
      (ht₁.updateActivity hat₁.mem (k.time 0)) ⟨hat₁.entry, hat₁.object⟩
    exact ⟨_, (hrecv.trans hactive).trans hlines⟩

theorem readBranch_plays (k : Syscalls) (ht : Tables s) (hfd : fd ∈ s.connections) :
    ∃ turns, Plays turns s (s.readBranch k fd).2 := by
  obtain ⟨p, c, hat⟩ := ht.exists_at hfd
  obtain ⟨turns, hread⟩ := handleRead_plays k ht hat
  obtain ⟨hmoves, -⟩ := handleRead_moves k ht hat
  unfold readBranch
  generalize s.handleRead k fd = r at hread hmoves
  obtain ⟨going, s₁⟩ := r
  dsimp only
  split_ifs with hgo hthere
  · rw [ExtTreeMap.contains_iff_mem] at hthere
    exact ⟨_, hread.trans (notifyAndDisconnect_plays (hmoves.tables ht) hthere _)⟩
  · exact ⟨_, hread⟩
  · exact ⟨_, hread⟩

theorem writeBranch_plays (k : Syscalls) (ht : Tables s) (hfd : fd ∈ s.connections) :
    ∃ turns, Plays turns s (s.writeBranch k fd).2 := by
  obtain ⟨p, c, hat⟩ := ht.exists_at hfd
  have hsent : Plays [] s (s.sent k fd p c) := by
    unfold sent
    split_ifs
    · exact .same rfl rfl rfl
    · exact (Plays.log (e := .send fd _ _) ⟨rfl, rfl⟩).trans (.same rfl rfl rfl)
  have hwrite : Plays [] s (s.handleWrite k fd).2 := by
    rw [handleWrite_eq hat]
    split_ifs
    · exact hsent
    · exact hsent.trans (.same rfl rfl rfl)
    · exact hsent
  have hmove : Move s (some fd) _ := .write k hat
  have hconn := connections_handleWrite k hat
  unfold writeBranch
  generalize s.handleWrite k fd = r at hwrite hmove hconn
  obtain ⟨going, s₁⟩ := r
  dsimp only
  split_ifs
  · exact ⟨_, hwrite.trans (notifyAndDisconnect_plays (hmove.tables ht) (by rwa [hconn]) _)⟩
  · exact ⟨_, hwrite⟩

theorem handleClient_plays (k : Syscalls) (rev : PollMask) (ht : Tables s)
    (hfd : fd ∈ s.connections) : ∃ turns, Plays turns s (s.handleClient k fd rev).2 := by
  have hread : ∃ r, (if rev.has POLLIN then s.readBranch k fd else (true, s)) = r ∧ Tables r.2 ∧
      (r.1 = true → fd ∈ r.2.connections) ∧ ∃ turns, Plays turns s r.2 := by
    refine ⟨_, rfl, ?_⟩
    split_ifs
    · obtain ⟨hmoves, hgo⟩ := readBranch_moves k ht hfd
      exact ⟨hmoves.tables ht, hgo.1, readBranch_plays k ht hfd⟩
    · exact ⟨ht, fun _ => hfd, [], .same rfl rfl rfl⟩
  obtain ⟨⟨going, s₁⟩, he₁, ht₁, hfd₁, turns, hturns⟩ := hread
  unfold handleClient
  rw [he₁]
  cases going with
  | false => exact ⟨turns, hturns⟩
  | true =>
    have hwrite : ∃ r, (if rev.has POLLOUT then s₁.writeBranch k fd else (true, s₁)) = r ∧
        Tables r.2 ∧ (r.1 = true → fd ∈ r.2.connections) ∧ ∃ turns, Plays turns s₁ r.2 := by
      refine ⟨_, rfl, ?_⟩
      split_ifs
      · obtain ⟨hmoves, hgo⟩ := writeBranch_moves k ht₁ (hfd₁ rfl)
        exact ⟨hmoves.tables ht₁, hgo.1, writeBranch_plays k ht₁ (hfd₁ rfl)⟩
      · exact ⟨ht₁, hfd₁, [], .same rfl rfl rfl⟩
    obtain ⟨⟨going, s₂⟩, he₂, ht₂, hfd₂, more, hmore⟩ := hwrite
    simp only [Bool.not_true, Bool.false_eq_true, if_false, he₂]
    cases going with
    | false => exact ⟨_, hturns.trans hmore⟩
    | true =>
      simp only [Bool.not_true, Bool.false_eq_true, if_false]
      split_ifs
      · exact ⟨_, (hturns.trans hmore).trans (notifyAndDisconnect_plays ht₂ (hfd₂ rfl) _)⟩
      · exact ⟨_, hturns.trans hmore⟩

end Server

section Traces

variable {fd : Fd} {tr es : List Event} {turns : List Turn}

/-- Without an arrival the events add to what was said since the latest one. -/
theorem sinceAccept_extend {β : Type*} {f : Event → List β} (hf : ∀ g, f (.accept g) = [])
    (tr : List Event) : ∀ {es : List Event}, .accept fd ∉ es →
      sinceAccept fd f (es ++ tr) = sinceAccept fd f tr ++ es.reverse.flatMap f
  | [], _ => (List.append_nil _).symm
  | e :: es, h => by
    rw [List.mem_cons, not_or] at h
    have ih := sinceAccept_extend hf tr h.2
    cases e with
    | accept g =>
      have hg : g ≠ fd := fun hg => h.1 (by rw [hg])
      simp [sinceAccept, hg, ih, hf]
    | _ => simp [sinceAccept, ih]

theorem accept_not_mem (hmarks : es.reverse.filterMap Event.mark? = turns.map Turn.mark)
    (hturns : ∀ t ∈ turns, t.mark ≠ .arrived fd) : .accept fd ∉ es := by
  intro he
  have hmark : Mark.arrived fd ∈ es.reverse.filterMap Event.mark? :=
    List.mem_filterMap.2 ⟨_, List.mem_reverse.2 he, rfl⟩
  rw [hmarks] at hmark
  obtain ⟨t, ht, hmark⟩ := List.mem_map.1 hmark
  exact hturns t ht hmark

/-- The line of the descriptor that an event hands to the parser. -/
def Event.lineOn (fd : Fd) : Event → List Str
  | .line g l => if g = fd then [l] else []
  | _ => []

/-- The message that an event enqueues for the descriptor. -/
def Event.messageOn (fd : Fd) : Event → List Str
  | .enqueue g message _ => if g = fd then [message] else []
  | _ => []

/-- The lines handed on are the commands. -/
theorem map_lineOn (fd : Fd) : ∀ es : List Event, (es.flatMap (Event.lineOn fd)).map Parser.parse =
    (es.filterMap Event.mark?).filterMap (Mark.commandOf fd)
  | [] => rfl
  | e :: es => by
    rw [List.flatMap_cons, List.map_append, map_lineOn fd es]
    cases e with
    | line g l =>
      rw [List.filterMap_cons_some (f := Event.mark?) rfl, List.filterMap_cons]
      by_cases hg : g = fd <;> simp [Mark.commandOf, Event.lineOn, hg]
    | _ => rfl

theorem flatMap_messageOn (fd : Fd) : ∀ es : List Event,
    es.flatMap (Event.messageOn fd) = linesTo fd (es.filterMap Event.reply?)
  | [] => rfl
  | e :: es => by
    rw [List.flatMap_cons, flatMap_messageOn fd es]
    cases e with
    | enqueue g message buffer =>
      rw [List.filterMap_cons_some (f := Event.reply?) rfl]
      by_cases hg : g = fd <;> simp [linesTo, Event.messageOn, hg]
    | _ => rfl

theorem handedTo_extend (hmarks : es.reverse.filterMap Event.mark? = turns.map Turn.mark)
    (hturns : ∀ t ∈ turns, t.mark ≠ .arrived fd) : (handedTo fd (es ++ tr)).map Parser.parse =
      (handedTo fd tr).map Parser.parse ++ commandsOf fd turns := by
  have heq : ∀ tr, handedTo fd tr = sinceAccept fd (Event.lineOn fd) tr := fun tr => by
    unfold handedTo
    congr 1
  rw [heq, heq, sinceAccept_extend (fun _ => rfl) tr (accept_not_mem hmarks hturns),
    List.map_append, map_lineOn, hmarks, List.filterMap_map]
  rfl

theorem enqueuedMessages_extend (hmarks : es.reverse.filterMap Event.mark? = turns.map Turn.mark)
    (hturns : ∀ t ∈ turns, t.mark ≠ .arrived fd) : enqueuedMessages fd (es ++ tr) =
      enqueuedMessages fd tr ++ linesTo fd (es.reverse.filterMap Event.reply?) := by
  have heq : ∀ tr, enqueuedMessages fd tr = sinceAccept fd (Event.messageOn fd) tr := fun tr => by
    unfold enqueuedMessages
    congr 1
  rw [heq, heq, sinceAccept_extend (fun _ => rfl) tr (accept_not_mem hmarks hturns),
    flatMap_messageOn]

end Traces

/-- What a step of the server comes to: some turns, an arrival, or the refusal that stops it. -/
inductive Machine.Comes (m : Machine) (inp : Input) : Prop
  | plays {turns : List Turn} (h : Plays turns m.server (m.step inp).server)
  | accepts {cs : Accepted} (hcs : inp.calls.accept = some cs) (hnb : cs.nonBlocking = true)
      (hfresh : cs.fd ∉ openFds m.server.trace)
      (h : (m.step inp).server = (m.server.acceptClient inp.calls).2)
  | refuses {fd : Fd} (hstop : (m.step inp).phase = .stopped) (hfresh : fd ∉ openFds m.server.trace)
      (h : (m.step inp).server = m.server.log (.accept fd))

theorem Machine.Good.comes {m : Machine} (hg : m.Good) {inp : Input} (hfresh : inp.Fresh m) :
    m.Comes inp := by
  rcases m with ⟨s, phase⟩
  cases phase with
  | stopped => exact .plays (.same rfl rfl rfl)
  | poll =>
    have hpoll : Plays [] s (s.log (.poll (s.pollfds.map (·.fd)))) := .log ⟨rfl, rfl⟩
    refine @Machine.Comes.plays _ _ [] ?_
    dsimp only [Machine.step, pollStep]
    split
    · exact .same rfl rfl rfl
    · split
      · exact hpoll
      · exact hpoll
      · exact hpoll.trans (.same rfl rfl rfl)
  | timeouts fds =>
    have ht : Tables s := hg.tables nofun
    cases fds with
    | nil => exact .plays (.same rfl rfl rfl)
    | cons fd fds =>
      obtain ⟨-, hdue⟩ := hg.due _ rfl
      exact .plays (notifyAndDisconnect_plays ht (hdue fd List.mem_cons_self) _)
  | scan i =>
    have ht : Tables s := hg.tables nofun
    by_cases hi : i < s.pollfds.length
    · have hserver : (Machine.step ⟨s, .scan i⟩ inp).server = (s.visit inp.calls i).2 ∧
          ((s.visit inp.calls i).1 = none → (Machine.step ⟨s, .scan i⟩ inp).phase = .stopped) := by
        dsimp only [Machine.step, scanStep]
        rw [if_pos hi]
        generalize s.visit inp.calls i = r
        obtain ⟨_ | j, s'⟩ := r
        · exact ⟨rfl, fun _ => rfl⟩
        · exact ⟨rfl, nofun⟩
      obtain ⟨hserver, hstop⟩ := hserver
      have he : s.pollfds[i]? = some s.pollfds[i] := List.getElem?_eq_getElem hi
      generalize s.pollfds[i] = e at he
      unfold visit at hserver hstop
      simp only [he] at hserver hstop
      by_cases hrev : e.revents = 0
      · rw [if_pos hrev] at hserver
        exact .plays (.same (by rw [hserver]) (by rw [hserver]) (by rw [hserver]))
      rw [if_neg hrev] at hserver hstop
      by_cases hlisten : e.fd = s.listenFd
      · rw [if_pos hlisten] at hserver hstop
        by_cases hin : e.revents.has POLLIN = true
        · rw [if_pos hin] at hserver hstop
          rcases hcs : inp.calls.accept with _ | cs
          · simp only [acceptClient, hcs] at hserver
            exact .plays (.same (by rw [hserver]) (by rw [hserver]) (by rw [hserver]))
          · cases hnb : cs.nonBlocking with
            | true => exact .accepts hcs hnb (hfresh cs hcs) hserver
            | false =>
              simp only [acceptClient, hcs, hnb] at hserver hstop
              exact .refuses (hstop rfl) (hfresh cs hcs) hserver
        · rw [if_neg hin] at hserver
          exact .plays (.same (by rw [hserver]) (by rw [hserver]) (by rw [hserver]))
      · have hmem : e.fd ∈ s.connections := by
          have hpoll := (ht.polled e.fd).1 (List.mem_map.2 ⟨e, List.mem_of_getElem? he, rfl⟩)
          exact hpoll.resolve_left hlisten
        rw [if_neg hlisten] at hserver
        obtain ⟨turns, hturns⟩ := handleClient_plays inp.calls e.revents ht hmem
        exact .plays (hserver.symm ▸ hturns)
    · have hserver : (Machine.step ⟨s, .scan i⟩ inp).server = s := by
        dsimp only [Machine.step, scanStep]
        rw [if_neg hi]
      exact .plays (.same (by rw [hserver]) (by rw [hserver]) (by rw [hserver]))

/-- The turns tell of the run that led to the machine. -/
structure Serial (start : ServerState) (turns : List Turn) (m : Machine) : Prop where
  state : m.server.state = start.play turns
  marks : m.phase ≠ .stopped → m.server.trace.reverse.filterMap Event.mark? = turns.map Turn.mark
  replies : m.server.trace.reverse.filterMap Event.reply? = start.traffic turns
  clients : ∀ fd ∈ m.server.connections, SinceArrival start fd turns
    ((handedTo fd m.server.trace).map Parser.parse) (enqueuedMessages fd m.server.trace)

/-- More turns are played, and the client is still there. -/
theorem SinceArrival.extend {start : ServerState} {fd : Fd} {turns : List Turn}
    {commands : List Message}
    {lines : List Str} (h : SinceArrival start fd turns commands lines) (more : List Turn)
    (hstays : ∀ t ∈ more, t.isDepartureOf fd = false) :
    SinceArrival start fd (turns ++ more) (commands ++ commandsOf fd more)
      (lines ++ linesTo fd ((start.play turns).traffic more)) := by
  obtain ⟨before, addr, host, during, rfl, hlife, rfl, rfl⟩ := h
  have hplay : start.play (before ++ .arrive addr fd host :: during) =
      (start.play (before ++ [.arrive addr fd host])).play during := by
    rw [← ServerState.play_append, List.append_assoc, List.singleton_append]
  refine ⟨before, addr, host, during ++ more, by simp, ⟨hlife.free, fun t ht => ?_⟩, ?_, ?_⟩
  · exact (List.mem_append.1 ht).elim (hlife.stays t) (hstays t)
  · rw [commandsOf, List.filterMap_append, commandsOf, commandsOf]
  · rw [ServerState.traffic_append, linesTo_append, hplay]

namespace Serial

variable {s₀ : ServerState} {turns more : List Turn} {m m' : Machine} {fd : Fd}

theorem plays (h : Serial s₀ turns m) (hm' : Plays more m.server m'.server)
    (hphase : m'.phase ≠ .stopped → m.phase ≠ .stopped) : Serial s₀ (turns ++ more) m' := by
  obtain ⟨es, htr, hmarks, hreplies⟩ := hm'.trace
  refine ⟨?_, fun hgo => ?_, ?_, fun fd hfd => ?_⟩
  · rw [hm'.state, h.state, ServerState.play_append]
  · rw [htr, List.reverse_append, List.filterMap_append, h.marks (hphase hgo), hmarks,
      List.map_append]
  · rw [htr, List.reverse_append, List.filterMap_append, h.replies, hreplies, h.state,
      ServerState.traffic_append]
  · obtain ⟨hfd, hstays⟩ := hm'.kept fd hfd
    have hturns : ∀ t ∈ more, t.mark ≠ .arrived fd := fun t ht => (hm'.clients t ht).2 fd
    rw [htr, handedTo_extend hmarks hturns, enqueuedMessages_extend hmarks hturns,
      hreplies, h.state]
    exact (h.clients fd hfd).extend _ hstays

theorem accepts (h : Serial s₀ turns m) (ht : Tables m.server) {k : Syscalls} {cs : Accepted}
    (hcs : k.accept = some cs) (hnb : cs.nonBlocking = true)
    (hfresh : cs.fd ∉ openFds m.server.trace)
    (hm' : m'.server = (m.server.acceptClient k).2)
    (hphase : m'.phase ≠ .stopped → m.phase ≠ .stopped) :
    Serial s₀ (turns ++ [.arrive (k.addr 1) cs.fd cs.host]) m' := by
  have htr : m'.server.trace = .accept cs.fd :: m.server.trace := by
    rw [hm', acceptClient_eq hcs hnb]
  refine ⟨?_, fun hgo => ?_, ?_, fun fd hfd => ?_⟩
  · rw [hm', acceptClient_eq hcs hnb, ServerState.play_append, ← h.state]
    rfl
  · rw [htr, List.reverse_cons, List.filterMap_append, h.marks (hphase hgo), List.map_append]
    rfl
  · rw [htr, List.reverse_cons, List.filterMap_append, h.replies, ServerState.traffic_append]
    rfl
  · rw [hm', acceptClient_eq hcs hnb] at hfd
    rw [htr]
    by_cases hcf : cs.fd = fd
    · have hfree : cs.fd ∉ m.server.state.client.fdToClient := by
        rw [← ht.known]
        exact fun hmem => hfresh (ht.mem_opened hmem)
      refine ⟨turns, k.addr 1, cs.host, [], by rw [hcf], ⟨?_, by simp⟩, ?_, ?_⟩
      · rw [← h.state, ← hcf]
        exact ExtTreeMap.getElem?_eq_none hfree
      · simp [commandsOf, handedTo, sinceAccept, hcf]
      · simp [ServerState.traffic, linesTo, enqueuedMessages, sinceAccept, hcf]
    · have hold : fd ∈ m.server.connections := by
        rw [ExtTreeMap.mem_insert, Int.compare_eq_eq] at hfd
        exact hfd.resolve_left hcf
      have hlines : enqueuedMessages fd (.accept cs.fd :: m.server.trace) =
          enqueuedMessages fd m.server.trace := by simp [enqueuedMessages, sinceAccept, hcf]
      rw [handedTo_mute (e := .accept cs.fd) hcf, hlines]
      have hmore := (h.clients fd hold).extend [.arrive (k.addr 1) cs.fd cs.host]
        (by simp [Turn.isDepartureOf])
      simpa [commandsOf, Turn.mark, Mark.commandOf, ServerState.traffic, Turn.result,
        linesTo] using hmore

theorem refuses (h : Serial s₀ turns m) (ht : Tables m.server) {g : Fd}
    (hfresh : g ∉ openFds m.server.trace) (hm' : m'.server = m.server.log (.accept g))
    (hstop : m'.phase = .stopped) : Serial s₀ turns m' := by
  have htr : m'.server.trace = .accept g :: m.server.trace := by rw [hm']; rfl
  refine ⟨?_, fun hgo => absurd hstop hgo, ?_, fun fd hfd => ?_⟩
  · rw [hm']
    exact h.state
  · rw [htr, List.reverse_cons, List.filterMap_append, h.replies]
    exact List.append_nil _
  · rw [hm'] at hfd
    have hgf : g ≠ fd := fun hgf => hfresh (hgf ▸ ht.mem_opened hfd)
    have hlines : enqueuedMessages fd (.accept g :: m.server.trace) =
        enqueuedMessages fd m.server.trace := by simp [enqueuedMessages, sinceAccept, hgf]
    rw [htr, handedTo_mute (e := .accept g) hgf, hlines]
    exact h.clients fd hfd

theorem start (listenFd : Fd) (password : Str) :
    Serial { password := password } [] (Machine.start listenFd password) := by
  refine ⟨rfl, fun _ => rfl, rfl, fun fd hfd => ?_⟩
  simp [Machine.start, construct, addFd, log] at hfd

/-- A step adds turns; those that arrive come from `accept`. -/
theorem step (h : Serial s₀ turns m) (hg : m.Good) {inp : Input} (hfresh : inp.Fresh m) :
    ∃ more, Serial s₀ (turns ++ more) (m.step inp) ∧ (inp.Real → ∀ t ∈ more, t.Real) := by
  by_cases hstop : m.phase = .stopped
  · have hsame : m.step inp = m := by
      rcases m with ⟨s, phase⟩
      cases hstop
      rfl
    exact ⟨[], by rwa [List.append_nil, hsame], by simp⟩
  have ht := hg.tables hstop
  cases hg.comes hfresh with
  | plays hm' => exact ⟨_, h.plays hm' fun _ => hstop, fun _ t htm => (hm'.clients t htm).1⟩
  | accepts hcs hnb hnew hm' =>
    refine ⟨_, h.accepts ht hcs hnb hnew hm' fun _ => hstop, fun hreal t htm => ?_⟩
    cases List.mem_singleton.1 htm
    exact hreal _ hcs
  | refuses hstopped hnew hm' =>
    exact ⟨[], by rw [List.append_nil]; exact h.refuses ht hnew hm' hstopped, by simp⟩

theorem run {listenFd : Fd} {password : Str} : ∀ (inputs : List Input) {turns : List Turn}
    {m : Machine},
    Reachable listenFd password m → Serial s₀ turns m → m.FreshRun inputs →
    ∃ more, Serial s₀ (turns ++ more) (m.run inputs) ∧
      ((∀ inp ∈ inputs, inp.Real) → ∀ t ∈ more, t.Real)
  | [], _, _, _, h, _ => ⟨[], by rwa [List.append_nil], by simp⟩
  | inp :: inputs, turns, m, hreach, h, hf => by
    obtain ⟨first, hfirst, hreal⟩ := h.step hreach.good hf.1
    obtain ⟨rest, hrest, hreal'⟩ := run inputs (.step inp hreach hf.1) hfirst hf.2
    refine ⟨first ++ rest, by rw [← List.append_assoc]; exact hrest, fun hinputs t ht => ?_⟩
    rw [List.forall_mem_cons] at hinputs
    exact (List.mem_append.1 ht).elim (hreal hinputs.1 t) (hreal' hinputs.2 t)

end Serial

/-- Some turns tell of the run. -/
theorem exists_serial {listenFd : Fd} {password : Str} {inputs : List Input}
    (hf : (Machine.start listenFd password).FreshRun inputs) : ∃ turns,
      Serial { password := password } turns ((Machine.start listenFd password).run inputs) ∧
        ((∀ inp ∈ inputs, inp.Real) → ∀ t ∈ turns, t.Real) :=
  Serial.run inputs .start (.start listenFd password) hf

theorem Server.At.of_connection {s : Server} {fd : Fd} {c : Connection}
    (h : s.connection fd = some c) : ∃ p, s.At fd p c := by
  unfold Server.connection connectionAt at h
  obtain ⟨conn, hconn, p, rfl, hobj⟩ : ∃ conn, s.connections[fd]? = some conn ∧
      ∃ p, conn = some p ∧ s.objects[p]? = some c := by
    simpa [Option.bind_eq_some_iff] using h
  exact ⟨p, hconn, hobj⟩

section Streams

variable {listenFd fd : Fd} {password : Str} {m : Machine} {c : Connection}
  (hm : Reachable listenFd password m) (hc : m.server.connection fd = some c)

include hm hc

/-- The lines handed on are the lines that the bytes received are cut into. -/
theorem Reachable.handedTo_eq : handedTo fd m.server.trace =
    (Framing.lines lf (received fd m.server.trace).flatten).map stripLine := by
  obtain ⟨p, hat⟩ := Server.At.of_connection hc
  have hreads := hm.reads fd
  have hfollows := Reading.Follows.readChunks isQuit fd (received fd m.server.trace)
    fun _ => ne_nil_of_mem_received
  rw [hreads.handed]
  exact hfollows.lines (hreads.going p c hat)

/-- The messages enqueued are the bytes sent and those that are still in the buffer. -/
theorem Reachable.enqueuedMessages_eq : (enqueuedMessages fd m.server.trace).flatten =
    sentTo fd m.server.trace ++ c.sendBuffer := by
  obtain ⟨p, hat⟩ := Server.At.of_connection hc
  have hd := hm.delivered
  rw [← enqueuedTo_eq, ← hd.balanced _ (List.suffix_refl _) fd, hd.buffer fd p c hat]

end Streams

/-- A run of the server is a run of the state, one turn after another: the state is the one that the
turns lead to, the replies enqueued are those of the turns, in their order, and the clients arrived,
spoke and departed as the turns say. The commands of a client since it arrived are the lines that
the bytes received from it are cut into, whatever chunks they came in, and the bytes sent to it,
with those still in its buffer, are the lines that these turns had for it. -/
theorem run_serial {listenFd : Fd} {password : Str} {inputs : List Input}
    (hf : (Machine.start listenFd password).FreshRun inputs) :
    let m := (Machine.start listenFd password).run inputs
    let start : ServerState := { password := password }
    ∃ turns : List Turn, m.server.state = start.play turns ∧
      m.server.trace.reverse.filterMap Event.reply? = start.traffic turns ∧
      (m.phase ≠ .stopped → m.server.trace.reverse.filterMap Event.mark? = turns.map Turn.mark) ∧
      ((∀ inp ∈ inputs, inp.Real) → ∀ t ∈ turns, t.Real) ∧
      ∀ fd c, m.server.connection fd = some c → ∃ lines,
        SinceArrival start fd turns ((Framing.lines lf (received fd m.server.trace).flatten).map
          fun l => Parser.parse (stripLine l)) lines ∧
        lines.flatten = sentTo fd m.server.trace ++ c.sendBuffer := by
  intro m start
  have hm : Reachable listenFd password m := .run inputs .start hf
  obtain ⟨turns, hserial, hreal⟩ := exists_serial hf
  refine ⟨turns, hserial.state, hserial.replies, hserial.marks, hreal, fun fd c hc => ?_⟩
  obtain ⟨p, hat⟩ := Server.At.of_connection hc
  refine ⟨enqueuedMessages fd m.server.trace, ?_, hm.enqueuedMessages_eq hc⟩
  have hsince := hserial.clients fd hat.mem
  rwa [hm.handedTo_eq hc, List.map_map] at hsince

/-- The case of a command in two chunks, whose reply is not all sent. -/
theorem run_serial_partial :
    let m := (Machine.start 3 (lit "pw")).run [.ready [POLLIN], .accepts 5, {}, {}, {},
      .ready [0, POLLIN], {}, .receives "PING", {}, {}, .ready [0, POLLIN], {},
      .receives " x\r\n", {}, {}, .ready [0, POLLOUT], {}, .sends 4, {}, {}]
    ∃ turns : List Turn, m.server.state = ServerState.play { password := lit "pw" } turns ∧
      turns.map Turn.mark =
        [.arrived 5, .asked 5 { command := lit "PING", params := [lit "x"] }] := by
  intro m
  obtain ⟨turns, hstate, -, hmarks, -⟩ :=
    @run_serial 3 (lit "pw") [.ready [POLLIN], .accepts 5, {}, {}, {},
      .ready [0, POLLIN], {}, .receives "PING", {}, {}, .ready [0, POLLIN], {},
      .receives " x\r\n", {}, {}, .ready [0, POLLOUT], {}, .sends 4, {}, {}] (by decide +kernel)
  exact ⟨turns, hstate, (hmarks (by decide +kernel)).symm.trans (by decide +kernel)⟩

end Ircserv
