import Ircserv.Session
import Ircserv.Proofs.Quits
import Ircserv.Proofs.Reading

/-!
# Reading, over a run of the server

What the trace says about one descriptor since it was last accepted: the chunks received and the
lines handed to the parser. Between two passes these are what `Reading.readChunks` makes of the
chunks, whatever the other clients did in between.
-/

open Std

namespace Ircserv

open Server

/-- A line that makes the dispatcher request a disconnection. -/
def isQuit (line : Str) : Bool := (Parser.parse line).command == lit "QUIT"

/-- The chunks that `recv` gave for `fd`. -/
def received (fd : Fd) : List Event → List Str :=
  sinceAccept fd fun
    | .recv g data => if g = fd then chunkOf data else []
    | _ => []

/-- The lines of `fd` handed to the parser. -/
def handedTo (fd : Fd) : List Event → List Str :=
  sinceAccept fd fun
    | .line g line => if g = fd then [line] else []
    | _ => []

/-- An event that has nothing to do with reading from `fd`. -/
def Event.Mute (fd : Fd) : Event → Prop
  | .accept g | .recv g _ | .line g _ => g ≠ fd
  | _ => True

section Readings

variable {fd : Fd} {e : Event} (h : e.Mute fd) (tr : List Event)
include h

theorem received_mute : received fd (e :: tr) = received fd tr := by
  cases e with
  | accept g | recv g data =>
    have hg : g ≠ fd := h
    simp [received, sinceAccept, hg]
  | _ => simp [received, sinceAccept]

theorem handedTo_mute : handedTo fd (e :: tr) = handedTo fd tr := by
  cases e with
  | accept g | line g =>
    have hg : g ≠ fd := h
    simp [handedTo, sinceAccept, hg]
  | _ => simp [handedTo, sinceAccept]

end Readings

theorem mem_of_mem_sinceAccept {β : Type*} {fd : Fd} {f : Event → List β} {x : β} :
    ∀ {tr : List Event}, x ∈ sinceAccept fd f tr → ∃ e ∈ tr, x ∈ f e
  | [], h => by simp [sinceAccept] at h
  | e :: tr, h => by
    have ih : x ∈ sinceAccept fd f tr → ∃ e' ∈ e :: tr, x ∈ f e' := fun hx => by
      obtain ⟨e', he', hx⟩ := mem_of_mem_sinceAccept hx
      exact ⟨e', List.mem_cons_of_mem e he', hx⟩
    cases e with
    | accept g =>
      rw [sinceAccept] at h
      split_ifs at h
      · cases h
      · exact ih h
    | _ => exact (List.mem_append.1 h).elim ih fun hx => ⟨_, List.mem_cons_self, hx⟩

theorem ne_nil_of_mem_received {fd : Fd} {tr : List Event} {chunk : Str}
    (h : chunk ∈ received fd tr) : chunk ≠ [] := by
  obtain ⟨e, -, he⟩ := mem_of_mem_sinceAccept h
  cases e with
  | recv g data =>
    dsimp only at he
    split_ifs at he
    · simpa using (List.mem_filter.1 he).2
    · cases he
  | _ => cases he

/-- What the read loop makes of the chunks received. -/
def readingOf (fd : Fd) (tr : List Event) : Reading :=
  (Reading.start fd).readChunks isQuit (received fd tr)

theorem readingOf_concat {fd : Fd} {tr tr' : List Event} {chunk : Str}
    (h : received fd tr' = received fd tr ++ [chunk]) :
    readingOf fd tr' = (readingOf fd tr).readChunk isQuit chunk := by
  rw [readingOf, h, Reading.readChunks_concat, readingOf]

theorem chunkOf_some {chunk : Str} (h : chunk ≠ []) : chunkOf (some chunk) = [chunk] := by
  simp [chunkOf, h]

/-- The lines of `fd` handed to the parser are those of the read loop, and its connection is as the
loop left it; a client that the loop left is gone. -/
structure Reads (fd : Fd) (s : Server) : Prop where
  handed : handedTo fd s.trace = (readingOf fd s.trace).handed
  going : ∀ p c, s.At fd p c → (readingOf fd s.trace).status = .going
  buffer : ∀ p c, s.At fd p c → c.recvBuffer = (readingOf fd s.trace).conn.recvBuffer

namespace Server

/-- Nothing was read from `fd`: the bytes in its buffer are the same, if it is still there. -/
structure Unread (fd : Fd) (s s' : Server) : Prop where
  received : received fd s'.trace = received fd s.trace
  handed : handedTo fd s'.trace = handedTo fd s.trace
  kept : ∀ p c', s'.At fd p c' → ∃ c, s.At fd p c ∧ c.recvBuffer = c'.recvBuffer

namespace Unread

variable {s s' s'' : Server} {fd g : Fd} {p : Addr} {c c' : Connection}

theorem refl (fd : Fd) (s : Server) : Unread fd s s := ⟨rfl, rfl, fun _ c hat => ⟨c, hat, rfl⟩⟩

theorem trans (h : Unread fd s s') (h' : Unread fd s' s'') : Unread fd s s'' where
  received := h'.received.trans h.received
  handed := h'.handed.trans h.handed
  kept p c'' hat := by
    obtain ⟨c', hat', hc'⟩ := h'.kept p c'' hat
    obtain ⟨c, hat, hc⟩ := h.kept p c' hat'
    exact ⟨c, hat, hc.trans hc'⟩

/-- A step that leaves the trace and the connections alone. -/
theorem congr (htr : s'.trace = s.trace) (hconn : s'.connections = s.connections)
    (hobj : s'.objects = s.objects) : Unread fd s s' := by
  refine ⟨by rw [htr], by rw [htr], fun p c' hat => ⟨c', ⟨?_, ?_⟩, rfl⟩⟩
  · rw [← hconn]
    exact hat.entry
  · rw [← hobj]
    exact hat.object

theorem log {e : Event} (he : e.Mute fd) : Unread fd s (s.log e) :=
  ⟨received_mute he _, handedTo_mute he _, fun _ c' hat => ⟨c', ⟨hat.entry, hat.object⟩, rfl⟩⟩

theorem setConnection (hat : s.At g p c) (hbuf : c'.recvBuffer = c.recvBuffer) :
    Unread fd s (s.setConnection p c') := by
  refine ⟨rfl, rfl, fun q d hd => ?_⟩
  rcases hat.of_setConnection hd with ⟨rfl, rfl, hold⟩ | ⟨-, hold⟩
  · exact ⟨c, hold, hbuf.symm⟩
  · exact ⟨d, hold, rfl⟩

theorem setConnection_of_ne (ht : Tables s) (hat : s.At g p c) (hg : g ≠ fd) (c' : Connection) :
    Unread fd s (s.setConnection p c') := by
  refine ⟨rfl, rfl, fun q d hd => ?_⟩
  rcases ht.at_setConnection hat hd with ⟨hgf, -⟩ | ⟨-, hold⟩
  · exact absurd hgf hg
  · exact ⟨d, hold, rfl⟩

theorem enqueueReply (ht : Tables s) {m : OutgoingMessage} (hm : m.fd ∈ s.connections) :
    Unread fd s (s.enqueueReply m) := by
  obtain ⟨p, c, hat⟩ := ht.exists_at hm
  rw [enqueueReply_eq hat]
  have hset : Unread fd s (s.setConnection p (c.bufferSend m.message)) := setConnection hat rfl
  have hlog : Unread fd s ((s.setConnection p (c.bufferSend m.message)).log
      (.enqueue m.fd m.message (c.bufferSend m.message).sendBuffer)) := hset.trans (log trivial)
  exact hlog.trans (congr rfl rfl rfl)

theorem foldl_enqueueReply : ∀ (ms : List OutgoingMessage) (s : Server), Tables s →
    (∀ m ∈ ms, m.fd ∈ s.connections) → Unread fd s (ms.foldl Server.enqueueReply s)
  | [], s, _, _ => refl fd s
  | m :: ms, s, ht, hms => by
    have hm := hms m List.mem_cons_self
    refine (enqueueReply ht hm).trans (foldl_enqueueReply ms _ (ht.enqueueReply hm) fun m' hm' => ?_)
    rw [(enqueueReply_frame s m).1]
    exact hms m' (List.mem_cons_of_mem m hm')

theorem enqueueReplies (ht : Tables s) {r : CommandResult}
    (hr : ∀ m ∈ r.replies, m.fd ∈ s.connections) : Unread fd s (s.enqueueReplies r) :=
  (foldl_enqueueReply r.replies s ht hr).trans (log (e := .applied r) trivial)

theorem disconnectClient (hat : s.At g p c) : Unread fd s (s.disconnectClient g) := by
  have htr : (s.disconnectClient g).trace = .close g :: s.trace := by
    simp [disconnectClient_eq hat]
  refine ⟨?_, ?_, fun q d hd => ⟨d, (Tables.at_disconnectClient hat hd).2, rfl⟩⟩
  · rw [htr]
    exact received_mute (e := .close g) trivial _
  · rw [htr]
    exact handedTo_mute (e := .close g) trivial _

theorem notifyAndDisconnect (ht : Tables s) (hg : g ∈ s.connections) (reason : Str) :
    Unread fd s (s.notifyAndDisconnect g reason) := by
  have htlog := ht.log (e := .disconnect g reason s.state) rfl (ht.mem_opened hg)
  have hrep : Unread fd _ _ := enqueueReplies htlog
    (htlog.of_addressed (DisconnectNotifier.build_addressed ht.wf.links g reason))
  obtain ⟨p, c, hat⟩ := ht.at_logDisconnect hg reason
  exact ((log (e := .disconnect g reason s.state) trivial).trans hrep).trans (disconnectClient hat)

/-- The replies of a line, and the disconnection it may request. -/
theorem applied (ht : Tables s) (hat : s.At g p c) (k : Syscalls) (n : Nat) :
    Unread fd (s.dispatched k g p c n).2 (s.handleLine k g p c n).2 := by
  obtain ⟨htab, haddr, hfds⟩ := ht.dispatched hat k n
  have haddr' := htab.of_addressed (haddr.congr hfds.symm)
  have hrep : Unread fd _ _ := enqueueReplies htab haddr'
  rw [handleLine_eq]
  unfold applyCommandResult
  dsimp only
  split_ifs
  · refine hrep.trans (notifyAndDisconnect (htab.enqueueReplies haddr') ?_ _)
    rw [connections_enqueueReplies]
    exact hat.mem
  · exact hrep

theorem handleWrite (hat : s.At g p c) (k : Syscalls) : Unread fd s (s.handleWrite k g).2 := by
  have hbuf : (c.writeToSocket k.send).2.recvBuffer = c.recvBuffer := by
    unfold Connection.writeToSocket
    split_ifs <;> rfl
  have hsent : Unread fd s (s.sent k g p c) := by
    unfold sent
    split_ifs
    · exact setConnection hat hbuf
    · set e : Event :=
        .send g (c.sendBuffer.take k.send) (c.writeToSocket k.send).2.sendBuffer with he
      have hat' : (s.log e).At g p c := ⟨hat.entry, hat.object⟩
      exact (log (e := e) trivial).trans (setConnection hat' hbuf)
  rw [handleWrite_eq hat]
  split_ifs
  · exact hsent
  · exact hsent.trans (congr rfl rfl rfl)
  · exact hsent

/-- A move about another descriptor. -/
theorem move (ht : Tables s) {o : Option Fd} (ho : o ≠ some fd) (hm : Move s o s') :
    Unread fd s s' := by
  have hne : ∀ {g : Fd}, some g ≠ some fd → g ≠ fd := fun h he => h (congrArg some he)
  cases hm with
  | polled => exact log (e := .poll _) trivial
  | ready | activity => exact congr rfl rfl rfl
  | @accept k cs hcs hnb hfresh =>
    have htr : (s.acceptClient k).2.trace = .accept cs.fd :: s.trace := by
      simp [acceptClient_eq hcs hnb]
    refine ⟨?_, ?_, fun p c' hat => ⟨c', ?_, rfl⟩⟩
    · rw [htr]
      exact received_mute (e := .accept cs.fd) (hne ho) _
    · rw [htr]
      exact handedTo_mute (e := .accept cs.fd) (hne ho) _
    · rcases ht.at_acceptClient hcs hnb hat with ⟨rfl, -⟩ | ⟨-, hat⟩
      · exact absurd rfl ho
      · exact hat
  | @receive g p c data hat =>
    exact (setConnection_of_ne ht hat (hne ho) _).trans (log (e := .recv g data) (hne ho))
  | @tooLong g => exact log (e := .tooLong g) trivial
  | look hat => exact setConnection hat rfl
  | @line g p c k n hat =>
    have hpop : Unread fd s ((s.setConnection p c.popLine.2).log (.line g c.popLine.1)) :=
      (setConnection_of_ne ht hat (hne ho) _).trans (log (e := .line g c.popLine.1) (hne ho))
    have hdisp : Unread fd s (s.dispatched k g p c n).2 := hpop.trans (congr rfl rfl rfl)
    exact hdisp.trans (applied ht hat k n)
  | write k hat => exact handleWrite hat k
  | disconnect reason hat => exact notifyAndDisconnect ht hat.mem reason

theorem moves (ht : Tables s) {o : Option Fd} (ho : o ≠ some fd) (hms : Moves o s s') :
    Unread fd s s' := by
  induction hms with
  | refl => exact refl fd s
  | tail hms hm ih => exact ih.trans (move (Moves.tables ht hms) ho hm)

end Unread

variable {s : Server} {fd : Fd} {p : Addr} {c : Connection}

/-- The dispatcher requests a disconnection for QUIT lines and no others. -/
theorem dispatched_shouldDisconnect (ht : Tables s) (hat : s.At fd p c) (k : Syscalls) (n : Nat) :
    (s.dispatched k fd p c n).1.shouldDisconnect = isQuit c.popLine.1 := by
  obtain ⟨q, hq⟩ := ht.exists_client hat.mem
  have hout := CommandDispatcher.dispatchWith_outcome (k.addr n) (k.time (n + 1))
    (Parser.parse c.popLine.1) (some s.healthMonitor) hq
  rw [Bool.eq_iff_iff, isQuit, beq_iff_eq]
  refine ⟨hout.quit_of_shouldDisconnect, fun hquit => ?_⟩
  have hr : (s.dispatched k fd p c n).1 = CommandDispatcher.handleQuit :=
    CommandDispatcher.dispatchWith_quit hq hquit
  rw [hr]
  rfl

/-- A line is handed on, and its bytes leave the buffer. -/
theorem handleLine_reads (ht : Tables s) (hat : s.At fd p c) (k : Syscalls) (n : Nat) :
    (s.handleLine k fd p c n).1 = !isQuit c.popLine.1 ∧
      received fd (s.handleLine k fd p c n).2.trace = received fd s.trace ∧
      handedTo fd (s.handleLine k fd p c n).2.trace = handedTo fd s.trace ++ [c.popLine.1] ∧
      ∀ q d, (s.handleLine k fd p c n).2.At fd q d →
        q = p ∧ d.recvBuffer = c.popLine.2.recvBuffer := by
  have happ : Unread fd _ _ := .applied ht hat k n
  have hdisp : (s.dispatched k fd p c n).2.At fd p c.popLine.2 :=
    ⟨hat.entry, (hat.setConnection c.popLine.2).object⟩
  have htr : (s.dispatched k fd p c n).2.trace = .line fd c.popLine.1 :: s.trace := rfl
  refine ⟨?_, ?_, ?_, fun q d hd => ?_⟩
  · rw [handleLine_eq, dispatched_shouldDisconnect ht hat]
  · rw [happ.received, htr]
    simp [received, sinceAccept]
  · rw [happ.handed, htr]
    simp [handedTo, sinceAccept]
  · obtain ⟨c', hat', hbuf⟩ := happ.kept q d hd
    obtain ⟨rfl, rfl⟩ := hdisp.unique hat'
    exact ⟨rfl, hbuf.symm⟩

/-- What the loop over the lines did, when `popLines` on the connection comes to `r`. -/
structure LinesHandled (fd : Fd) (r : Reading) (s : Server) (res : Bool × Server) : Prop where
  going : res.1 = true ↔ r.status = .going
  received : received fd res.2.trace = received fd s.trace
  handed : handedTo fd res.2.trace = handedTo fd s.trace ++ r.handed
  buffer : res.1 = true → ∀ q d, res.2.At fd q d → d.recvBuffer = r.conn.recvBuffer

namespace LinesHandled

/-- There is no complete line. -/
theorem done {c₀ : Connection} (hat : s.At fd p c) (hbuf : c.recvBuffer = c₀.recvBuffer) :
    LinesHandled fd { conn := c₀ } s (true, s) := by
  refine ⟨iff_of_true rfl rfl, rfl, (List.append_nil _).symm, fun _ q d hd => ?_⟩
  obtain ⟨-, rfl⟩ := hat.unique hd
  exact hbuf

/-- A line that requests a disconnection. -/
theorem quit {c₀ c' : Connection} {s₁ : Server}
    (hrecv : Ircserv.received fd s₁.trace = Ircserv.received fd s.trace)
    (hline : handedTo fd s₁.trace = handedTo fd s.trace ++ [c₀.popLine.1]) :
    LinesHandled fd { conn := c', status := .left, pops := [c₀] } s (false, s₁) :=
  ⟨iff_of_false Bool.false_ne_true (by simp), hrecv, hline, by simp⟩

/-- A line and the rest of the loop. -/
theorem cons {r : Reading} {c₀ : Connection} {s₁ : Server} {res : Bool × Server}
    (hrecv : Ircserv.received fd s₁.trace = Ircserv.received fd s.trace)
    (hline : handedTo fd s₁.trace = handedTo fd s.trace ++ [c₀.popLine.1])
    (h : LinesHandled fd r s₁ res) : LinesHandled fd { r with pops := c₀ :: r.pops } s res := by
  refine ⟨h.going, h.received.trans hrecv, ?_, h.buffer⟩
  rw [h.handed, hline]
  simp [Reading.handed]

end LinesHandled

/-- The loop over the lines does to the connection what `popLines` does. -/
theorem handleLines_reads (k : Syscalls) (fd : Fd) (p : Addr) :
    ∀ (fuel n : Nat) (s : Server) (c c₀ : Connection), Tables s → s.At fd p c →
      c.recvBuffer = c₀.recvBuffer →
        LinesHandled fd (c₀.popLines isQuit fuel) s (s.handleLines k fd p fuel n)
  | 0, _, s, c, c₀, _, hat, hbuf => .done hat hbuf
  | fuel + 1, n, s, c, c₀, ht, hat, hbuf => by
    have hlook : Move s (some fd) (s.setConnection p c.hasCompleteLine.2) := .look hat
    have ht₁ := hlook.tables ht
    have hat₁ := hat.setConnection c.hasCompleteLine.2
    have hdone : c₀.hasCompleteLine.1 = c.hasCompleteLine.1 := by
      simp only [Connection.hasCompleteLine, hbuf]
    -- what a line is depends on the receive buffer only
    have hpop : c.hasCompleteLine.2.popLine.1 = c₀.hasCompleteLine.2.popLine.1 ∧
        c.hasCompleteLine.2.popLine.2.recvBuffer = c₀.hasCompleteLine.2.popLine.2.recvBuffer := by
      simp only [Connection.hasCompleteLine, Connection.popLine, hbuf]
      split <;> exact ⟨rfl, rfl⟩
    unfold handleLines Connection.popLines
    simp only [hat.object, hdone]
    by_cases hnl : c.hasCompleteLine.1 = true
    · obtain ⟨hgo, hrecv, hline, hkept⟩ := handleLine_reads ht₁ hat₁ k n
      have hmove : Move (s.setConnection p c.hasCompleteLine.2) (some fd) _ := .line k n hat₁ rfl hnl
      have ht₂ := hmove.tables ht₁
      have hconn := connections_handleLine k n hat₁
      rw [hpop.1] at hgo hline
      generalize (s.setConnection p c.hasCompleteLine.2).handleLine k fd p c.hasCompleteLine.2 n
        = r at hgo hrecv hline hkept ht₂ hconn
      obtain ⟨going, s₁⟩ := r
      dsimp only at hgo hrecv hline hkept ht₂ hconn ⊢
      simp only [hnl, Bool.not_true, Bool.false_eq_true, if_false]
      cases hq : isQuit c₀.hasCompleteLine.2.popLine.1 with
      | true =>
        rw [hq] at hgo
        subst hgo
        exact .quit hrecv hline
      | false =>
        rw [hq] at hgo
        subst hgo
        have hentry : s₁.connections[fd]? = some (some p) := by
          rw [hconn]
          exact hat.entry
        obtain ⟨q, d, hq, hobj, -⟩ := ht₂.live fd _ hentry
        cases hq
        have hd : s₁.At fd p d := ⟨hentry, hobj⟩
        exact .cons hrecv hline (handleLines_reads k fd p fuel (n + 1) s₁ d
          c₀.hasCompleteLine.2.popLine.2 ht₂ hd ((hkept p d hd).2.trans hpop.2))
    · simp only [hnl]
      have hlooked : LinesHandled fd { conn := c₀.hasCompleteLine.2 } _ _ := .done hat₁ hbuf
      exact ⟨hlooked.going, hlooked.received, hlooked.handed, hlooked.buffer⟩

/-- What a read did, when `recv` gave `data`. -/
structure ReadFrom (fd : Fd) (data : Option Str) (s : Server) (res : Bool × Server) : Prop where
  received : received fd res.2.trace = received fd s.trace ++ chunkOf data
  handed : handedTo fd res.2.trace = (readingOf fd res.2.trace).handed
  going : res.1 = true → (readingOf fd res.2.trace).status = .going
  buffer : res.1 = true → ∀ q d, res.2.At fd q d →
    d.recvBuffer = (readingOf fd res.2.trace).conn.recvBuffer
  gone : res.1 = false → chunkOf data = [] ∨ (readingOf fd res.2.trace).status ≠ .going

namespace ReadFrom

/-- An error or the end of the stream. -/
theorem nothing {data : Option Str} {s₁ : Server} (h : Reads fd s) (hnil : chunkOf data = [])
    (hrecv : Ircserv.received fd s₁.trace = Ircserv.received fd s.trace)
    (hline : handedTo fd s₁.trace = handedTo fd s.trace) : ReadFrom fd data s (false, s₁) := by
  refine ⟨?_, ?_, by simp, by simp, fun _ => .inl hnil⟩
  · rw [hnil, List.append_nil, hrecv]
  · rw [hline, h.handed, readingOf, readingOf, hrecv]

variable {chunk : Str} {s₁ : Server}

/-- A line that is too long. -/
theorem tooLong (h : Reads fd s) (hat : s.At fd p c) (hne : chunk ≠ [])
    (hrecv : Ircserv.received fd s₁.trace = Ircserv.received fd s.trace ++ [chunk])
    (hline : handedTo fd s₁.trace = handedTo fd s.trace)
    (hlong : (c.readFromSocket (some chunk)).2.isLineTooLong = true) :
    ReadFrom fd (some chunk) s (false, s₁) := by
  rw [Connection.isLineTooLong_receive (h.buffer p c hat)] at hlong
  have hstep := Reading.readChunk_of_tooLong isQuit (h.going p c hat) hne hlong
  rw [← readingOf_concat hrecv] at hstep
  refine ⟨by rw [chunkOf_some hne, hrecv], ?_, by simp, by simp, fun _ => .inr ?_⟩
  · rw [hline, h.handed, hstep]
    rfl
  · rw [hstep]
    simp

/-- The lines of the chunk. -/
theorem lines {res : Bool × Server} (h : Reads fd s) (hat : s.At fd p c) (hne : chunk ≠ [])
    (hrecv : Ircserv.received fd s₁.trace = Ircserv.received fd s.trace ++ [chunk])
    (hline : handedTo fd s₁.trace = handedTo fd s.trace)
    (hfit : (c.readFromSocket (some chunk)).2.isLineTooLong = false)
    (hres : LinesHandled fd (((readingOf fd s.trace).conn.readFromSocket (some chunk)).2.popLines
      isQuit (((readingOf fd s.trace).conn.readFromSocket (some chunk)).2.recvBuffer.length + 1))
      s₁ res) : ReadFrom fd (some chunk) s res := by
  rw [Connection.isLineTooLong_receive (h.buffer p c hat)] at hfit
  have hstep := Reading.readChunk_of_fits isQuit (h.going p c hat) hne hfit
  rw [← readingOf_concat (hres.received.trans hrecv)] at hstep
  refine ⟨?_, ?_, fun hgo => ?_, fun hgo => ?_, fun hgo => .inr ?_⟩
  · rw [chunkOf_some hne, hres.received, hrecv]
  · rw [hres.handed, hline, h.handed, hstep]
    simp [Reading.handed]
  · rw [hstep]
    exact hres.going.1 hgo
  · rw [hstep]
    exact hres.buffer hgo
  · rw [hstep]
    intro hst
    rw [hres.going.2 hst] at hgo
    cases hgo

end ReadFrom

/-- A read does to the connection what `readChunk` does. -/
theorem handleRead_reads (k : Syscalls) (ht : Tables s) (hat : s.At fd p c) (h : Reads fd s) :
    ReadFrom fd k.recv s (s.handleRead k fd) := by
  have hmove : Move s (some fd) _ := .receive k.recv hat
  set s₁ := (s.setConnection p (c.readFromSocket k.recv).2).log (.recv fd k.recv) with hs₁
  have hat₁ : s₁.At fd p (c.readFromSocket k.recv).2 :=
    ⟨hat.entry, (hat.setConnection (c.readFromSocket k.recv).2).object⟩
  have hrecv : received fd s₁.trace = received fd s.trace ++ chunkOf k.recv := by
    simp [hs₁, received, sinceAccept]
  have hline : handedTo fd s₁.trace = handedTo fd s.trace := by
    simp [hs₁, handedTo, sinceAccept]
  rw [handleRead_eq k hat, ← hs₁]
  dsimp only
  generalize k.recv = data at *
  rcases data with _ | _ | ⟨a, chunk⟩
  · exact .nothing h rfl (hrecv.trans (List.append_nil _)) hline
  · exact .nothing h rfl (hrecv.trans (List.append_nil _)) hline
  · have hne : a :: chunk ≠ [] := List.cons_ne_nil a chunk
    rw [if_neg (by simp [Connection.readFromSocket])]
    split_ifs with hlong
    · have hmute : Unread fd s₁ (s₁.log (.tooLong fd)) := .log trivial
      exact .tooLong h hat hne (hmute.received.trans hrecv) (hmute.handed.trans hline) hlong
    · have hact : Move s₁ (some fd) _ := .activity (k.time 0) hat₁
      have hsame : (c.readFromSocket (some (a :: chunk))).2.recvBuffer =
          ((readingOf fd s.trace).conn.readFromSocket (some (a :: chunk))).2.recvBuffer := by
        simp only [Connection.readFromSocket, h.buffer p c hat]
      have hlines := handleLines_reads k fd p
        ((c.readFromSocket (some (a :: chunk))).2.recvBuffer.length + 1) 0 _ _ _
        (hact.tables (hmove.tables ht)) ⟨hat₁.entry, hat₁.object⟩ hsame
      rw [hsame] at hlines ⊢
      refine .lines h hat hne ?_ ?_ (Bool.eq_false_iff.2 hlong) hlines
      · exact hrecv
      · exact hline

end Server

namespace Reads

variable {s s' : Server} {fd : Fd} {p : Addr} {c : Connection}

theorem unread (h : Reads fd s) (hu : Unread fd s s') : Reads fd s' := by
  have hr : readingOf fd s'.trace = readingOf fd s.trace := by
    rw [readingOf, hu.received, readingOf]
  refine ⟨by rw [hu.handed, hr, h.handed], fun p c' hat => ?_, fun p c' hat => ?_⟩
  · obtain ⟨c, hat, -⟩ := hu.kept p c' hat
    rw [hr]
    exact h.going p c hat
  · obtain ⟨c, hat, hc⟩ := hu.kept p c' hat
    rw [hr, ← hc]
    exact h.buffer p c hat

/-- A client that is not there, and from which nothing was received. -/
theorem absent (hrecv : received fd s.trace = []) (hhand : handedTo fd s.trace = [])
    (hno : ∀ p c, ¬ s.At fd p c) : Reads fd s := by
  refine ⟨?_, fun p c hat => absurd hat (hno p c), fun p c hat => absurd hat (hno p c)⟩
  rw [hhand, readingOf, hrecv]
  rfl

/-- A new lifetime. -/
theorem accept (htr : s'.trace = .accept fd :: s.trace)
    (hnew : ∀ p c, s'.At fd p c → c.recvBuffer = []) : Reads fd s' := by
  have hrecv : received fd s'.trace = [] := by simp [htr, received, sinceAccept]
  have hhand : handedTo fd s'.trace = [] := by simp [htr, handedTo, sinceAccept]
  have hr : readingOf fd s'.trace = Reading.start fd := by rw [readingOf, hrecv]; rfl
  refine ⟨by rw [hhand, hr]; rfl, fun p c hat => by rw [hr]; rfl, fun p c hat => ?_⟩
  rw [hnew p c hat, hr]
  rfl

/-- The POLLIN branch of the client's own entry. -/
theorem readBranch (k : Syscalls) (ht : Tables s) (h : Reads fd s) (hfd : fd ∈ s.connections) :
    Reads fd (s.readBranch k fd).2 ∧
      received fd (s.readBranch k fd).2.trace = received fd s.trace ++ chunkOf k.recv ∧
      ((s.readBranch k fd).1 = false →
        chunkOf k.recv = [] ∨ (readingOf fd (s.readBranch k fd).2.trace).status ≠ .going) := by
  obtain ⟨p, c, hat⟩ := ht.exists_at hfd
  obtain ⟨hmoves, -⟩ := handleRead_moves k ht hat
  obtain ⟨hrecv, hhand, hgo, hbuf, hgone⟩ := handleRead_reads k ht hat h
  unfold Server.readBranch
  generalize s.handleRead k fd = r at hmoves hrecv hhand hgo hbuf hgone
  obtain ⟨going, s₁⟩ := r
  dsimp only at hmoves hrecv hhand hgo hbuf hgone ⊢
  cases going with
  | true => exact ⟨⟨hhand, fun _ _ _ => hgo rfl, hbuf rfl⟩, hrecv, by simp⟩
  | false =>
    simp only [Bool.not_false, if_true]
    have gone : ∀ s₂ : Server, Unread fd s₁ s₂ → fd ∉ s₂.connections →
        Reads fd s₂ ∧ received fd s₂.trace = received fd s.trace ++ chunkOf k.recv ∧
          (True → chunkOf k.recv = [] ∨ (readingOf fd s₂.trace).status ≠ .going) := by
      intro s₂ hu hno
      have hr : readingOf fd s₂.trace = readingOf fd s₁.trace := by
        rw [readingOf, hu.received, readingOf]
      refine ⟨⟨?_, fun p c hat => absurd hat.mem hno, fun p c hat => absurd hat.mem hno⟩,
        hu.received.trans hrecv, fun _ => ?_⟩
      · rw [hu.handed, hhand, hr]
      · rw [hr]
        exact hgone rfl
    split_ifs with hthere
    · rw [ExtTreeMap.contains_iff_mem] at hthere
      exact gone _ (.notifyAndDisconnect (Moves.tables ht hmoves) hthere _)
        (not_mem_notifyAndDisconnect hthere _)
    · rw [ExtTreeMap.contains_iff_mem] at hthere
      exact gone _ (.refl fd s₁) hthere

/-- What `recv` gives when the entry of a client is handled. -/
def chunkFor (k : Syscalls) (rev : PollMask) : List Str :=
  if rev.has POLLIN then chunkOf k.recv else []

/-- Why a client may be gone after its entry was handled. -/
inductive Departed (k : Syscalls) (rev : PollMask) (r : Reading) : Prop
  | unread (hin : rev.has POLLIN = true) (h : chunkOf k.recv = [])
  | stopped (h : r.status ≠ .going)
  | unsent (hout : rev.has POLLOUT = true) (h : k.send = 0)
  | hungUp (h : rev.has hangUp = true)

/-- The POLLOUT branch reads nothing. -/
theorem writeBranch (k : Syscalls) (ht : Tables s) (hfd : fd ∈ s.connections) :
    Unread fd s (s.writeBranch k fd).2 ∧ ((s.writeBranch k fd).1 = false → k.send = 0) := by
  obtain ⟨p, c, hat⟩ := ht.exists_at hfd
  have hu : Unread fd s _ := .handleWrite hat k
  have hm : Move s (some fd) _ := .write k hat
  have hconn := connections_handleWrite k hat
  have hfail : (s.handleWrite k fd).1 = false → k.send = 0 := by
    rw [handleWrite_eq hat]
    unfold Connection.writeToSocket
    split_ifs <;> simp_all
  unfold Server.writeBranch
  generalize s.handleWrite k fd = r at hu hm hconn hfail
  obtain ⟨going, s₂⟩ := r
  cases going with
  | true => exact ⟨hu, nofun⟩
  | false =>
    refine ⟨hu.trans (.notifyAndDisconnect (hm.tables ht) ?_ _), fun _ => hfail rfl⟩
    rw [hconn]
    exact hfd

theorem handleClient (k : Syscalls) (rev : PollMask) (ht : Tables s) (h : Reads fd s)
    (hfd : fd ∈ s.connections) : Reads fd (s.handleClient k fd rev).2 ∧
      received fd (s.handleClient k fd rev).2.trace = received fd s.trace ++ chunkFor k rev ∧
      ((s.handleClient k fd rev).1 = false →
        Departed k rev (readingOf fd (s.handleClient k fd rev).2.trace)) := by
  -- nothing after the POLLIN branch reads
  have hread : ∃ r, (if rev.has POLLIN then s.readBranch k fd else (true, s)) = r ∧
      Tables r.2 ∧ (r.1 = true → fd ∈ r.2.connections) ∧ Reads fd r.2 ∧
      received fd r.2.trace = received fd s.trace ++ chunkFor k rev ∧
      (r.1 = false → Departed k rev (readingOf fd r.2.trace)) := by
    refine ⟨_, rfl, ?_⟩
    unfold chunkFor
    split_ifs with hin
    · obtain ⟨hm, hgo⟩ := readBranch_moves k ht hfd
      obtain ⟨hreads, hrecv, hgone⟩ := h.readBranch k ht hfd
      exact ⟨Moves.tables ht hm, hgo.1, hreads, hrecv, fun hf =>
        (hgone hf).elim (.unread hin) .stopped⟩
    · exact ⟨ht, fun _ => hfd, h, (List.append_nil _).symm, nofun⟩
  obtain ⟨⟨going, s₁⟩, he, ht₁, hgo₁, h₁, hrecv, hgone₁⟩ := hread
  have rest : ∀ s₂ : Server, Unread fd s₁ s₂ → Reads fd s₂ ∧
      received fd s₂.trace = received fd s.trace ++ chunkFor k rev := fun s₂ hu =>
    ⟨h₁.unread hu, hu.received.trans hrecv⟩
  unfold Server.handleClient
  rw [he]
  cases going with
  | false => exact ⟨h₁, hrecv, hgone₁⟩
  | true =>
    have hfd₁ := hgo₁ rfl
    have hwrite : ∃ r, (if rev.has POLLOUT then s₁.writeBranch k fd else (true, s₁)) = r ∧
        Tables r.2 ∧ (r.1 = true → fd ∈ r.2.connections) ∧ Unread fd s₁ r.2 ∧
        (r.1 = false → rev.has POLLOUT = true ∧ k.send = 0) := by
      refine ⟨_, rfl, ?_⟩
      split_ifs with hout
      · obtain ⟨hm, hgo⟩ := writeBranch_moves k ht₁ hfd₁
        obtain ⟨hu, hfail⟩ := writeBranch k ht₁ hfd₁
        exact ⟨Moves.tables ht₁ hm, hgo.1, hu, fun hf => ⟨hout, hfail hf⟩⟩
      · exact ⟨ht₁, fun _ => hfd₁, .refl fd s₁, nofun⟩
    obtain ⟨⟨going, s₂⟩, he₂, ht₂, hgo₂, hu, hgone₂⟩ := hwrite
    obtain ⟨hreads₂, hrecv₂⟩ := rest s₂ hu
    simp only [Bool.not_true, Bool.false_eq_true, if_false, he₂]
    cases going with
    | false => exact ⟨hreads₂, hrecv₂, fun hf => .unsent (hgone₂ hf).1 (hgone₂ hf).2⟩
    | true =>
      simp only [Bool.not_true, Bool.false_eq_true, if_false]
      split_ifs with hhup
      · obtain ⟨hreads₃, hrecv₃⟩ := rest _ (hu.trans (.notifyAndDisconnect ht₂ (hgo₂ rfl) _))
        exact ⟨hreads₃, hrecv₃, fun _ => .hungUp hhup⟩
      · exact ⟨hreads₂, hrecv₂, nofun⟩

end Reads

/-- What a step of the server does to the reading of a client, and when it disconnects it. -/
structure ReadStep (fd : Fd) (inp : Input) (m m' : Machine) : Prop where
  reads : Reads fd m'.server
  received : received fd m'.server.trace =
    if m.accepts inp fd then [] else received fd m.server.trace ++ m.chunk inp fd
  departed : fd ∈ m.server.connections → fd ∉ m'.server.connections →
    (∃ e, m.entry? = some e ∧ e.fd = fd ∧
      Reads.Departed inp.calls e.revents (readingOf fd m'.server.trace)) ∨
    ∃ fds, m.phase = .timeouts (fd :: fds)

namespace ReadStep

variable {fd : Fd} {inp : Input} {m m' : Machine}

/-- A step about another descriptor. -/
theorem of_moves (ht : Tables m.server) (h : Reads fd m.server) {o : Option Fd}
    (hms : Moves o m.server m'.server) (ho : o ≠ some fd) (hacc : m.accepts inp fd = false)
    (hchunk : m.chunk inp fd = []) : ReadStep fd inp m m' := by
  have hu : Unread fd m.server m'.server := .moves ht ho hms
  refine ⟨h.unread hu, ?_, fun hin hout => ?_⟩
  · rw [hacc, hchunk, hu.received]
    simp
  · exact absurd ((Moves.mem_connections hms ho).2 hin) hout

/-- The listening descriptor: at most one client is accepted. -/
theorem of_accept {s : Server} {i : Nat} {e : PollFd} (hfresh : inp.Fresh ⟨s, .scan i⟩)
    (ht : Tables s) (h : Reads fd s) (he : s.pollfds[i]? = some e) (hlisten : e.fd = s.listenFd)
    (hin : e.revents.has POLLIN = true) (hm' : m'.server = (s.acceptClient inp.calls).2) :
    ReadStep fd inp ⟨s, .scan i⟩ m' := by
  have hchunk : Machine.chunk ⟨s, .scan i⟩ inp fd = [] := by
    simp only [Machine.chunk, Machine.entry?, he]
    exact if_neg fun hc => hc.2.1 (hc.1.symm.trans hlisten)
  rcases hcs : inp.calls.accept with _ | cs
  · have hsame : m'.server = s := by rw [hm']; simp [acceptClient, hcs]
    refine of_moves (m := ⟨s, .scan i⟩) (o := none) ht h (by rw [hsame]) (by simp) ?_ hchunk
    simp [Machine.accepts, Machine.entry?, he, hcs]
  · have hacc : Machine.accepts ⟨s, .scan i⟩ inp fd = (cs.fd == fd) := by
      simp [Machine.accepts, Machine.entry?, he, hcs, hlisten, hin]
    have htr : m'.server.trace = .accept cs.fd :: s.trace := by
      rw [hm']
      cases hnb : cs.nonBlocking with
      | true => rw [acceptClient_eq hcs hnb]
      | false => simp [acceptClient, hcs, hnb]
    have hnew : ∀ p c, m'.server.At fd p c →
        cs.fd = fd ∧ c.recvBuffer = [] ∨ cs.fd ≠ fd ∧ s.At fd p c := by
      intro p c hat
      rw [hm'] at hat
      cases hnb : cs.nonBlocking with
      | true =>
        rcases ht.at_acceptClient hcs hnb hat with ⟨he, rfl⟩ | h
        · exact .inl ⟨he, rfl⟩
        · exact .inr h
      | false =>
        have hold : s.At fd p c := by
          simp only [acceptClient, hcs, hnb] at hat
          exact ⟨hat.entry, hat.object⟩
        refine .inr ⟨?_, hold⟩
        rintro rfl
        exact hfresh cs hcs (ht.mem_opened hold.mem)
    by_cases hfd : cs.fd = fd
    · subst hfd
      refine ⟨.accept htr fun p c hat => ?_, ?_, fun hin => ?_⟩
      · exact (hnew p c hat).elim (·.2) fun h => absurd rfl h.1
      · rw [hacc, htr]
        simp [Ircserv.received, sinceAccept]
      · exact absurd (ht.mem_opened hin) (hfresh cs hcs)
    · have hu : Unread fd s m'.server := by
        refine ⟨?_, ?_, fun p c hat => ⟨c, ?_, rfl⟩⟩
        · rw [htr]
          exact received_mute (e := .accept cs.fd) hfd _
        · rw [htr]
          exact handedTo_mute (e := .accept cs.fd) hfd _
        · exact ((hnew p c hat).resolve_left fun h => hfd h.1).2
      refine ⟨h.unread hu, ?_, fun hin hout => absurd ?_ hout⟩
      · rw [hacc, hchunk, hu.received]
        simp [hfd]
      · rw [hm']
        cases hnb : cs.nonBlocking with
        | true => simp [acceptClient_eq hcs hnb, hfd, show fd ∈ s.connections from hin]
        | false => simpa [acceptClient, hcs, hnb] using hin

/-- A client's entry. -/
theorem of_client {s : Server} {i : Nat} {e : PollFd} (ht : Tables s) (h : Reads fd s)
    (he : s.pollfds[i]? = some e) (hlisten : e.fd ≠ s.listenFd)
    (hm' : m'.server = (s.handleClient inp.calls e.fd e.revents).2) :
    ReadStep fd inp ⟨s, .scan i⟩ m' := by
  have hmem : e.fd ∈ s.connections := by
    have hpoll := (ht.polled e.fd).1 (List.mem_map.2 ⟨e, List.mem_of_getElem? he, rfl⟩)
    exact hpoll.resolve_left hlisten
  have hacc : Machine.accepts ⟨s, .scan i⟩ inp fd = false := by
    unfold Machine.accepts Machine.entry?
    simp only [he]
    split <;> simp_all
  have hmoves := handleClient_moves inp.calls e.revents ht hmem
  by_cases hfd : e.fd = fd
  · subst hfd
    have hchunk : Machine.chunk ⟨s, .scan i⟩ inp e.fd = Reads.chunkFor inp.calls e.revents := by
      simp [Machine.chunk, Machine.entry?, he, hlisten, Reads.chunkFor]
    obtain ⟨hreads, hrecv, hgone⟩ := h.handleClient inp.calls e.revents ht hmem
    rw [← hm'] at hreads hrecv hgone
    refine ⟨hreads, ?_, fun _ hout => .inl ⟨e, he, rfl, hgone ?_⟩⟩
    · rw [hacc, hchunk, hrecv]
      rfl
    · rw [← Bool.not_eq_true, hmoves.2, ← hm']
      exact hout
  · refine of_moves (m := ⟨s, .scan i⟩) (o := some e.fd) ht h ?_
      (fun ho => hfd (Option.some.inj ho)) hacc ?_
    · rw [hm']
      exact hmoves.1
    · simp [Machine.chunk, Machine.entry?, he, hfd]

/-- Without POLLIN an entry neither accepts nor receives. -/
theorem silent {s : Server} {i : Nat} {e : PollFd} (he : s.pollfds[i]? = some e)
    (hin : e.revents.has POLLIN = false) : Machine.accepts ⟨s, .scan i⟩ inp fd = false ∧
      Machine.chunk ⟨s, .scan i⟩ inp fd = [] := by
  unfold Machine.accepts Machine.chunk Machine.entry?
  simp only [he, hin]
  split
  · rename_i e' cs heq hcs
    cases heq
    simp [hin]
  · simp

theorem of_scan {s : Server} {i : Nat} (ht : Tables s) (hfresh : inp.Fresh ⟨s, .scan i⟩)
    (h : Reads fd s) : ReadStep fd inp ⟨s, .scan i⟩ (Machine.step ⟨s, .scan i⟩ inp) := by
  have same : ∀ (m' : Machine), m'.server = s → Machine.accepts ⟨s, .scan i⟩ inp fd = false ∧
      Machine.chunk ⟨s, .scan i⟩ inp fd = [] → ReadStep fd inp ⟨s, .scan i⟩ m' := by
    intro m' hm' hsilent
    exact of_moves (m := ⟨s, .scan i⟩) (o := none) ht h (by rw [hm']) (by simp) hsilent.1 hsilent.2
  dsimp only [Machine.step, Machine.scanStep]
  rcases he : s.pollfds[i]? with _ | e
  · rw [if_neg (Nat.not_lt.2 (List.getElem?_eq_none_iff.1 he))]
    refine same _ rfl ?_
    simp [Machine.accepts, Machine.chunk, Machine.entry?, he]
  obtain ⟨hi, -⟩ := List.getElem?_eq_some_iff.1 he
  rw [if_pos hi]
  unfold visit
  simp only [he]
  by_cases hrev : e.revents = 0
  · simp only [hrev, if_true]
    exact same _ rfl (silent he (by rw [hrev]; rfl))
  simp only [hrev, if_false]
  by_cases hlisten : e.fd = s.listenFd
  · simp only [hlisten, if_true]
    cases hpoll : e.revents.has POLLIN with
    | true =>
      simp only [if_true]
      cases hok : (s.acceptClient inp.calls).1 with
      | true =>
        simp only [if_true]
        exact of_accept hfresh ht h he hlisten hpoll rfl
      | false =>
        simp only [Bool.false_eq_true, if_false]
        exact of_accept hfresh ht h he hlisten hpoll rfl
    | false =>
      simp only [Bool.false_eq_true, if_false]
      exact same _ rfl (silent he hpoll)
  · simp only [hlisten, if_false]
    exact of_client ht h he hlisten rfl

theorem of_timeout {s : Server} {g : Fd} {fds : List Fd} (ht : Tables s) (h : Reads fd s)
    (hmem : g ∈ s.connections) : ReadStep fd inp ⟨s, .timeouts (g :: fds)⟩
      (Machine.step ⟨s, .timeouts (g :: fds)⟩ inp) := by
  have hu : Unread fd s (s.notifyAndDisconnect g (lit "Ping timeout")) :=
    .notifyAndDisconnect ht hmem _
  refine ⟨h.unread hu, hu.received.trans (List.append_nil _).symm, fun hin hout => ?_⟩
  by_cases hgf : g = fd
  · exact .inr ⟨fds, by rw [hgf]⟩
  · obtain ⟨p, c, hat⟩ := ht.exists_at hmem
    have hm : Move s (some g) _ := .disconnect (lit "Ping timeout") hat
    exact absurd ((hm.mem_connections fun he => hgf (Option.some.inj he)).2 hin) hout

theorem of_step (hg : m.Good) (hfresh : inp.Fresh m) (h : Reads fd m.server) :
    ReadStep fd inp m (m.step inp) := by
  obtain ⟨s, phase⟩ := m
  cases phase with
  | poll =>
    exact of_moves (m := ⟨s, .poll⟩) (hg.tables nofun) h (Machine.pollStep_moves s inp) nofun
      rfl rfl
  | stopped =>
    refine ⟨h, ?_, fun hin hout => absurd hin hout⟩
    simp [Machine.step, Machine.accepts, Machine.chunk, Machine.entry?]
  | timeouts fds =>
    have ht : Tables s := hg.tables nofun
    cases fds with
    | nil => exact of_moves (m := ⟨s, .timeouts []⟩) ht h .refl (o := none) nofun rfl rfl
    | cons g fds =>
      obtain ⟨-, hdue⟩ := hg.due _ rfl
      exact of_timeout ht h (hdue g List.mem_cons_self)
  | scan i => exact of_scan (hg.tables nofun) hfresh h

end ReadStep

/-- Between two steps of a run, what was handed to the parser for any descriptor, and what is in its
receive buffer, are what the read loop makes of the chunks received. -/
theorem Reachable.reads {listenFd : Fd} {password : Str} {m : Machine}
    (h : Reachable listenFd password m) (fd : Fd) : Reads fd m.server := by
  induction h with
  | start =>
    refine .absent rfl rfl fun p c hat => ?_
    simpa [Machine.start, construct, addFd] using hat.entry
  | step inp hm hfresh ih => exact (ReadStep.of_step hm.good hfresh ih).reads

end Ircserv
