import Ircserv.Proofs.Agreement

/-!
# Delivery

What the trace says about one descriptor since it was last accepted: the bytes `send` took, the
replies appended to its buffer, the buffer after the latest of them, and the replies that the
results applied had for it. In every moment sent and buffered bytes together are the replies.
-/

open Std

namespace Ircserv

open Server

/-- The bytes of some messages that are for `fd`. -/
def messagesTo (fd : Fd) (ms : List OutgoingMessage) : Str :=
  ms.flatMap fun m => if m.fd = fd then m.message else []

/-- The bytes `send` took for `fd`. -/
def sentTo (fd : Fd) : List Event → Str :=
  sinceAccept fd fun
    | .send g bytes _ => if g = fd then bytes else []
    | _ => []

/-- The replies appended to the buffer of `fd`. -/
def enqueuedTo (fd : Fd) : List Event → Str :=
  sinceAccept fd fun
    | .enqueue g message _ => if g = fd then message else []
    | _ => []

/-- The replies for `fd` of the results applied. -/
def repliesTo (fd : Fd) : List Event → Str :=
  sinceAccept fd fun
    | .applied r => messagesTo fd r.replies
    | _ => []

/-- The send buffer of `fd` after the latest reply or `send`. -/
def bufferAt (fd : Fd) : List Event → Str
  | [] => []
  | .accept g :: earlier => if g = fd then [] else bufferAt fd earlier
  | .enqueue g _ buffer :: earlier => if g = fd then buffer else bufferAt fd earlier
  | .send g _ buffer :: earlier => if g = fd then buffer else bufferAt fd earlier
  | _ :: earlier => bufferAt fd earlier

/-- The latest event is not a reply, so no result is half applied. -/
def Settled : List Event → Prop
  | .enqueue _ _ _ :: _ => False
  | _ => True

/-- An event that has nothing to do with output. -/
def Event.Quiet : Event → Prop
  | .accept _ | .enqueue _ _ _ | .send _ _ _ | .applied _ => False
  | _ => True

/-- Sent and buffered bytes are the replies. `pending` is what has been enqueued of a result that is
being applied. -/
structure Delivered (pending : Fd → Str) (s : Server) : Prop where
  balanced : ∀ tr, tr <:+ s.trace → ∀ fd, sentTo fd tr ++ bufferAt fd tr = enqueuedTo fd tr
  settled : ∀ tr, tr <:+ s.trace → Settled tr → ∀ fd, enqueuedTo fd tr = repliesTo fd tr
  current : ∀ fd, enqueuedTo fd s.trace = repliesTo fd s.trace ++ pending fd
  buffer : ∀ fd p c, s.At fd p c → bufferAt fd s.trace = c.sendBuffer

section Readings

variable {e : Event} (h : e.Quiet) (fd : Fd) (tr : List Event)
include h

theorem sentTo_quiet : sentTo fd (e :: tr) = sentTo fd tr := by
  cases e <;> first | exact h.elim | simp [sentTo, sinceAccept]

theorem enqueuedTo_quiet : enqueuedTo fd (e :: tr) = enqueuedTo fd tr := by
  cases e <;> first | exact h.elim | simp [enqueuedTo, sinceAccept]

theorem repliesTo_quiet : repliesTo fd (e :: tr) = repliesTo fd tr := by
  cases e <;> first | exact h.elim | simp [repliesTo, sinceAccept]

theorem bufferAt_quiet : bufferAt fd (e :: tr) = bufferAt fd tr := by
  cases e <;> first | exact h.elim | rfl

end Readings

namespace Delivered

variable {s s' : Server} {pending pending' : Fd → Str} {fd : Fd} {p : Addr} {c c' : Connection}

/-- A step that leaves the trace and the send buffers alone. -/
theorem congr (h : Delivered pending s) (htr : s'.trace = s.trace)
    (hat : ∀ g q d, s'.At g q d → ∃ d₀, s.At g q d₀ ∧ d₀.sendBuffer = d.sendBuffer) :
    Delivered pending s' := by
  refine ⟨?_, ?_, ?_, fun g q d hd => ?_⟩
  · rw [htr]
    exact h.balanced
  · rw [htr]
    exact h.settled
  · rw [htr]
    exact h.current
  · obtain ⟨d₀, hd₀, hbuf⟩ := hat g q d hd
    rw [htr, h.buffer g q d₀ hd₀, hbuf]

/-- A step that adds one event. -/
theorem cons (h : Delivered pending s) {e : Event} (htr : s'.trace = e :: s.trace)
    (hbal : ∀ fd, sentTo fd (e :: s.trace) ++ bufferAt fd (e :: s.trace) =
      enqueuedTo fd (e :: s.trace))
    (hcur : ∀ fd, enqueuedTo fd (e :: s.trace) = repliesTo fd (e :: s.trace) ++ pending' fd)
    (hset : Settled (e :: s.trace) → ∀ fd, pending' fd = [])
    (hbuf : ∀ g q d, s'.At g q d → bufferAt g (e :: s.trace) = d.sendBuffer) :
    Delivered pending' s' := by
  refine ⟨fun tr hs fd => ?_, fun tr hs ht fd => ?_, fun fd => ?_, fun g q d hd => ?_⟩
  · rw [htr] at hs
    rcases List.suffix_cons_iff.1 hs with rfl | hs
    · exact hbal fd
    · exact h.balanced tr hs fd
  · rw [htr] at hs
    rcases List.suffix_cons_iff.1 hs with rfl | hs
    · rw [hcur, hset ht, List.append_nil]
    · exact h.settled tr hs ht fd
  · rw [htr]
    exact hcur fd
  · rw [htr]
    exact hbuf g q d hd

/-- An event that has nothing to do with output, between two results. -/
theorem log (h : Delivered (fun _ => []) s) {e : Event} (he : e.Quiet) :
    Delivered (fun _ => []) (s.log e) := by
  refine h.cons rfl (fun fd => ?_) (fun fd => ?_) (fun _ _ => rfl) fun g q d hd => ?_
  · rw [sentTo_quiet he, bufferAt_quiet he, enqueuedTo_quiet he]
    exact h.balanced _ (List.suffix_refl _) fd
  · rw [enqueuedTo_quiet he, repliesTo_quiet he]
    exact h.current fd
  · rw [bufferAt_quiet he]
    exact h.buffer g q d ⟨hd.entry, hd.object⟩

theorem setConnection (h : Delivered pending s) (hat : s.At fd p c)
    (hbuf : c'.sendBuffer = c.sendBuffer) : Delivered pending (s.setConnection p c') := by
  refine h.congr rfl fun g q d hd => ?_
  rcases hat.of_setConnection hd with ⟨rfl, rfl, hold⟩ | ⟨-, hold⟩
  · exact ⟨c, hold, hbuf.symm⟩
  · exact ⟨d, hold, rfl⟩

/-- A reply appends itself to the buffer of its descriptor and to nothing else. -/
theorem enqueueReply (h : Delivered pending s) (ht : Tables s) {m : OutgoingMessage}
    (hm : m.fd ∈ s.connections) :
    Delivered (fun fd => pending fd ++ messagesTo fd [m]) (s.enqueueReply m) := by
  obtain ⟨p, c, hat⟩ := ht.exists_at hm
  have hbuf := h.buffer m.fd p c hat
  rw [enqueueReply_eq hat]
  refine h.cons rfl (fun fd => ?_) (fun fd => ?_) (fun hs => hs.elim) fun g q d hd => ?_
  · have hold := h.balanced _ (List.suffix_refl _) fd
    by_cases hfd : m.fd = fd
    · subst hfd
      rw [hbuf] at hold
      simp only [sentTo, enqueuedTo, sinceAccept, bufferAt, Connection.bufferSend, if_true,
        List.append_nil] at hold ⊢
      rw [← hold, List.append_assoc]
    · simpa [sentTo, enqueuedTo, sinceAccept, bufferAt, hfd] using hold
  · have hold := h.current fd
    by_cases hfd : m.fd = fd
    · subst hfd
      simp only [enqueuedTo, repliesTo, sinceAccept, messagesTo, List.flatMap_singleton, if_true,
        List.append_nil] at hold ⊢
      rw [hold, List.append_assoc]
    · simpa [enqueuedTo, repliesTo, sinceAccept, messagesTo, hfd] using hold
  · have hd' : (s.setConnection p (c.bufferSend m.message)).At g q d := ⟨hd.entry, hd.object⟩
    rcases ht.at_setConnection hat hd' with ⟨rfl, rfl⟩ | ⟨hg, hold⟩
    · simp [bufferAt]
    · simp only [bufferAt, hg, if_false]
      exact h.buffer g q d hold

theorem foldl_enqueueReply : ∀ (ms : List OutgoingMessage) {pending : Fd → Str} (s : Server),
    Delivered pending s → Tables s → (∀ m ∈ ms, m.fd ∈ s.connections) →
      Delivered (fun fd => pending fd ++ messagesTo fd ms) (ms.foldl Server.enqueueReply s)
  | [], _, s, h, _, _ => by simpa [messagesTo] using h
  | m :: ms, _, s, h, ht, hms => by
    have hm := hms m List.mem_cons_self
    have ih := foldl_enqueueReply ms (s.enqueueReply m) (h.enqueueReply ht hm)
      (ht.enqueueReply hm) fun m' hm' => by
        rw [(enqueueReply_frame s m).1]
        exact hms m' (List.mem_cons_of_mem m hm')
    simpa [messagesTo, List.append_assoc] using ih

/-- All the replies of a result go through. -/
theorem enqueueReplies (h : Delivered (fun _ => []) s) (ht : Tables s) {r : CommandResult}
    (hr : ∀ m ∈ r.replies, m.fd ∈ s.connections) :
    Delivered (fun _ => []) (s.enqueueReplies r) := by
  have hfold := foldl_enqueueReply r.replies s h ht hr
  refine hfold.cons (e := .applied r) rfl (fun fd => ?_) (fun fd => ?_) (fun _ _ => rfl)
    fun g q d hd => ?_
  · have hold := hfold.balanced _ (List.suffix_refl _) fd
    simpa [sentTo, enqueuedTo, sinceAccept, bufferAt] using hold
  · have hold := hfold.current fd
    simpa [enqueuedTo, repliesTo, sinceAccept] using hold
  · exact hfold.buffer g q d ⟨hd.entry, hd.object⟩

theorem disconnectClient (h : Delivered (fun _ => []) s) (hat : s.At fd p c) :
    Delivered (fun _ => []) (s.disconnectClient fd) := by
  refine (h.log (e := .close fd) trivial).congr ?_ fun g q d hd => ?_
  · simp [disconnectClient_eq hat]
  · obtain ⟨-, hd⟩ := Tables.at_disconnectClient hat hd
    exact ⟨d, ⟨hd.entry, hd.object⟩, rfl⟩

theorem notifyAndDisconnect (h : Delivered (fun _ => []) s) (ht : Tables s)
    (hfd : fd ∈ s.connections) (reason : Str) :
    Delivered (fun _ => []) (s.notifyAndDisconnect fd reason) := by
  have htlog := ht.log (e := .disconnect fd reason s.state) rfl (ht.mem_opened hfd)
  have hrep := (h.log (e := .disconnect fd reason s.state) trivial).enqueueReplies htlog
    (htlog.of_addressed (DisconnectNotifier.build_addressed ht.wf.links fd reason))
  obtain ⟨p, c, hat⟩ := ht.at_logDisconnect hfd reason
  exact hrep.disconnectClient hat

theorem handleLine (h : Delivered (fun _ => []) s) (ht : Tables s) (hat : s.At fd p c)
    (k : Syscalls) (n : Nat) : Delivered (fun _ => []) (s.handleLine k fd p c n).2 := by
  obtain ⟨htab, haddr, hfds⟩ := ht.dispatched hat k n
  have haddr' := htab.of_addressed (haddr.congr hfds.symm)
  have hpop : c.popLine.2.sendBuffer = c.sendBuffer := by
    unfold Connection.popLine
    split <;> rfl
  have hline : Delivered (fun _ => []) (s.dispatched k fd p c n).2 :=
    ((h.setConnection hat hpop).log (e := .line fd c.popLine.1) trivial).congr rfl
      fun _ _ d hd => ⟨d, ⟨hd.entry, hd.object⟩, rfl⟩
  have hrep := hline.enqueueReplies htab haddr'
  rw [handleLine_eq]
  unfold applyCommandResult
  dsimp only
  split_ifs
  · refine hrep.notifyAndDisconnect (htab.enqueueReplies haddr') ?_ _
    rw [connections_enqueueReplies]
    exact hat.mem
  · exact hrep

/-- The bytes `send` takes leave the front of the buffer. -/
theorem sent (h : Delivered (fun _ => []) s) (ht : Tables s) (hat : s.At fd p c) (k : Syscalls) :
    Delivered (fun _ => []) (s.sent k fd p c) := by
  set c' := (c.writeToSocket k.send).2 with hc'
  have hsplit : c.sendBuffer.take k.send ++ c'.sendBuffer = c.sendBuffer := by
    simp only [hc', Connection.writeToSocket]
    split_ifs with he h0
    · simp [he]
    · simp [h0]
    · exact List.take_append_drop _ _
  by_cases he : c.sendBuffer = []
  · have hs : s.sent k fd p c = s.setConnection p c' := by simp [Server.sent, he, hc']
    rw [hs]
    exact h.setConnection hat (by simp_all)
  · have hbuf := h.buffer fd p c hat
    have hs : s.sent k fd p c =
        (s.log (.send fd (c.sendBuffer.take k.send) c'.sendBuffer)).setConnection p c' := by
      simp [Server.sent, he, hc']
    rw [hs]
    refine h.cons rfl (fun g => ?_) (fun g => ?_) (fun _ _ => rfl) fun g q d hd => ?_
    · have hold := h.balanced _ (List.suffix_refl _) g
      by_cases hg : fd = g
      · subst hg
        rw [hbuf] at hold
        simp only [sentTo, enqueuedTo, sinceAccept, bufferAt, if_true, List.append_nil] at hold ⊢
        rw [← hold, List.append_assoc, hsplit]
      · simpa [sentTo, enqueuedTo, sinceAccept, bufferAt, hg] using hold
    · have hold := h.current g
      simpa [enqueuedTo, repliesTo, sinceAccept] using hold
    · have hd' : (s.setConnection p c').At g q d := ⟨hd.entry, hd.object⟩
      rcases ht.at_setConnection hat hd' with ⟨rfl, rfl⟩ | ⟨hg, hold⟩
      · simp [bufferAt]
      · simp only [bufferAt, hg, if_false]
        exact h.buffer g q d hold

theorem handleWrite (h : Delivered (fun _ => []) s) (ht : Tables s) (hat : s.At fd p c)
    (k : Syscalls) : Delivered (fun _ => []) (s.handleWrite k fd).2 := by
  have hsent := h.sent ht hat k
  rw [handleWrite_eq hat]
  split_ifs
  · exact hsent
  · exact hsent.congr rfl fun _ _ d hd => ⟨d, ⟨hd.entry, hd.object⟩, rfl⟩
  · exact hsent

/-- A new lifetime starts with nothing sent and nothing buffered. -/
theorem accept (h : Delivered (fun _ => []) s) {g : Fd} (htr : s'.trace = .accept g :: s.trace)
    (hnew : ∀ p c, s'.At g p c → c.sendBuffer = [])
    (hold : ∀ fd p c, fd ≠ g → s'.At fd p c → s.At fd p c) : Delivered (fun _ => []) s' := by
  refine h.cons htr (fun fd => ?_) (fun fd => ?_) (fun _ _ => rfl) fun fd q d hd => ?_
  · have hb := h.balanced _ (List.suffix_refl _) fd
    by_cases hg : g = fd
    · simp [sentTo, enqueuedTo, sinceAccept, bufferAt, hg]
    · simpa [sentTo, enqueuedTo, sinceAccept, bufferAt, hg] using hb
  · have hb := h.current fd
    by_cases hg : g = fd
    · simp [enqueuedTo, repliesTo, sinceAccept, hg]
    · simpa [enqueuedTo, repliesTo, sinceAccept, hg] using hb
  · by_cases hg : g = fd
    · subst hg
      simp [bufferAt, hnew q d hd]
    · simp only [bufferAt, hg, if_false]
      exact h.buffer fd q d (hold fd q d (Ne.symm hg) hd)

theorem move {g : Option Fd} (ht : Tables s) (h : Delivered (fun _ => []) s) (hm : Move s g s') :
    Delivered (fun _ => []) s' := by
  cases hm with
  | polled => exact h.log trivial
  | tooLong => exact h.log trivial
  | ready | activity => exact h.congr rfl fun _ _ d hd => ⟨d, ⟨hd.entry, hd.object⟩, rfl⟩
  | @accept k cs hcs hnb hfresh =>
    refine h.accept (g := cs.fd) ?_ (fun p c hd => ?_) fun fd p c hne hd => ?_
    · simp [acceptClient_eq hcs hnb]
    · rcases ht.at_acceptClient hcs hnb hd with ⟨-, rfl⟩ | ⟨hne, -⟩
      · rfl
      · exact absurd rfl hne
    · rcases ht.at_acceptClient hcs hnb hd with ⟨he, -⟩ | ⟨-, hd⟩
      · exact absurd he.symm hne
      · exact hd
  | @receive fd p c data hat =>
    refine (h.setConnection hat ?_).log (e := .recv fd data) trivial
    unfold Connection.readFromSocket
    split <;> rfl
  | look hat => exact h.setConnection hat rfl
  | line k n hat => exact h.handleLine ht hat k n
  | write k hat => exact h.handleWrite ht hat k
  | disconnect reason hat => exact h.notifyAndDisconnect ht hat.mem reason

theorem start (listenFd : Fd) (password : Str) :
    Delivered (fun _ => []) (.construct listenFd password) := by
  have hnil : Delivered (fun _ => []) { listenFd := listenFd, state := { password := password } } :=
    ⟨fun tr hs fd => by rw [List.suffix_nil.1 hs]; rfl,
      fun tr hs _ fd => by rw [List.suffix_nil.1 hs]; rfl, fun _ => rfl,
      fun fd p c hat => by simpa using hat.entry⟩
  exact (hnil.log (e := .listen listenFd) trivial).congr rfl
    fun _ _ d hd => ⟨d, ⟨hd.entry, hd.object⟩, rfl⟩

end Delivered

theorem Reachable.delivered {listenFd : Fd} {password : Str} {m : Machine}
    (h : Reachable listenFd password m) : Delivered (fun _ => []) m.server := by
  refine h.invariant (.start listenFd password) Delivered.move fun {s fd} ht hI hfd => ?_
  refine hI.accept rfl (fun p c hat => ?_) fun g p c _ hat => ⟨hat.entry, hat.object⟩
  exact absurd (ht.mem_opened (At.mem ⟨hat.entry, hat.object⟩)) hfd

/-- In every moment of a run the bytes `send` took since a descriptor was accepted, with the bytes
in its send buffer, are the replies enqueued for it; outside the application of a result these are
exactly the replies that the results applied had for it. No reply goes to an unknown descriptor. -/
theorem run_delivery {listenFd : Fd} {password : Str} {m : Machine}
    (h : Reachable listenFd password m) :
    (∀ fd c, m.server.connection fd = some c →
      sentTo fd m.server.trace ++ c.sendBuffer = repliesTo fd m.server.trace) ∧
    (∀ tr, tr <:+ m.server.trace → ∀ fd,
      sentTo fd tr ++ bufferAt fd tr = enqueuedTo fd tr ∧
      (Settled tr → enqueuedTo fd tr = repliesTo fd tr)) ∧
    (∀ fd c, m.server.connection fd = some c → bufferAt fd m.server.trace = c.sendBuffer) ∧
    ∀ fd, Event.skip fd ∉ m.server.trace := by
  have hd := h.delivered
  have hbuf : ∀ fd c, m.server.connection fd = some c →
      bufferAt fd m.server.trace = c.sendBuffer := by
    intro fd c hc
    unfold Server.connection connectionAt at hc
    obtain ⟨conn, hconn, p, rfl, hobj⟩ : ∃ conn, m.server.connections[fd]? = some conn ∧
        ∃ p, conn = some p ∧ m.server.objects[p]? = some c := by
      simpa [Option.bind_eq_some_iff] using hc
    exact hd.buffer fd p c ⟨hconn, hobj⟩
  refine ⟨fun fd c hc => ?_, fun tr hs fd => ⟨hd.balanced tr hs fd, fun ht => hd.settled tr hs ht fd⟩,
    hbuf, fun fd hskip => ?_⟩
  · rw [← hbuf fd c hc, hd.balanced _ (List.suffix_refl _) fd, hd.current, List.append_nil]
  · obtain ⟨later, earlier, htr⟩ := List.append_of_mem hskip
    have hs : .skip fd :: earlier <:+ m.server.trace := ⟨later, htr.symm⟩
    exact (h.good.disciplined.of_suffix hs).1

/-- The case of a reply that `send` took four bytes of. -/
theorem run_delivery_partial :
    let m := (Machine.start 3 (lit "pw")).run [.ready [POLLIN], .accepts 5, {}, {}, {},
      .ready [0, POLLIN], {}, .receives "PING x\r\n", {}, {}, .ready [0, POLLOUT], {}, .sends 4, {}, {}]
    (∀ c, m.server.connection 5 = some c →
      sentTo 5 m.server.trace ++ c.sendBuffer = repliesTo 5 m.server.trace) ∧
    (sentTo 5 m.server.trace).length = 4 ∧
    repliesTo 5 m.server.trace = ReplyBuilder.pong (lit "x") := by
  intro m
  have hm : Reachable 3 (lit "pw") m := .run _ .start (by decide +kernel)
  exact ⟨(run_delivery hm).1 5, by decide +kernel, by decide +kernel⟩

end Ircserv
