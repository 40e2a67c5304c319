import Ircserv.Lib.Segments
import Ircserv.Proofs.Agreement

/-!
# Disconnections

Whatever the cause, a client is disconnected by `notifyAndDisconnect`: with the client still in the
state, the notice is built and enqueued, and then the socket is closed. In the trace these events
stand together as one block. After a QUIT line the client is gone, so none of its lines is
dispatched any more.
-/

open Std

namespace Ircserv

open Server

/-- The reply an event appended to a buffer. -/
def Event.reply? : Event → Option OutgoingMessage
  | .enqueue fd message _ => some ⟨fd, message⟩
  | _ => none

/-- The events of the disconnection of `fd`, latest first. In the state `st` that the notice was
built from, the client was still there, and the replies are one QUIT line for each other client that
shared a channel with it. -/
def Disconnection (fd : Fd) (reason : Str) (st : ServerState) (block : List Event) : Prop :=
  ∃ (p : Addr) (fds : List Fd) (es : List Event), st.client.fdToClient[fd]? = some p ∧
    (∀ g, g ∈ fds ↔ ∃ q, DisconnectNotifier.Shares st p q ∧ (st.clientAt q).fd = g) ∧ fds.Nodup ∧
    block = .close fd :: .applied (DisconnectNotifier.build fd reason st) ::
      (es ++ [.disconnect fd reason st]) ∧
    es.reverse.map Event.reply? = (DisconnectNotifier.broadcast
      (ReplyBuilder.quit (st.clientAt p).getFullPrefix reason) fds).replies.map some

/-- Whether an event is the closing of `fd`. -/
def Event.closes (fd : Fd) : Event → Bool
  | .close g => g == fd
  | _ => false

/-- Neither the start nor the end of a disconnection. -/
def Event.Plain : Event → Prop
  | .close _ | .disconnect _ _ _ => False
  | _ => True

/-- Whether a QUIT line of `fd` was dispatched since it was last accepted. -/
def quitSeen (fd : Fd) : List Event → Bool
  | [] => false
  | .accept g :: earlier => if g = fd then false else quitSeen fd earlier
  | .line g line :: earlier =>
    (g == fd && (Parser.parse line).command == lit "QUIT") || quitSeen fd earlier
  | _ :: earlier => quitSeen fd earlier

/-- Neither an arrival nor a line. -/
def Event.Silent : Event → Prop
  | .accept _ | .line _ _ => False
  | _ => True

theorem quitSeen_append {fd : Fd} {tr : List Event} : ∀ {b : List Event}, (∀ e ∈ b, e.Silent) →
    quitSeen fd (b ++ tr) = quitSeen fd tr
  | [], _ => rfl
  | e :: b, hb => by
    have ih : quitSeen fd (b ++ tr) = quitSeen fd tr :=
      quitSeen_append fun e' he' => hb e' (List.mem_cons_of_mem e he')
    have he := hb e List.mem_cons_self
    cases e <;> first | exact he.elim | exact ih

namespace Server

variable {s : Server} {fd : Fd} {p : Addr} {c : Connection}

theorem foldl_enqueueReply_trace : ∀ (ms : List OutgoingMessage) (s : Server), Tables s →
    (∀ m ∈ ms, m.fd ∈ s.connections) → ∃ es, (ms.foldl enqueueReply s).trace = es ++ s.trace ∧
      es.reverse.map Event.reply? = ms.map some
  | [], s, _, _ => ⟨[], rfl, rfl⟩
  | m :: ms, s, h, hms => by
    have hm := hms m List.mem_cons_self
    obtain ⟨es, htr, hes⟩ := foldl_enqueueReply_trace ms (s.enqueueReply m) (h.enqueueReply hm)
      fun m' hm' => by
        rw [(enqueueReply_frame s m).1]
        exact hms m' (List.mem_cons_of_mem m hm')
    obtain ⟨p, c, hat⟩ := h.exists_at hm
    rw [List.foldl_cons, htr, enqueueReply_eq hat]
    refine ⟨es ++ [.enqueue m.fd m.message (c.bufferSend m.message).sendBuffer], by simp, ?_⟩
    simp [hes, Event.reply?]

/-- The replies of a result stand together in the trace. -/
theorem enqueueReplies_trace (h : Tables s) {r : CommandResult}
    (hr : ∀ m ∈ r.replies, m.fd ∈ s.connections) :
    ∃ es, (s.enqueueReplies r).trace = .applied r :: (es ++ s.trace) ∧
      es.reverse.map Event.reply? = r.replies.map some := by
  obtain ⟨es, htr, hes⟩ := foldl_enqueueReply_trace r.replies s h hr
  exact ⟨es, by rw [← htr]; rfl, hes⟩

theorem mem_replies {es : List Event} {ms : List OutgoingMessage}
    (h : es.reverse.map Event.reply? = ms.map some) {e : Event} (he : e ∈ es) :
    ∃ g message buffer, e = .enqueue g message buffer := by
  have hsome : e.reply? ∈ ms.map some := by
    rw [← h]
    exact List.mem_map_of_mem (List.mem_reverse.2 he)
  obtain ⟨m, -, hm⟩ := List.mem_map.1 hsome
  cases e with
  | enqueue g message buffer => exact ⟨g, message, buffer, rfl⟩
  | _ => cases hm

theorem trace_disconnectClient (hfd : fd ∈ s.connections) :
    (s.disconnectClient fd).trace = .close fd :: s.trace := by
  simp [disconnectClient, removeFd, ExtTreeMap.getElem?_eq_some_getElem hfd]

/-- A disconnection adds its block to the trace. -/
theorem notifyAndDisconnect_trace (h : Tables s) (hfd : fd ∈ s.connections) (reason : Str) :
    ∃ block, (s.notifyAndDisconnect fd reason).trace = block ++ s.trace ∧
      Disconnection fd reason s.state block := by
  obtain ⟨p, hp⟩ := h.exists_client hfd
  obtain ⟨fds, hbuild, hnd, hmem⟩ := DisconnectNotifier.build_spec h.wf.links hp reason
  have hlog := h.log (e := .disconnect fd reason s.state) rfl (h.mem_opened hfd)
  obtain ⟨es, htr, hes⟩ := enqueueReplies_trace hlog (hlog.of_addressed
    (DisconnectNotifier.build_addressed h.wf.links fd reason))
  refine ⟨_, ?_, p, fds, es, hp, hmem, hnd, rfl, ?_⟩
  · unfold notifyAndDisconnect
    dsimp only
    rw [trace_disconnectClient, state_log, htr]
    · simp
    · rw [connections_enqueueReplies]
      exact hfd
  · rw [hes, hbuild]

end Server

namespace Disconnection

variable {fd : Fd} {reason : Str} {st : ServerState} {block : List Event}

theorem silent (h : Disconnection fd reason st block) : ∀ e ∈ block, e.Silent := by
  obtain ⟨p, fds, es, -, -, -, rfl, hes⟩ := h
  intro e he
  simp only [List.mem_cons, List.mem_append, List.not_mem_nil, or_false] at he
  rcases he with rfl | rfl | he | rfl
  · trivial
  · trivial
  · obtain ⟨g, message, buffer, rfl⟩ := mem_replies hes he
    trivial
  · trivial

/-- A block closes one descriptor, first, and asks for its disconnection, last. -/
theorem ends (h : Disconnection fd reason st block) :
    (∃ bs, block = .close fd :: bs ∧ ∀ g, Event.close g ∉ bs) ∧
      ∃ bs, block = bs ++ [.disconnect fd reason st] ∧ ∀ g r s, Event.disconnect g r s ∉ bs := by
  obtain ⟨p, fds, es, -, -, -, rfl, hes⟩ := h
  have hnot : ∀ e ∈ es, (∀ g, e ≠ .close g) ∧ ∀ g r s, e ≠ .disconnect g r s := by
    intro e he
    obtain ⟨g, message, buffer, rfl⟩ := mem_replies hes he
    exact ⟨nofun, nofun⟩
  refine ⟨⟨_, rfl, fun g hg => ?_⟩, .close fd :: .applied _ :: es, rfl, fun g r s hg => ?_⟩
  · simp only [List.mem_cons, List.mem_append, reduceCtorEq, List.not_mem_nil, or_false,
      false_or] at hg
    exact (hnot _ hg).1 g rfl
  · simp only [List.mem_cons, reduceCtorEq, false_or] at hg
    exact (hnot _ hg).2 g r s rfl

end Disconnection

/-- The trace is made of plain events and whole disconnections. -/
abbrev Recorded (tr : List Event) : Prop :=
  Segmented Event.Plain (fun b => ∃ fd reason st, Disconnection fd reason st b) tr

/-- A client that is there has not quit, and a line was only ever dispatched for such a client. -/
structure NoQuit (s : Server) : Prop where
  present : ∀ fd ∈ s.connections, quitSeen fd s.trace = false
  lines : ∀ fd line tr, .line fd line :: tr <:+ s.trace → quitSeen fd tr = false

namespace NoQuit

variable {s s' : Server} {fd : Fd} {p : Addr} {c : Connection}

/-- A step without arrivals and lines. -/
theorem silent (h : NoQuit s) {b : List Event} (htr : s'.trace = b ++ s.trace)
    (hb : ∀ e ∈ b, e.Silent) (hconn : ∀ fd ∈ s'.connections, fd ∈ s.connections) : NoQuit s' where
  present fd hfd := by
    rw [htr, quitSeen_append hb]
    exact h.present fd (hconn fd hfd)
  lines fd line tr hs := by
    rw [htr] at hs
    obtain ⟨l, hl⟩ := hs
    -- the line is not among the new events
    have hnot : Event.line fd line ∉ b := fun hmem => (hb _ hmem).elim
    obtain ⟨l', -, ht⟩ := Segmented.split_of_not_mem hnot hl
    exact h.lines fd line tr ⟨l', ht.symm⟩

end NoQuit

namespace CommandDispatcher

/-- QUIT asks for a disconnection, and nothing else does. -/
theorem dispatchWith_quit {addr p : Addr} {now : Time} {fd : Fd} {msg : Message} {s : ServerState}
    {m : Option ConnectionHealthMonitor} (hp : s.client.fdToClient[fd]? = some p)
    (hq : msg.command = lit "QUIT") : (dispatchWith addr now fd msg s m).1 = handleQuit := by
  have hp' : s.getClientByFd fd = some p := hp
  have hpong : ¬ lit "QUIT" = lit "PONG" := by decide
  have hping : ¬ lit "QUIT" = lit "PING" := by decide
  simp only [dispatchWith, hp', hq, hpong, if_false, handleCommand, hping, if_true]

end CommandDispatcher

namespace Server

variable {s : Server} {fd : Fd} {p : Addr} {c : Connection}

/-- A line adds itself, the replies, and the disconnection if there is one. -/
theorem handleLine_trace (h : Tables s) (hat : s.At fd p c) (k : Syscalls) (n : Nat) :
    ∃ es b, (s.handleLine k fd p c n).2.trace =
        b ++ (.applied (s.dispatched k fd p c n).1 :: (es ++ .line fd c.popLine.1 :: s.trace)) ∧
      (∀ e ∈ es, ∃ g message buffer, e = .enqueue g message buffer) ∧
      (b = [] ∧ (s.dispatched k fd p c n).1.shouldDisconnect = false ∨
        (s.dispatched k fd p c n).1.shouldDisconnect = true ∧
          ∃ st, Disconnection fd (lit "Client Quit") st b) := by
  obtain ⟨htab, haddr, hfds⟩ := h.dispatched hat k n
  have haddr' := htab.of_addressed (haddr.congr hfds.symm)
  obtain ⟨es, htr, hes⟩ := enqueueReplies_trace htab haddr'
  have hline : (s.dispatched k fd p c n).2.trace = .line fd c.popLine.1 :: s.trace := rfl
  rw [hline] at htr
  rw [handleLine_eq]
  unfold applyCommandResult
  dsimp only
  split_ifs with hd
  · have hfd : fd ∈ ((s.dispatched k fd p c n).2.enqueueReplies
        (s.dispatched k fd p c n).1).connections := by
      rw [connections_enqueueReplies]
      exact hat.mem
    obtain ⟨b, hb, hdisc⟩ := notifyAndDisconnect_trace (htab.enqueueReplies haddr') hfd
      (lit "Client Quit")
    exact ⟨es, b, by rw [hb, htr], fun e => mem_replies hes, .inr ⟨hd, _, hdisc⟩⟩
  · exact ⟨es, [], by rw [htr]; rfl, fun e => mem_replies hes, .inl ⟨rfl, by simpa using hd⟩⟩

end Server

/-- What a move adds to the trace is plain, up to whole disconnections. -/
theorem Recorded.move {s s' : Server} {g : Option Fd} (ht : Tables s) (h : Recorded s.trace)
    (hm : Move s g s') : Recorded s'.trace := by
  cases hm with
  | polled | receive | tooLong => exact .plain trivial h
  | ready | activity | look => exact h
  | @accept k cs hcs hnb =>
    have htr : (s.acceptClient k).2.trace = .accept cs.fd :: s.trace := by
      simp [acceptClient_eq hcs hnb]
    rw [htr]
    exact .plain trivial h
  | @line fd p c k n hat =>
    obtain ⟨es, b, htr, hes, hb⟩ := handleLine_trace ht hat k n
    rw [htr]
    have hrec : Recorded (.applied (s.dispatched k fd p c n).1 ::
        (es ++ .line fd c.popLine.1 :: s.trace)) := by
      refine .plain trivial (Segmented.append_plain (.plain trivial h) es fun e he => ?_)
      obtain ⟨g, message, buffer, rfl⟩ := hes e he
      trivial
    rcases hb with ⟨rfl, -⟩ | ⟨-, st, hb⟩
    · exact hrec
    · exact .block ⟨_, _, st, hb⟩ hrec
  | @write fd p c k hat =>
    have hsent : Recorded (s.sent k fd p c).trace := by
      unfold sent
      split_ifs
      · exact h
      · exact .plain trivial h
    rw [handleWrite_eq hat]
    split_ifs <;> exact hsent
  | disconnect reason hat =>
    obtain ⟨b, htr, hb⟩ := notifyAndDisconnect_trace ht hat.mem reason
    rw [htr]
    exact .block ⟨_, _, _, hb⟩ h

namespace NoQuit

variable {s s' : Server} {fd : Fd} {p : Addr} {c : Connection}

/-- A new lifetime. -/
theorem accept (h : NoQuit s) (htr : s'.trace = .accept fd :: s.trace)
    (hconn : ∀ g, g ∈ s'.connections → fd = g ∨ g ∈ s.connections) : NoQuit s' where
  present g hg := by
    rw [htr, quitSeen]
    split_ifs with hfd
    · rfl
    · exact h.present g ((hconn g hg).resolve_left hfd)
  lines g line tr hs := by
    rw [htr] at hs
    rcases List.suffix_cons_iff.1 hs with he | hs
    · cases he
    · exact h.lines g line tr hs

theorem handleLine (h : NoQuit s) (ht : Tables s) (hat : s.At fd p c) (k : Syscalls) (n : Nat) :
    NoQuit (s.handleLine k fd p c n).2 := by
  obtain ⟨q, hq⟩ := ht.exists_client hat.mem
  obtain ⟨es, b, htr, hes, hb⟩ := handleLine_trace ht hat k n
  have hconn := connections_handleLine k n hat
  have hgoing : (s.handleLine k fd p c n).1 = !(s.dispatched k fd p c n).1.shouldDisconnect := rfl
  set b' := b ++ .applied (s.dispatched k fd p c n).1 :: es with hb'
  have htr' : (s.handleLine k fd p c n).2.trace = b' ++ .line fd c.popLine.1 :: s.trace := by
    rw [htr, hb', List.append_assoc, List.cons_append]
  have hsilent : ∀ e ∈ b', e.Silent := by
    intro e he
    simp only [hb', List.mem_append, List.mem_cons] at he
    rcases he with he | rfl | he
    · rcases hb with ⟨rfl, -⟩ | ⟨-, st, hb⟩
      · cases he
      · exact hb.silent e he
    · trivial
    · obtain ⟨g, message, buffer, rfl⟩ := hes e he
      trivial
  refine ⟨fun g hg => ?_, fun g line tr hs => ?_⟩
  · rw [htr', quitSeen_append hsilent, quitSeen]
    rw [hconn] at hg
    by_cases hgone : (s.handleLine k fd p c n).1 = true
    · rw [if_pos hgone] at hg
      -- the client stays, so the line did not ask for a disconnection
      have hquit : (Parser.parse c.popLine.1).command ≠ lit "QUIT" := by
        intro hcmd
        have hr : (s.dispatched k fd p c n).1 = CommandDispatcher.handleQuit :=
          CommandDispatcher.dispatchWith_quit hq hcmd
        rw [hgoing, hr] at hgone
        cases hgone
      simp [h.present g hg, hquit]
    · rw [if_neg hgone, ExtTreeMap.mem_erase, Ne, Int.compare_eq_eq] at hg
      simp [h.present g hg.2, hg.1]
  · rw [htr'] at hs
    obtain ⟨l, hl⟩ := hs
    have hnot : Event.line g line ∉ b' := fun hmem => (hsilent _ hmem).elim
    obtain ⟨l', -, ht'⟩ := Segmented.split_of_not_mem hnot hl
    rcases l' with _ | ⟨e, l'⟩
    · rw [List.nil_append, List.cons.injEq, Event.line.injEq] at ht'
      obtain ⟨⟨rfl, -⟩, rfl⟩ := ht'
      exact h.present fd hat.mem
    · rw [List.cons_append, List.cons.injEq] at ht'
      exact h.lines g line tr ⟨l', ht'.2.symm⟩

theorem start (listenFd : Fd) (password : Str) : NoQuit (.construct listenFd password) := by
  refine ⟨fun fd _ => rfl, fun fd line tr hs => ?_⟩
  rcases List.suffix_cons_iff.1 hs with he | hs
  · cases he
  · cases List.suffix_nil.1 hs

end NoQuit

theorem NoQuit.move {s s' : Server} {g : Option Fd} (ht : Tables s) (h : NoQuit s)
    (hm : Move s g s') : NoQuit s' := by
  cases hm with
  | polled => exact h.silent (b := [.poll _]) rfl (by simp [Event.Silent]) fun _ => id
  | @receive fd p c data =>
    exact h.silent (b := [.recv fd data]) rfl (by simp [Event.Silent]) fun _ => id
  | @tooLong fd => exact h.silent (b := [.tooLong fd]) rfl (by simp [Event.Silent]) fun _ => id
  | ready | activity | look => exact h.silent (b := []) rfl (by simp) fun _ => id
  | @accept k cs hcs hnb =>
    have htr : (s.acceptClient k).2.trace = .accept cs.fd :: s.trace := by
      simp [acceptClient_eq hcs hnb]
    have hconn : ∀ g, g ∈ (s.acceptClient k).2.connections → cs.fd = g ∨ g ∈ s.connections := by
      simp [acceptClient_eq hcs hnb]
    exact h.accept htr hconn
  | line k n hat => exact h.handleLine ht hat k n
  | @write fd p c k hat =>
    have hsent : NoQuit (s.sent k fd p c) := by
      unfold sent
      split_ifs
      · exact h.silent (b := []) rfl (by simp) fun _ => id
      · exact h.silent (b := [.send fd _ _]) rfl (by simp [Event.Silent]) fun _ => id
    rw [handleWrite_eq hat]
    split_ifs
    · exact hsent
    · exact hsent.silent (b := []) rfl (by simp) fun _ => id
    · exact hsent
  | @disconnect fd p c reason hat =>
    obtain ⟨b, htr, hb⟩ := notifyAndDisconnect_trace ht hat.mem reason
    refine h.silent htr hb.silent fun g hg => ?_
    rw [connections_notifyAndDisconnect hat.mem] at hg
    exact ExtTreeMap.mem_of_mem_erase hg

/-- A line after a QUIT line comes from a new arrival. -/
theorem quitSeen_of_mem {fd : Fd} {line : Str} {earlier : List Event}
    (hq : (Parser.parse line).command = lit "QUIT") : ∀ {mid : List Event},
    quitSeen fd (mid ++ .line fd line :: earlier) = false → .accept fd ∈ mid
  | [], h => by simp [quitSeen, hq] at h
  | e :: mid, h => by
    have ih : quitSeen fd (mid ++ .line fd line :: earlier) = false → .accept fd ∈ mid :=
      quitSeen_of_mem hq
    cases e with
    | accept g =>
      by_cases hg : g = fd
      · rw [hg]
        exact List.mem_cons_self
      · rw [List.cons_append, quitSeen, if_neg hg] at h
        exact List.mem_cons_of_mem _ (ih h)
    | line g l =>
      rw [List.cons_append, quitSeen, Bool.or_eq_false_iff] at h
      exact List.mem_cons_of_mem _ (ih h.2)
    | _ => exact List.mem_cons_of_mem _ (ih h)

/-- Every closing of a descriptor ends a disconnection whose notice was built with the client still
there and went once to each other client that shared a channel with it; every disconnection is
carried through, at most once for an arrival; and no line of a client is dispatched after its QUIT
line. -/
theorem run_notices {listenFd : Fd} {password : Str} {m : Machine}
    (h : Reachable listenFd password m) :
    (∀ later fd earlier, m.server.trace = later ++ .close fd :: earlier →
      ∃ reason st block rest, .close fd :: earlier = block ++ rest ∧
        Disconnection fd reason st block) ∧
    (∀ later fd reason st earlier, m.server.trace = later ++ .disconnect fd reason st :: earlier →
      ∃ block rest, later ++ [.disconnect fd reason st] = rest ++ block ∧
        Disconnection fd reason st block) ∧
    (∀ later fd reason st mid earlier,
      m.server.trace = later ++ .disconnect fd reason st :: (mid ++ .close fd :: earlier) →
        .accept fd ∈ mid) ∧
    ∀ later fd line mid quit earlier,
      m.server.trace = later ++ .line fd line :: (mid ++ .line fd quit :: earlier) →
        (Parser.parse quit).command = lit "QUIT" → .accept fd ∈ mid := by
  have hrec : Recorded m.server.trace := h.invariant (I := fun s => Recorded s.trace)
    (.plain trivial .nil) Recorded.move fun _ hI _ => .plain trivial hI
  have hquit : NoQuit m.server := h.invariant (.start listenFd password) NoQuit.move
    fun ht hI _ => hI.accept rfl fun _ hg => .inr hg
  have hdisc := h.good.disciplined
  refine ⟨fun later fd earlier htr => ?_, fun later fd reason st earlier htr => ?_,
    fun later fd reason st mid earlier htr => ?_, fun later fd line mid quit earlier htr hq => ?_⟩
  · obtain ⟨b, rest, hb, g, reason, st, hdis⟩ := hrec.block_of_head (x := .close fd) id
      (fun b ⟨g, reason, st, hb⟩ => by
        obtain ⟨⟨bs, rfl, hnot⟩, -⟩ := hb.ends
        exact ⟨_, bs, rfl, hnot fd⟩) htr
    obtain ⟨⟨bs, rfl, -⟩, -⟩ := hdis.ends
    rw [List.cons_append, List.cons.injEq, Event.close.injEq] at hb
    obtain ⟨rfl, rfl⟩ := hb
    exact ⟨reason, st, _, rest, rfl, hdis⟩
  · obtain ⟨rest, b, hb, g, reason', st', hdis⟩ := hrec.block_of_last
      (x := .disconnect fd reason st) id
      (fun b ⟨g, reason', st', hb⟩ => by
        obtain ⟨-, bs, rfl, hnot⟩ := hb.ends
        exact ⟨bs, _, rfl, hnot fd reason st⟩) htr
    obtain ⟨-, bs, rfl, -⟩ := hdis.ends
    rw [← List.append_assoc] at hb
    obtain ⟨-, hd⟩ := List.append_inj' hb rfl
    cases hd
    exact ⟨_, rest, by rw [hb, List.append_assoc], hdis⟩
  · have hs : .disconnect fd reason st :: (mid ++ .close fd :: earlier) <:+ m.server.trace :=
      ⟨later, htr.symm⟩
    have hsuf := hdisc.of_suffix hs
    exact hsuf.2.accept_mem hsuf.1
  · exact quitSeen_of_mem hq (hquit.lines fd line _ ⟨later, htr.symm⟩)

/-- The case of a client that quits a channel it shares with another one. -/
theorem run_notices_shared :
    let m := (Machine.start 3 (lit "pw")).run [.ready [POLLIN], .accepts 5, {}, {}, {},
      .ready [POLLIN], .accepts 6, {}, {}, {}, {}, .ready [0, POLLIN, POLLIN], {},
      .receives "PASS pw\r\nNICK a\r\nUSER a 0 * a\r\nJOIN #c\r\n",
      .receives "PASS pw\r\nNICK b\r\nUSER b 0 * b\r\nJOIN #c\r\n", {}, {},
      .ready [0, POLLIN], {}, .receives "QUIT\r\nPING x\r\n", {}, {}]
    ∃ later earlier, m.server.trace = later ++ .close 5 :: earlier ∧
      ∃ reason st block rest, .close 5 :: earlier = block ++ rest ∧
        Disconnection 5 reason st block := by
  intro m
  have hm : Reachable 3 (lit "pw") m := .run _ .start (by decide +kernel)
  have hclosed : m.server.trace.any (Event.closes 5) = true := by decide +kernel
  obtain ⟨e, he, hfd⟩ := List.any_eq_true.1 hclosed
  obtain ⟨later, earlier, htr⟩ := List.append_of_mem he
  cases e with
  | close fd =>
    obtain rfl : fd = 5 := eq_of_beq hfd
    exact ⟨later, earlier, htr, (run_notices hm).1 later 5 earlier htr⟩
  | _ => cases hfd

end Ircserv
