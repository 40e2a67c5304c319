import Ircserv.Proofs.Framed
import Ircserv.Proofs.LineBuffer
import Ircserv.Proofs.Delivery
import Ircserv.Proofs.Reads

/-!
# The streams the clients receive

The usernames, topics and keys that the server keeps are parameters of lines that it was handed, and
a reply is CR LF after a string with no more carriage returns, line feeds and NULs than the line it
answers, a username of the sender and one topic or key have (`Server.Accounted`, `run_bytes`). No
line has a line feed, so a client finds in its stream the replies that were enqueued
(`run_streams`).
-/

open Std

namespace Ircserv

open ReplyBuilder

/-- The string is the parameter at `index` of the command that is in the line. -/
def Gives (command : Str) (index : Nat) (line t : Str) : Prop :=
  (Parser.parse line).command = command ∧ t = (Parser.parse line).getSingleParam index

/-- What the strings of the server may be after some events: usernames, topics and keys that lines
gave, a username a line of its client's descriptor. -/
def origins (tr : List Event) : Strings where
  username fd t := t = [] ∨ ∃ line, Event.line fd line ∈ tr ∧ Gives (lit "USER") 0 line t
  name t := cr ∉ t ∧ lf ∉ t ∧ (0 : UInt8) ∉ t
  topic t := t = [] ∨ ∃ fd line, Event.line fd line ∈ tr ∧ Gives (lit "TOPIC") 1 line t
  key t := t = [] ∨ ∃ fd line, Event.line fd line ∈ tr ∧ Gives (lit "MODE") 2 line t
  username_nil _ := .inl rfl
  name_nil := ⟨List.not_mem_nil, List.not_mem_nil, List.not_mem_nil⟩
  topic_nil := .inl rfl
  key_nil := .inl rfl

/-- Whether replies are enqueued because of the event. -/
def Event.isCause : Event → Bool
  | .line _ _ | .disconnect _ _ _ => true
  | _ => false

/-- Where a reply that is enqueued after some events may have its carriage returns and NULs from:
the line it answers, a username of the sender and one topic or key; or, for a notice, a username of
the client that is disconnected. -/
inductive Source (earlier : List Event) : Str → Prop
  | answer {fd : Fd} {line username text : Str}
      (hcause : earlier.find? Event.isCause = some (.line fd line))
      (husername : (origins earlier).username fd username)
      (htext : (origins earlier).topic text ∨ (origins earlier).key text) :
      Source earlier (line ++ username ++ text)
  | notice {fd : Fd} {reason username : Str} {state : ServerState}
      (hcause : earlier.find? Event.isCause = some (.disconnect fd reason state))
      (husername : (origins earlier).username fd username) : Source earlier username

/-- The reply is CR LF after a string with no more of the bytes than its source has. -/
def Accounted (earlier : List Event) (message : Str) : Prop :=
  ∃ body src, message = body ++ crlf ∧ Source earlier src ∧
    ∀ b ∈ [cr, lf, 0], body.count b ≤ src.count b

/-- A line has no line feed, and a reply has its bytes from what was before it. -/
def Event.Accounted (earlier : List Event) : Event → Prop
  | .line _ l => lf ∉ l
  | .enqueue _ message _ => Ircserv.Accounted earlier message
  | _ => True

def AccountedTrace : List Event → Prop
  | [] => True
  | e :: earlier => e.Accounted earlier ∧ AccountedTrace earlier

/-- The strings of the state and the replies so far. -/
structure Server.Accounted (s : Server) : Prop where
  wf : WellFormed s.state
  state : s.state.Keeps (origins s.trace)
  trace : AccountedTrace s.trace

theorem origins_le (e : Event) (tr : List Event) : (origins tr).Le (origins (e :: tr)) where
  username _ _ := Or.imp_right fun ⟨line, hline, h⟩ => ⟨line, List.mem_cons_of_mem e hline, h⟩
  name _ h := h
  topic _ := Or.imp_right fun ⟨fd, line, hline, h⟩ => ⟨fd, line, List.mem_cons_of_mem e hline, h⟩
  key _ := Or.imp_right fun ⟨fd, line, hline, h⟩ => ⟨fd, line, List.mem_cons_of_mem e hline, h⟩

namespace Accounted

variable {tr : List Event} {fd : Fd} {line message : Str} {e : Event}

/-- The replies to one command have the same sources. -/
theorem cons (h : Accounted tr message) (he : e.isCause = false) : Accounted (e :: tr) message := by
  have hle := origins_le e tr
  have hfind : (e :: tr).find? Event.isCause = tr.find? Event.isCause :=
    List.find?_cons_of_neg (by simp [he])
  obtain ⟨body, src, hm, hsrc, hcount⟩ := h
  refine ⟨body, src, hm, ?_, hcount⟩
  cases hsrc with
  | answer hcause husername htext =>
    exact .answer (hfind.trans hcause) (hle.username _ _ husername)
      (htext.imp (hle.topic _) (hle.key _))
  | notice hcause husername => exact .notice (hfind.trans hcause) (hle.username _ _ husername)

theorem not_printable : ∀ b ∈ [cr, lf, 0], isPrintable b = false := by decide +kernel

theorem not_mem_name {t : Str} (h : (origins tr).name t) : ∀ b ∈ [cr, lf, 0], b ∉ t := by
  obtain ⟨hcr, hlf, hnul⟩ := h
  simp [hcr, hlf, hnul]

/-- A reply to the latest line. A channel's name has none of the bytes. -/
theorem of_answers (h : (origins (.line fd line :: tr)).Answers fd (Parser.parse line) message) :
    Accounted (.line fd line :: tr) message := by
  obtain ⟨username, stored, husername, hstored, body, hm, hbody⟩ := h
  have hline := Parser.parse_within line
  have htext : ∃ text, ((origins (.line fd line :: tr)).topic text ∨
      (origins (.line fd line :: tr)).key text) ∧
        ∀ b ∈ [cr, lf, 0], stored.count b ≤ text.count b := by
    rcases hstored with hname | htopic | hkey
    · exact ⟨[], .inl (.inl rfl), fun b hb => (List.count_eq_zero.2 (not_mem_name hname b hb)).le⟩
    · exact ⟨stored, .inl htopic, fun _ _ => Nat.le_refl _⟩
    · exact ⟨stored, .inr hkey, fun _ _ => Nat.le_refl _⟩
  obtain ⟨text, htext, hcount⟩ := htext
  refine ⟨body, line ++ username ++ text, hm, .answer rfl husername htext, fun b hb => ?_⟩
  have hfields := hline b (not_printable b hb)
  have hsum := hbody b (not_printable b hb)
  have hstored := hcount b hb
  simp only [List.count_append] at hsum ⊢
  omega

end Accounted

/-- The line up to the first line feed. -/
theorem Connection.not_mem_popLine (c : Connection) : lf ∉ c.hasCompleteLine.2.popLine.1 := by
  by_cases h : lf ∈ c.recvBuffer
  · obtain ⟨b, t, hbuf, hb⟩ := List.eq_append_cons_of_mem h
    have hpop := popLine_line (c := { c with nlPos := some b.length }) hbuf rfl
    rw [hasCompleteLine_line hb hbuf, hpop, stripLine, List.dropLast_concat]
    dsimp only
    split_ifs
    · exact fun hmem => hb ((List.dropLast_sublist b).subset hmem)
    · exact hb
  · rw [hasCompleteLine_of_not_mem h]
    exact List.not_mem_nil

namespace Server.Accounted

variable {s s' : Server} {fd : Fd} {e : Event} {k : Syscalls}

theorem log (h : s.Accounted) (he : e.Accounted s.trace) : (s.log e).Accounted :=
  ⟨h.wf, h.state.mono (origins_le e s.trace), he, h.trace⟩

theorem congr (h : s.Accounted) (hstate : s'.state = s.state) (htrace : s'.trace = s.trace) :
    s'.Accounted :=
  ⟨by rw [hstate]; exact h.wf, by rw [hstate, htrace]; exact h.state, by rw [htrace]; exact h.trace⟩

theorem enqueueReply (h : s.Accounted) {o : OutgoingMessage}
    (ho : Ircserv.Accounted s.trace o.message) : (s.enqueueReply o).Accounted ∧
      ∀ m, Ircserv.Accounted s.trace m → Ircserv.Accounted (s.enqueueReply o).trace m := by
  unfold Server.enqueueReply
  split
  · exact ⟨h.log trivial, fun _ hm => hm.cons rfl⟩
  · split
    · rename_i p c _ _
      have hset : (s.setConnection p (c.bufferSend o.message)).Accounted := h.congr rfl rfl
      exact ⟨(hset.log (e := .enqueue o.fd o.message _) ho).congr rfl rfl, fun _ hm => hm.cons rfl⟩
    · exact ⟨h.log trivial, fun _ hm => hm.cons rfl⟩

theorem foldl_enqueueReply : ∀ (os : List OutgoingMessage) {s : Server}, s.Accounted →
    (∀ o ∈ os, Ircserv.Accounted s.trace o.message) → (os.foldl Server.enqueueReply s).Accounted
  | [], _, h, _ => h
  | o :: os, s, h, hos => by
    obtain ⟨hstep, hcons⟩ := h.enqueueReply (hos o List.mem_cons_self)
    exact foldl_enqueueReply os hstep fun o' ho' => hcons _ (hos o' (List.mem_cons_of_mem _ ho'))

theorem enqueueReplies (h : s.Accounted) {r : CommandResult}
    (hr : ∀ o ∈ r.replies, Ircserv.Accounted s.trace o.message) : (s.enqueueReplies r).Accounted :=
  (foldl_enqueueReply r.replies h hr).log (e := .applied r) trivial

theorem disconnectClient (h : s.Accounted) (fd : Fd) : (s.disconnectClient fd).Accounted := by
  have hclose : (s.log (.close fd)).Accounted := h.log trivial
  unfold Server.disconnectClient
  dsimp only
  split
  · exact hclose.congr rfl rfl
  · exact ⟨hclose.wf.removeClient fd, hclose.state.removeClient fd, hclose.trace⟩

theorem notifyAndDisconnect (h : s.Accounted) (fd : Fd) {reason : Str}
    (hreason : reason.all isPrintable = true) : (s.notifyAndDisconnect fd reason).Accounted := by
  have hlog : (s.log (.disconnect fd reason s.state)).Accounted := h.log trivial
  have hnotice : ∀ o ∈ (DisconnectNotifier.build fd reason s.state).replies,
      Ircserv.Accounted (.disconnect fd reason s.state :: s.trace) o.message := by
    rcases hp : s.state.client.fdToClient[fd]? with _ | p
    · have hnone : s.state.getClientByFd fd = none := hp
      rw [DisconnectNotifier.build, hnone]
      exact fun _ ho => absurd ho List.not_mem_nil
    · intro o ho
      obtain ⟨body, hm, hbody⟩ :=
        DisconnectNotifier.build_draws h.wf.links hlog.state hreason hp o ho
      have husername : (origins (.disconnect fd reason s.state :: s.trace)).username
          (s.state.clientAt p).fd (s.state.clientAt p).username := (hlog.state.client p).username
      rw [(h.wf.links.fdOwner fd p hp).2] at husername
      exact ⟨body, _, hm, .notice rfl husername,
        fun b hb => hbody b (Accounted.not_printable b hb)⟩
  exact (hlog.enqueueReplies hnotice).disconnectClient fd

theorem handleLine (h : s.Accounted) {conn : Addr} {c : Connection} {n : Nat}
    (hline : lf ∉ c.popLine.1) : (s.handleLine k fd conn c n).2.Accounted := by
  have hpopped : ((s.setConnection conn c.popLine.2).log (.line fd c.popLine.1)).Accounted :=
    (h.congr rfl rfl : (s.setConnection conn c.popLine.2).Accounted).log hline
  have hstate : s.state.Keeps (origins (.line fd c.popLine.1 :: s.trace)) := hpopped.state
  have hdispatched : (s.dispatched k fd conn c n).2.Accounted ∧
      ∀ o ∈ (s.dispatched k fd conn c n).1.replies,
        Ircserv.Accounted (.line fd c.popLine.1 :: s.trace) o.message := by
    rcases hp : s.state.client.fdToClient[fd]? with _ | p
    · have hnone : CommandDispatcher.dispatchWith (k.addr n) (k.time (n + 1)) fd
          (Parser.parse c.popLine.1) s.state (some s.healthMonitor) = _ :=
        CommandDispatcher.dispatchWith_unknown _ _ _ _ hp
      have hsame : (s.dispatched k fd conn c n).1.replies = [] ∧
          (s.dispatched k fd conn c n).2.state = s.state := by
        simp only [dispatched, setConnection, Server.log, hnone, and_self]
      refine ⟨hpopped.congr hsame.2 rfl, ?_⟩
      rw [hsame.1]
      exact fun _ ho => absurd ho List.not_mem_nil
    · have hfd : (s.state.clientAt p).fd = fd := (h.wf.links.fdOwner fd p hp).2
      have htakes : (origins (.line fd c.popLine.1 :: s.trace)).Takes (s.state.clientAt p).fd
          (Parser.parse c.popLine.1) := by
        rw [hfd]
        exact ⟨fun hcmd => .inr ⟨_, List.mem_cons_self, hcmd, rfl⟩,
          fun _ hvalid => sound_of_isValidChannelName hvalid,
          fun hcmd => .inr ⟨fd, _, List.mem_cons_self, hcmd, rfl⟩,
          fun hcmd => .inr ⟨fd, _, List.mem_cons_self, hcmd, rfl⟩⟩
      obtain ⟨hreplies, hkept⟩ := CommandDispatcher.dispatchWith_draws hstate (k.addr n)
        (k.time (n + 1)) (some s.healthMonitor) hp htakes
      rw [hfd] at hreplies
      exact ⟨⟨h.wf.dispatchWith _ _ _ _ _, hkept, hpopped.trace⟩,
        fun o ho => .of_answers (hreplies o ho)⟩
  obtain ⟨haccounted, hreplies⟩ := hdispatched
  rw [handleLine_eq, applyCommandResult]
  have happlied := haccounted.enqueueReplies hreplies
  split_ifs
  · exact happlied.notifyAndDisconnect fd (by decide +kernel)
  · exact happlied

theorem handleLines (k : Syscalls) (fd : Fd) (conn : Addr) : ∀ (fuel n : Nat) {s : Server}, s.Accounted →
    (s.handleLines k fd conn fuel n).2.Accounted
  | 0, _, _, h => h
  | fuel + 1, n, s, h => by
    unfold Server.handleLines
    split
    · exact h.log trivial
    · rename_i c _
      have hlook : (s.setConnection conn c.hasCompleteLine.2).Accounted := h.congr rfl rfl
      dsimp only
      split_ifs with hcomplete hgoing
      · exact hlook
      · exact hlook.handleLine (Connection.not_mem_popLine c)
      · exact handleLines k fd conn fuel (n + 1) (hlook.handleLine (Connection.not_mem_popLine c))

theorem handleRead (h : s.Accounted) (fd : Fd) : (s.handleRead k fd).2.Accounted := by
  have hinsert : ({ s with connections := s.connections.insertIfNew fd none } : Server).Accounted :=
    h.congr rfl rfl
  unfold Server.handleRead
  dsimp only
  split
  · rename_i conn c _ _
    have hrecv := (hinsert.congr rfl rfl : (Server.setConnection { s with
      connections := s.connections.insertIfNew fd none } conn (c.readFromSocket k.recv).2).Accounted).log
        (e := .recv fd k.recv) trivial
    split_ifs
    · exact hrecv
    · exact hrecv.log trivial
    · exact handleLines k fd conn _ 0 (hrecv.congr rfl rfl)
  · exact hinsert.log trivial

theorem handleWrite (h : s.Accounted) (fd : Fd) : (s.handleWrite k fd).2.Accounted := by
  have hinsert : ({ s with connections := s.connections.insertIfNew fd none } : Server).Accounted :=
    h.congr rfl rfl
  unfold Server.handleWrite
  dsimp only
  generalize { s with connections := s.connections.insertIfNew fd none } = s₁ at hinsert
  split
  · rename_i conn c _ _
    have hsent : ∀ c', ((if c.sendBuffer = [] then s₁ else
        s₁.log (.send fd (c.sendBuffer.take k.send) c'.sendBuffer)).setConnection conn c').Accounted := by
      intro c'
      split_ifs
      · exact hinsert.congr rfl rfl
      · exact (hinsert.log (e := .send fd _ _) trivial).congr rfl rfl
    split
    · exact hsent _
    split
    · exact (hsent _).congr rfl rfl
    · exact hsent _
  · exact hinsert.log trivial

theorem reset (h : s.Accounted) (fd : Fd) :
    (s.notifyAndDisconnect fd (lit "Connection reset")).Accounted :=
  h.notifyAndDisconnect fd (by decide +kernel)

theorem readBranch (h : s.Accounted) (fd : Fd) : (s.readBranch k fd).2.Accounted := by
  have hread : (s.handleRead k fd).2.Accounted := h.handleRead fd
  unfold Server.readBranch
  dsimp only
  split_ifs
  · exact hread.reset fd
  · exact hread
  · exact hread

theorem writeBranch (h : s.Accounted) (fd : Fd) : (s.writeBranch k fd).2.Accounted := by
  have hwrite : (s.handleWrite k fd).2.Accounted := h.handleWrite fd
  unfold Server.writeBranch
  dsimp only
  split_ifs
  · exact hwrite.reset fd
  · exact hwrite

theorem handleClient (h : s.Accounted) (fd : Fd) (rev : PollMask) :
    (s.handleClient k fd rev).2.Accounted := by
  have hread : (if rev.has POLLIN then s.readBranch k fd else (true, s)).2.Accounted := by
    split_ifs
    · exact h.readBranch fd
    · exact h
  unfold Server.handleClient
  dsimp only
  generalize (if rev.has POLLIN then s.readBranch k fd else (true, s)) = r at hread
  obtain ⟨going, s₁⟩ := r
  have hwrite : (if rev.has POLLOUT then s₁.writeBranch k fd else (true, s₁)).2.Accounted := by
    split_ifs
    · exact hread.writeBranch fd
    · exact hread
  dsimp only
  generalize (if rev.has POLLOUT then s₁.writeBranch k fd else (true, s₁)) = r at hwrite
  obtain ⟨going', s₂⟩ := r
  split_ifs
  · exact hread
  · exact hwrite
  · exact hwrite.reset fd
  · exact hwrite

theorem acceptClient (h : s.Accounted) (hhost : ∀ cs ∈ k.accept, cs.host.all isPrintable = true) :
    (s.acceptClient k).2.Accounted := by
  unfold Server.acceptClient
  split
  · exact h
  · rename_i cs hcs
    have hlog : (s.log (.accept cs.fd)).Accounted := h.log trivial
    dsimp only
    split_ifs
    · exact hlog
    · exact ⟨hlog.wf.addClient _ _ _, hlog.state.addClient (hhost cs (by rw [hcs]; rfl)) _ _,
        hlog.trace⟩

theorem visit (h : s.Accounted) (hhost : ∀ cs ∈ k.accept, cs.host.all isPrintable = true) (i : Nat) :
    (s.visit k i).2.Accounted := by
  unfold Server.visit
  split
  · exact h
  · split_ifs
    · exact h
    · exact h.acceptClient hhost
    · exact h
    · exact h.handleClient _ _

theorem construct (listenFd : Fd) (password : Str) :
    (Server.construct listenFd password).Accounted := by
  refine ⟨.start password, ⟨fun p => ?_, fun a => ?_⟩, trivial, trivial⟩
  · rw [ServerState.clientAt_of_not_mem ExtTreeMap.not_mem_empty]
    exact Client.keeps_default
  · rw [ServerState.channelAt_of_not_mem ExtTreeMap.not_mem_empty]
    exact Channel.keeps_new (Strings.name_nil _)

end Server.Accounted

/-- The hosts of the clients are what `inet_ntoa` prints: digits and dots. -/
def Input.Dotted (inp : Input) : Prop :=
  ∀ cs ∈ inp.calls.accept, cs.host.all (fun c => isDigit c || c == chr '.') = true

instance (inp : Input) : Decidable inp.Dotted :=
  inferInstanceAs (Decidable (∀ cs ∈ inp.calls.accept, _))

theorem Input.Dotted.printable {inp : Input} (h : inp.Dotted) :
    ∀ cs ∈ inp.calls.accept, cs.host.all isPrintable = true := by
  intro cs hcs
  have hhost := h cs hcs
  rw [List.all_eq_true] at hhost ⊢
  intro b hb
  have hbyte := hhost b hb
  rw [Bool.or_eq_true, beq_iff_eq] at hbyte
  rcases hbyte with hdigit | rfl
  · exact isPrintable_of_isDigit b hdigit
  · decide

namespace Machine

variable {m : Machine}

theorem step_accounted (h : m.server.Accounted) {inp : Input} (hinp : inp.Dotted) :
    (m.step inp).server.Accounted := by
  obtain ⟨s, phase⟩ := m
  cases phase with
  | poll =>
    have hpoll : (s.log (.poll (s.pollfds.map (·.fd)))).Accounted := h.log trivial
    dsimp only [step, pollStep]
    split
    · exact h
    split
    · exact hpoll
    · exact hpoll
    · exact hpoll.congr rfl rfl
  | scan i =>
    have hvisit := h.visit hinp.printable i
    dsimp only [step, scanStep] at hvisit ⊢
    split_ifs
    · generalize s.visit inp.calls i = r at hvisit
      obtain ⟨_ | j, s'⟩ := r
      · exact hvisit
      · exact hvisit
    · exact h
  | timeouts fds =>
    cases fds with
    | nil => exact h
    | cons fd fds => exact Server.Accounted.notifyAndDisconnect h fd (by decide +kernel)
  | stopped => exact h

theorem run_accounted : ∀ {inputs : List Input} {m : Machine}, m.server.Accounted →
    (∀ inp ∈ inputs, inp.Dotted) → (m.run inputs).server.Accounted
  | [], _, h, _ => h
  | inp :: inputs, m, h, hdotted =>
    have hrest : ∀ inp' ∈ inputs, inp'.Dotted := fun inp' h' => hdotted inp' (List.mem_cons_of_mem inp h')
    run_accounted (m := m.step inp) (step_accounted h (hdotted inp List.mem_cons_self)) hrest

end Machine

/-- The replies appended to the buffer of `fd`, one by one. -/
def enqueuedMessages (fd : Fd) : List Event → List Str :=
  sinceAccept fd fun
    | .enqueue g message _ => if g = fd then [message] else []
    | _ => []

theorem enqueuedTo_eq (fd : Fd) : ∀ tr : List Event,
    enqueuedTo fd tr = (enqueuedMessages fd tr).flatten
  | [] => rfl
  | e :: tr => by
    have ih := enqueuedTo_eq fd tr
    unfold enqueuedTo enqueuedMessages at ih ⊢
    cases e with
    | accept g =>
      rw [sinceAccept, sinceAccept]
      split_ifs
      · rfl
      · exact ih
    | enqueue g message buffer =>
      simp only [sinceAccept, List.flatten_append, ih]
      split_ifs <;> simp
    | _ => simp only [sinceAccept, List.append_nil, ih]

theorem Gives.within {command line t : Str} {index : Nat} (h : Gives command index line t) :
    Within line t := by
  rw [h.2]
  exact (Parser.parse_within line).trans (Message.within_param _ index)

namespace AccountedTrace

variable {tr earlier later : List Event} {fd : Fd} {src message buffer : Str}

theorem suffix : ∀ {later : List Event}, AccountedTrace (later ++ tr) → AccountedTrace tr
  | [], h => h
  | _ :: _, h => suffix h.2

theorem not_mem_line (h : AccountedTrace tr) {line : Str} (hline : Event.line fd line ∈ tr) :
    lf ∉ line := by
  obtain ⟨later, earlier, rfl⟩ := List.append_of_mem hline
  exact h.suffix.1

theorem not_mem_given (h : AccountedTrace tr) {command line t : Str} {index : Nat}
    (hline : Event.line fd line ∈ tr) (ht : Gives command index line t) : lf ∉ t :=
  ht.within.not_mem (by decide) (h.not_mem_line hline)

/-- No source of a reply has a line feed. -/
theorem not_mem_source (h : AccountedTrace tr) (hsrc : Source tr src) : lf ∉ src := by
  have husername : ∀ {fd : Fd} {t : Str}, (origins tr).username fd t → lf ∉ t := by
    rintro fd t (rfl | ⟨line, hline, ht⟩)
    · exact List.not_mem_nil
    · exact h.not_mem_given hline ht
  cases hsrc with
  | @answer g line username text hcause hu htext =>
    have htext' : lf ∉ text := by
      rcases htext with (rfl | ⟨g, l, hl, ht⟩) | (rfl | ⟨g, l, hl, ht⟩)
      · exact List.not_mem_nil
      · exact h.not_mem_given hl ht
      · exact List.not_mem_nil
      · exact h.not_mem_given hl ht
    simp only [List.mem_append, not_or]
    exact ⟨⟨h.not_mem_line (List.mem_of_find?_eq_some hcause), husername hu⟩, htext'⟩
  | notice _ hu => exact husername hu

/-- Every reply ends in the only CR LF of it. -/
theorem reply (h : AccountedTrace tr) (htr : tr = later ++ .enqueue fd message buffer :: earlier) :
    ∃ body src, message = body ++ crlf ∧ lf ∉ body ∧ Source earlier src ∧
      ∀ b ∈ [cr, 0], body.count b ≤ src.count b := by
  subst htr
  obtain ⟨⟨body, src, hm, hsrc, hcount⟩, hearlier⟩ := h.suffix
  have hlf := hcount lf (by simp)
  rw [List.count_eq_zero.2 (hearlier.not_mem_source hsrc), Nat.le_zero, List.count_eq_zero] at hlf
  exact ⟨body, src, hm, hlf, hsrc, fun b hb => hcount b (by simp at hb ⊢; tauto)⟩

theorem enqueued (h : AccountedTrace tr) (hmessage : message ∈ enqueuedMessages fd tr) :
    ∃ body, lf ∉ body ∧ message = body ++ crlf := by
  obtain ⟨e, he, hmem⟩ := mem_of_mem_sinceAccept hmessage
  cases e with
  | enqueue g m buffer =>
    dsimp only at hmem
    split_ifs at hmem
    · rw [List.mem_singleton.1 hmem]
      obtain ⟨later, earlier, htr⟩ := List.append_of_mem he
      obtain ⟨body, -, hm, hlf, -⟩ := h.reply htr
      exact ⟨body, hlf, hm⟩
    · cases hmem
  | _ => cases hmem

end AccountedTrace

/-- In every moment of a run, the stream enqueued for a descriptor since it was accepted, cut into
chunks in any way and read through a `LineBuffer`, gives the replies that were enqueued, each
without its CR LF, and nothing is left over. -/
theorem run_streams {listenFd : Fd} {password : Str} {inputs : List Input}
    (hhosts : ∀ inp ∈ inputs, inp.Dotted) :
    ∀ tr, tr <:+ ((Machine.start listenFd password).run inputs).server.trace →
      ∀ (fd : Fd) (us : List LineBuffer.Use),
        us.flatMap LineBuffer.Use.chunk = enqueuedTo fd tr →
        ((({} : LineBuffer).uses us).1 ++ (({} : LineBuffer).uses us).2.lines).map (· ++ crlf) =
            enqueuedMessages fd tr ∧
          (({} : LineBuffer).uses us).2.buffer = [] := by
  intro tr hsuffix fd us hus
  obtain ⟨later, htr⟩ := hsuffix
  have haccounted := Machine.run_accounted (m := .start listenFd password)
    (.construct listenFd password) hhosts
  have htrace : AccountedTrace tr := AccountedTrace.suffix (htr.symm ▸ haccounted.trace)
  rw [enqueuedTo_eq] at hus
  exact LineBuffer.uses_messages (fun m hm => htrace.enqueued hm) hus

/-- The case of one reply that arrives in two chunks, the second of which starts with the line
feed. -/
theorem run_streams_chunks :
    let tr := ((Machine.start 3 (lit "pw")).run [.ready [POLLIN], .accepts 5, {}, {}, {},
      .ready [0, POLLIN], {}, .receives "PING x\r\n", {}]).server.trace
    let us : List LineBuffer.Use :=
      [.append (lit ":irc.local PONG irc.local :x\r"), .popLine, .append [lf], .popLine]
    ((({} : LineBuffer).uses us).1 ++ (({} : LineBuffer).uses us).2.lines).map (· ++ crlf) =
        enqueuedMessages 5 tr ∧
      enqueuedMessages 5 tr = [pong (lit "x")] := by
  intro tr us
  have hread := @run_streams 3 (lit "pw") _ (by decide +kernel) tr (List.suffix_refl _) 5 us
    (by decide +kernel)
  exact ⟨hread.1, by decide +kernel⟩

/-- In every run a reply is CR LF after a string without a line feed, which has no more carriage
returns and NULs than its source: a reply to a command no more than the line, a username the sender
gave and one topic or key that a line gave, and the notice of a disconnection no more than a
username of the client. The nicknames, the hosts and the names of channels that the server keeps
have none of these bytes. -/
theorem run_bytes {listenFd : Fd} {password : Str} {inputs : List Input}
    (hhosts : ∀ inp ∈ inputs, inp.Dotted) :
    let s := ((Machine.start listenFd password).run inputs).server
    (∀ later fd message buffer earlier, s.trace = later ++ .enqueue fd message buffer :: earlier →
      ∃ body src, message = body ++ crlf ∧ lf ∉ body ∧ Source earlier src ∧
        ∀ b ∈ [cr, 0], body.count b ≤ src.count b) ∧
    ∀ b ∈ [cr, lf, 0],
      (∀ p, b ∉ (s.state.clientAt p).nickname ∧ b ∉ (s.state.clientAt p).host) ∧
      ∀ a, b ∉ (s.state.channelAt a).name := by
  intro s
  have haccounted : s.Accounted :=
    Machine.run_accounted (m := .start listenFd password) (.construct listenFd password) hhosts
  refine ⟨fun later fd message buffer earlier htr => haccounted.trace.reply htr,
    fun b hb => ⟨fun p => ?_, fun a => ?_⟩⟩
  · have hnot : ∀ t : Str, t.all isPrintable = true → b ∉ t := fun t ht =>
      List.count_eq_zero.1 (count_printable ht (Accounted.not_printable b hb))
    exact ⟨hnot _ (haccounted.state.client p).nickname, hnot _ (haccounted.state.client p).host⟩
  · exact Accounted.not_mem_name (haccounted.state.channel a).name b hb

/-- The inputs of a run in which one client sends another a text with a carriage return and a
NUL. -/
def controlInputs : List Input :=
  [.ready [POLLIN], .accepts 4, {}, {}, {},
    .ready [POLLIN], .accepts 5, {}, {}, {}, {},
    .ready [0, POLLIN, POLLIN], {}, .receives "PASS pw\r\nNICK ann\r\nUSER a 0 * :a\r\n",
    .receives "PASS pw\r\nNICK bob\r\nUSER b 0 * :b\r\n", {}, {},
    .ready [0, POLLIN], {}, .receives "PRIVMSG bob :x\ry\x00z\r\n"]

/-- What the other client gets. -/
def controlReply : Str := lit ":ann!a@ PRIVMSG bob :x\ry\x00z\r\n"

theorem controlReply_enqueued : controlReply ∈
    enqueuedMessages 5 ((Machine.start 3 (lit "pw")).run controlInputs).server.trace := by
  decide +kernel

/-- A reply can have a carriage return that is not before its line feed, and a NUL. -/
theorem not_control_free :
    ¬∀ inputs : List Input, (∀ inp ∈ inputs, inp.Dotted) →
      (Machine.start 3 (lit "pw")).FreshRun inputs → ∀ (fd : Fd),
        ∀ message ∈ enqueuedMessages fd ((Machine.start 3 (lit "pw")).run inputs).server.trace,
          ∀ b ∈ message.dropLast.dropLast, b ≠ cr ∧ b ≠ 0 := by
  intro h
  have hfree := h controlInputs (by decide +kernel) (by decide +kernel) 5 controlReply
    controlReply_enqueued cr (by decide +kernel)
  exact hfree.1 rfl

/-- The case of this reply: its source has a carriage return and a NUL. -/
theorem run_bytes_control :
    ∃ later buffer earlier src,
      ((Machine.start 3 (lit "pw")).run controlInputs).server.trace =
        later ++ .enqueue 5 controlReply buffer :: earlier ∧
      Source earlier src ∧ 1 ≤ src.count cr ∧ 1 ≤ src.count 0 := by
  obtain ⟨hbytes, -⟩ := @run_bytes 3 (lit "pw") controlInputs (by decide +kernel)
  obtain ⟨e, he, hmem⟩ := mem_of_mem_sinceAccept controlReply_enqueued
  obtain ⟨buffer, rfl⟩ : ∃ buffer, e = .enqueue 5 controlReply buffer := by
    cases e with
    | enqueue g m buffer =>
      dsimp only at hmem
      split_ifs at hmem with hg
      · exact ⟨buffer, by rw [List.mem_singleton.1 hmem, hg]⟩
      · cases hmem
    | _ => cases hmem
  obtain ⟨later, earlier, htr⟩ := List.append_of_mem he
  obtain ⟨body, src, hm, -, hsrc, hcount⟩ := hbytes later 5 controlReply buffer earlier htr
  have hbody : controlReply.dropLast.dropLast = body := by rw [hm]; simp [crlf]
  rw [← hbody] at hcount
  exact ⟨later, buffer, earlier, src, htr, hsrc,
    (show 1 ≤ _ by decide +kernel).trans (hcount cr (by simp)),
    (show 1 ≤ _ by decide +kernel).trans (hcount 0 (by simp))⟩

end Ircserv
