import Ircserv.Proofs.Delivery
import Ircserv.Proofs.Turns
import Ircserv.Proofs.Quits

/-!
# A descriptor that is used again

When a descriptor is accepted, nothing in the tables is about it, so whatever it was used for before
leaves no trace. Every result is applied right after what produced it (`Sourced`), so the new
connection is sent replies that were produced since the accept.
-/

open Std

namespace Ircserv

open Server

/-- The bytes an event sends on the descriptor. -/
def Event.sentOn (fd : Fd) : Event → Str
  | .send g bytes _ => if g = fd then bytes else []
  | _ => []

/-- The replies to the descriptor of the result an event applies. -/
def Event.repliesOn (fd : Fd) : Event → Str
  | .applied r => messagesTo fd r.replies
  | _ => []

/-- The events that produce a result: a line is dispatched, or a client is disconnected. -/
def Event.Produces : Event → Prop
  | .line _ _ | .disconnect _ _ _ => True
  | _ => False

/-- Before a result is applied its replies are enqueued, and before that it is produced. -/
def Sourced (tr : List Event) : Prop :=
  ∀ r earlier, .applied r :: earlier <:+ tr → ∃ es e rest, earlier = es ++ e :: rest ∧
    (∀ x ∈ es, ∃ g message buffer, x = .enqueue g message buffer) ∧ e.Produces

theorem sinceAccept_append {β : Type*} {fd : Fd} {f : Event → List β} (hf : ∀ g, f (.accept g) = [])
    {earlier : List Event} : ∀ {later : List Event}, .accept fd ∉ later →
      sinceAccept fd f (later ++ .accept fd :: earlier) = later.reverse.flatMap f
  | [], _ => by simp [sinceAccept]
  | e :: later, h => by
    rw [List.mem_cons, not_or] at h
    have ih : sinceAccept fd f (later ++ .accept fd :: earlier) = later.reverse.flatMap f :=
      sinceAccept_append hf h.2
    cases e with
    | accept g =>
      have hg : g ≠ fd := fun hg => h.1 (by rw [hg])
      simp [sinceAccept, hg, ih, hf]
    | _ => simp [sinceAccept, ih]

theorem sentTo_eq (fd : Fd) (tr : List Event) : sentTo fd tr = sinceAccept fd (Event.sentOn fd) tr := by
  unfold sentTo
  congr 1

theorem repliesTo_eq (fd : Fd) (tr : List Event) :
    repliesTo fd tr = sinceAccept fd (Event.repliesOn fd) tr := by
  unfold repliesTo
  congr 1

namespace Sourced

variable {tr : List Event}

/-- Events that apply nothing. -/
theorem append (h : Sourced tr) : ∀ {new : List Event}, (∀ e ∈ new, ∀ r, e ≠ .applied r) →
    Sourced (new ++ tr)
  | [], _ => h
  | e :: new, hnew => by
    intro r earlier hs
    rcases List.suffix_cons_iff.1 hs with heq | hs
    · exact absurd (List.cons.inj heq).1.symm (hnew e List.mem_cons_self r)
    · exact append h (fun e' he' => hnew e' (List.mem_cons_of_mem e he')) r earlier hs

theorem cons (h : Sourced tr) {e : Event} (he : ∀ r, e ≠ .applied r) : Sourced (e :: tr) := by
  have happend : Sourced ([e] ++ tr) := h.append fun e' he' => by
    rw [List.mem_singleton.1 he']
    exact he
  exact happend

/-- A result that is applied. -/
theorem applied (h : Sourced tr) {e : Event} {es : List Event} (r : CommandResult)
    (hes : ∀ x ∈ es, ∃ g message buffer, x = .enqueue g message buffer) (he : e.Produces) :
    Sourced (.applied r :: (es ++ e :: tr)) := by
  have happly : ∀ r, e ≠ .applied r := by
    rintro r rfl
    exact he
  have hrest : Sourced (es ++ e :: tr) := by
    refine (h.cons happly).append fun x hx r => ?_
    obtain ⟨g, message, buffer, rfl⟩ := hes x hx
    exact nofun
  intro r' earlier hs
  rcases List.suffix_cons_iff.1 hs with heq | hs
  · obtain ⟨-, rfl⟩ := List.cons.inj heq
    exact ⟨es, e, tr, rfl, hes, he⟩
  · exact hrest r' earlier hs

theorem disconnection (h : Sourced tr) {fd : Fd} {reason : Str} {st : ServerState}
    {block : List Event} (hb : Disconnection fd reason st block) : Sourced (block ++ tr) := by
  obtain ⟨p, fds, es, -, -, -, rfl, hes⟩ := hb
  have happlied : Sourced (.applied (DisconnectNotifier.build fd reason st) ::
      (es ++ .disconnect fd reason st :: tr)) := h.applied _ (fun x => mem_replies hes) trivial
  simpa using happlied.cons (e := .close fd) nofun

theorem move {s s' : Server} {g : Option Fd} (ht : Tables s) (h : Sourced s.trace)
    (hm : Move s g s') : Sourced s'.trace := by
  cases hm with
  | polled | receive | tooLong => exact h.cons nofun
  | ready | activity | look => exact h
  | @accept k cs hcs hnb =>
    rw [show (s.acceptClient k).2.trace = .accept cs.fd :: s.trace by simp [acceptClient_eq hcs hnb]]
    exact h.cons nofun
  | @line fd p c k n hat =>
    obtain ⟨es, b, htr, hes, hb⟩ := handleLine_trace ht hat k n
    have happlied := h.applied (e := .line fd c.popLine.1) (s.dispatched k fd p c n).1 hes trivial
    rw [htr]
    rcases hb with ⟨rfl, -⟩ | ⟨-, st, hb⟩
    · exact happlied
    · exact happlied.disconnection hb
  | @write fd p c k hat =>
    have hsent : Sourced (s.sent k fd p c).trace := by
      unfold sent
      split_ifs
      · exact h
      · exact h.cons nofun
    rw [handleWrite_eq hat]
    split_ifs <;> exact hsent
  | disconnect reason hat =>
    obtain ⟨b, htr, hb⟩ := notifyAndDisconnect_trace ht hat.mem reason
    rw [htr]
    exact h.disconnection hb

/-- What is applied since an event that produces nothing was produced since. -/
theorem since {later earlier : List Event} {x : Event} (h : Sourced (later ++ x :: earlier))
    (hx : x ∉ later) (henq : ∀ g message buffer, x ≠ .enqueue g message buffer)
    (hprod : ¬ x.Produces) : Sourced later := by
  rintro r after ⟨before, rfl⟩
  obtain ⟨es, e, rest, heq, hes, he⟩ := h r (after ++ x :: earlier) ⟨before, by simp⟩
  have hpre : es ++ [e] <+: after ++ x :: earlier := ⟨rest, by rw [heq]; simp⟩
  obtain ⟨left, rfl⟩ := isPrefix_of_not_mem hpre fun hmem => by
    rcases List.mem_append.1 hmem with hmem | hmem
    · obtain ⟨g, message, buffer, hxe⟩ := hes x hmem
      exact henq g message buffer hxe
    · rw [List.mem_singleton.1 hmem] at hprod
      exact hprod he
  exact ⟨es, e, left, by simp, hes, he⟩

end Sourced

theorem Reachable.sourced {listenFd : Fd} {password : Str} {m : Machine}
    (h : Reachable listenFd password m) : Sourced m.server.trace := by
  refine h.invariant (I := fun s => Sourced s.trace) ?_ (fun ht hI hm => Sourced.move ht hI hm)
    fun _ hI _ => hI.cons nofun
  have hnil : Sourced [] := fun r earlier hs => by simp at hs
  exact hnil.cons nofun

/-- The trace only grows. -/
theorem Move.trace {s s' : Server} {g : Option Fd} (ht : Tables s) (hm : Move s g s') :
    s.trace <:+ s'.trace := by
  cases hm with
  | polled | receive | tooLong => exact List.suffix_cons _ _
  | ready | activity | look => exact List.suffix_refl _
  | @accept k cs hcs hnb =>
    rw [show (s.acceptClient k).2.trace = .accept cs.fd :: s.trace by simp [acceptClient_eq hcs hnb]]
    exact List.suffix_cons _ _
  | @line fd p c k n hat =>
    obtain ⟨es, b, htr, -, -⟩ := handleLine_trace ht hat k n
    rw [htr]
    refine ⟨b ++ .applied (s.dispatched k fd p c n).1 :: (es ++ [.line fd c.popLine.1]), ?_⟩
    simp
  | @write fd p c k hat =>
    have hsent : s.trace <:+ (s.sent k fd p c).trace := by
      unfold sent
      split_ifs
      · exact List.suffix_refl _
      · exact List.suffix_cons _ _
    rw [handleWrite_eq hat]
    split_ifs <;> exact hsent
  | disconnect reason hat =>
    obtain ⟨b, htr, -⟩ := notifyAndDisconnect_trace ht hat.mem reason
    rw [htr]
    exact List.suffix_append _ _

theorem Machine.trace_step {listenFd : Fd} {password : Str} {m : Machine} {inp : Input}
    (h : Reachable listenFd password m) (hfresh : inp.Fresh m) :
    m.server.trace <:+ (m.step inp).server.trace := by
  rcases (h.good.step hfresh).2 with ⟨g, hms⟩ | ⟨-, -, fd, -, hs⟩
  · by_cases hstop : m.phase = .stopped
    · rcases m with ⟨s, phase⟩
      cases hstop
      exact List.suffix_refl _
    · have ht := h.good.tables hstop
      have hall : ∀ {s s' : Server}, Tables s → Moves g s s' → s.trace <:+ s'.trace := by
        intro s s' ht hms
        induction hms with
        | refl => exact List.suffix_refl _
        | tail hms hm ih => exact ih.trans (hm.trace (Moves.tables ht hms))
      exact hall ht hms
  · rw [hs]
    exact List.suffix_cons _ _

theorem Machine.trace_run {listenFd : Fd} {password : Str} : ∀ (inputs : List Input) {m : Machine},
    Reachable listenFd password m → m.FreshRun inputs → m.server.trace <:+ (m.run inputs).server.trace
  | [], _, _, _ => List.suffix_refl _
  | _ :: inputs, _, h, hf =>
    (Machine.trace_step h hf.1).trans (Machine.trace_run inputs (.step _ h hf.1) hf.2)

/-- The client of a descriptor that was just accepted. -/
theorem Tables.client_acceptClient {s : Server} (ht : Tables s) {k : Syscalls} {cs : Accepted}
    (hcs : k.accept = some cs) (hnb : cs.nonBlocking = true) (hfresh : cs.fd ∉ openFds s.trace) :
    let st := (s.acceptClient k).2.state
    ∃ p, st.getClientByFd cs.fd = some p ∧ st.clientAt p = { host := cs.host, fd := cs.fd } ∧
      (∀ a, p ∉ (st.channelAt a).members ∧ (st.channelAt a).isOperator p = false ∧
        p ∉ (st.channelAt a).invitedClients) ∧
      ∀ n, st.getClientByNick n ≠ some p := by
  have hfree : s.state.client.fdToClient[cs.fd]? = none := by
    rw [ht.opened, not_or, ht.known, ExtTreeMap.mem_iff_isSome_getElem?] at hfresh
    simpa using hfresh.2
  have hdead := Heap.fresh_not_mem s.state.client.objects (k.addr 1)
  rw [acceptClient_eq hcs hnb]
  have hout : ∀ a, Heap.fresh s.state.client.objects (k.addr 1) ∉ (s.state.channelAt a).members :=
    fun a hm => hdead (ht.wf.links.memberLive hm)
  refine ⟨_, getClientByFd_addClient hfree (k.addr 1) cs.host,
    (clientAt_addClient (k.addr 1) cs.host hfree _).trans (if_pos rfl), fun a => ⟨hout a, ?_, fun hi =>
      hdead (ht.wf.links.invitedLive a _ hi)⟩, fun n hn => ?_⟩
  · show (s.state.channelAt a).isOperator _ = false
    rw [Channel.isOperator, ExtTreeMap.getElem?_eq_none (hout a)]
  · refine hdead (ht.wf.nicks.owner n _ ?_).1
    have hn' : (s.state.addClient (k.addr 1) cs.fd cs.host).client.nicknameToClient[n]? = _ := hn
    simpa [ServerState.addClient, ClientRegistry.addClient, ClientRegistry.getClientByFd, hfree] using hn'

/-- A descriptor that is used again starts anew. When the listening socket gives back a descriptor,
whatever it was used for before, its client is as new, is in no channel, on no invite list and found
by no nick, the health monitor does not know it, its buffers are empty and it is polled for input
only. And until the next accept of the descriptor, the bytes sent on it are replies of results that
were both produced and applied since. -/
theorem run_reuse {listenFd : Fd} {password : Str} {m : Machine} {inp : Input} {i : Nat} {e : PollFd}
    {cs : Accepted} (h : Reachable listenFd password m) (hfresh : inp.Fresh m)
    (hphase : m.phase = .scan i) (he : m.server.pollfds[i]? = some e)
    (hlisten : e.fd = m.server.listenFd) (hin : e.revents.has POLLIN = true)
    (hcs : inp.calls.accept = some cs) (hnb : cs.nonBlocking = true) :
    let m' := m.step inp
    let st := m'.server.state
    (∃ p, st.getClientByFd cs.fd = some p ∧ st.clientAt p = { host := cs.host, fd := cs.fd } ∧
        (∀ a, p ∉ (st.channelAt a).members ∧ (st.channelAt a).isOperator p = false ∧
          p ∉ (st.channelAt a).invitedClients) ∧
        ∀ n, st.getClientByNick n ≠ some p) ∧
      cs.fd ∉ m'.server.healthMonitor.clients ∧
      m'.server.connection cs.fd = some { fd := cs.fd } ∧
      m'.server.pollfds.filter (·.fd == cs.fd) = [{ fd := cs.fd, events := POLLIN }] ∧
      ∀ inputs, m'.FreshRun inputs → ∃ later,
        (m'.run inputs).server.trace = later ++ m'.server.trace ∧ (.accept cs.fd ∉ later →
          later.reverse.flatMap (Event.sentOn cs.fd) <+:
              later.reverse.flatMap (Event.repliesOn cs.fd) ∧
            Sourced later) := by
  intro m' st
  have ht : Tables m.server := h.good.tables (by simp [hphase])
  have hnew := hfresh cs hcs
  have hlen : i < m.server.pollfds.length := (List.getElem?_eq_some_iff.1 he).1
  have hrev : e.revents ≠ 0 := by
    intro h0
    rw [h0] at hin
    exact absurd hin (by decide)
  have hstep : m' = ⟨(m.server.acceptClient inp.calls).2, .scan (sizeInc i)⟩ := by
    have hacc := acceptClient_eq (s := m.server) hcs hnb
    show m.step inp = _
    simp only [Machine.step, hphase, Machine.scanStep, hlen, if_true, visit, he, hrev, if_false,
      hlisten, hin, hacc]
  have hm' : m'.server = (m.server.acceptClient inp.calls).2 := by rw [hstep]
  have hreach : Reachable listenFd password m' := .step inp h hfresh
  have hfree : cs.fd ∉ m.server.connections ∧ cs.fd ≠ m.server.listenFd := by
    rw [ht.opened, not_or] at hnew
    exact ⟨hnew.2, hnew.1⟩
  have htr : m'.server.trace = .accept cs.fd :: m.server.trace := by
    rw [hm', acceptClient_eq hcs hnb]
  refine ⟨?_, fun hmon => ?_, ?_, ?_, fun inputs hf => ?_⟩
  · have hclient := ht.client_acceptClient hcs hnb hnew
    rw [← hm'] at hclient
    exact hclient
  · rw [hm', acceptClient_eq hcs hnb] at hmon
    exact hfree.1 (ht.monitored _ hmon)
  · rw [hm', acceptClient_eq hcs hnb]
    simp [Server.connection, connectionAt]
  · have hno : m.server.pollfds.filter (·.fd == cs.fd) = [] := by
      refine List.filter_eq_nil_iff.2 fun x hx hfd => ?_
      have hpolled := (ht.polled cs.fd).1 (List.mem_map.2 ⟨x, hx, by simpa using hfd⟩)
      exact hpolled.elim hfree.2 hfree.1
    rw [hm', acceptClient_eq hcs hnb]
    simp [hno]
  · obtain ⟨later, hlater⟩ := Machine.trace_run inputs hreach hf
    refine ⟨later, hlater.symm, fun hno => ?_⟩
    have hlate : Reachable listenFd password (m'.run inputs) := .run inputs hreach hf
    rw [htr] at hlater
    have hd := hlate.delivered
    have hbal := hd.balanced _ (List.suffix_refl _) cs.fd
    rw [hd.current, List.append_nil, sentTo_eq, repliesTo_eq, ← hlater,
      sinceAccept_append (fun _ => rfl) hno, sinceAccept_append (fun _ => rfl) hno] at hbal
    have hsourced := hlate.sourced
    rw [← hlater] at hsourced
    exact ⟨⟨_, hbal⟩, hsourced.since hno (by simp) id⟩

/-- The case of a descriptor whose first client was answered, but went before it was sent the
answer. -/
theorem run_reuse_unsent :
    let m := (Machine.start 3 (lit "pw")).run [.ready [POLLIN], .accepts 5, {}, {}, {},
      .ready [0, POLLIN], {}, .receives "PING x\r\n", {}, {}, .ready [0, POLLIN], {}, {}, {}, {},
      .ready [POLLIN]]
    repliesTo 5 m.server.trace = ReplyBuilder.pong (lit "x") ∧ sentTo 5 m.server.trace = [] ∧
      (m.step (.accepts 5)).server.connection 5 = some { fd := 5 } := by
  intro m
  have hm : Reachable 3 (lit "pw") m := .run _ .start (by decide +kernel)
  have hfresh : (Input.accepts 5).Fresh m := by decide +kernel
  have hphase : m.phase = .scan 0 := by decide +kernel
  have hentry : m.server.pollfds[0]? = some ⟨3, POLLIN, POLLIN⟩ := by decide +kernel
  exact ⟨by decide +kernel, by decide +kernel, (run_reuse hm hfresh hphase hentry (by decide +kernel)
    (by decide) rfl rfl).2.2.1⟩

end Ircserv
