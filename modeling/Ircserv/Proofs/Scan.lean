import Ircserv.Scan
import Ircserv.Lib.Sweep
import Ircserv.Proofs.Moves

/-!
# The scan visits each ready descriptor once

A handler changes the events of entries, and may close the descriptor it was called for; the
descriptors and `revents` of the other entries stay (`visit_cases`). So the loop over `_pollfds`
sweeps the array as `Sweep.Step` says.
-/

open Std

namespace Ircserv

namespace Server

variable {s s' t : Server} {fd g : Fd} {k : Syscalls}

/-- What the loop reads of the entries. -/
def sig (s : Server) : List (Fd × PollMask) := s.pollfds.map fun e => (e.fd, e.revents)

theorem sig_modifyEvents (fd : Fd) (f : PollMask → PollMask) : ∀ ps : List PollFd,
    (modifyEvents fd f ps).map (fun e => (e.fd, e.revents)) = ps.map fun e => (e.fd, e.revents)
  | [] => rfl
  | p :: ps => by
    unfold modifyEvents
    split_ifs
    · rfl
    · rw [List.map_cons, sig_modifyEvents fd f ps, List.map_cons]

/-- The entries are kept, and so is the connection of `fd`. -/
structure Kept (fd : Fd) (s s' : Server) : Prop where
  sig : s'.sig = s.sig
  connected : fd ∈ s.connections → fd ∈ s'.connections
  listenFd : s'.listenFd = s.listenFd

/-- The entry of `fd` is gone. -/
structure Erased (fd : Fd) (s s' : Server) : Prop where
  sig : s'.sig = s.sig.eraseP (·.1 == fd)
  listenFd : s'.listenFd = s.listenFd

namespace Kept

theorem refl (fd : Fd) (s : Server) : Kept fd s s := ⟨rfl, id, rfl⟩

theorem trans (h : Kept fd s s') (h' : Kept fd s' t) : Kept fd s t :=
  ⟨h'.sig.trans h.sig, h'.connected ∘ h.connected, h'.listenFd.trans h.listenFd⟩

theorem of_pollfds (hp : s'.pollfds = s.pollfds) (hc : s'.connections = s.connections)
    (hl : s'.listenFd = s.listenFd) : Kept fd s s' :=
  ⟨by rw [Server.sig, hp, Server.sig], by rw [hc]; exact id, hl⟩

theorem enqueueReplies (fd : Fd) (s : Server) (r : CommandResult) : Kept fd s (s.enqueueReplies r) := by
  refine ⟨?_, by rw [connections_enqueueReplies]; exact id, by rw [listenFd_enqueueReplies]⟩
  have hone : ∀ (s : Server) (m : OutgoingMessage), (s.enqueueReply m).sig = s.sig := by
    intro s m
    unfold enqueueReply
    split
    · rfl
    · split
      · exact sig_modifyEvents _ _ _
      · rfl
  have hall : ∀ (ms : List OutgoingMessage) (s : Server), (ms.foldl enqueueReply s).sig = s.sig := by
    intro ms
    induction ms with
    | nil => exact fun _ => rfl
    | cons m ms ih => exact fun s => (ih _).trans (hone s m)
  exact hall r.replies s

theorem erased (h : Kept fd s s') (he : Erased fd s' t) : Erased fd s t :=
  ⟨by rw [he.sig, h.sig], he.listenFd.trans h.listenFd⟩

end Kept

theorem erased_notifyAndDisconnect (s : Server) (fd : Fd) (reason : Str) :
    Erased fd s (s.notifyAndDisconnect fd reason) := by
  set s₁ := (s.log (.disconnect fd reason s.state)).enqueueReplies
    (DisconnectNotifier.build fd reason s.state) with hs₁
  have hlog : Kept fd s (s.log (.disconnect fd reason s.state)) := .of_pollfds rfl rfl rfl
  have hkept : Kept fd s s₁ := hlog.trans (.enqueueReplies fd _ _)
  refine hkept.erased ?_
  show Erased fd s₁ (s₁.disconnectClient fd)
  have hpoll : (s₁.disconnectClient fd).pollfds = s₁.pollfds.eraseP (·.fd == fd) ∧
      (s₁.disconnectClient fd).listenFd = s₁.listenFd := by
    unfold disconnectClient
    dsimp only
    split <;> exact ⟨rfl, rfl⟩
  refine ⟨?_, hpoll.2⟩
  rw [sig, hpoll.1, sig, List.eraseP_map]
  rfl

theorem fst_eraseP (fd : Fd) : ∀ l : List (Fd × PollMask),
    (l.eraseP (·.1 == fd)).map (·.1) = (l.map (·.1)).erase fd
  | [] => rfl
  | e :: l => by
    by_cases h : e.1 = fd
    · simp [h]
    · simp [h, fst_eraseP fd l]

/-- A second disconnection erases nothing. -/
theorem Erased.again (hnodup : (s.sig.map (·.1)).Nodup) (h : Erased fd s s') (h' : Erased fd s' t) :
    Erased fd s t := by
  refine ⟨?_, h'.listenFd.trans h.listenFd⟩
  rw [h'.sig, h.sig]
  refine List.eraseP_of_forall_not fun e he hfd => ?_
  have hmem : e.1 ∈ (s.sig.map (·.1)).erase fd := by
    rw [← fst_eraseP]
    exact List.mem_map_of_mem he
  rw [beq_iff_eq.1 hfd] at hmem
  exact hnodup.not_mem_erase hmem

section Handlers

/-- A line closes the connection or keeps it. -/
theorem handleLine_kept (k : Syscalls) (fd : Fd) (conn : Addr) (c : Connection) (n : Nat) (s : Server) :
    (s.handleLine k fd conn c n).1 = true ∧ Kept fd s (handleLine k fd conn c n s).2 ∨
      (s.handleLine k fd conn c n).1 = false ∧ Erased fd s (handleLine k fd conn c n s).2 := by
  rw [handleLine_eq, applyCommandResult]
  have hdispatched : Kept fd s (s.dispatched k fd conn c n).2 := .of_pollfds rfl rfl rfl
  have hkept := hdispatched.trans (.enqueueReplies fd _ (s.dispatched k fd conn c n).1)
  split_ifs with hquit
  · exact .inr ⟨by simp [hquit], hkept.erased (erased_notifyAndDisconnect _ _ _)⟩
  · exact .inl ⟨by simpa using hquit, hkept⟩

/-- What a handler can do that says no: it has closed the connection, or left that to its caller. -/
def Failed (fd : Fd) (s s' : Server) : Prop := Erased fd s s' ∨ Kept fd s s'

theorem handleLines_kept (k : Syscalls) (fd : Fd) (conn : Addr) : ∀ (fuel n : Nat) (s : Server),
    (s.handleLines k fd conn fuel n).1 = true ∧ Kept fd s (handleLines k fd conn fuel n s).2 ∨
      (s.handleLines k fd conn fuel n).1 = false ∧ Failed fd s (handleLines k fd conn fuel n s).2
  | 0, _, s => .inl ⟨rfl, .refl fd s⟩
  | fuel + 1, n, s => by
    unfold handleLines
    split
    · exact .inr ⟨rfl, .inr (.of_pollfds rfl rfl rfl)⟩
    · rename_i c hc
      have hset : ∀ d, Kept fd s (s.setConnection conn d) := fun d => .of_pollfds rfl rfl rfl
      dsimp only
      split_ifs with hcomplete hgoing
      · exact .inl ⟨rfl, hset _⟩
      · rcases handleLine_kept k fd conn c.hasCompleteLine.2 n
          (s.setConnection conn c.hasCompleteLine.2) with ⟨hok, -⟩ | ⟨-, herased⟩
        · simp [hok] at hgoing
        · exact .inr ⟨rfl, .inl ((hset _).erased herased)⟩
      · rcases handleLine_kept k fd conn c.hasCompleteLine.2 n
          (s.setConnection conn c.hasCompleteLine.2) with ⟨-, hkept⟩ | ⟨hno, -⟩
        · have hstep := (hset _).trans hkept
          rcases handleLines_kept k fd conn fuel (n + 1) (handleLine k fd conn c.hasCompleteLine.2 n
            (s.setConnection conn c.hasCompleteLine.2)).2 with ⟨hok, hrest⟩ | ⟨hno, herased | hrest⟩
          · exact .inl ⟨hok, hstep.trans hrest⟩
          · exact .inr ⟨hno, .inl (hstep.erased herased)⟩
          · exact .inr ⟨hno, .inr (hstep.trans hrest)⟩
        · simp [hno] at hgoing

/-- The entry that `_connections[fd]` makes. -/
theorem kept_insertIfNew (s : Server) (fd : Fd) :
    Kept fd s { s with connections := s.connections.insertIfNew fd none } := by
  refine ⟨rfl, fun _ => ?_, rfl⟩
  simp

theorem handleRead_kept (k : Syscalls) (s : Server) (fd : Fd) :
    (s.handleRead k fd).1 = true ∧ Kept fd s (s.handleRead k fd).2 ∨
      (s.handleRead k fd).1 = false ∧
        (Erased fd s (s.handleRead k fd).2 ∨
          Kept fd s (s.handleRead k fd).2 ∧ fd ∈ (s.handleRead k fd).2.connections) := by
  set s₁ : Server := { s with connections := s.connections.insertIfNew fd none } with hs₁
  have hinsert : Kept fd s s₁ := kept_insertIfNew s fd
  have hmem : fd ∈ s₁.connections := by simp [hs₁]
  have failed : ∀ {s'}, Kept fd s₁ s' → Kept fd s s' ∧ fd ∈ s'.connections :=
    fun hkept => ⟨hinsert.trans hkept, hkept.connected hmem⟩
  unfold handleRead
  dsimp only
  rw [← hs₁]
  split
  · rename_i conn c hconn hc
    split_ifs
    · exact .inr ⟨rfl, .inr (failed (.of_pollfds rfl rfl rfl))⟩
    · exact .inr ⟨rfl, .inr (failed (.of_pollfds rfl rfl rfl))⟩
    · have hlines : ∀ (s₂ : Server) (fuel : Nat), Kept fd s₁ s₂ →
          (s₂.handleLines k fd conn fuel 0).1 = true ∧ Kept fd s (handleLines k fd conn fuel 0 s₂).2 ∨
            (s₂.handleLines k fd conn fuel 0).1 = false ∧
              (Erased fd s (handleLines k fd conn fuel 0 s₂).2 ∨
                Kept fd s (handleLines k fd conn fuel 0 s₂).2 ∧
                  fd ∈ (handleLines k fd conn fuel 0 s₂).2.connections) := by
        intro s₂ fuel hs₂
        rcases handleLines_kept k fd conn fuel 0 s₂ with ⟨hok, hkept⟩ | ⟨hno, herased | hkept⟩
        · exact .inl ⟨hok, hinsert.trans (hs₂.trans hkept)⟩
        · exact .inr ⟨hno, .inl (hinsert.erased (hs₂.erased herased))⟩
        · exact .inr ⟨hno, .inr (failed (hs₂.trans hkept))⟩
      exact hlines _ _ (.of_pollfds rfl rfl rfl)
  · exact .inr ⟨rfl, .inr (failed (.of_pollfds rfl rfl rfl))⟩

theorem handleWrite_kept (k : Syscalls) (s : Server) (fd : Fd) :
    Kept fd s (s.handleWrite k fd).2 := by
  refine (kept_insertIfNew s fd).trans ?_
  unfold handleWrite
  dsimp only
  split
  · rename_i conn c _ _
    set s₁ : Server := { s with connections := s.connections.insertIfNew fd none }
    have hsent : ∀ c', Kept fd s₁ ((if c.sendBuffer = [] then s₁ else
        s₁.log (.send fd (c.sendBuffer.take k.send) c'.sendBuffer)).setConnection conn c') := by
      intro c'
      split_ifs <;> exact .of_pollfds rfl rfl rfl
    split
    · exact hsent _
    split
    · exact (hsent _).trans ⟨sig_modifyEvents _ _ _, id, rfl⟩
    · exact hsent _
  · exact .of_pollfds rfl rfl rfl

variable (hnodup : (s.sig.map (·.1)).Nodup)

include hnodup

theorem readBranch_kept (k : Syscalls) (fd : Fd) :
    (s.readBranch k fd).1 = true ∧ Kept fd s (s.readBranch k fd).2 ∨
      (s.readBranch k fd).1 = false ∧ Erased fd s (s.readBranch k fd).2 := by
  rw [readBranch]
  rcases handleRead_kept k s fd with ⟨hok, hkept⟩ | ⟨hno, herased | ⟨hkept, hmem⟩⟩
  · exact .inl (by simpa [hok] using hkept)
  · refine .inr ?_
    simp only [hno, Bool.not_false, if_true, true_and]
    split_ifs
    · exact herased.again hnodup (erased_notifyAndDisconnect _ _ _)
    · exact herased
  · refine .inr ?_
    have hcontains : (s.handleRead k fd).2.connections.contains fd = true := hmem
    simp only [hno, Bool.not_false, if_true, true_and, hcontains]
    exact hkept.erased (erased_notifyAndDisconnect _ _ _)

omit hnodup in
theorem writeBranch_kept (k : Syscalls) (s : Server) (fd : Fd) :
    (s.writeBranch k fd).1 = true ∧ Kept fd s (s.writeBranch k fd).2 ∨
      (s.writeBranch k fd).1 = false ∧ Erased fd s (s.writeBranch k fd).2 := by
  have hkept := handleWrite_kept k s fd
  rw [writeBranch]
  by_cases hok : (s.handleWrite k fd).1 = true
  · exact .inl (by simpa [hok] using hkept)
  · refine .inr ?_
    simp only [Bool.not_eq_true] at hok
    simp only [hok, Bool.not_false, if_true, true_and]
    exact hkept.erased (erased_notifyAndDisconnect _ _ _)

/-- A client that is disconnected is erased, once. -/
theorem handleClient_kept (k : Syscalls) (fd : Fd) (rev : PollMask) :
    (s.handleClient k fd rev).1 = true ∧ Kept fd s (s.handleClient k fd rev).2 ∨
      (s.handleClient k fd rev).1 = false ∧ Erased fd s (s.handleClient k fd rev).2 := by
  have hread : ∃ r, (if rev.has POLLIN then s.readBranch k fd else (true, s)) = r ∧
      (r.1 = true ∧ Kept fd s r.2 ∨ r.1 = false ∧ Erased fd s r.2) := by
    refine ⟨_, rfl, ?_⟩
    split_ifs
    · exact readBranch_kept hnodup k fd
    · exact .inl ⟨rfl, .refl fd s⟩
  obtain ⟨⟨go₁, s₁⟩, he₁, hread⟩ := hread
  unfold handleClient
  rw [he₁]
  rcases hread with ⟨rfl, hkept₁⟩ | ⟨rfl, herased⟩
  swap
  · exact .inr ⟨rfl, herased⟩
  have hwrite : ∃ r, (if rev.has POLLOUT then s₁.writeBranch k fd else (true, s₁)) = r ∧
      (r.1 = true ∧ Kept fd s₁ r.2 ∨ r.1 = false ∧ Erased fd s₁ r.2) := by
    refine ⟨_, rfl, ?_⟩
    split_ifs
    · exact writeBranch_kept k s₁ fd
    · exact .inl ⟨rfl, .refl fd s₁⟩
  obtain ⟨⟨go₂, s₂⟩, he₂, hwrite⟩ := hwrite
  simp only [Bool.not_true, Bool.false_eq_true, if_false, he₂]
  rcases hwrite with ⟨rfl, hkept₂⟩ | ⟨rfl, herased⟩
  swap
  · exact .inr ⟨rfl, hkept₁.erased herased⟩
  simp only [Bool.not_true, Bool.false_eq_true, if_false]
  have hkept := hkept₁.trans hkept₂
  split_ifs
  · exact .inr ⟨rfl, hkept.erased (erased_notifyAndDisconnect _ _ _)⟩
  · exact .inl ⟨rfl, hkept⟩

end Handlers

/-- Whether an entry was reported. -/
def reported (e : Fd × PollMask) : Bool := e.2 != 0

/-- The first entry of the descriptor is its only one. -/
theorem eraseP_eq_eraseIdx : ∀ {l : List (Fd × PollMask)} {i : Nat} {e : Fd × PollMask},
    (l.map (·.1)).Nodup → l[i]? = some e → l.eraseP (·.1 == e.1) = l.eraseIdx i
  | [], _, _, _, h => by simp at h
  | a :: l, 0, e, _, h => by
    obtain rfl : a = e := by simpa using h
    simp
  | a :: l, i + 1, e, hnodup, h => by
    rw [List.map_cons, List.nodup_cons] at hnodup
    rw [List.getElem?_cons_succ] at h
    have hne : a.1 ≠ e.1 := fun heq =>
      hnodup.1 (heq ▸ List.mem_map_of_mem (List.mem_of_getElem? h))
    rw [List.eraseP_cons_of_neg (by simpa using hne), List.eraseIdx_cons_succ,
      eraseP_eq_eraseIdx hnodup.2 h]

/-- What the body of the loop does at an entry, and to the index: the decrement comes before the
increment. -/
inductive Visited (k : Syscalls) (s : Server) (i : Nat) (e : PollFd) : Option Nat → Server → Prop
  | idle {s' : Server} (h : e.revents = 0) (hsame : s' = s) : Visited k s i e (some i) s'
  | refused {s' : Server} {cs : Accepted} (h : e.revents ≠ 0) (hcs : k.accept = some cs)
      (hnb : cs.nonBlocking = false) : Visited k s i e none s'
  | kept {s' : Server} (h : e.revents ≠ 0) (hsig : s'.sig = s.sig) : Visited k s i e (some i) s'
  | accepted {s' : Server} {cs : Accepted} (h : e.revents ≠ 0) (hcs : k.accept = some cs)
      (hsig : s'.sig = s.sig ++ [(cs.fd, 0)]) : Visited k s i e (some i) s'
  | erased {s' : Server} (h : e.revents ≠ 0) (hsig : s'.sig = s.sig.eraseIdx i) :
      Visited k s i e (some (sizeDec i)) s'

theorem visit_visited (hnodup : (s.sig.map (·.1)).Nodup) {i : Nat} {e : PollFd}
    (he : s.pollfds[i]? = some e) (k : Syscalls) :
    Visited k s i e (s.visit k i).1 (s.visit k i).2 := by
  have hsig : s.sig[i]? = some (e.fd, e.revents) := by simp [sig, he]
  unfold visit
  rw [he]
  dsimp only
  split
  · exact .idle ‹_› rfl
  rename_i hrev
  split
  · split
    · unfold acceptClient
      rcases hcs : k.accept with _ | cs
      · exact .kept hrev rfl
      · by_cases hnb : cs.nonBlocking = true
        · simp only [hnb, Bool.not_true, Bool.false_eq_true, if_false, if_true]
          exact .accepted hrev hcs (by simp [sig, addFd])
        · simp only [hnb, Bool.not_false, if_true, Bool.false_eq_true, if_false]
          exact .refused hrev hcs (by simpa using hnb)
    · exact .kept hrev rfl
  · rcases handleClient_kept hnodup k e.fd e.revents with ⟨hok, hkept⟩ | ⟨hno, herased⟩
    · rw [hok, if_pos rfl]
      exact .kept hrev hkept.sig
    · rw [hno, if_neg Bool.false_ne_true]
      exact .erased hrev (herased.sig.trans (eraseP_eq_eraseIdx hnodup hsig))

theorem sizeInc_sizeDec {i : Nat} (h : i ≤ SIZE_MAX) : sizeInc (sizeDec i) = i := by
  unfold sizeInc sizeDec SIZE_MAX at *
  omega

theorem sizeInc_of_lt {i : Nat} (h : i < SIZE_MAX) : sizeInc i = i + 1 := by
  unfold sizeInc SIZE_MAX at *
  omega

end Server

open Server Sweep

variable {m : Machine} {inputs : List Input}

theorem Machine.sweep_of_not_scanning (h : m.scanning = false) (inputs : List Input) :
    m.sweep inputs = m ∧ m.swept inputs = [] := by
  cases inputs with
  | nil => exact ⟨rfl, rfl⟩
  | cons inp inputs => simp [sweep, swept, h]

/-- Where the sweep is after the inputs, and what it has handled since the last step that went
on. -/
inductive Ended (inputs : List Input) (n : Nat) (q : Position (Fd × PollMask)) :
    List Fd → Machine → Prop
  | scanning {m : Machine} (h : m.phase = .scan q.index) (hsig : m.server.sig = q.list)
      (hnodup : (m.server.sig.map (·.1)).Nodup) (hn : n = inputs.length) : Ended inputs n q [] m
  | done {m : Machine} {fds : List Fd} (h : m.phase = .timeouts fds) (hdue : q.due reported = []) :
      Ended inputs n q [] m
  | stopped {m : Machine} {e : Fd × PollMask} {rest : List (Fd × PollMask)} (h : m.phase = .stopped)
      (hdue : q.due reported = e :: rest) (hrefused : ∃ inp ∈ inputs, ∃ cs,
        inp.calls.accept = some cs ∧ cs.nonBlocking = false) : Ended inputs n q [e.1] m

theorem Ended.cons {n : Nat} {q : Position (Fd × PollMask)} {extra : List Fd} (inp : Input)
    (h : Ended inputs n q extra m) : Ended (inp :: inputs) (n + 1) q extra m := by
  cases h with
  | scanning h hsig hnodup hn => exact .scanning h hsig hnodup (by rw [hn, List.length_cons])
  | done h hdue => exact .done h hdue
  | stopped h hdue hrefused =>
    obtain ⟨inp', hmem, hcs⟩ := hrefused
    exact .stopped h hdue ⟨inp', List.mem_cons_of_mem _ hmem, hcs⟩

/-- An iteration of the loop is a step of the sweep, or ends the run. -/
theorem scan_step {s : Server} {i : Nat} {inp : Input} (hnodup : (s.sig.map (·.1)).Nodup)
    (hi : i < s.sig.length) (hsize : s.sig.length ≤ SIZE_MAX)
    (hnew : ∀ cs ∈ inp.calls.accept, cs.fd ∉ s.pollfds.map (·.fd)) :
    (∃ a q s', Step reported ⟨s.sig, i⟩ a q ∧
      (⟨s, .scan i⟩ : Machine).step inp = ⟨s', .scan q.index⟩ ∧ s'.sig = q.list ∧
      (s'.sig.map (·.1)).Nodup ∧ (⟨s, .scan i⟩ : Machine).handles = a.toList.map (·.1)) ∨
    ∃ e rest, ((⟨s, .scan i⟩ : Machine).step inp).phase = .stopped ∧
      Position.due reported ⟨s.sig, i⟩ = e :: rest ∧
      (⟨s, .scan i⟩ : Machine).handles = [e.1] ∧
      ∃ cs, inp.calls.accept = some cs ∧ cs.nonBlocking = false := by
  have hlt : i < s.pollfds.length := by rwa [sig, List.length_map] at hi
  obtain ⟨e, he⟩ : ∃ e, s.pollfds[i]? = some e := ⟨_, List.getElem?_eq_getElem hlt⟩
  have hsig : s.sig[i]? = some (e.fd, e.revents) := by simp [sig, he]
  have hready : e.revents ≠ 0 → reported (e.fd, e.revents) = true ∧
      (⟨s, .scan i⟩ : Machine).handles = [e.fd] := by
    intro h
    have hne : (e.revents != 0) = true := bne_iff_ne.2 h
    refine ⟨hne, ?_⟩
    simp only [Machine.handles, he, Option.toList_some, List.filter, hne, List.map]
  have hstep : (⟨s, .scan i⟩ : Machine).step inp = Machine.scanStep s i inp := rfl
  rw [Machine.scanStep, if_pos hlt] at hstep
  have hnext : sizeInc i = i + 1 := sizeInc_of_lt (by omega)
  have hback : sizeInc (sizeDec i) = i := sizeInc_sizeDec (by omega)
  have hvisited := visit_visited hnodup he inp.calls
  generalize s.visit inp.calls i = v at hvisited hstep
  obtain ⟨j, s'⟩ := v
  cases hvisited with
  | idle h hsame =>
    subst hsame
    have hidle : reported (e.fd, e.revents) = false := by
      rw [reported, h]
      rfl
    refine .inl ⟨none, _, _, .skip hsig hidle, ?_, rfl, hnodup, ?_⟩
    · exact hstep.trans (congrArg (fun j => Machine.mk _ (.scan j)) hnext)
    · have hzero : (e.revents != 0) = false := hidle
      simp only [Machine.handles, he, Option.toList_some, List.filter, hzero, List.map,
        Option.toList_none]
  | refused h hcs hnb =>
    refine .inr ⟨(e.fd, e.revents), (s.sig.drop (i + 1)).filter reported, by rw [hstep], ?_,
      (hready h).2, _, hcs, hnb⟩
    rw [Position.due, Position.ahead, (drop_eq_cons hsig).2, List.filter_cons_of_pos (hready h).1]
  | kept h hs' =>
    refine .inl ⟨some (e.fd, e.revents), _, s', .keep hsig (hready h).1, ?_, hs', ?_, ?_⟩
    · exact hstep.trans (congrArg (fun j => Machine.mk s' (.scan j)) hnext)
    · rwa [hs']
    · exact (hready h).2
  | @accepted _ cs h hcs hs' =>
    have hfresh : cs.fd ∉ s.sig.map (·.1) := by
      have hfd := hnew cs (by rw [hcs]; rfl)
      rwa [sig, List.map_map]
    refine .inl ⟨some (e.fd, e.revents), _, s',
      .add hsig (hready h).1 (rfl : reported (cs.fd, 0) = false), ?_, hs', ?_, ?_⟩
    · exact hstep.trans (congrArg (fun j => Machine.mk s' (.scan j)) hnext)
    · rw [hs', List.map_append]
      exact List.nodup_append_comm.1 (List.nodup_cons.2 ⟨hfresh, hnodup⟩)
    · exact (hready h).2
  | erased h hs' =>
    refine .inl ⟨some (e.fd, e.revents), _, s', .erase hsig (hready h).1, ?_, hs', ?_, ?_⟩
    · exact hstep.trans (congrArg (fun j => Machine.mk s' (.scan j)) hback)
    · rw [hs']
      exact hnodup.sublist ((List.eraseIdx_sublist _ _).map _)
    · exact (hready h).2

/-- The loop sweeps the array. -/
theorem sweep_steps : ∀ (inputs : List Input) (s : Server) (i : Nat),
    (s.sig.map (·.1)).Nodup → i ≤ s.sig.length →
    s.sig.length + (Position.due reported ⟨s.sig, i⟩).length ≤ SIZE_MAX →
    (⟨s, .scan i⟩ : Machine).AcceptsNew inputs →
    ∃ n handled q extra, Steps reported n ⟨s.sig, i⟩ handled q ∧
      Ended inputs n q extra ((⟨s, .scan i⟩ : Machine).sweep inputs) ∧
      (⟨s, .scan i⟩ : Machine).swept inputs = handled.map (·.1) ++ extra
  | [], s, i, hnodup, _, _, _ => ⟨0, [], ⟨s.sig, i⟩, [], .refl, .scanning rfl rfl hnodup rfl, rfl⟩
  | inp :: inputs, s, i, hnodup, hi, hsize, hnew => by
    obtain ⟨haccept, hnew⟩ := hnew rfl
    have hsweep : (⟨s, .scan i⟩ : Machine).sweep (inp :: inputs) =
        ((⟨s, .scan i⟩ : Machine).step inp).sweep inputs := rfl
    have hswept : (⟨s, .scan i⟩ : Machine).swept (inp :: inputs) =
        (⟨s, .scan i⟩ : Machine).handles ++ ((⟨s, .scan i⟩ : Machine).step inp).swept inputs := rfl
    by_cases hlt : i < s.sig.length
    · rcases scan_step hnodup hlt (by omega) haccept with
        ⟨a, q, s', hstep, hmachine, hsig, hnodup', hhandles⟩ | ⟨e, rest, hstopped, hdue, hhandles, hcs⟩
      · obtain ⟨l, j⟩ := q
        dsimp only at hmachine hsig
        subst hsig
        rw [hmachine] at hnew hsweep hswept
        have hlength := hstep.length
        obtain ⟨-, -, -, -, -, -, -, -, -, hj⟩ := hstep.ahead
        dsimp only at hlength hj
        obtain ⟨n, handled, q, extra, hsteps, hended, hrest⟩ :=
          sweep_steps inputs s' j hnodup' hj (by omega) hnew
        refine ⟨n + 1, _, q, extra, .step hstep hsteps, ?_, ?_⟩
        · rw [hsweep]
          exact hended.cons inp
        · rw [hswept, hhandles, hrest, List.map_append, List.append_assoc]
      · have hover : ((⟨s, .scan i⟩ : Machine).step inp).scanning = false := by
          rw [Machine.scanning, hstopped]
        obtain ⟨hm, hnil⟩ := Machine.sweep_of_not_scanning hover inputs
        refine ⟨0, [], _, [e.1], .refl, ?_, ?_⟩
        · rw [hsweep, hm]
          exact .stopped hstopped hdue ⟨inp, List.mem_cons_self, hcs⟩
        · rw [hswept, hnil, hhandles]
          rfl
    · have hpoll : ¬ i < s.pollfds.length := by rwa [sig, List.length_map] at hlt
      have hphase : ((⟨s, .scan i⟩ : Machine).step inp).phase =
          .timeouts (s.healthMonitor.collectTimedOutClients inp.now) := by
        show (Machine.scanStep s i inp).phase = _
        rw [Machine.scanStep, if_neg hpoll]
      have hover : ((⟨s, .scan i⟩ : Machine).step inp).scanning = false := by
        rw [Machine.scanning, hphase]
      obtain ⟨hm, hnil⟩ := Machine.sweep_of_not_scanning hover inputs
      have hnone : s.pollfds[i]? = none := List.getElem?_eq_none (Nat.le_of_not_lt hpoll)
      refine ⟨0, [], _, [], .refl, ?_, ?_⟩
      · rw [hsweep, hm]
        refine .done hphase ?_
        rw [Position.due, Position.ahead, List.drop_of_length_le (Nat.le_of_not_lt hlt)]
        rfl
      · rw [hswept, hnil]
        simp [Machine.handles, hnone]

namespace Machine

theorem AcceptsNew.append : ∀ {before after : List Input} {m : Machine},
    m.AcceptsNew (before ++ after) → m.AcceptsNew before ∧
      ((m.sweep before).scanning = true → (m.sweep before).AcceptsNew after)
  | [], _, _, h => ⟨trivial, fun _ => h⟩
  | inp :: before, after, m, h => by
    refine ⟨fun hscan => ⟨(h hscan).1, (AcceptsNew.append (h hscan).2).1⟩, ?_⟩
    by_cases hscan : m.scanning = true
    · rw [sweep, if_pos hscan]
      exact (AcceptsNew.append (h hscan).2).2
    · rw [sweep, if_neg hscan]
      exact fun h => absurd h hscan

end Machine

theorem ready_eq_due (s : Server) : s.ready = (Position.due reported ⟨s.sig, 0⟩).map (·.1) := by
  rw [Position.due, Position.ahead, List.drop_zero, sig, ready, List.filter_map, List.map_map]
  rfl

theorem length_sig (s : Server) : s.sig.length = s.pollfds.length := List.length_map _

theorem length_due_le (s : Server) :
    (Position.due reported ⟨s.sig, 0⟩).length ≤ s.pollfds.length := by
  rw [← length_sig]
  exact List.length_filter_le reported s.sig

theorem size_le (s : Server) : Position.size reported ⟨s.sig, 0⟩ ≤ 2 * s.pollfds.length := by
  have hahead : (Position.ahead ⟨s.sig, 0⟩).length = s.pollfds.length := length_sig s
  have hdue := length_due_le s
  rw [Position.size]
  omega

/-- The rest of the loop handles no descriptor that the array does not have. -/
theorem not_mem_swept {s : Server} {i : Nat} {fd : Fd} (hnodup : (s.sig.map (·.1)).Nodup)
    (hi : i ≤ s.sig.length)
    (hsize : s.sig.length + (Position.due reported ⟨s.sig, i⟩).length ≤ SIZE_MAX)
    (hnew : (⟨s, .scan i⟩ : Machine).AcceptsNew inputs) (hfd : fd ∉ s.pollfds.map (·.fd)) :
    fd ∉ (⟨s, .scan i⟩ : Machine).swept inputs := by
  obtain ⟨n, handled, q, extra, hsteps, hended, hswept⟩ := sweep_steps inputs s i hnodup hi hsize hnew
  have hdue : ∀ e ∈ Position.due reported ⟨s.sig, i⟩, e.1 ≠ fd := by
    rintro e he rfl
    have hmem := List.mem_map_of_mem (f := Prod.fst) (List.mem_of_mem_drop (List.mem_of_mem_filter he))
    rw [sig, List.map_map] at hmem
    exact hfd hmem
  rw [hsteps.due] at hdue
  rw [hswept]
  intro hmem
  rcases List.mem_append.1 hmem with hmem | hmem
  · obtain ⟨e, he, rfl⟩ := List.mem_map.1 hmem
    exact hdue e (List.mem_append_left _ he) rfl
  · cases hended with
    | scanning => cases hmem
    | done => cases hmem
    | stopped _ hrest _ =>
      rw [List.mem_singleton] at hmem
      refine hdue _ (List.mem_append_right _ ?_) hmem.symm
      rw [hrest]
      exact List.mem_cons_self

section Scan

variable {s : Server} (hnodup : (s.pollfds.map (·.fd)).Nodup)
  (hsize : s.pollfds.length ≤ SIZE_MAX / 8) (hnew : (⟨s, .scan 0⟩ : Machine).AcceptsNew inputs)

include hnodup hsize hnew

theorem scan_steps : ∃ n handled q extra, Steps reported n ⟨s.sig, 0⟩ handled q ∧
    Ended inputs n q extra ((⟨s, .scan 0⟩ : Machine).sweep inputs) ∧
    (⟨s, .scan 0⟩ : Machine).swept inputs = handled.map (·.1) ++ extra := by
  refine sweep_steps inputs s 0 ?_ (Nat.zero_le _) ?_ hnew
  · rwa [sig, List.map_map]
  · have hlength := length_sig s
    have hdue := length_due_le s
    omega

/-- What is accepted in the loop is not handled in it. -/
theorem accepted_not_swept {before after : List Input} {inp : Input} {cs : Accepted}
    (hinputs : inputs = before ++ inp :: after) (hcs : cs ∈ inp.calls.accept) :
    cs.fd ∉ ((⟨s, .scan 0⟩ : Machine).sweep before).swept (inp :: after) := by
  subst hinputs
  obtain ⟨hbefore, hafter⟩ := hnew.append
  obtain ⟨n, handled, q, extra, hsteps, hended, -⟩ := scan_steps hnodup hsize hbefore
  generalize (⟨s, .scan 0⟩ : Machine).sweep before = m at hended hafter
  cases hended with
  | scanning h hsig hnodup' hn =>
    obtain ⟨t, phase⟩ := m
    dsimp only at h hsig hnodup'
    subst h
    have hlength := hsteps.length
    have hindex := hsteps.index_le (Nat.zero_le _)
    have hlist := length_sig s
    have hdue := length_due_le s
    have hq : (⟨t.sig, q.index⟩ : Position (Fd × PollMask)) = q := by rw [hsig]
    refine not_mem_swept hnodup' (hsig ▸ hindex) ?_ (hafter rfl) ((hafter rfl rfl).1 cs hcs)
    rw [hq, hsig]
    dsimp only at hlength
    omega
  | done h _ =>
    rw [(Machine.sweep_of_not_scanning (by rw [Machine.scanning, h]) _).2]
    exact List.not_mem_nil
  | stopped h _ _ =>
    rw [(Machine.sweep_of_not_scanning (by rw [Machine.scanning, h]) _).2]
    exact List.not_mem_nil

/-- One pass of the loop over an array of 8-byte entries. It handles the descriptors that `poll`
reported, in order and each once, and none that it accepts; its index stays within the array; and it
ends, with the timeouts or because a socket that was accepted cannot be made non-blocking. -/
theorem scan_once :
    s.ready.Nodup ∧
    (⟨s, .scan 0⟩ : Machine).swept inputs <+: s.ready ∧
    (∀ fds, ((⟨s, .scan 0⟩ : Machine).sweep inputs).phase = .timeouts fds →
      (⟨s, .scan 0⟩ : Machine).swept inputs = s.ready) ∧
    (∀ before inp after, inputs = before ++ inp :: after → ∀ cs ∈ inp.calls.accept,
      cs.fd ∉ ((⟨s, .scan 0⟩ : Machine).sweep before).swept (inp :: after)) ∧
    (∀ i, ((⟨s, .scan 0⟩ : Machine).sweep inputs).phase = .scan i →
      i ≤ ((⟨s, .scan 0⟩ : Machine).sweep inputs).server.pollfds.length) ∧
    (2 * s.pollfds.length < inputs.length →
      (∃ fds, ((⟨s, .scan 0⟩ : Machine).sweep inputs).phase = .timeouts fds) ∨
        ((⟨s, .scan 0⟩ : Machine).sweep inputs).phase = .stopped) ∧
    (((⟨s, .scan 0⟩ : Machine).sweep inputs).phase = .stopped →
      ∃ inp ∈ inputs, ∃ cs ∈ inp.calls.accept, cs.nonBlocking = false) := by
  obtain ⟨n, handled, q, extra, hsteps, hended, hswept⟩ := scan_steps hnodup hsize hnew
  have hready : s.ready = handled.map (·.1) ++ (q.due reported).map (·.1) := by
    rw [ready_eq_due, hsteps.due, List.map_append]
  refine ⟨hnodup.sublist ((List.filter_sublist).map _), ?_, ?_, fun _ _ _ hinputs _ hcs =>
    accepted_not_swept hnodup hsize hnew hinputs hcs, ?_, ?_, ?_⟩
  · rw [hready, hswept, List.prefix_append_right_inj]
    cases hended with
    | scanning => exact List.nil_prefix
    | done => exact List.nil_prefix
    | stopped _ hdue _ =>
      rw [hdue]
      exact ⟨_, rfl⟩
  · intro fds hphase
    cases hended with
    | scanning h => rw [h] at hphase; cases hphase
    | done _ hdue => rw [hready, hswept, hdue]; rfl
    | stopped h => rw [h] at hphase; cases hphase
  · intro i hphase
    cases hended with
    | scanning h hsig =>
      rw [h] at hphase
      cases hphase
      have hindex := hsteps.index_le (Nat.zero_le _)
      rwa [← hsig, sig, List.length_map] at hindex
    | done h => rw [h] at hphase; cases hphase
    | stopped h => rw [h] at hphase; cases hphase
  · intro hlong
    cases hended with
    | scanning _ _ _ hn =>
      have hle := hsteps.size
      have hsize := size_le s
      omega
    | done h => exact .inl ⟨_, h⟩
    | stopped h => exact .inr h
  · intro hphase
    cases hended with
    | scanning h => rw [h] at hphase; cases hphase
    | done h => rw [h] at hphase; cases hphase
    | stopped _ _ hrefused => exact hrefused

end Scan

/-- The case of a client that hangs up, one that is accepted before it, and one that sends. -/
theorem scan_once_accepted :
    let s := ((Machine.start 3 (lit "pw")).run [.ready [POLLIN], .accepts 4, {}, {}, {},
      .ready [POLLIN], .accepts 5, {}, {}, {}, {}, .ready [POLLIN, POLLHUP, POLLIN]]).server
    let inputs := [Input.accepts 6, {}, .receives "PASS pw\r\n", {}, {}]
    s.ready = [3, 4, 5] ∧ (⟨s, .scan 0⟩ : Machine).swept inputs = s.ready ∧
      ((⟨s, .scan 0⟩ : Machine).sweep inputs).server.pollfds.map (·.fd) = [3, 5, 6] := by
  intro s inputs
  have hend : ((⟨s, .scan 0⟩ : Machine).sweep inputs).phase = .timeouts [] := by decide +kernel
  have hnew : (⟨s, .scan 0⟩ : Machine).AcceptsNew inputs := by decide +kernel
  have hscan := scan_once (by decide +kernel) (by decide +kernel) hnew
  exact ⟨by decide +kernel, hscan.2.2.1 _ hend, by decide +kernel⟩

/-- In a run of the server `accept` gives back what the array does not have. -/
theorem Reachable.acceptsNew {listenFd : Fd} {password : Str} :
    ∀ {inputs : List Input} {m : Machine}, Reachable listenFd password m → m.FreshRun inputs →
      m.AcceptsNew inputs
  | [], _, _, _ => trivial
  | inp :: inputs, m, h, hfresh => by
    intro hscan
    have htables : Tables m.server := h.good.tables fun hstop => by
      simp [Machine.scanning, hstop] at hscan
    refine ⟨fun cs hcs hpolled => hfresh.1 cs hcs ?_, acceptsNew (.step inp h hfresh.1) hfresh.2⟩
    rw [htables.opened, ← htables.polled]
    exact hpolled

/-- In every pass of a run the descriptors that `poll` reported are handled. -/
theorem Reachable.swept {listenFd : Fd} {password : Str} {s : Server} {inputs : List Input}
    {fds : List Fd} (h : Reachable listenFd password ⟨s, .scan 0⟩)
    (hsize : s.pollfds.length ≤ SIZE_MAX / 8) (hfresh : (⟨s, .scan 0⟩ : Machine).FreshRun inputs)
    (hend : ((⟨s, .scan 0⟩ : Machine).sweep inputs).phase = .timeouts fds) :
    (⟨s, .scan 0⟩ : Machine).swept inputs = s.ready := by
  have htables : Tables s := h.good.tables nofun
  obtain ⟨n, handled, q, extra, hsteps, hended, hswept⟩ :=
    scan_steps htables.nodup hsize (h.acceptsNew hfresh)
  cases hended with
  | scanning hphase => rw [hphase] at hend; cases hend
  | done _ hdue => rw [ready_eq_due, hsteps.due, hdue, hswept, List.append_nil]; simp
  | stopped hphase => rw [hphase] at hend; cases hend

end Ircserv
