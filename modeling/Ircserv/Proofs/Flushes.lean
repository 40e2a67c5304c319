import Ircserv.Proofs.Buffers

/-!
# The calls of `flush_client`

It is called for a descriptor only while something waits for it, also in a pass in which `select`
found the descriptor ready and it was closed after that, and in one that ends the process.
-/

namespace Ircserv

namespace MiniServ

open Halting History Framing

/-- `flush_client` was never called for a null buffer. -/
def NoNullFlush (s : State) : Prop := ∀ fd, Event.flush fd none ∉ s.trace

section Ends

variable {heap : Nat → Bool} {k : Calls} {s s' : State} {fd except n : Nat} {msg add : Str}
  {buf : Option Str}

theorem NoNullFlush.log (h : NoNullFlush s) {event : Event} (hevent : ∀ fd, event ≠ .flush fd none) :
    NoNullFlush (s.log event) := by
  intro fd hmem
  rcases List.mem_cons.1 hmem with heq | hmem
  · exact hevent fd heq.symm
  · exact h fd hmem

theorem NoNullFlush.of_spread {whom : FdSet} {msgs : List Str} (h : NoNullFlush s)
    (hspread : Spread whom msgs s s') : NoNullFlush s' := by
  obtain ⟨new, htrace, happend, -⟩ := hspread.trace
  intro fd hmem
  rw [htrace] at hmem
  rcases List.mem_append.1 hmem with hnew | hmem
  · obtain ⟨g, msg, heq⟩ := happend _ hnew
    cases heq
  · exact h fd hmem

theorem NoNullFlush.fatal {α : Type} (h : NoNullFlush s) :
    Ends NoNullFlush (s.fatal : Except State α) := h.log (by simp)

theorem NoNullFlush.undefined {α : Type} (h : NoNullFlush s) :
    Ends NoNullFlush (s.undefined : Except State α) := h.log (by simp)

theorem NoNullFlush.int (h : NoNullFlush s) (n : Nat) : Ends NoNullFlush (s.int n) := by
  rw [State.int]
  split_ifs
  · trivial
  · exact h.undefined

theorem NoNullFlush.strJoin (h : NoNullFlush s) : Ends NoNullFlush (s.strJoin heap buf add) :=
  (h.int _).bind fun _ _ => trivial

theorem NoNullFlush.sendTo (h : NoNullFlush s) :
    NoNullFlush (final (s.sendTo heap except msg fd)) := by
  rw [State.sendTo]
  split_ifs
  · refine h.strJoin.final_bind fun x hjoin => ?_
    obtain ⟨b, s₁⟩ := x
    obtain ⟨-, n, rfl⟩ := strJoin_ok hjoin
    rcases b with _ | b
    · exact NoNullFlush.fatal (α := State) (s := { s with allocs := n }) h
    · exact h.log (by simp)
  · exact h

theorem NoNullFlush.sendAll (h : NoNullFlush s) :
    NoNullFlush (final (s.sendAll heap except msg)) :=
  final_foldlM (fun _ _ _ hs => hs.sendTo) h

theorem NoNullFlush.acceptClient (h : NoNullFlush s) :
    NoNullFlush (final (s.acceptClient heap k)) := by
  rw [State.acceptClient]
  split
  · exact h
  · rename_i c _
    refine (h.int _).final_bind fun _ _ => ?_
    split_ifs
    · have henter : NoNullFlush (s.enter c) := h.log (by simp)
      exact henter.sendAll
    · exact h.undefined (α := State)

theorem NoNullFlush.extractMessage (h : NoNullFlush s) (heap : Nat → Bool) (buf : Option Str) :
    Ends NoNullFlush (s.extractMessage heap buf) ∧
      ∀ x s', s.extractMessage heap buf = .ok (x, s') → NoNullFlush s' := by
  rcases buf with _ | buf
  · exact ⟨trivial, fun x s' heq => by cases heq; exact h⟩
  · refine ⟨(h.int _).bind fun i _ => ?_, fun x s' heq => ?_⟩
    · split_ifs
      · trivial
      · trivial
    · obtain ⟨i, -, hnext⟩ := bind_eq_ok.1 heq
      split_ifs at hnext
      · cases hnext
        exact h
      · cases hnext
        exact h

theorem NoNullFlush.extractAll : ∀ (fuel : Nat) {s : State}, NoNullFlush s →
    NoNullFlush (final (State.extractAll heap fd fuel s))
  | 0, _, h => h
  | fuel + 1, s, h => by
    obtain ⟨hends, hok⟩ := h.extractMessage heap (s.rbuf fd)
    refine hends.final_bind fun y hx => ?_
    obtain ⟨x, s₁⟩ := y
    have h₁ : NoNullFlush s₁ := hok x s₁ hx
    rcases x with ⟨line, text⟩ | _ | _
    · have h₂ : NoNullFlush ((s₁.setRbuf fd (some text)).malloc heap).2 := h₁
      dsimp only [State.malloc] at h₂ ⊢
      split_ifs
      · refine (h₂.int _).final_bind fun _ _ => ?_
        exact final_bind h₂.sendAll fun s₃ _ h₃ => NoNullFlush.extractAll fuel h₃
      · exact h₂.fatal (α := State)
    · exact h₁
    · exact h₁.fatal (α := State)

theorem NoNullFlush.handleClient (h : NoNullFlush s) :
    NoNullFlush (final (s.handleClient heap k fd)) := by
  rw [State.handleClient]
  split
  · have hdismiss : NoNullFlush (s.dismiss fd) := h.log (by simp)
    exact hdismiss.sendAll
  · have hreceive : NoNullFlush (s.log (.receive fd ((k.recv.getD []).take 4096))) := h.log (by simp)
    refine hreceive.strJoin.final_bind fun x hjoin => ?_
    obtain ⟨b, s₁⟩ := x
    obtain ⟨-, n, rfl⟩ := strJoin_ok hjoin
    rcases b with _ | b
    · exact NoNullFlush.fatal (α := State) hreceive
    · exact NoNullFlush.extractAll _ hreceive

theorem NoNullFlush.visitRead {rfds : FdSet} (h : NoNullFlush s) :
    NoNullFlush (final (s.visitRead heap k rfds fd)) := by
  rw [State.visitRead]
  split_ifs
  · exact h.acceptClient
  · exact h.handleClient
  · exact h

theorem NoNullFlush.flushClient (h : NoNullFlush s) (hbuf : s.wbuf fd ≠ none) :
    NoNullFlush (final (s.flushClient heap k fd)) := by
  obtain ⟨buf, hbuf⟩ := Option.ne_none_iff_exists'.1 hbuf
  simp only [State.flushClient, State.wbuf_log, hbuf]
  have hflush : NoNullFlush (s.log (.flush fd (some buf))) := h.log (by simp)
  refine (hflush.int _).final_bind fun len _ => ?_
  have hsend : NoNullFlush ((s.log (.flush fd (some buf))).log
      (.send fd (buf.take (min k.send len)))) := hflush.log (by simp)
  by_cases hzero : min k.send len = 0
  · rw [if_pos hzero]
    exact hsend
  rw [if_neg hzero]
  by_cases hall : min k.send len = len
  · rw [if_pos hall]
    exact hsend
  rw [if_neg hall]
  by_cases hheap : heap s.allocs = true
  · rw [if_pos (by exact hheap)]
    exact hsend
  · rw [if_neg (by exact hheap)]
    exact NoNullFlush.fatal (α := State) hsend

theorem NoNullFlush.visitWrite {wfds : FdSet} (h : NoNullFlush s)
    (hbuf : wfds fd = true → s.active fd = true → s.wbuf fd ≠ none) :
    NoNullFlush (final (s.visitWrite heap k wfds fd)) := by
  rw [State.visitWrite]
  split_ifs with hfd
  · exact h.flushClient (hbuf hfd.1 hfd.2)
  · exact h

end Ends

section Runs

variable {heap : Nat → Bool} {sockfd : Nat} {ok : Calls → Prop} {m : Machine}

/-- The state after a step, also when the process has ended. -/
def endState : Except State Machine → State
  | .ok m => m.state
  | .error s => s

theorem noNullFlush_visit (k : Calls) {rfds wfds : FdSet} {fd : Nat} {s : State}
    (hs : Sound s) (hscan : (Machine.mk (.scan rfds wfds fd) s).Scanning) (h : NoNullFlush s) :
    NoNullFlush (final (s.visit heap k rfds wfds fd)) := by
  obtain ⟨hr, hw⟩ := hscan fd (Nat.le_refl fd)
  refine final_bind h.visitRead fun s₁ hread h₁ => h₁.visitWrite fun hwfds hactive => ?_
  -- the first half has not closed the descriptor
  exact ((visitRead_ok hs.bounded hr hread).keeps (hw hwfds).1).2 (hw hwfds).2 hactive

theorem Machine.noNullFlush_step (k : Calls) (hs : Sound m.state) (hscan : m.Scanning)
    (h : NoNullFlush m.state) : NoNullFlush (endState (m.step heap k)) := by
  obtain ⟨phase, s⟩ := m
  rcases phase with _ | ⟨rfds, wfds, fd⟩
  · rw [Machine.step]
    rcases k.select with _ | ⟨r, w⟩
    · exact NoNullFlush.fatal (α := Machine) h
    · exact h
  · rw [Machine.step]
    dsimp only
    split_ifs
    · have hvisit : NoNullFlush (final (s.visit heap k rfds wfds fd)) :=
        noNullFlush_visit k hs hscan h
      rcases hv : s.visit heap k rfds wfds fd with s' | s'
      · rw [hv] at hvisit
        exact hvisit
      · rw [hv] at hvisit
        exact hvisit
    · exact h

theorem Reachable.noNullFlush (h : Reachable heap sockfd ok m) : NoNullFlush m.state := by
  induction h with
  | start => exact fun fd => List.not_mem_nil
  | @step m m' k h _ _ hstep ih =>
    have hend : NoNullFlush (endState (m.step heap k)) :=
      Machine.noNullFlush_step k h.sound.1 h.sound.2 ih
    rw [hstep] at hend
    exact hend

/-- Along every run what was put there for a client since it was accepted is what it has been sent
and then what is in its buffer, and the buffer is null exactly when nothing waits; a descriptor that
is not in use has none; and whatever comes next, also if it ends the process, `flush_client` has
only been called for a descriptor that had one. -/
theorem run_buffers (h : Reachable heap sockfd ok m) :
    (∀ fd, m.state.Connected fd →
      (appended fd m.state.trace).flatten =
          sent fd m.state.trace ++ (m.state.wbuf fd).getD [] ∧
        (m.state.wbuf fd = none ↔
          (appended fd m.state.trace).flatten = sent fd m.state.trace)) ∧
      (∀ fd, m.state.active fd = false → m.state.wbuf fd = none) ∧
      ∀ k fd, Event.flush fd none ∉ (endState (m.step heap k)).trace := by
  obtain ⟨hs, hscan⟩ := h.sound
  refine ⟨fun fd hconn => ?_, fun fd hfd => (hs.closed fd hfd).2,
    fun k => Machine.noNullFlush_step k hs hscan h.noNullFlush⟩
  have hstream := h.delivered fd hconn
  refine ⟨hstream, ?_⟩
  rw [hstream, List.append_right_eq_self]
  rcases hbuf : m.state.wbuf fd with _ | buf
  · exact iff_of_true rfl rfl
  · exact iff_of_false nofun fun hnil => hs.pending fd (hbuf.trans (congrArg some hnil))

/-- The second client has just arrived, and the first has not been told yet. -/
theorem run_buffers_waiting : ∃ m, Reachable (fun _ => true) 0 Calls.NulFree m ∧
    m.state.wbuf 1 = some (arrived 1) ∧
    (appended 1 m.state.trace).flatten = sent 1 m.state.trace ++ arrived 1 := by
  have h : Reachable (fun _ => true) 0 Calls.NulFree _ := Reachable.start.play
    (show Machine.play _ _ [{ select := some (fun fd => fd == 0, fun _ => false) },
      { accept := some 1 }, {}, {}, { select := some (fun fd => fd == 0, fun _ => false) },
      { accept := some 2 }] = some _ from rfl)
  exact ⟨_, h, rfl, ((run_buffers h).1 1 ⟨rfl, by decide⟩).1⟩

end Runs

end MiniServ

end Ircserv
