import Ircserv.Proofs.Visits

/-!
# The write buffers

What waits for a client is what `send_all` has put there since the client was accepted, but for what
it has been sent, and the buffer is null when nothing waits. Descriptors that are not in use have no
buffers, so `flush_client` finds one whenever it is called.
-/

namespace Ircserv

namespace MiniServ

open Halting History Framing

section Join

variable {buf : Option Str} {msgs : List Str}

theorem getD_foldl_join : (msgs.foldl join buf).getD [] = buf.getD [] ++ msgs.flatten := by
  induction msgs generalizing buf with
  | nil => exact (List.append_nil _).symm
  | cons msg msgs ih =>
    rw [List.foldl_cons, ih, List.flatten_cons, join, Option.getD_some, List.append_assoc]

theorem foldl_join_ne_none (h : buf ≠ none) : msgs.foldl join buf ≠ none := by
  induction msgs generalizing buf with
  | nil => exact h
  | cons msg msgs ih => exact ih (Option.some_ne_none _)

theorem foldl_join_ne_nil (h : buf ≠ some []) (hmsgs : ∀ msg ∈ msgs, msg ≠ []) :
    msgs.foldl join buf ≠ some [] := by
  induction msgs generalizing buf with
  | nil => exact h
  | cons msg msgs ih =>
    refine ih (fun hnil => ?_) fun m hm => hmsgs m (List.mem_cons_of_mem _ hm)
    exact hmsgs msg List.mem_cons_self (List.append_eq_nil_iff.1 (Option.some.inj hnil)).2

end Join

/-- A string that starts with another character than NUL is not empty. -/
theorem cString_cons_ne_nil {c : UInt8} (h : c ≠ 0) (s : Str) : cString (c :: s) ≠ [] := by
  simp [cString, CArray.cstr, h]

theorem cString_arrived_ne_nil (id : Nat) : cString (arrived id) ≠ [] :=
  cString_cons_ne_nil (by decide) _

theorem cString_left_ne_nil (id : Nat) : cString (left id) ≠ [] :=
  cString_cons_ne_nil (by decide) _

theorem cString_clientLine_ne_nil (id : Nat) (line : Str) : cString (clientLine id line) ≠ [] :=
  cString_cons_ne_nil (by decide) _

/-- What always holds of the globals. -/
structure Sound (s : State) : Prop where
  sock : s.active s.sockfd = true
  bounded : s.Bounded
  closed : ∀ fd, s.active fd = false → s.rbuf fd = none ∧ s.wbuf fd = none
  listener : s.wbuf s.sockfd = none
  pending : ∀ fd, s.wbuf fd ≠ some []

/-- What waits for each client is what was put there for it, but for what it has been sent. -/
def Delivered (s : State) : Prop := ∀ fd, s.Connected fd →
  (appended fd s.trace).flatten = sent fd s.trace ++ (s.wbuf fd).getD []

namespace Spread

variable {except : Nat} {msgs : List Str} {s s' : State}

theorem connected_iff (h : Spread (s.hears except) msgs s s') (fd : Nat) :
    s'.Connected fd ↔ s.Connected fd := by
  obtain ⟨hsock, hactive, -⟩ := State.eq_of_front h.front
  rw [State.Connected, State.Connected, hsock, hactive]

theorem sound (h : Spread (s.hears except) msgs s s') (hmsgs : ∀ msg ∈ msgs, msg ≠ [])
    (hrbuf : ∀ fd, s.active fd = false → s'.rbuf fd = none) (hs : Sound s) : Sound s' := by
  obtain ⟨hsock, hactive, hmaxfd, -⟩ := State.eq_of_front h.front
  refine ⟨?_, ?_, fun fd hfd => ?_, ?_, fun fd => ?_⟩
  · rw [hsock, hactive]
    exact hs.sock
  · rw [State.Bounded, hactive, hmaxfd]
    exact hs.bounded
  · rw [hactive] at hfd
    refine ⟨hrbuf fd hfd, ?_⟩
    rw [h.wbuf, if_neg fun hto => ?_]
    · exact (hs.closed fd hfd).2
    · rw [State.hears_eq_true, hfd] at hto
      exact absurd hto.1 Bool.false_ne_true
  · rw [hsock, h.wbuf, if_neg fun hto => (State.hears_eq_true.1 hto).2.2 rfl]
    exact hs.listener
  · rw [h.wbuf]
    split_ifs
    · exact foldl_join_ne_nil (hs.pending fd) hmsgs
    · exact hs.pending fd

theorem delivered (h : Spread (s.hears except) msgs s s') (hs : Delivered s) : Delivered s' := by
  intro fd hconn
  rw [h.connected_iff] at hconn
  have hsent : sent fd s'.trace = sent fd s.trace := h.since_eq fd fun _ _ => rfl
  rw [h.appended_eq, List.flatten_append, hs fd hconn, hsent, h.wbuf, List.append_assoc]
  congr 1
  split_ifs
  · exact getD_foldl_join.symm
  · exact List.append_nil _

end Spread

variable {k : Calls} {s s' : State} {fd c : Nat}

theorem Sound.log (h : Sound s) (event : Event) : Sound (s.log event) :=
  ⟨h.sock, h.bounded, h.closed, h.listener, h.pending⟩

theorem Sound.enter (h : Sound s) (c : Nat) : Sound (s.enter c) where
  sock := by
    rw [State.active_enter]
    split_ifs
    · rfl
    · exact h.sock
  bounded := h.bounded.enter c
  closed := fun fd hfd => by
    rw [State.active_enter] at hfd
    split_ifs at hfd
    exact h.closed fd hfd
  listener := h.listener
  pending := h.pending

theorem State.wbuf_dismiss (s : State) (fd g : Nat) :
    (s.dismiss fd).wbuf g = if g = fd then none else s.wbuf g :=
  Function.update_apply _ _ _ _

theorem State.rbuf_dismiss (s : State) (fd g : Nat) :
    (s.dismiss fd).rbuf g = if g = fd then none else s.rbuf g :=
  Function.update_apply _ _ _ _

theorem Sound.dismiss (h : Sound s) (hfd : fd ≠ s.sockfd) : Sound (s.dismiss fd) where
  sock := by
    have hsock : (s.dismiss fd).sockfd = s.sockfd := rfl
    rw [hsock, State.active_dismiss, if_neg (Ne.symm hfd)]
    exact h.sock
  bounded := h.bounded.dismiss fd
  closed := fun g hg => by
    rw [State.active_dismiss] at hg
    rw [State.rbuf_dismiss, State.wbuf_dismiss]
    split_ifs at hg ⊢
    · exact ⟨rfl, rfl⟩
    · exact h.closed g hg
  listener := by
    have hsock : (s.dismiss fd).sockfd = s.sockfd := rfl
    rw [hsock, State.wbuf_dismiss, if_neg (Ne.symm hfd)]
    exact h.listener
  pending := fun g => by
    rw [State.wbuf_dismiss]
    split_ifs
    · nofun
    · exact h.pending g

theorem Reading.sound (h : Reading k fd s s') (hs : Sound s) : Sound s' := by
  cases h with
  | idle => exact hs
  | arrive hsock hc hroom hspread hrbuf =>
    refine hspread.sound (fun msg hmsg => ?_) (fun g hg => ?_) (hs.enter _)
    · rw [List.mem_singleton.1 hmsg]
      exact cString_arrived_ne_nil _
    · rw [hrbuf]
      exact ((hs.enter _).closed g hg).1
  | leave hconn hspread hrbuf =>
    have hdismiss := hs.dismiss hconn.2
    refine hspread.sound (fun msg hmsg => ?_) (fun g hg => ?_) hdismiss
    · rw [List.mem_singleton.1 hmsg]
      exact cString_left_ne_nil _
    · rw [hrbuf]
      exact (hdismiss.closed g hg).1
  | receive hconn hdata hspread hrbuf =>
    refine Spread.sound hspread (fun msg hmsg => ?_) (fun g hg => ?_) (hs.log _)
    · obtain ⟨l, -, rfl⟩ := List.mem_map.1 hmsg
      exact cString_clientLine_ne_nil _ _
    · have hne : g ≠ fd := fun hgfd => by
        rw [hgfd] at hg
        exact Bool.false_ne_true (hg.symm.trans hconn.1)
      rw [hrbuf, Function.update_of_ne hne]
      exact (hs.closed g hg).1

theorem leftOver_ne_nil {buf : Str} {n : Nat} (hn : n ≤ buf.length) (h : buf ≠ []) :
    leftOver buf n ≠ some [] := by
  rw [leftOver]
  split_ifs with hzero hall
  · exact fun hnil => h (Option.some.inj hnil)
  · exact (Option.some_ne_none []).symm
  · exact fun hnil => hall (Nat.le_antisymm hn (List.drop_eq_nil_iff.1 (Option.some.inj hnil)))

theorem getD_leftOver (buf : Str) (n : Nat) : (leftOver buf n).getD [] = buf.drop n := by
  rw [leftOver]
  split_ifs with hzero hall
  · rw [hzero]
    rfl
  · rw [hall, List.drop_length]
    rfl
  · rfl

theorem Writing.sound (h : Writing fd s s') (hs : Sound s) : Sound s' := by
  cases h with
  | idle => exact hs
  | @flush s' buf n hactive hbuf hn hfront hrbuf hwbuf htrace =>
    obtain ⟨hsock, hact, hmaxfd, -⟩ := State.eq_of_front hfront
    have hfd : fd ≠ s.sockfd := fun h => by
      rw [h, hs.listener] at hbuf
      cases hbuf
    refine ⟨?_, ?_, fun g hg => ?_, ?_, fun g => ?_⟩
    · rw [hsock, hact]
      exact hs.sock
    · rw [State.Bounded, hact, hmaxfd]
      exact hs.bounded
    · have hne : g ≠ fd := fun hgfd => by
        rw [hact, hgfd] at hg
        exact Bool.false_ne_true (hg.symm.trans hactive)
      rw [hrbuf, hwbuf, Function.update_of_ne hne]
      exact hs.closed g (hact ▸ hg)
    · rw [hsock, hwbuf, Function.update_of_ne hfd.symm]
      exact hs.listener
    · rw [hwbuf, Function.update_apply]
      split_ifs
      · exact leftOver_ne_nil hn fun hnil => hs.pending fd (hnil ▸ hbuf)
      · exact hs.pending g

theorem Delivered.log (h : Delivered s) {event : Event} (haccept : ∀ fd, event.isAccept fd = false)
    (happend : ∀ fd, event.appendOf fd = []) (hsend : ∀ fd, event.sendOf fd = []) :
    Delivered (s.log event) := fun fd hconn => by
  have happended : appended fd (s.log event).trace = appended fd s.trace :=
    since_cons_silent (haccept fd) (happend fd) _
  have hsent : sent fd (s.log event).trace = sent fd s.trace :=
    since_cons_silent (haccept fd) (hsend fd) _
  rw [happended, hsent]
  exact h fd hconn

/-- Nothing waits for a new client. -/
theorem Delivered.enter (h : Delivered s) (hs : Sound s) (hfree : s.active c = false) :
    Delivered (s.enter c) := fun fd hconn => by
  by_cases hfd : fd = c
  · subst hfd
    have hstart : (Event.accept fd s.nextId).isAccept fd = true := beq_self_eq_true fd
    have hwbuf : (s.enter fd).wbuf fd = none := (hs.closed fd hfree).2
    have happended : appended fd (s.enter fd).trace = [] := since_cons_start hstart _
    have hsent : sent fd (s.enter fd).trace = [] := since_cons_start hstart _
    rw [happended, hsent, hwbuf]
    rfl
  · have hne : (Event.accept c s.nextId).isAccept fd = false := beq_false_of_ne (Ne.symm hfd)
    have happended : appended fd (s.enter c).trace = appended fd s.trace :=
      since_cons_silent hne rfl _
    have hsent : sent fd (s.enter c).trace = sent fd s.trace := since_cons_silent hne rfl _
    have hactive := hconn.1
    rw [State.active_enter, if_neg hfd] at hactive
    rw [happended, hsent]
    exact h fd ⟨hactive, hconn.2⟩

theorem Delivered.dismiss (h : Delivered s) (fd : Nat) : Delivered (s.dismiss fd) := fun g hconn => by
  have hactive := hconn.1
  rw [State.active_dismiss] at hactive
  split_ifs at hactive with hg
  have happended : appended g (s.dismiss fd).trace = appended g s.trace :=
    since_cons_silent rfl rfl _
  have hsent : sent g (s.dismiss fd).trace = sent g s.trace := since_cons_silent rfl rfl _
  rw [happended, hsent, State.wbuf_dismiss, if_neg hg]
  exact h g ⟨hactive, hconn.2⟩

theorem Reading.delivered (h : Reading k fd s s') (hs : Sound s)
    (hfresh : ∀ c, k.accept = some c → s.active c = false) (hd : Delivered s) : Delivered s' := by
  cases h with
  | idle => exact hd
  | arrive hsock hc hroom hspread hrbuf => exact hspread.delivered (hd.enter hs (hfresh _ hc))
  | leave hconn hspread hrbuf => exact hspread.delivered (hd.dismiss fd)
  | receive hconn hdata hspread hrbuf =>
    exact Spread.delivered hspread (hd.log (fun _ => rfl) (fun _ => rfl) fun _ => rfl)

theorem Writing.delivered (h : Writing fd s s') (hd : Delivered s) : Delivered s' := by
  cases h with
  | idle => exact hd
  | @flush s' buf n hactive hbuf hn hfront hrbuf hwbuf htrace =>
    obtain ⟨hsock, hact, -⟩ := State.eq_of_front hfront
    intro g hconn
    have hg := hd g ⟨hact ▸ hconn.1, hsock ▸ hconn.2⟩
    have happended : appended g s'.trace = appended g s.trace := by
      rw [htrace]
      exact (since_cons_silent rfl rfl _).trans (since_cons_silent rfl rfl _)
    have hsent : sent g s'.trace = sent g s.trace ++ if fd = g then buf.take n else [] := by
      rw [htrace]
      refine (since_cons rfl _).trans ?_
      rw [since_cons_silent rfl rfl]
      rfl
    rw [happended, hg, hsent, hwbuf, Function.update_apply, List.append_assoc]
    congr 1
    by_cases hfd : g = fd
    · rw [if_pos hfd, if_pos hfd.symm, getD_leftOver, List.take_append_drop, hfd, hbuf]
      rfl
    · rw [if_neg hfd, if_neg (Ne.symm hfd)]
      rfl

/-- The descriptors that are still to be visited are in use, and something waits for those that are
to be written to. -/
def Machine.Scanning (m : Machine) : Prop :=
  match m.phase with
  | .select => True
  | .scan rfds wfds fd => ∀ g, fd ≤ g → (rfds g = true → m.state.active g = true) ∧
      (wfds g = true → m.state.active g = true ∧ m.state.wbuf g ≠ none)

theorem Spread.wbuf_ne_none {whom : FdSet} {msgs : List Str} {g : Nat} (h : Spread whom msgs s s')
    (hg : s.wbuf g ≠ none) : s'.wbuf g ≠ none := by
  rw [h.wbuf]
  split_ifs
  · exact foldl_join_ne_none hg
  · exact hg

/-- A descriptor that is visited may be closed, but none is as long as it is not visited. What waits
for a client stays as long as it is there. -/
theorem Reading.keeps (h : Reading k fd s s') {g : Nat} (hg : s.active g = true) :
    (g ≠ fd → s'.active g = true) ∧ (s.wbuf g ≠ none → s'.active g = true → s'.wbuf g ≠ none) := by
  cases h with
  | idle => exact ⟨fun _ => hg, fun hw _ => hw⟩
  | arrive hsock hc hroom hspread hrbuf =>
    obtain ⟨-, hactive, -⟩ := State.eq_of_front hspread.front
    refine ⟨fun _ => ?_, fun hw _ => hspread.wbuf_ne_none hw⟩
    rw [hactive, State.active_enter, hg, ite_self]
  | leave hconn hspread hrbuf =>
    obtain ⟨-, hactive, -⟩ := State.eq_of_front hspread.front
    rw [hactive, State.active_dismiss]
    refine ⟨fun hne => ?_, fun hw hact => hspread.wbuf_ne_none ?_⟩
    · rw [if_neg hne, hg]
    · split_ifs at hact with hgfd
      rw [State.wbuf_dismiss, if_neg hgfd]
      exact hw
  | receive hconn hdata hspread hrbuf =>
    obtain ⟨-, hactive, -⟩ := State.eq_of_front hspread.front
    exact ⟨fun _ => (congrFun hactive g).trans hg, fun hw _ => hspread.wbuf_ne_none hw⟩

theorem Writing.keeps (h : Writing fd s s') {g : Nat} (hg : g ≠ fd) :
    s'.active g = s.active g ∧ s'.wbuf g = s.wbuf g := by
  cases h with
  | idle => exact ⟨rfl, rfl⟩
  | flush hactive hbuf hn hfront hrbuf hwbuf htrace =>
    obtain ⟨-, hact, -⟩ := State.eq_of_front hfront
    exact ⟨congrFun hact g, by rw [hwbuf, Function.update_of_ne hg]⟩

theorem Reading.maxfd_lt (h : Reading k fd s s') (hlt : s.maxfd < FD_SETSIZE) :
    s'.maxfd < FD_SETSIZE := by
  cases h with
  | idle => exact hlt
  | arrive hsock hc hroom hspread hrbuf =>
    obtain ⟨-, -, hmaxfd, -⟩ := State.eq_of_front hspread.front
    exact hmaxfd ▸ max_lt hlt hroom
  | leave hconn hspread hrbuf =>
    obtain ⟨-, -, hmaxfd, -⟩ := State.eq_of_front hspread.front
    exact hmaxfd ▸ hlt
  | receive hconn hdata hspread hrbuf =>
    obtain ⟨-, -, hmaxfd, -⟩ := State.eq_of_front hspread.front
    exact hmaxfd ▸ hlt

theorem Writing.maxfd_eq (h : Writing fd s s') : s'.maxfd = s.maxfd := by
  cases h with
  | idle => rfl
  | flush hactive hbuf hn hfront hrbuf hwbuf htrace => exact (State.eq_of_front hfront).2.2.1

section Runs

variable {heap : Nat → Bool} {sockfd : Nat} {ok : Calls → Prop} {m m' : Machine}

/-- `main` calls `select`, visits a descriptor, or has visited all. -/
theorem Machine.step_cases (h : m.step heap k = .ok m') :
    (m.phase = .select ∧ ∃ r w : FdSet, m' = ⟨.scan (fun fd => m.state.active fd && r fd)
        (fun fd => m.state.waiting fd && w fd) 0, m.state⟩) ∨
      (∃ rfds wfds fd s', m.phase = .scan rfds wfds fd ∧
        m.state.visit heap k rfds wfds fd = .ok s' ∧ m' = ⟨.scan rfds wfds (fd + 1), s'⟩) ∨
      m' = ⟨.select, m.state⟩ := by
  rw [Machine.step] at h
  split at h
  · rename_i hphase
    split at h
    · cases h
    · rename_i r w _
      cases h
      exact .inl ⟨hphase, r, w, rfl⟩
  · rename_i rfds wfds fd hphase
    split_ifs at h
    · obtain ⟨s', hvisit, h⟩ := bind_eq_ok.1 h
      cases h
      exact .inr (.inl ⟨rfds, wfds, fd, s', hphase, hvisit, rfl⟩)
    · cases h
      exact .inr (.inr rfl)

theorem sound_initState (sockfd : Nat) : Sound (initState sockfd) where
  sock := beq_self_eq_true sockfd
  bounded := fun _ hfd => (beq_iff_eq.1 hfd).le
  closed := fun _ _ => ⟨rfl, rfl⟩
  listener := rfl
  pending := fun _ => nofun

theorem Machine.sound_step (h : m.step heap k = .ok m') (hs : Sound m.state)
    (hscan : m.Scanning) : Sound m'.state ∧ m'.Scanning := by
  rcases Machine.step_cases h with ⟨-, r, w, rfl⟩ | ⟨rfds, wfds, fd, s', hphase, hvisit, rfl⟩ | rfl
  · refine ⟨hs, fun g _ => ⟨fun hr => ?_, fun hw => ?_⟩⟩
    · rw [Bool.and_eq_true] at hr
      exact hr.1
    · rw [Bool.and_eq_true, State.waiting, Bool.and_eq_true, Bool.and_eq_true] at hw
      exact ⟨hw.1.1.2, Option.isSome_iff_ne_none.1 hw.1.2⟩
  · rw [Machine.Scanning, hphase] at hscan
    obtain ⟨s₁, hread, hwrite⟩ := visit_ok hs.bounded (hscan fd (Nat.le_refl fd)).1 hvisit
    refine ⟨hwrite.sound (hread.sound hs), fun g hg => ?_⟩
    have hne : g ≠ fd := by omega
    obtain ⟨hactive, hwbuf⟩ := hwrite.keeps hne
    obtain ⟨hr, hw⟩ := hscan g (by omega)
    dsimp only
    rw [hactive, hwbuf]
    exact ⟨fun h => (hread.keeps (hr h)).1 hne, fun h => ⟨(hread.keeps (hw h).1).1 hne,
      (hread.keeps (hw h).1).2 (hw h).2 ((hread.keeps (hw h).1).1 hne)⟩⟩
  · exact ⟨hs, trivial⟩

theorem Reachable.sound (h : Reachable heap sockfd ok m) : Sound m.state ∧ m.Scanning := by
  induction h with
  | start => exact ⟨sound_initState sockfd, trivial⟩
  | step _ _ _ hstep ih => exact Machine.sound_step hstep ih.1 ih.2

/-- The rule for what holds of every run: it holds at the start, and both halves of a visit keep
it. -/
theorem Reachable.induction {P : State → Prop} (start : P (initState sockfd))
    (read : ∀ k fd s s', Sound s → (∀ c, k.accept = some c → s.active c = false) → ok k →
      Reading k fd s s' → P s → P s')
    (write : ∀ fd s s', Sound s → Writing fd s s' → P s → P s')
    (h : Reachable heap sockfd ok m) : P m.state := by
  induction h with
  | start => exact start
  | step h hfresh hok hstep ih =>
    obtain ⟨hs, hscan⟩ := h.sound
    rcases Machine.step_cases hstep with
      ⟨-, r, w, rfl⟩ | ⟨rfds, wfds, fd, s', hphase, hvisit, rfl⟩ | rfl
    · exact ih
    · rw [Machine.Scanning, hphase] at hscan
      obtain ⟨s₁, hread, hwrite⟩ := visit_ok hs.bounded (hscan fd (Nat.le_refl fd)).1 hvisit
      exact write fd s₁ s' (hread.sound hs) hwrite (read _ fd _ s₁ hs hfresh hok hread ih)
    · exact ih

/-- An `fd_set` has room for every descriptor up to `g_maxfd`. -/
theorem Reachable.maxfd_lt (hsock : sockfd < FD_SETSIZE) (h : Reachable heap sockfd ok m) :
    m.state.maxfd < FD_SETSIZE := by
  refine h.induction (P := fun s => s.maxfd < FD_SETSIZE) hsock ?_ ?_
  · exact fun k fd s s' _ _ _ hread hlt => hread.maxfd_lt hlt
  · exact fun fd s s' _ hwrite hlt => hwrite.maxfd_eq ▸ hlt

theorem Reachable.delivered (h : Reachable heap sockfd ok m) : Delivered m.state := by
  refine h.induction (fun fd hconn => absurd (beq_iff_eq.1 hconn.1) hconn.2) ?_ ?_
  · exact fun k fd s s' hs hfresh _ hread hd => hread.delivered hs hfresh hd
  · exact fun fd s s' _ hwrite hd => hwrite.delivered hd

end Runs

end MiniServ

end Ircserv
