import Ircserv.Proofs.Buffers
import Ircserv.Proofs.Numbers

/-!
# What the clients of mini_serv hear

Every client is told, in order, of the others that arrive and leave while it is there, and of the
lines that they finish; the ids are given in the order of the clients. As long as the bytes that
come have no NUL, the buffer of a client has what follows the last of its lines.
-/

namespace Ircserv

namespace MiniServ

open Halting History Framing

section Strings

theorem cString_eq_self {s : Str} (h : 0 ∉ s) : cString s = s := CArray.cstr_of_not_mem h

theorem zero_not_mem_intToString (id : Nat) : 0 ∉ intToString id := fun h => by
  have hdigit := (ChannelCommandHandler.intToString_spec (Int.natCast_nonneg id)).2.1 0 h
  exact absurd hdigit (by decide)

theorem cString_arrived (id : Nat) : cString (arrived id) = arrived id := by
  refine cString_eq_self ?_
  simp only [arrived, List.mem_append, not_or]
  exact ⟨by decide, zero_not_mem_intToString id, by decide⟩

theorem cString_left (id : Nat) : cString (left id) = left id := by
  refine cString_eq_self ?_
  simp only [left, List.mem_append, not_or]
  exact ⟨by decide, zero_not_mem_intToString id, by decide⟩

theorem cString_clientLine (id : Nat) {line : Str} (h : 0 ∉ line) :
    cString (clientLine id line) = clientLine id line := by
  refine cString_eq_self ?_
  simp only [clientLine, List.mem_append, not_or]
  exact ⟨by decide, zero_not_mem_intToString id, by decide, h⟩

end Strings

section Quiet

variable {event : Event} {new : List Event} (fd : Nat) (earlier : List Event)

/-- No client arrived, left or sent anything. -/
def Quiet (new : List Event) : Prop := ∀ event ∈ new, event.client = none

theorem quiet_event (h : event.client = none) : event.isAccept fd = false ∧ event.idOf = [] ∧
    event.receiveOf fd = [] ∧ notices earlier event = [] := by
  cases event with
  | accept | receive | leave => cases h
  | _ => exact ⟨rfl, rfl, rfl, rfl⟩

theorem told_cons (haccept : event.isAccept fd = false) (hclient : event.client ≠ some fd) :
    told fd (event :: earlier) = told fd earlier ++ notices earlier event := by
  rw [told, haccept, if_neg hclient]
  rfl

/-- A client is not told of what it does itself. -/
theorem told_cons_own (haccept : event.isAccept fd = false) (hclient : event.client = some fd) :
    told fd (event :: earlier) = told fd earlier := by
  rw [told, haccept, if_pos hclient]
  exact List.append_nil _

theorem told_append (h : Quiet new) : told fd (new ++ earlier) = told fd earlier := by
  induction new with
  | nil => rfl
  | cons event new ih =>
    obtain ⟨haccept, -, -, hnotices⟩ :=
      quiet_event fd (new ++ earlier) (h event List.mem_cons_self)
    rw [List.cons_append, told, haccept, hnotices, ite_self, List.append_nil,
      ih fun e he => h e (List.mem_cons_of_mem _ he)]
    rfl

theorem idOf_append (h : Quiet new) : idOf fd (new ++ earlier) = idOf fd earlier := by
  induction new with
  | nil => rfl
  | cons event new ih =>
    rw [List.cons_append, idOf, (quiet_event fd earlier (h event List.mem_cons_self)).1,
      ih fun e he => h e (List.mem_cons_of_mem _ he)]
    rfl

theorem idsGiven_append (h : Quiet new) : idsGiven (new ++ earlier) = idsGiven earlier := by
  have hnew : new.reverse.flatMap Event.idOf = [] := List.flatMap_eq_nil_iff.2 fun event hevent =>
    (quiet_event 0 earlier (h event (List.mem_reverse.1 hevent))).2.1
  rw [idsGiven, List.reverse_append, List.flatMap_append, hnew, List.append_nil]
  rfl

theorem stream_append (h : Quiet new) : stream fd (new ++ earlier) = stream fd earlier :=
  since_append_silent (fun event hevent => (quiet_event fd earlier (h event hevent)).1)
    (fun event hevent => (quiet_event fd earlier (h event hevent)).2.2.1) earlier

theorem Spread.quiet {whom : FdSet} {msgs : List Str} {s s' : State} (h : Spread whom msgs s s') :
    ∃ new, s'.trace = new ++ s.trace ∧ Quiet new := by
  obtain ⟨new, htrace, happend, -⟩ := h.trace
  refine ⟨new, htrace, fun event hevent => ?_⟩
  obtain ⟨g, msg, rfl⟩ := happend event hevent
  rfl

end Quiet

/-- What the clients were told, their ids and their buffers are right. -/
structure Heard (s : State) : Prop where
  ids : ∀ fd, s.Connected fd → s.ids fd = idOf fd s.trace
  given : idsGiven s.trace = List.range s.nextId
  rbuf : ∀ fd, s.Connected fd → (s.rbuf fd).getD [] = rest lf (stream fd s.trace)
  nulFree : ∀ fd, 0 ∉ (s.rbuf fd).getD []
  told : ∀ fd, s.Connected fd → appended fd s.trace = told fd s.trace

namespace Heard

variable {k : Calls} {s s' : State} {fd c : Nat}

/-- The others have been told of an event. -/
theorem of_spread {except : Nat} {msgs : List Str} (h : Spread (s.hears except) msgs s s')
    (hids : ∀ fd, s.Connected fd → s.ids fd = idOf fd s.trace)
    (hgiven : idsGiven s.trace = List.range s.nextId)
    (hrbuf : ∀ fd, s.Connected fd → (s'.rbuf fd).getD [] = rest lf (stream fd s.trace))
    (hnul : ∀ fd, 0 ∉ (s'.rbuf fd).getD [])
    (htold : ∀ fd, s.Connected fd → MiniServ.told fd s.trace =
      appended fd s.trace ++ if fd = except then [] else msgs) : Heard s' := by
  obtain ⟨new, htrace, hquiet⟩ := h.quiet
  obtain ⟨-, -, -, hids', hnext⟩ := State.eq_of_front h.front
  refine ⟨fun g hg => ?_, ?_, fun g hg => ?_, hnul, fun g hg => ?_⟩
  · rw [h.connected_iff] at hg
    rw [hids', htrace, idOf_append _ _ hquiet]
    exact hids g hg
  · rw [htrace, idsGiven_append _ hquiet, hnext]
    exact hgiven
  · rw [h.connected_iff] at hg
    rw [htrace, stream_append _ _ hquiet]
    exact hrbuf g hg
  · rw [h.connected_iff] at hg
    rw [h.appended_eq, htrace, told_append _ _ hquiet, htold g hg]
    congr 1
    have hhears : s.hears except g = true ↔ ¬ g = except := by
      rw [State.hears_eq_true]
      exact ⟨fun hh => hh.2.1, fun hne => ⟨hg.1, hne, hg.2⟩⟩
    by_cases hne : g = except
    · rw [if_pos hne, if_neg fun hh => hhears.1 hh hne]
    · rw [if_neg hne, if_pos (hhears.2 hne)]

theorem arrive (h : Heard s) (hs : Sound s) (hfree : s.active c = false)
    (hspread : Spread ((s.enter c).hears c) [cString (arrived s.nextId)] (s.enter c) s')
    (hrbuf : s'.rbuf = s.rbuf) : Heard s' := by
  have hstart : (Event.accept c s.nextId).isAccept c = true := beq_self_eq_true c
  have hother : ∀ g, g ≠ c → (Event.accept c s.nextId).isAccept g = false :=
    fun g hg => beq_false_of_ne hg.symm
  have hold : ∀ g, g ≠ c → (s.enter c).Connected g → s.Connected g := by
    intro g hg hconn
    have hactive := hconn.1
    rw [State.active_enter, if_neg hg] at hactive
    exact ⟨hactive, hconn.2⟩
  have htrace : (s.enter c).trace = .accept c s.nextId :: s.trace := rfl
  refine of_spread hspread (fun g hconn => ?_) ?_ (fun g hconn => ?_) (hrbuf ▸ h.nulFree)
    fun g hconn => ?_
  · have hid : (s.enter c).ids g = if g = c then s.nextId else s.ids g :=
      Function.update_apply _ _ _ _
    rw [hid, htrace, idOf]
    by_cases hg : g = c
    · rw [if_pos hg, hg, if_pos hstart]
      rfl
    · rw [if_neg hg, hother g hg]
      exact h.ids g (hold g hg hconn)
  · rw [htrace, idsGiven, List.reverse_cons, List.flatMap_append]
    have hgiven : s.trace.reverse.flatMap Event.idOf = List.range s.nextId := h.given
    rw [hgiven]
    exact (List.range_succ).symm
  · rw [hrbuf, htrace]
    by_cases hg : g = c
    · rw [hg, (hs.closed c hfree).1, stream, since_cons_start hstart]
      rfl
    · rw [stream, since_cons_silent (hother g hg) rfl]
      exact h.rbuf g (hold g hg hconn)
  · rw [htrace]
    by_cases hg : g = c
    · rw [hg, MiniServ.told, if_pos hstart, if_pos rfl, appended, since_cons_start hstart]
      rfl
    · have hclient : (Event.accept c s.nextId).client ≠ some g := fun heq =>
        hg (Option.some.inj heq).symm
      rw [told_cons g s.trace (hother g hg) hclient, if_neg hg, appended,
        since_cons_silent (hother g hg) rfl, cString_arrived, ← h.told g (hold g hg hconn)]
      rfl

theorem leave (h : Heard s) (hfd : s.Connected fd)
    (hspread : Spread ((s.dismiss fd).hears fd) [cString (left (s.ids fd))] (s.dismiss fd) s')
    (hrbuf : s'.rbuf = Function.update s.rbuf fd none) : Heard s' := by
  have htrace : (s.dismiss fd).trace = .leave fd :: s.trace := rfl
  have hold : ∀ g, (s.dismiss fd).Connected g → g ≠ fd ∧ s.Connected g := by
    intro g hconn
    have hactive := hconn.1
    rw [State.active_dismiss] at hactive
    split_ifs at hactive with hg
    exact ⟨hg, hactive, hconn.2⟩
  refine of_spread hspread (fun g hconn => ?_) ?_ (fun g hconn => ?_) (fun g => ?_)
    fun g hconn => ?_
  · rw [htrace, idOf]
    exact h.ids g (hold g hconn).2
  · rw [htrace, idsGiven, List.reverse_cons, List.flatMap_append]
    exact (List.append_nil _).trans h.given
  · obtain ⟨hg, hconn⟩ := hold g hconn
    rw [hrbuf, Function.update_of_ne hg, htrace, stream, since_cons_silent rfl rfl]
    exact h.rbuf g hconn
  · rw [hrbuf, Function.update_apply]
    split_ifs
    · exact List.not_mem_nil
    · exact h.nulFree g
  · obtain ⟨hg, hconn⟩ := hold g hconn
    have hclient : (Event.leave fd).client ≠ some g := fun heq => hg (Option.some.inj heq).symm
    rw [htrace, told_cons g s.trace rfl hclient, if_neg hg, appended, since_cons_silent rfl rfl,
      cString_left, h.ids fd hfd, ← h.told g hconn]
    rfl

/-- The lines that the bytes of a client finish, as the others are told of them. -/
theorem clientLines_eq {data : Str} (h : Heard s) (hfd : s.Connected fd) (hnul : 0 ∉ data) :
    ((lines lf ((s.rbuf fd).getD [] ++ data)).map fun l => cString (clientLine (s.ids fd) l)) =
      notices s.trace (.receive fd data) := by
  rw [notices, newLines_eq, ← h.rbuf fd hfd, ← h.ids fd hfd]
  refine List.map_congr_left fun l hl => cString_clientLine _ fun h0 => ?_
  exact (List.mem_append.1 (subset_of_mem_lines hl h0)).elim (h.nulFree fd) hnul

theorem receive {data : Str} (h : Heard s) (hfd : s.Connected fd) (hnul : 0 ∉ data)
    (hspread : Spread (s.hears fd) ((lines lf ((s.rbuf fd).getD [] ++ cString data)).map fun l =>
      cString (clientLine (s.ids fd) l)) (s.log (.receive fd data)) s')
    (hrbuf : s'.rbuf = Function.update s.rbuf fd
      (some (rest lf ((s.rbuf fd).getD [] ++ cString data)))) : Heard s' := by
  have htrace : (s.log (.receive fd data)).trace = .receive fd data :: s.trace := rfl
  have hstream : ∀ g, stream g (s.log (.receive fd data)).trace =
      stream g s.trace ++ if fd = g then data else [] := fun _ => since_cons rfl _
  rw [cString_eq_self hnul, h.clientLines_eq hfd hnul] at hspread
  rw [cString_eq_self hnul] at hrbuf
  refine of_spread (s := s.log (.receive fd data)) hspread (fun g hconn => ?_) ?_
    (fun g hconn => ?_) (fun g => ?_) fun g hconn => ?_
  · rw [htrace, idOf]
    exact h.ids g hconn
  · rw [htrace, idsGiven, List.reverse_cons, List.flatMap_append]
    exact (List.append_nil _).trans h.given
  · rw [hrbuf, Function.update_apply, hstream]
    by_cases hg : g = fd
    · rw [if_pos hg, if_pos hg.symm, Option.getD_some, h.rbuf fd hfd, hg, ← rest_append]
    · rw [if_neg hg, if_neg (Ne.symm hg), List.append_nil]
      exact h.rbuf g hconn
  · rw [hrbuf, Function.update_apply]
    split_ifs
    · exact fun h0 => (List.mem_append.1 (rest_subset _ h0)).elim (h.nulFree fd) hnul
    · exact h.nulFree g
  · have happended : appended g (s.log (.receive fd data)).trace = appended g s.trace :=
      since_cons_silent rfl rfl _
    have htold : appended g s.trace = MiniServ.told g s.trace := h.told g hconn
    rw [happended, htrace, htold]
    by_cases hg : g = fd
    · rw [if_pos hg, List.append_nil, hg]
      exact told_cons_own fd s.trace rfl rfl
    · rw [if_neg hg]
      exact told_cons g s.trace rfl fun heq => hg (Option.some.inj heq).symm

end Heard

variable {k : Calls} {s s' : State} {fd : Nat}

theorem Reading.heard (h : Reading k fd s s') (hs : Sound s)
    (hfresh : ∀ c, k.accept = some c → s.active c = false) (hk : k.NulFree) (hh : Heard s) :
    Heard s' := by
  cases h with
  | idle => exact hh
  | arrive hsock hc hroom hspread hrbuf => exact hh.arrive hs (hfresh _ hc) hspread hrbuf
  | leave hconn hspread hrbuf => exact hh.leave hconn hspread hrbuf
  | receive hconn hdata hspread hrbuf =>
    refine hh.receive hconn (fun h0 => ?_) hspread hrbuf
    rw [hdata] at h0
    rcases hrecv : k.recv with _ | data
    · rw [hrecv] at h0
      cases h0
    · rw [hrecv] at h0
      exact hk data hrecv (List.mem_of_mem_take h0)

theorem Writing.heard (h : Writing fd s s') (hh : Heard s) : Heard s' := by
  cases h with
  | idle => exact hh
  | @flush s' buf n hactive hbuf hn hfront hrbuf hwbuf htrace =>
    obtain ⟨hsock, hact, -, hids, hnext⟩ := State.eq_of_front hfront
    have hquiet : Quiet [.send fd (buf.take n), .flush fd (some buf)] := by simp [Quiet, Event.client]
    have hconn : ∀ g, s'.Connected g → s.Connected g := fun g hg =>
      ⟨hact ▸ hg.1, hsock ▸ hg.2⟩
    change _ = [.send fd (buf.take n), .flush fd (some buf)] ++ s.trace at htrace
    refine ⟨fun g hg => ?_, ?_, fun g hg => ?_, hrbuf ▸ hh.nulFree, fun g hg => ?_⟩
    · rw [htrace, idOf_append _ _ hquiet, hids]
      exact hh.ids g (hconn g hg)
    · rw [htrace, idsGiven_append _ hquiet, hnext]
      exact hh.given
    · rw [htrace, stream_append _ _ hquiet, hrbuf]
      exact hh.rbuf g (hconn g hg)
    · rw [htrace, told_append _ _ hquiet, ← hh.told g (hconn g hg)]
      exact (since_cons_silent rfl rfl _).trans (since_cons_silent rfl rfl _)

section Runs

variable {heap : Nat → Bool} {sockfd : Nat} {m : Machine}

theorem Reachable.heard (h : Reachable heap sockfd Calls.NulFree m) : Heard m.state := by
  refine h.induction ⟨fun fd hconn => ?_, rfl, fun fd hconn => ?_, fun _ => List.not_mem_nil,
    fun fd hconn => ?_⟩ ?_ ?_
  · exact absurd (beq_iff_eq.1 hconn.1) hconn.2
  · exact absurd (beq_iff_eq.1 hconn.1) hconn.2
  · exact absurd (beq_iff_eq.1 hconn.1) hconn.2
  · exact fun k fd s s' hs hfresh hk hread hh => hread.heard hs hfresh hk hh
  · exact fun fd s s' _ hwrite hh => hwrite.heard hh

/-- Along every run in which the bytes that come have no NUL, the messages put behind what waits for
a client that is connected are the notices of what the others did since it was accepted, each once
and in order; the ids are given in order, each client is named by its own, and its lines are those
of all the bytes that it has sent, however they came. -/
theorem run_chat (h : Reachable heap sockfd Calls.NulFree m) :
    (∀ fd, m.state.Connected fd → appended fd m.state.trace = told fd m.state.trace) ∧
      (∃ n, idsGiven m.state.trace = List.range n) ∧
      (∀ fd, m.state.Connected fd → m.state.ids fd = idOf fd m.state.trace) ∧
      ∀ fd, spoken fd m.state.trace = lines lf (stream fd m.state.trace) :=
  ⟨h.heard.told, ⟨_, h.heard.given⟩, h.heard.ids, fun fd => spoken_eq fd m.state.trace⟩

/-- A client hears of another one, and of a line of that one which comes in two pieces. -/
theorem run_chat_pieces : ∃ m, Reachable (fun _ => true) 0 Calls.NulFree m ∧
    stream 2 m.state.trace = lit "hi\n" ∧ m.state.Connected 1 ∧
    appended 1 m.state.trace = [arrived 1, clientLine 1 (lit "hi\n")] := by
  have h : Reachable (fun _ => true) 0 Calls.NulFree _ := Reachable.start.play
    (show Machine.play _ _ [{ select := some (fun fd => fd == 0, fun _ => false) },
      { accept := some 1 }, {}, {}, { select := some (fun fd => fd == 0, fun _ => false) },
      { accept := some 2 }, {}, {}, {}, { select := some (fun fd => fd == 2, fun _ => false) },
      {}, {}, { recv := some (lit "h") }, {},
      { select := some (fun fd => fd == 2, fun _ => false) },
      {}, {}, { recv := some (lit "i\n") }] = some _ from rfl)
  exact ⟨_, h, rfl, ⟨rfl, by decide⟩, ((run_chat h).1 1 ⟨rfl, by decide⟩).trans rfl⟩

end Runs

end MiniServ

end Ircserv
