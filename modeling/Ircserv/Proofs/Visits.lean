import Ircserv.Proofs.SendAll

/-!
# What a visit to a descriptor does

A client arrives, leaves or sends something (`Reading`), and some of what waits for it is sent
(`Writing`).
-/

namespace Ircserv

namespace MiniServ

open Halting History Framing

/-- What the first half of a visit to `fd` can do. -/
inductive Reading (k : Calls) (fd : Nat) (s : State) : State → Prop
  | idle : Reading k fd s s
  | arrive {s' : State} {c : Nat} (hsock : fd = s.sockfd) (hc : k.accept = some c)
      (hroom : c < FD_SETSIZE)
      (hspread : Spread ((s.enter c).hears c) [cString (arrived s.nextId)] (s.enter c) s')
      (hrbuf : s'.rbuf = s.rbuf) : Reading k fd s s'
  | leave {s' : State} (hconn : s.Connected fd)
      (hspread : Spread ((s.dismiss fd).hears fd) [cString (left (s.ids fd))] (s.dismiss fd) s')
      (hrbuf : s'.rbuf = Function.update s.rbuf fd none) : Reading k fd s s'
  | receive {s' : State} {data : Str} (hconn : s.Connected fd)
      (hdata : data = (k.recv.getD []).take 4096)
      (hspread : Spread (s.hears fd)
        ((lines lf ((s.rbuf fd).getD [] ++ cString data)).map fun l =>
          cString (clientLine (s.ids fd) l)) (s.log (.receive fd data)) s')
      (hrbuf : s'.rbuf = Function.update s.rbuf fd
        (some (rest lf ((s.rbuf fd).getD [] ++ cString data)))) : Reading k fd s s'

/-- What is left of a buffer when `n` bytes of it were sent. -/
def leftOver (buf : Str) (n : Nat) : Option Str :=
  if n = 0 then some buf else if n = buf.length then none else some (buf.drop n)

/-- What the second half can do. -/
inductive Writing (fd : Nat) (s : State) : State → Prop
  | idle : Writing fd s s
  | flush {s' : State} {buf : Str} {n : Nat} (hactive : s.active fd = true)
      (hbuf : s.wbuf fd = some buf) (hn : n ≤ buf.length) (hfront : s'.front = s.front)
      (hrbuf : s'.rbuf = s.rbuf) (hwbuf : s'.wbuf = Function.update s.wbuf fd (leftOver buf n))
      (htrace : s'.trace = .send fd (buf.take n) :: .flush fd (some buf) :: s.trace) :
      Writing fd s s'

namespace State

variable (s : State) (fd g : Nat)

theorem active_enter : (s.enter fd).active g = if g = fd then true else s.active g :=
  Function.update_apply _ _ _ _

theorem active_dismiss : (s.dismiss fd).active g = if g = fd then false else s.active g :=
  Function.update_apply _ _ _ _

variable {s}

theorem Bounded.enter (h : s.Bounded) : (s.enter fd).Bounded := by
  intro g hg
  rw [active_enter] at hg
  split_ifs at hg with hfd
  · rw [hfd]
    exact le_max_right _ _
  · exact (h g hg).trans (le_max_left _ _)

theorem Bounded.dismiss (h : s.Bounded) : (s.dismiss fd).Bounded := by
  intro g hg
  rw [active_dismiss] at hg
  split_ifs at hg
  exact h g hg

end State

variable {heap : Nat → Bool} {k : Calls} {rfds wfds : FdSet} {s s' : State} {fd : Nat}

theorem acceptClient_ok (hbounded : s.Bounded) (hsock : fd = s.sockfd)
    (h : s.acceptClient heap k = .ok s') : Reading k fd s s' := by
  rw [State.acceptClient] at h
  split at h
  · cases h
    exact .idle
  · rename_i c hc
    obtain ⟨_, -, h⟩ := bind_eq_ok.1 h
    split_ifs at h with hroom
    · obtain ⟨hspread, hrbuf⟩ := sendAll_ok (hbounded.enter c) h
      have hid : (s.enter c).ids c = s.nextId := Function.update_self _ _ _
      rw [hid] at hspread
      exact .arrive hsock hc hroom hspread hrbuf
    · cases h

theorem handleClient_ok (hbounded : s.Bounded) (hconn : s.Connected fd)
    (h : s.handleClient heap k fd = .ok s') : Reading k fd s s' := by
  rw [State.handleClient] at h
  split at h
  · obtain ⟨hspread, hrbuf⟩ := sendAll_ok (hbounded.dismiss fd) h
    exact .leave hconn hspread hrbuf
  · obtain ⟨⟨b, s₁⟩, hjoin, hnext⟩ := bind_eq_ok.1 h
    obtain ⟨hb, n, rfl⟩ := strJoin_ok hjoin
    rcases hb with rfl | rfl
    · cases hnext
    · rw [join] at hnext
      dsimp only at hnext
      obtain ⟨hspread, hrbuf⟩ := extractAll_ok (by exact Function.update_self _ _ _)
        (Nat.lt_succ_self _) (by exact hbounded) hnext
      refine .receive hconn rfl ⟨hspread.front, hspread.wbuf, hspread.trace⟩ (hrbuf.trans ?_)
      exact Function.update_idem _ _ _

theorem flushClient_ok (hactive : s.active fd = true) (h : s.flushClient heap k fd = .ok s') :
    Writing fd s s' := by
  rcases hbuf : s.wbuf fd with _ | buf
  · simp only [State.flushClient, State.log, hbuf] at h
    cases h
  · simp only [State.flushClient, State.log, hbuf] at h
    obtain ⟨len, hlen, hnext⟩ := bind_eq_ok.1 h
    obtain rfl := int_ok hlen
    have hflush := fun t =>
      @Writing.flush fd s t buf _ hactive hbuf (min_le_right k.send buf.length)
    rw [leftOver] at hflush
    by_cases hzero : min k.send buf.length = 0
    · rw [if_pos hzero] at hnext hflush
      cases hnext
      refine hflush _ rfl rfl ?_ rfl
      rw [← hbuf, Function.update_eq_self]
    rw [if_neg hzero] at hnext hflush
    by_cases hall : min k.send buf.length = buf.length
    · rw [if_pos hall] at hnext hflush
      cases hnext
      exact hflush _ rfl rfl rfl rfl
    · rw [if_neg hall] at hnext hflush
      by_cases hheap : heap s.allocs = true
      · rw [if_pos (by exact hheap)] at hnext
        cases hnext
        exact hflush _ rfl rfl rfl rfl
      · rw [if_neg (by exact hheap)] at hnext
        cases hnext

theorem visitRead_ok (hbounded : s.Bounded) (hactive : rfds fd = true → s.active fd = true)
    (h : s.visitRead heap k rfds fd = .ok s') : Reading k fd s s' := by
  rw [State.visitRead] at h
  split_ifs at h with hfd hsock
  · exact acceptClient_ok hbounded hsock h
  · exact handleClient_ok hbounded ⟨hactive hfd, hsock⟩ h
  · cases h
    exact .idle

theorem visitWrite_ok (h : s.visitWrite heap k wfds fd = .ok s') : Writing fd s s' := by
  rw [State.visitWrite] at h
  split_ifs at h with hfd
  · exact flushClient_ok hfd.2 h
  · cases h
    exact .idle

/-- A visit goes through both halves. -/
theorem visit_ok (hbounded : s.Bounded) (hactive : rfds fd = true → s.active fd = true)
    (h : s.visit heap k rfds wfds fd = .ok s') :
    ∃ s₁, Reading k fd s s₁ ∧ Writing fd s₁ s' := by
  obtain ⟨s₁, hread, hwrite⟩ := bind_eq_ok.1 h
  exact ⟨s₁, visitRead_ok hbounded hactive hread, visitWrite_ok hwrite⟩

end MiniServ

end Ircserv
