import Ircserv.Chat

/-!
# What `send_all` does

It puts a message behind what waits for every client but one, and leaves everything else (`Spread`).
So do several calls one after the other, as for the lines that came with one `recv`.
-/

namespace Ircserv

namespace MiniServ

open Halting History Framing

namespace State

variable (s : State) (fd : Nat) (buf : Option Str) (event : Event)

/-- The globals but for the buffers. -/
def front : State := { s with rbuf := fun _ => none, wbuf := fun _ => none, allocs := 0, trace := [] }

@[simp]
theorem wbuf_log : (s.log event).wbuf = s.wbuf := rfl

/-- The clients that hear of something that one of them does. -/
def hears (except : Nat) : FdSet := fun fd => s.active fd && fd != except && fd != s.sockfd

/-- No descriptor in use is beyond `g_maxfd`. -/
def Bounded : Prop := ∀ fd, s.active fd = true → fd ≤ s.maxfd

variable {s} {fd}

theorem eq_of_front {s' : State} (h : s'.front = s.front) : s'.sockfd = s.sockfd ∧
    s'.active = s.active ∧ s'.maxfd = s.maxfd ∧ s'.ids = s.ids ∧ s'.nextId = s.nextId := by
  simpa [front] using h

theorem hears_eq_true {except : Nat} :
    s.hears except fd = true ↔ s.active fd = true ∧ fd ≠ except ∧ fd ≠ s.sockfd := by
  simp [hears, and_assoc]

end State

/-- A message is put behind what waits. -/
def join (buf : Option Str) (msg : Str) : Option Str := some (buf.getD [] ++ msg)

/-- The messages were put behind what waits for the clients `whom`, in this order. -/
structure Spread (whom : FdSet) (msgs : List Str) (s s' : State) : Prop where
  front : s'.front = s.front
  wbuf : ∀ fd, s'.wbuf fd = if whom fd then msgs.foldl join (s.wbuf fd) else s.wbuf fd
  trace : ∃ new, s'.trace = new ++ s.trace ∧ (∀ event ∈ new, ∃ fd msg, event = .append fd msg) ∧
    ∀ fd, new.reverse.flatMap (Event.appendOf fd) = if whom fd then msgs else []

namespace Spread

variable {whom whom' : FdSet} {msgs msgs' : List Str} {s s' s'' : State}

theorem refl (whom : FdSet) (s : State) : Spread whom [] s s where
  front := rfl
  wbuf := fun _ => (ite_self _).symm
  trace := ⟨[], rfl, nofun, fun _ => (ite_self _).symm⟩

/-- Nobody is told. -/
theorem nobody (msgs : List Str) (s : State) : Spread (fun _ => false) msgs s s :=
  ⟨rfl, fun _ => rfl, [], rfl, nofun, fun _ => rfl⟩

/-- First these messages, then those. -/
theorem trans (h : Spread whom msgs s s') (h' : Spread whom msgs' s' s'') :
    Spread whom (msgs ++ msgs') s s'' where
  front := h'.front.trans h.front
  wbuf := fun fd => by
    rw [h'.wbuf, h.wbuf]
    split_ifs
    · rw [List.foldl_append]
    · rfl
  trace := by
    obtain ⟨new, htrace, happend, hnew⟩ := h.trace
    obtain ⟨new', htrace', happend', hnew'⟩ := h'.trace
    refine ⟨new' ++ new, by rw [htrace', htrace, List.append_assoc], fun event hevent => ?_,
      fun fd => ?_⟩
    · exact (List.mem_append.1 hevent).elim (happend' event) (happend event)
    · rw [List.reverse_append, List.flatMap_append, hnew, hnew']
      split_ifs <;> rfl

/-- First these clients, then those. -/
theorem union (h : Spread whom msgs s s') (h' : Spread whom' msgs s' s'')
    (hdisjoint : ∀ fd, whom fd = true → whom' fd = false) :
    Spread (fun fd => whom fd || whom' fd) msgs s s'' where
  front := h'.front.trans h.front
  wbuf := fun fd => by
    rw [h'.wbuf, h.wbuf]
    have hfd := hdisjoint fd
    rcases hwhom : whom fd <;> simp_all
  trace := by
    obtain ⟨new, htrace, happend, hnew⟩ := h.trace
    obtain ⟨new', htrace', happend', hnew'⟩ := h'.trace
    refine ⟨new' ++ new, by rw [htrace', htrace, List.append_assoc], fun event hevent => ?_,
      fun fd => ?_⟩
    · exact (List.mem_append.1 hevent).elim (happend' event) (happend event)
    · rw [List.reverse_append, List.flatMap_append, hnew, hnew']
      have hfd := hdisjoint fd
      rcases hwhom : whom fd <;> simp_all

theorem congr (h : Spread whom msgs s s') (heq : whom' = whom) : Spread whom' msgs s s' := heq ▸ h

/-- Only what was put behind what waits is new. -/
theorem since_eq {β : Type} {tells : Event → List β} (fd : Nat)
    (htells : ∀ g msg, tells (.append g msg) = []) (h : Spread whom msgs s s') :
    since (Event.isAccept fd) tells s'.trace = since (Event.isAccept fd) tells s.trace := by
  obtain ⟨new, htrace, happend, -⟩ := h.trace
  rw [htrace]
  refine since_append_silent (fun event hevent => ?_) (fun event hevent => ?_) _
  · obtain ⟨g, msg, rfl⟩ := happend event hevent
    rfl
  · obtain ⟨g, msg, rfl⟩ := happend event hevent
    exact htells g msg

theorem appended_eq (fd : Nat) (h : Spread whom msgs s s') :
    appended fd s'.trace = appended fd s.trace ++ if whom fd then msgs else [] := by
  obtain ⟨new, htrace, happend, hnew⟩ := h.trace
  rw [htrace, ← hnew]
  refine since_append (fun event hevent => ?_) _
  obtain ⟨g, msg, rfl⟩ := happend event hevent
  rfl

end Spread

section Calls

variable {heap : Nat → Bool} {s s' : State} {except fd n : Nat} {msg add : Str} {buf b : Option Str}

theorem int_ok {m : Nat} (h : s.int n = .ok m) : m = n := by
  rw [State.int] at h
  split_ifs at h
  · exact (Except.ok.inj h).symm
  · cases h

theorem strJoin_ok (h : s.strJoin heap buf add = .ok (b, s')) :
    (b = none ∨ b = join buf (cString add)) ∧ ∃ n, s' = { s with allocs := n } := by
  obtain ⟨_, -, h⟩ := bind_eq_ok.1 h
  cases h
  refine ⟨?_, _, rfl⟩
  split_ifs
  · exact .inr rfl
  · exact .inl rfl

theorem hears_of_front (h : s'.front = s.front) : s'.hears = s.hears := by
  obtain ⟨hsock, hactive, -⟩ := State.eq_of_front h
  funext except fd
  rw [State.hears, State.hears, hsock, hactive]

theorem sendTo_ok (h : s.sendTo heap except msg fd = .ok s') :
    Spread (fun g => g == fd && s.hears except g) [cString msg] s s' ∧ s'.rbuf = s.rbuf := by
  rw [State.sendTo] at h
  split_ifs at h with hto
  · obtain ⟨⟨b, s₁⟩, hjoin, h⟩ := bind_eq_ok.1 h
    obtain ⟨hb, n, rfl⟩ := strJoin_ok hjoin
    have hhears : s.hears except fd = true := State.hears_eq_true.2 hto
    rcases hb with rfl | rfl
    · cases h
    cases h
    refine ⟨⟨rfl, fun g => ?_, [.append fd (cString msg)], rfl, ?_, fun g => ?_⟩, rfl⟩
    · by_cases hg : g = fd
      · subst hg
        rw [beq_self_eq_true, hhears]
        exact Function.update_self _ _ _
      · rw [beq_false_of_ne hg]
        exact Function.update_of_ne hg _ _
    · exact fun event hevent => ⟨fd, cString msg, List.mem_singleton.1 hevent⟩
    · by_cases hg : g = fd
      · subst hg
        rw [beq_self_eq_true, hhears]
        simp [Event.appendOf]
      · rw [beq_false_of_ne hg]
        simp [Event.appendOf, Ne.symm hg]
  · cases h
    have hhears : s.hears except fd = false := by
      rw [Bool.eq_false_iff, ne_eq, State.hears_eq_true]
      exact hto
    refine ⟨(Spread.nobody _ s).congr (funext fun g => ?_), rfl⟩
    by_cases hg : g = fd
    · rw [hg, hhears, Bool.and_false]
    · rw [beq_false_of_ne hg, Bool.false_and]

theorem foldlM_sendTo_ok : ∀ {l : List Nat} {s : State}, l.Nodup →
    l.foldlM (State.sendTo heap except msg) s = .ok s' →
      Spread (fun g => l.contains g && s.hears except g) [cString msg] s s' ∧ s'.rbuf = s.rbuf
  | [], _, _, h => by
    cases h
    exact ⟨Spread.nobody _ _, rfl⟩
  | fd :: l, s, hnodup, h => by
    rw [List.foldlM_cons] at h
    obtain ⟨s₁, h₁, h⟩ := bind_eq_ok.1 h
    rw [List.nodup_cons] at hnodup
    obtain ⟨hspread, hrbuf⟩ := sendTo_ok h₁
    obtain ⟨hspread', hrbuf'⟩ := foldlM_sendTo_ok hnodup.2 h
    rw [hears_of_front hspread.front] at hspread'
    refine ⟨(hspread.union hspread' fun g hg => ?_).congr (funext fun g => ?_), hrbuf'.trans hrbuf⟩
    · rw [Bool.and_eq_true, beq_iff_eq] at hg
      simp [hg.1, hnodup.1]
    · rw [List.contains_cons, Bool.and_or_distrib_right]

/-- The message is put behind what waits for every client but one. -/
theorem sendAll_ok (hbounded : s.Bounded) (h : s.sendAll heap except msg = .ok s') :
    Spread (s.hears except) [cString msg] s s' ∧ s'.rbuf = s.rbuf := by
  obtain ⟨hspread, hrbuf⟩ := foldlM_sendTo_ok List.nodup_range h
  refine ⟨hspread.congr (funext fun fd => ?_), hrbuf⟩
  rcases hhears : s.hears except fd
  · rw [Bool.and_false]
  · have hle := hbounded fd (State.hears_eq_true.1 hhears).1
    simpa using Nat.lt_succ_of_le hle

/-- The first line is taken off the buffer, if there is one. -/
theorem extractMessage_ok {x : Extracted} {text : Str}
    (h : s.extractMessage heap (some text) = .ok (x, s')) :
    (x = .nothing ∧ lf ∉ text ∧ s' = s) ∨ x = .failed ∨ ∃ l t n, text = l ++ lf :: t ∧ lf ∉ l ∧
      x = .message (l ++ [lf]) t ∧ s' = { s with allocs := n } := by
  obtain ⟨i, hi, h⟩ := bind_eq_ok.1 h
  obtain rfl := int_ok hi
  by_cases hmem : lf ∈ text
  · obtain ⟨l, t, rfl, hl⟩ := List.eq_append_cons_of_mem hmem
    have htake : (l ++ lf :: t).takeWhile (· ≠ lf) = l := by
      rw [List.takeWhile_append_of_pos fun c hc => decide_eq_true (ne_of_mem_of_not_mem hc hl)]
      simp
    rw [htake, if_pos (by simp)] at h
    cases h
    rcases hheap : heap s.allocs
    · exact .inr (.inl rfl)
    · refine .inr (.inr ⟨l, t, _, rfl, hl, ?_, rfl⟩)
      have hline : (l ++ lf :: t).take (l.length + 1) = l ++ [lf] := by
        rw [List.take_length_add_append]
        rfl
      have hbuf : (l ++ lf :: t).drop (l.length + 1) = t := by
        rw [List.drop_length_add_append]
        rfl
      rw [if_pos rfl, hline, hbuf]
  · have htake : text.takeWhile (· ≠ lf) = text := by
      rw [List.takeWhile_eq_self_iff]
      exact fun c hc => decide_eq_true (ne_of_mem_of_not_mem hc hmem)
    rw [htake, if_neg (Nat.lt_irrefl _)] at h
    cases h
    exact .inl ⟨rfl, hmem, rfl⟩

/-- All lines are taken off the buffer, and the others are told each. -/
theorem extractAll_ok : ∀ {fuel : Nat} {s : State} {text : Str}, s.rbuf fd = some text →
    text.length < fuel → s.Bounded → State.extractAll heap fd fuel s = .ok s' →
    Spread (s.hears fd) ((lines lf text).map fun l => cString (clientLine (s.ids fd) l)) s s' ∧
      s'.rbuf = Function.update s.rbuf fd (some (rest lf text))
  | 0, _, _, _, hfuel, _, _ => absurd hfuel (Nat.not_lt_zero _)
  | fuel + 1, s, text, hbuf, hfuel, hbounded, h => by
    obtain ⟨⟨x, s₁⟩, hx, hnext⟩ := bind_eq_ok.1 h
    rw [hbuf] at hx
    rcases extractMessage_ok hx with ⟨rfl, hfree, rfl⟩ | rfl | ⟨l, t, n, rfl, hl, rfl, rfl⟩
    · cases hnext
      rw [lines_of_not_mem hfree, rest_of_not_mem hfree, ← hbuf, Function.update_eq_self]
      exact ⟨.refl _ _, rfl⟩
    · cases hnext
    · set s₂ : State := { s.setRbuf fd (some t) with allocs := n + 1 } with hs₂
      dsimp only [State.malloc] at hnext
      split_ifs at hnext
      · obtain ⟨_, -, hnext⟩ := bind_eq_ok.1 hnext
        obtain ⟨s₃, hsend, hnext⟩ := bind_eq_ok.1 hnext
        obtain ⟨hspread, hrbuf⟩ := sendAll_ok (s := s₂) hbounded hsend
        obtain ⟨-, hactive, hmaxfd, hids, -⟩ := State.eq_of_front hspread.front
        have hbounded₃ : s₃.Bounded := by
          rw [State.Bounded, hactive, hmaxfd]
          exact hbounded
        have hbuf₃ : s₃.rbuf fd = some t := by
          rw [hrbuf]
          exact Function.update_self _ _ _
        rw [List.length_append, List.length_cons] at hfuel
        obtain ⟨hspread', hrbuf'⟩ := extractAll_ok hbuf₃ (by omega) hbounded₃ hnext
        rw [hears_of_front hspread.front, hids] at hspread'
        rw [lines_line hl, rest_line]
        refine ⟨?_, ?_⟩
        · -- what the buffers hold that are read does not matter to the others
          have hfrom : Spread (s.hears fd) [cString (clientLine (s.ids fd) (l ++ [lf]))] s s₃ :=
            ⟨hspread.front, hspread.wbuf, hspread.trace⟩
          exact hfrom.trans hspread'
        · rw [hrbuf', hrbuf]
          exact Function.update_idem _ _ _
      · cases hnext

end Calls

end MiniServ

end Ircserv
