import Ircserv.Health
import Ircserv.Proofs.Numbers
import Ircserv.Proofs.Server
import Ircserv.Lib.Since

/-!
# Pings, and the tokens that answer them

A monitor waits for the token of the last ping to a descriptor, from the ping on until a call
settles it (`waitsFor_iff`). Tokens are told apart by the descriptor and the time they were made for
(`makePingToken_inj`), so no other ping's token settles it.
-/

open Std

namespace Ircserv

open ChannelCommandHandler

namespace ConnectionHealthMonitor

variable {m : ConnectionHealthMonitor} {fd : Fd} {t : Time}

theorem getElem?_modifyState (m : ConnectionHealthMonitor) (fd g : Fd) (now : Time)
    (f : HealthState → HealthState) : (m.modifyState fd now f).clients[g]? =
      if fd = g then some (f (m.clients[fd]?.getD { lastActivity := now })) else m.clients[g]? := by
  rw [modifyState, getOrCreateState, ExtTreeMap.getElem?_modify]
  simp only [ExtTreeMap.getElem?_insertIfNew, Std.compare_eq_iff_eq]
  by_cases hg : fd = g
  · subst hg
    by_cases hfd : fd ∈ m.clients
    · simp [hfd]
    · simp [hfd]
  · simp [hg]

/-- What holds of all states, and of a new one, holds after a write that keeps it. -/
theorem forall_modifyState {P : Fd → HealthState → Prop} {now : Time} {f : HealthState → HealthState}
    (h : ∀ g state, m.clients[g]? = some state → P g state) (hnew : P fd { lastActivity := now })
    (hf : ∀ state, P fd state → P fd (f state)) :
    ∀ g state, (m.modifyState fd now f).clients[g]? = some state → P g state := by
  intro g state hg
  rw [getElem?_modifyState] at hg
  split_ifs at hg with hfd
  · obtain rfl := hfd
    cases hg
    refine hf _ ?_
    cases hold : m.clients[fd]? with
    | none => exact hnew
    | some old => exact h fd old hold
  · exact h g state hg

theorem makePingToken_inj {fd g : Fd} {t u : Time} (h : makePingToken fd t = makePingToken g u) :
    fd = g ∧ t = u := by
  simp only [makePingToken, List.append_assoc] at h
  obtain ⟨hfd, htime⟩ := intToString_dash_inj (List.append_cancel_left h)
  refine ⟨hfd, (intToString_dash_inj (x := []) (y := []) ?_).1⟩
  exact congrArg (· ++ [chr '-']) htime

/-- A PONG is waited for, with the token of the ping that was sent at `t`. -/
def WaitsFor (m : ConnectionHealthMonitor) (fd : Fd) (t : Time) : Prop :=
  ∃ state, m.clients[fd]? = some state ∧ state.waitingForPong = true ∧ state.lastPingSentAt = t ∧
    state.expectedPongToken = makePingToken fd t

/-- Whenever a PONG is waited for, it is with the token of the last ping. -/
def TokensMatch (m : ConnectionHealthMonitor) : Prop :=
  ∀ fd state, m.clients[fd]? = some state → state.waitingForPong = true →
    state.expectedPongToken = makePingToken fd state.lastPingSentAt

theorem WaitsFor.time_unique {u : Time} (h : m.WaitsFor fd t) (hu : m.WaitsFor fd u) : t = u := by
  obtain ⟨state, hstate, -, ht, -⟩ := h
  obtain ⟨state', hstate', -, hu, -⟩ := hu
  obtain rfl := Option.some.inj (hstate.symm.trans hstate')
  exact ht.symm.trans hu

/-- What a call does to the wait of a descriptor: it begins one, or settles it, or leaves it. -/
theorem waitsFor_call (c : HealthCall) : (m.call c).WaitsFor fd t ↔
    c = .generatePing fd t ∨ m.WaitsFor fd t ∧ ¬ c.Settles fd t := by
  cases c with
  | updateActivity g now =>
    simp only [WaitsFor, call, updateActivity, getElem?_modifyState, HealthCall.Settles]
    by_cases hg : g = fd
    · subst hg
      cases m.clients[g]? <;> simp
    · simp [hg]
  | generatePing g now =>
    simp only [WaitsFor, call, generatePing, getElem?_modifyState, HealthCall.Settles,
      HealthCall.generatePing.injEq]
    by_cases hg : g = fd
    · subst hg
      simp only [if_true, Option.some.injEq, exists_eq_left', true_and, not_true_eq_false, and_false,
        or_false]
      refine ⟨fun h => h.1, fun h => ⟨h, by rw [h]⟩⟩
    · simp [hg]
  | markPongReceived g token now =>
    simp only [WaitsFor, call, markPongReceived, getElem?_modifyState, HealthCall.Settles]
    by_cases hg : g = fd
    · subst hg
      cases m.clients[g]? with
      | none => simp
      | some state =>
        simp only [if_true, Option.getD_some, Option.some.injEq, exists_eq_left', reduceCtorEq,
          true_and, false_or]
        by_cases hwait : (state.waitingForPong && token == state.expectedPongToken) = true
        · rw [if_pos hwait]
          rw [Bool.and_eq_true, beq_iff_eq] at hwait
          simp [hwait.1, ← hwait.2]
        · rw [if_neg hwait]
          rw [Bool.and_eq_true, beq_iff_eq, not_and] at hwait
          constructor
          · rintro ⟨hw, ht, hexpected⟩
            exact ⟨⟨hw, ht, hexpected⟩, hexpected ▸ hwait hw⟩
          · exact fun h => h.1
    · simp [hg]
  | removeClient g =>
    simp only [WaitsFor, call, removeClient, ExtTreeMap.getElem?_erase, HealthCall.Settles,
      Std.compare_eq_iff_eq]
    by_cases hg : g = fd
    · simp [hg]
    · simp [hg]

/-- A history is waiting for what its last ping asked for, until that is settled. -/
theorem waitsFor_iff (timeout : Time) (history : List HealthCall) :
    (calls timeout history).WaitsFor fd t ↔ Awaited history fd t := by
  have hstart : ¬ WaitsFor { timeoutSeconds := timeout } fd t := by
    rintro ⟨state, hstate, -⟩
    simp at hstate
  have hsince : (calls timeout history).WaitsFor fd t ↔
      Runs.Since call (fun _ c => c = .generatePing fd t) (fun _ c => ¬ c.Settles fd t) _ history :=
    Runs.iff_since (fun m => WaitsFor m fd t) hstart history fun before c after _ => waitsFor_call c
  rw [hsince]
  constructor
  · rintro ⟨before, c, after, rfl, rfl, hkeep⟩
    refine ⟨before, after, rfl, fun c hc => ?_⟩
    obtain ⟨kept, rest, rfl⟩ := List.append_of_mem hc
    exact hkeep kept c rest rfl
  · rintro ⟨before, after, rfl, hkeep⟩
    refine ⟨before, _, after, rfl, rfl, fun kept c rest hafter => ?_⟩
    exact hkeep c (by simp [hafter])

theorem TokensMatch.call (h : m.TokensMatch) (c : HealthCall) : (m.call c).TokensMatch := by
  cases c with
  | updateActivity fd now => exact forall_modifyState h (by rintro ⟨⟩) fun _ hstate => hstate
  | generatePing fd now => exact forall_modifyState h (by rintro ⟨⟩) fun _ _ _ => rfl
  | markPongReceived fd token now =>
    refine forall_modifyState h (by rintro ⟨⟩) fun state hstate => ?_
    dsimp only
    split_ifs
    · rintro ⟨⟩
    · exact hstate
  | removeClient fd =>
    intro g state hg
    rw [ConnectionHealthMonitor.call, removeClient, ExtTreeMap.getElem?_erase] at hg
    split_ifs at hg
    exact h g state hg

theorem tokensMatch_calls (timeout : Time) (history : List HealthCall) :
    (calls timeout history).TokensMatch := by
  induction history using List.reverseRecOn with
  | nil =>
    intro fd state hstate
    simp [calls] at hstate
  | append_singleton history c ih =>
    rw [calls, List.foldl_append]
    exact ih.call c

@[simp] theorem timeoutSeconds_call (c : HealthCall) :
    (m.call c).timeoutSeconds = m.timeoutSeconds := by
  cases c <;> rfl

@[simp] theorem timeoutSeconds_calls (timeout : Time) (history : List HealthCall) :
    (calls timeout history).timeoutSeconds = timeout := by
  induction history using List.reverseRecOn with
  | nil => rfl
  | append_singleton history c ih =>
    rw [calls, List.foldl_append]
    exact (timeoutSeconds_call c).trans ih

theorem TokensMatch.hasTimedOut (h : m.TokensMatch) {now : Time} :
    m.hasTimedOut fd now = true ↔ ∃ t, m.WaitsFor fd t ∧ m.timeoutSeconds < now - t := by
  unfold ConnectionHealthMonitor.hasTimedOut
  split
  · rename_i hstate
    simp [WaitsFor, hstate]
  · rename_i state hstate
    split_ifs with hwait
    · rw [Bool.not_eq_true'] at hwait
      simp [WaitsFor, hstate, hwait]
    · rw [Bool.not_eq_true', Bool.not_eq_false] at hwait
      have hnow : m.WaitsFor fd state.lastPingSentAt :=
        ⟨state, hstate, hwait, rfl, h fd state hstate hwait⟩
      rw [decide_eq_true_iff]
      constructor
      · exact fun hlate => ⟨_, hnow, hlate⟩
      · rintro ⟨t, ht, hlate⟩
        rwa [hnow.time_unique ht]

theorem WaitsFor.isWaitingForPong (h : m.WaitsFor fd t) : m.isWaitingForPong fd = true := by
  obtain ⟨state, hstate, hwait, -⟩ := h
  rw [ConnectionHealthMonitor.isWaitingForPong, hstate]
  exact hwait

/-- A wait outlasts the token of any other ping, whoever sends it. -/
theorem WaitsFor.markPongReceived {g : Fd} {u : Time} (h : m.WaitsFor fd t) (hother : fd ≠ g ∨ t ≠ u)
    (sender : Fd) (now : Time) :
    (m.markPongReceived sender (makePingToken g u) now).WaitsFor fd t := by
  refine (waitsFor_call (.markPongReceived sender (makePingToken g u) now)).2 (.inr ⟨h, ?_⟩)
  rintro ⟨-, htoken⟩
  obtain ⟨hg, hu⟩ := makePingToken_inj htoken
  exact hother.elim (fun hne => hne hg.symm) fun hne => hne hu.symm

end ConnectionHealthMonitor

open ConnectionHealthMonitor

/-- The only call that a command makes on the monitor is that of a PONG, with its last parameter. -/
theorem CommandDispatcher.dispatchWith_monitor (addr : Addr) (now : Time) (fd : Fd) (msg : Message)
    (s : ServerState) (m : ConnectionHealthMonitor) :
    (dispatchWith addr now fd msg s (some m)).2.2 = some m ∨
      (dispatchWith addr now fd msg s (some m)).2.2 =
        some (m.markPongReceived fd (msg.getSingleParam (msg.getParamCount - 1)) now) := by
  cases hp : s.client.fdToClient[fd]? with
  | none => exact .inl (by rw [dispatchWith_unknown addr now msg (some m) hp])
  | some p =>
    rw [dispatchWith_health hp]
    split_ifs
    · unfold handlePong
      split_ifs
      · exact .inl rfl
      · exact .inr rfl
    · exact .inl rfl

/-- After any history, a client has timed out exactly when its last ping is awaited for longer than
the timeout, and these clients are listed, each once. No token but that ping's ends the wait,
neither by a call nor by a command, as tokens differ for every two descriptors and every two
times. -/
theorem calls_pings (timeout : Time) (history : List HealthCall) (now : Time) :
    let m := calls timeout history
    (∀ fd, m.hasTimedOut fd now = true ↔ ∃ t, Awaited history fd t ∧ timeout < now - t) ∧
    (m.collectTimedOutClients now).Nodup ∧
    (∀ fd, fd ∈ m.collectTimedOutClients now ↔ ∃ t, Awaited history fd t ∧ timeout < now - t) ∧
    (∀ fd g t u, makePingToken fd t = makePingToken g u ↔ fd = g ∧ t = u) ∧
    ∀ fd g t u, Awaited history fd t → fd ≠ g ∨ t ≠ u →
      (∀ sender, (m.markPongReceived sender (makePingToken g u) now).isWaitingForPong fd = true) ∧
      ∀ addr sender msg s, msg.getSingleParam (msg.getParamCount - 1) = makePingToken g u →
        ∃ m', (CommandDispatcher.dispatchWith addr now sender msg s (some m)).2.2 = some m' ∧
          m'.isWaitingForPong fd = true := by
  intro m
  have htimedOut : ∀ fd, m.hasTimedOut fd now = true ↔ ∃ t, Awaited history fd t ∧ timeout < now - t := by
    intro fd
    simp only [m, (tokensMatch_calls timeout history).hasTimedOut, waitsFor_iff, timeoutSeconds_calls]
  refine ⟨htimedOut, ExtTreeMap.nodup_keys.filter _, fun fd => ?_, fun fd g t u => ?_, ?_⟩
  · rw [← htimedOut, collectTimedOutClients, List.mem_filter, ExtTreeMap.mem_keys]
    refine and_iff_right_of_imp fun h => ?_
    obtain ⟨t, ⟨state, hstate, -⟩, -⟩ := (tokensMatch_calls timeout history).hasTimedOut.1 h
    exact ExtTreeMap.mem_iff_isSome_getElem?.2 (by rw [hstate]; rfl)
  · constructor
    · exact makePingToken_inj
    · rintro ⟨rfl, rfl⟩
      rfl
  · intro fd g t u hawaited hother
    have hwait : m.WaitsFor fd t := (waitsFor_iff timeout history).2 hawaited
    have hpong := fun sender => (hwait.markPongReceived hother sender now).isWaitingForPong
    refine ⟨hpong, fun addr sender msg s htoken => ?_⟩
    rcases CommandDispatcher.dispatchWith_monitor addr now sender msg s m with h | h
    · exact ⟨m, h, hwait.isWaitingForPong⟩
    · rw [htoken] at h
      exact ⟨_, h, hpong sender⟩

end Ircserv
