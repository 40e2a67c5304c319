import Ircserv.Turns
import Ircserv.Proofs.Numerics
import Mathlib.Data.List.Induction

/-!
# Runs with their replies, turn by turn
-/

open Std

namespace Ircserv

open ServerState

variable {s : ServerState} {p q : Addr} {fd : Fd} {addr : Addr} {host : Str} {t : Turn}
  {turns during : List Turn}

namespace ServerState

theorem play_eq_run (password : Str) (turns : List Turn) :
    play { password := password } turns = run password (turns.map Turn.action) := by
  rw [run, List.foldl_map, play]

theorem play_append (s : ServerState) (before after : List Turn) :
    s.play (before ++ after) = (s.play before).play after := by
  rw [play, List.foldl_append]
  rfl

theorem traffic_append (before after : List Turn) : ∀ s : ServerState,
    s.traffic (before ++ after) = s.traffic before ++ (s.play before).traffic after := by
  induction before with
  | nil => exact fun _ => rfl
  | cons t before ih =>
    intro s
    rw [List.cons_append, traffic, ih, traffic, List.append_assoc]
    rfl

end ServerState

theorem WellFormed.play (h : WellFormed s) (turns : List Turn) : WellFormed (s.play turns) :=
  List.foldlRecOn (motive := WellFormed) _ _ h fun _ h t _ => h.act t.action

theorem Registration.play (h : Registration s) (hw : WellFormed s) (turns : List Turn) :
    Registration (s.play turns) := by
  have hall : WellFormed (s.play turns) ∧ Registration (s.play turns) :=
    List.foldlRecOn (motive := fun s => WellFormed s ∧ Registration s) _ _ ⟨hw, h⟩
      fun _ ⟨hw, h⟩ t _ => ⟨hw.act t.action, h.act hw t.action⟩
  exact hall.2

section Password

theorem removeChannelIfEmpty_password (s : ServerState) (name : Str) :
    (s.removeChannelIfEmpty name).password = s.password := by
  unfold removeChannelIfEmpty
  split
  · rfl
  · split_ifs <;> rfl

theorem addClientToChannel_password (s : ServerState) (addr p : Addr) (name : Str) :
    (s.addClientToChannel addr p name).2.password = s.password := by
  rcases s.addClientToChannel_cases addr p name with ⟨a, -, -, hs⟩ | ⟨a, s₁, s₂, hc, -, rfl, hs⟩
  · rw [hs]
  · have hs₁ : s₁.password = s.password := by
      unfold getOrCreateChannel at hc
      split at hc <;> cases hc <;> rfl
    rw [hs]
    dsimp only
    split_ifs <;> exact hs₁

theorem removeClient_password (s : ServerState) (fd : Fd) :
    (s.removeClient fd).password = s.password := by
  unfold removeClient removeClientFromAllInvites
  split
  · rfl
  · refine List.foldlRecOn (motive := fun s' : ServerState => s'.password = s.password) _ _ ?_
      fun _ h _ _ => h
    exact List.foldlRecOn (motive := fun s' : ServerState => s'.password = s.password) _ _ rfl
      fun _ h _ _ => (removeChannelIfEmpty_password _ _).trans h

theorem Outcome.password {addr : Addr} {fd : Fd} {msg : Message} {s s' : ServerState} {p : Addr}
    {r : CommandResult} (ho : Outcome addr fd msg s p r s') : s'.password = s.password := by
  have enrolls : ∀ s₁ : ServerState,
      (CommandDispatcher.maybeRegister p {} s₁).2.password = s₁.password := by
    intro s₁
    rcases maybeRegister_cases p {} s₁ with hs | hs <;> rw [hs]
    rfl
  have leaves : ∀ q name, (s.removeClientFromChannel q name).password = s.password := by
    intro q name
    unfold removeClientFromChannel
    split
    · rfl
    · split_ifs
      · rfl
      · exact removeChannelIfEmpty_password _ _
  cases ho with
  | silent | refused | answered | quit | textChannel | textNick | pass | invite => rfl
  | @nick s₁ _ _ _ hs' =>
    rw [enrolls]
    rcases s.updateNick_cases p (msg.getSingleParam 0) with ⟨-, hs⟩ | ⟨_, -, -, hs⟩ | ⟨-, -, hs⟩
    all_goals
      rw [hs] at hs'
      cases hs'
    · rfl
    · rfl
  | user _ _ _ _ hs' => rw [enrolls, hs']; rfl
  | join _ _ _ _ hs' =>
    have h := addClientToChannel_password s addr p (msg.getSingleParam 0)
    rwa [hs'] at h
  | part | kick => exact leaves _ _
  | topic _ _ _ _ _ _ hs' | mode _ _ _ _ _ _ _ hs' | oper _ _ _ _ _ _ _ _ hs' =>
    rw [hs']
    rfl

/-- The password never changes. -/
theorem act_password (s : ServerState) (action : Action) : (s.act action).password = s.password := by
  rcases s.act_cases action with ⟨hs, -⟩ | ⟨addr, fd, host, rfl, -⟩ | ⟨fd, p, rfl, -⟩ |
    ⟨addr, now, fd, msg, monitor, p, rfl, -, ho⟩
  · rw [hs]
  · rfl
  · exact removeClient_password s fd
  · exact ho.password

theorem play_password (s : ServerState) (turns : List Turn) :
    (s.play turns).password = s.password :=
  List.foldlRecOn (motive := fun s' : ServerState => s'.password = s.password) _ _ rfl
    fun _ h _ _ => (act_password _ _).trans h

end Password

theorem Turn.eq_command (h : t.isCommandOf fd = true) :
    ∃ addr now msg monitor, t = .command addr now fd msg monitor := by
  cases t with
  | arrive | depart => cases h
  | command addr now g msg monitor =>
    have hgf : g = fd := by simpa [Turn.isCommandOf] using h
    exact ⟨addr, now, msg, monitor, by rw [hgf]⟩

/-- What a turn can be: nothing, the arrival of a client, or a command or the departure of one. -/
theorem turn_cases (s : ServerState) (t : Turn) :
    (s.act t.action = s ∧ t.result s = {}) ∨
      (∃ addr g host, t = .arrive addr g host ∧ s.client.fdToClient[g]? = none) ∨
      (∃ addr now g msg monitor q, t = .command addr now g msg monitor ∧
        s.client.fdToClient[g]? = some q ∧
        Outcome addr g msg s q (t.result s) (s.act t.action)) ∨
      ∃ g reason q, t = .depart g reason ∧ s.client.fdToClient[g]? = some q := by
  cases t with
  | arrive addr g host =>
    rcases hg : s.client.fdToClient[g]? with _ | q
    · exact .inr (.inl ⟨addr, g, host, rfl, hg⟩)
    · exact .inl ⟨addClient_known addr host hg, rfl⟩
  | command addr now g msg monitor =>
    rcases hg : s.client.fdToClient[g]? with _ | q
    · refine .inl ?_
      rw [Turn.action, act, Turn.result,
        CommandDispatcher.dispatchWith_unknown addr now msg monitor hg]
      exact ⟨rfl, rfl⟩
    · exact .inr (.inr (.inl ⟨addr, now, g, msg, monitor, q, rfl, hg,
        CommandDispatcher.dispatchWith_outcome addr now msg monitor hg⟩))
  | depart g reason =>
    rcases hg : s.client.fdToClient[g]? with _ | q
    · have hg' : s.getClientByFd g = none := hg
      refine .inl ⟨removeClient_unknown hg, ?_⟩
      rw [Turn.result, DisconnectNotifier.build, hg']
    · exact .inr (.inr (.inr ⟨g, reason, q, rfl, hg⟩))

theorem getElem?_fdToClient_addClient {g : Fd} (hg : s.client.fdToClient[g]? = none) (addr : Addr)
    (host : Str) (fd : Fd) : (s.addClient addr g host).client.fdToClient[fd]? =
      if g = fd then some (Heap.fresh s.client.objects addr) else s.client.fdToClient[fd]? := by
  have hmem : g ∉ s.client.fdToClient := by
    rw [ExtTreeMap.mem_iff_isSome_getElem?, hg]
    simp
  simp only [addClient, ClientRegistry.addClient, ClientRegistry.getClientByFd, hg]
  rw [ExtTreeMap.getElem?_insertIfNew]
  by_cases hgf : g = fd
  · subst hgf
    simp [hmem]
  · simp [hgf]

/-- The client of a connection is there after its arrival. -/
theorem getClientByFd_addClient (hfree : s.getClientByFd fd = none) (addr : Addr) (host : Str) :
    (s.addClient addr fd host).getClientByFd fd = some (Heap.fresh s.client.objects addr) := by
  have h := getElem?_fdToClient_addClient hfree addr host fd
  rwa [if_pos rfl] at h

/-- A connection starts with a client as new. -/
theorem Lifetime.arrived {password : Str} {before : List Turn}
    (h : Lifetime (play { password := password } before) fd during) (addr : Addr) (host : Str) :
    let s₀ := (play { password := password } before).act (.addClient addr fd host)
    WellFormed s₀ ∧ Registration s₀ ∧ s₀.password = password ∧
      ∃ p, s₀.getClientByFd fd = some p ∧ s₀.clientAt p = { host := host, fd := fd } := by
  have hw : WellFormed (play { password := password } before) := .play (.start password) before
  have hr : Registration (play { password := password } before) :=
    .play (.start password) (.start password) before
  refine ⟨hw.act _, hr.act hw _, (act_password _ _).trans (play_password _ _), _,
    getClientByFd_addClient h.free addr host, ?_⟩
  exact (clientAt_addClient addr host h.free _).trans (if_pos rfl)

theorem getElem?_fdToClient_removeClient {g : Fd} (hw : WellFormed s)
    (hg : s.client.fdToClient[g]? = some q) (fd : Fd) :
    (s.removeClient g).client.fdToClient[fd]? =
      if g = fd then none else s.client.fdToClient[fd]? := by
  rw [(hw.removeClient_client hg).2.2.2.1, ExtTreeMap.getElem?_erase]
  simp

/-- A client stays on its descriptor until it departs. -/
theorem getClientByFd_act (hw : WellFormed s) (hp : s.getClientByFd fd = some p)
    (hstay : t.isDepartureOf fd = false) : (s.act t.action).getClientByFd fd = some p := by
  have hp' : s.client.fdToClient[fd]? = some p := hp
  show (s.act t.action).client.fdToClient[fd]? = some p
  rcases turn_cases s t with ⟨hs, -⟩ | ⟨addr, g, host, rfl, hg⟩ |
    ⟨addr, now, g, msg, monitor, q, rfl, hg, ho⟩ | ⟨g, reason, q, rfl, hg⟩
  · rw [hs, hp']
  · have hgf : g ≠ fd := by
      rintro rfl
      rw [hg] at hp'
      cases hp'
    rw [Turn.action, act, getElem?_fdToClient_addClient hg, if_neg hgf, hp']
  · rw [ho.ownData.fds, hp']
  · have hgf : g ≠ fd := by simpa [Turn.isDepartureOf] using hstay
    rw [Turn.action, act, getElem?_fdToClient_removeClient hw hg, if_neg hgf, hp']

theorem getClientByFd_play (hstay : ∀ t ∈ during, t.isDepartureOf fd = false) :
    ∀ {s : ServerState}, WellFormed s → s.getClientByFd fd = some p →
      (s.play during).getClientByFd fd = some p := by
  induction during with
  | nil => exact fun _ hp => hp
  | cons t during ih =>
    intro s hw hp
    exact ih (fun t' ht' => hstay t' (List.mem_cons_of_mem t ht')) (hw.act t.action)
      (getClientByFd_act hw hp (hstay t List.mem_cons_self))

/-- A descriptor that was free is taken by an arrival. -/
theorem eq_arrive_of_taken (hw : WellFormed s) (hfree : s.getClientByFd fd = none)
    (htaken : (s.act t.action).getClientByFd fd ≠ none) : ∃ addr host, t = .arrive addr fd host := by
  have hfree' : s.client.fdToClient[fd]? = none := hfree
  have htaken' : (s.act t.action).client.fdToClient[fd]? ≠ none := htaken
  rcases turn_cases s t with ⟨hs, -⟩ | ⟨addr, g, host, rfl, hg⟩ |
    ⟨addr, now, g, msg, monitor, q, rfl, hg, ho⟩ | ⟨g, reason, q, rfl, hg⟩
  · exact absurd hfree' (by rwa [hs] at htaken')
  · rw [Turn.action, act, getElem?_fdToClient_addClient hg] at htaken'
    split_ifs at htaken' with hgf
    · exact ⟨addr, host, by rw [hgf]⟩
    · exact absurd hfree' htaken'
  · exact absurd hfree' (by rwa [ho.ownData.fds] at htaken')
  · rw [Turn.action, act, getElem?_fdToClient_removeClient hw hg, hfree', ite_self] at htaken'
    exact absurd rfl htaken'

theorem getClientByFd_depart (hw : WellFormed s) (fd : Fd) :
    (s.removeClient fd).getClientByFd fd = none := by
  rcases hg : s.client.fdToClient[fd]? with _ | q
  · rw [removeClient_unknown hg]
    exact hg
  · have h := getElem?_fdToClient_removeClient hw hg fd
    rwa [if_pos rfl] at h

/-- Every client that is connected has a connection it arrived by. -/
theorem exists_lifetime (password : Str) (fd : Fd) : ∀ turns : List Turn,
    (play { password := password } turns).getClientByFd fd ≠ none →
    ∃ before addr host during, turns = before ++ .arrive addr fd host :: during ∧
      Lifetime (play { password := password } before) fd during := by
  intro turns
  induction turns using List.reverseRecOn with
  | nil => exact fun h => absurd (by simp [play, getClientByFd, ClientRegistry.getClientByFd]) h
  | append_singleton turns t ih =>
    intro h
    have hw := WellFormed.play (.start password) turns
    rw [play_append] at h
    rcases hfree : (play { password := password } turns).getClientByFd fd with _ | p
    · obtain ⟨addr, host, rfl⟩ := eq_arrive_of_taken hw hfree h
      exact ⟨turns, addr, host, [], rfl, hfree, by simp⟩
    · obtain ⟨before, addr, host, during, rfl, hlife⟩ := ih (by simp [hfree])
      refine ⟨before, addr, host, during ++ [t], by simp, hlife.free, fun t' ht' => ?_⟩
      rcases List.mem_append.1 ht' with ht' | ht'
      · exact hlife.stays t' ht'
      · cases List.mem_singleton.1 ht'
        rw [← Bool.not_eq_true]
        intro hdep
        cases t with
        | arrive | command => cases hdep
        | depart g reason =>
          rw [Turn.isDepartureOf, beq_iff_eq] at hdep
          subst hdep
          exact h (getClientByFd_depart hw g)

end Ircserv
