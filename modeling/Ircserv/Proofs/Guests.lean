import Ircserv.Proofs.Notice
import Ircserv.Proofs.Welcome

/-!
# Connections that never give the password

Every reply goes to the sender of the command, to a client that is registered or to one that the
command names by its nick (`Outcome.reached`). A client that has not given the password is not
registered and has no nick, and its own commands change nothing, so to delete them from a run
changes nothing for anybody else (`run_guests`).
-/

open Std

namespace Ircserv

open ServerState CommandResult

variable {s s' : ServerState} {p q a : Addr} {fd g : Fd} {t : Turn} {during : List Turn}
  {m : OutgoingMessage}

/-- A client that is found by a nick has given the password. -/
theorem Registration.passOk_of_nick (hr : Registration s) (hw : WellFormed s) {n : Str}
    (hq : s.client.nicknameToClient[n]? = some q) : (s.clientAt q).passOk = true := by
  obtain ⟨-, hfold, -⟩ := hw.nicks.owner n q hq
  refine (hr.clients q).passed (.inl fun hnick => ?_)
  rw [hnick, eq_comm, caseFold_eq_nil.2 rfl, caseFold_eq_nil] at hfold
  refine hw.nicks.named n ?_ hfold
  rw [ExtTreeMap.mem_iff_isSome_getElem?, hq]
  rfl

theorem mem_addRepliesToMembers_fd {exceptFd : Fd} {line : Str}
    (hm : m ∈ (addRepliesToMembers {} s (s.channelAt a).getMembers line exceptFd).replies) :
    ∃ q ∈ (s.channelAt a).members, (s.clientAt q).fd = m.fd := by
  rw [addRepliesToMembers_eq] at hm
  simp only [List.nil_append, List.mem_map, List.mem_filter] at hm
  obtain ⟨g, ⟨⟨q, hq, rfl⟩, -⟩, rfl⟩ := hm
  rw [Channel.getMembers, ExtTreeMap.mem_keys] at hq
  exact ⟨q, hq, rfl⟩

/-- The line is a text or an invite of `p` for the client at `q`, which the command names by its
nick. -/
structure NamedBy (s : ServerState) (p : Addr) (msg : Message) (q : Addr) (line : Str) : Prop where
  registered : (s.clientAt p).registered = true
  found : s.getClientByNick (msg.getSingleParam 0) = some q
  line : (msg.command = lit "PRIVMSG" ∨ msg.command = lit "NOTICE") ∧
      line = ReplyBuilder.relayed (s.clientAt p).getFullPrefix msg.command (msg.getSingleParam 0)
        (msg.getSingleParam 1) ∨
    msg.command = lit "INVITE" ∧
      line = ReplyBuilder.invite (s.clientAt p).getFullPrefix (msg.getSingleParam 0)
        (msg.getSingleParam 1)

namespace Outcome

variable {addr : Addr} {msg : Message} {r : CommandResult}

theorem mem_maybeRegister (hm : m ∈ (CommandDispatcher.maybeRegister p {} s).1.replies) :
    m.fd = (s.clientAt p).fd := by
  rcases maybeRegister_cases p {} s with hs | hs
  · rw [hs] at hm
    cases hm
  · rw [hs] at hm
    cases List.mem_singleton.1 hm
    exact (OwnData.modifyClient (p := p) s (f := (·.markRegistered)) fun _ => rfl).fd p

/-- Every reply goes to the sender, to a client that is registered, or to the client the command
names. -/
theorem reached (hw : WellFormed s) (hr : Registration s) (hp : s.client.fdToClient[fd]? = some p)
    (ho : Outcome addr fd msg s p r s') (hm : m ∈ r.replies) :
    m.fd = fd ∨ ∃ q, (s.clientAt q).fd = m.fd ∧
      ((s.clientAt q).registered = true ∨ NamedBy s p msg q m.message) := by
  obtain ⟨hlive, hfd⟩ := hw.links.fdOwner fd p hp
  have hown := ho.ownData
  have member : ∀ {a line exceptFd},
      m ∈ (addRepliesToMembers {} s (s.channelAt a).getMembers line exceptFd).replies →
      m.fd = fd ∨ ∃ q, (s.clientAt q).fd = m.fd ∧
        ((s.clientAt q).registered = true ∨ NamedBy s p msg q m.message) := by
    intro a line exceptFd hm
    obtain ⟨q, hq, hqfd⟩ := mem_addRepliesToMembers_fd hm
    exact .inr ⟨q, hqfd, .inl (hr.members q _ (inRoom_of_mem hw.links hq))⟩
  -- the members after the command, for the handlers that change the channel first
  have member' : ∀ {a line exceptFd},
      m ∈ (addRepliesToMembers {} s' (s'.channelAt a).getMembers line exceptFd).replies →
      m.fd = fd ∨ ∃ q, (s.clientAt q).fd = m.fd ∧
        ((s.clientAt q).registered = true ∨ NamedBy s p msg q m.message) := by
    intro a line exceptFd hm
    obtain ⟨q, hq, hqfd⟩ := mem_addRepliesToMembers_fd hm
    rw [hown.fd] at hqfd
    by_cases hqp : q = p
    · rw [← hqfd, hqp]
      exact .inl hfd
    · have hreg := (hr.outcome hw hlive ho).members q _
        (inRoom_of_mem (hw.outcome hlive ho).links hq)
      obtain ⟨cs, hcs⟩ := hown.others q hqp
      rw [hcs] at hreg
      exact .inr ⟨q, hqfd, .inl hreg⟩
  cases ho with
  | silent | pass | quit => cases hm
  | refused | answered =>
    cases List.mem_singleton.1 hm
    exact .inl rfl
  | nick _ _ _ hs' =>
    refine .inl ((mem_maybeRegister hm).trans ?_)
    have h := OwnData.updateNick (p := p) s (msg.getSingleParam 0)
    rw [hs'] at h
    exact (h.fd p).trans hfd
  | user _ _ _ _ hs' =>
    refine .inl ((mem_maybeRegister hm).trans ?_)
    subst hs'
    simp [hlive, Client.setRealname, Client.setUsername, hfd]
  | join =>
    simp only [CommandDispatcher.joinReplies, CommandResult.addReply] at hm
    split_ifs at hm
    all_goals
      simp only [List.mem_append, List.mem_singleton, or_assoc] at hm
      rcases hm with hm | rfl | rfl | rfl
      · exact member' hm
      · exact .inl rfl
      · exact .inl rfl
      · exact .inl rfl
  | part | textChannel | kick => exact member hm
  | textNick h hcmd hreg hq =>
    cases List.mem_singleton.1 hm
    exact .inr ⟨_, rfl, .inr ⟨hreg, hq, .inl ⟨h ▸ hcmd, by rw [h]⟩⟩⟩
  | invite h hreg hq =>
    rcases List.mem_append.1 hm with hm | hm
    · cases List.mem_singleton.1 hm
      exact .inl rfl
    · cases List.mem_singleton.1 hm
      exact .inr ⟨_, rfl, .inr ⟨hreg, hq, .inr ⟨h, rfl⟩⟩⟩
  | topic | mode | oper => exact member' hm

/-- A command of a client without the password does nothing but answer it. -/
theorem guest (hr : Registration s) (hpass : (s.clientAt p).passOk = false)
    (hno : msg.command = lit "PASS" → msg.params[0]? ≠ some s.password)
    (ho : Outcome addr fd msg s p r s') : s' = s ∧ ∀ m ∈ r.replies, m.fd = fd := by
  have hunreg : (s.clientAt p).registered ≠ true := by
    intro hreg
    rw [(hr.clients p).registered, Client.canRegister_iff, hpass] at hreg
    cases hreg.1
  cases ho with
  | silent | quit => exact ⟨rfl, fun m hm => by cases hm⟩
  | refused | answered =>
    refine ⟨rfl, fun m hm => ?_⟩
    cases List.mem_singleton.1 hm
    rfl
  | pass h hparam _ hpw => exact absurd ((Message.getElem?_params msg 0 _).2 ⟨hparam, hpw⟩) (hno h)
  | nick _ hok | user _ hok =>
    rw [hpass] at hok
    cases hok
  | join _ hreg | part _ hreg | textChannel _ _ hreg | textNick _ _ hreg | kick _ hreg
  | invite _ hreg | topic _ hreg | mode _ hreg | oper _ hreg => exact absurd hreg hunreg

end Outcome

/-- A turn of another connection says nothing to a client that is not registered, unless it names
the client. -/
theorem named_of_mem_result (hw : WellFormed s) (hr : Registration s)
    (hq : s.getClientByFd fd = some q) (hreg : (s.clientAt q).registered = false)
    (hcommand : t.isCommandOf fd = false) (hm : m ∈ (t.result s).replies) (hmfd : m.fd = fd) :
    ∃ addr now g msg monitor p, t = .command addr now g msg monitor ∧ s.getClientByFd g = some p ∧
      NamedBy s p msg q m.message := by
  have hq' : s.client.fdToClient[fd]? = some q := hq
  have unregistered : ∀ r, (s.clientAt r).fd = m.fd → (s.clientAt r).registered = true → False := by
    intro r hrfd hrreg
    have hlive : r ∈ s.client.objects := by
      by_contra hdead
      rw [clientAt_of_not_mem hdead] at hrreg
      cases hrreg
    cases (hw.links.clientOwned r hlive).symm.trans (by rw [hrfd, hmfd, hq'])
    rw [hreg] at hrreg
    cases hrreg
  rcases turn_cases s t with ⟨-, hres⟩ | ⟨addr, g, host, rfl, hg⟩ |
    ⟨addr, now, g, msg, monitor, p, rfl, hg, ho⟩ | ⟨g, reason, p, rfl, hg⟩
  · rw [hres] at hm
    cases hm
  · cases hm
  · rcases ho.reached hw hr hg hm with hmg | ⟨r, hrfd, hrreg | hnamed⟩
    · have hgf : g ≠ fd := by simpa [Turn.isCommandOf] using hcommand
      exact absurd (hmg.symm.trans hmfd) hgf
    · exact (unregistered r hrfd hrreg).elim
    · have hlive := (hw.nicks.owner _ r hnamed.found).1
      cases (hw.links.clientOwned r hlive).symm.trans (by rw [hrfd, hmfd, hq'])
      exact ⟨addr, now, g, msg, monitor, p, rfl, hg, hnamed⟩
  · obtain ⟨fds, hb, -, hmem⟩ := DisconnectNotifier.build_spec hw.links hg reason
    rw [Turn.result, hb] at hm
    obtain ⟨f, hf, rfl⟩ := List.mem_map.1 hm
    obtain ⟨r, ⟨-, a, -, hra⟩, hrfd⟩ := (hmem f).1 hf
    exact (unregistered r hrfd (hr.members r _ (inRoom_of_mem hw.links hra))).elim

/-- No turn of another connection, and no turn of the server, replies to a client without the
password. -/
theorem not_mem_result (hw : WellFormed s) (hr : Registration s) (hp : s.getClientByFd fd = some p)
    (hpass : (s.clientAt p).passOk = false) (hcommand : t.isCommandOf fd = false)
    (hm : m ∈ (t.result s).replies) : m.fd ≠ fd := by
  intro hmfd
  have hreg : (s.clientAt p).registered = false := by
    rw [(hr.clients p).registered, ← Bool.not_eq_true, Client.canRegister_iff, hpass]
    exact fun hcan => absurd hcan.1 (by simp)
  obtain ⟨_, _, _, _, _, _, -, -, hnamed⟩ := named_of_mem_result hw hr hp hreg hcommand hm hmfd
  have hok := hr.passOk_of_nick hw hnamed.found
  rw [hpass] at hok
  cases hok

/-- A command of a client without the password. -/
theorem command_guest (hr : Registration s) (hp : s.getClientByFd fd = some p)
    (hpass : (s.clientAt p).passOk = false) (hno : t.isPassOf fd s.password = false)
    (hcommand : t.isCommandOf fd = true) :
    s.act t.action = s ∧ ∀ m ∈ (t.result s).replies, m.fd = fd := by
  obtain ⟨addr, now, msg, monitor, rfl⟩ := Turn.eq_command hcommand
  have ho := CommandDispatcher.dispatchWith_outcome addr now msg monitor hp
  refine ho.guest hr hpass fun hcmd hparams => ?_
  simp [Turn.isPassOf, hcmd, hparams] at hno

/-- Without the commands of a client that does not give the password, the turns lead to the same
state, and everybody else gets the same replies. -/
theorem play_guest (hstay : ∀ t ∈ during, t.isDepartureOf fd = false) :
    ∀ {s : ServerState}, WellFormed s → Registration s → s.getClientByFd fd = some p →
      (s.clientAt p).passOk = false → (∀ t ∈ during, t.isPassOf fd s.password = false) →
        s.play (during.filter fun t => !t.isCommandOf fd) = s.play during ∧
          s.traffic (during.filter fun t => !t.isCommandOf fd) =
            (s.traffic during).filter (·.fd != fd) ∧
          ∀ past t later, during = past ++ t :: later →
            ∀ m ∈ (t.result (s.play past)).replies, m.fd = fd → t.isCommandOf fd = true := by
  induction during with
  | nil =>
    intro s _ _ _ _ _
    exact ⟨rfl, rfl, fun past t later h => by simp at h⟩
  | cons t during ih =>
    intro s hw hr hp hpass hno
    have hst := hstay t List.mem_cons_self
    have hpass' : ((s.act t.action).clientAt p).passOk = false := by
      rw [(registration_turn hw hr hp hst).2, hpass, hno t List.mem_cons_self]
      rfl
    obtain ⟨hplay, htraffic, hown⟩ := ih (fun t' ht' => hstay t' (List.mem_cons_of_mem t ht'))
      (hw.act t.action) (hr.act hw t.action) (getClientByFd_act hw hp hst) hpass' fun t' ht' => by
        rw [act_password]
        exact hno t' (List.mem_cons_of_mem t ht')
    have hothers : t.isCommandOf fd = false → ∀ m ∈ (t.result s).replies, m.fd ≠ fd :=
      fun hcommand m hm => not_mem_result hw hr hp hpass hcommand hm
    refine ⟨?_, ?_, ?_⟩
    · rcases hcommand : t.isCommandOf fd
      · rw [List.filter_cons_of_pos (by simp [hcommand])]
        exact hplay
      · rw [List.filter_cons_of_neg (by simp [hcommand])]
        show _ = (s.act t.action).play during
        rw [← hplay, (command_guest hr hp hpass (hno t List.mem_cons_self) hcommand).1]
    · rw [traffic, List.filter_append]
      rcases hcommand : t.isCommandOf fd
      · rw [List.filter_cons_of_pos (by simp [hcommand]), traffic, htraffic,
          List.filter_eq_self.2 fun m hm => bne_iff_ne.2 (hothers hcommand m hm)]
      · obtain ⟨hact, hreplies⟩ := command_guest hr hp hpass (hno t List.mem_cons_self) hcommand
        have hnone : (t.result s).replies.filter (·.fd != fd) = [] :=
          List.filter_eq_nil_iff.2 fun m hm => by simp [hreplies m hm]
        rw [List.filter_cons_of_neg (by simp [hcommand]), ← htraffic, hact, hnone, List.nil_append]
    · rintro (_ | ⟨t', past⟩) u later h m hm hmfd
      · obtain ⟨rfl, rfl⟩ := List.cons.inj h
        rcases hcommand : t.isCommandOf fd
        · exact absurd hmfd (hothers hcommand m hm)
        · rfl
      · obtain ⟨rfl, rfl⟩ := List.cons.inj h
        exact hown past u later rfl m hm hmfd

/-- Connections that never give the password do not interfere. To delete all commands of such a
connection from a run leaves the state as it is, at the end and so at every point, and all the
replies to others; and every reply to the connection answers a command of its own. -/
theorem run_guests (password : Str) (before : List Turn) (addr : Addr) (fd : Fd) (host : Str)
    (during rest : List Turn)
    (hlife : Lifetime (ServerState.play { password := password } before) fd during)
    (hno : ∀ t ∈ during, t.isPassOf fd password = false) :
    let start : ServerState := { password := password }
    let s₀ := (start.play before).act (.addClient addr fd host)
    let kept := before ++ .arrive addr fd host :: (during.filter fun t => !t.isCommandOf fd) ++ rest
    start.play kept = start.play (before ++ .arrive addr fd host :: during ++ rest) ∧
      start.traffic (before ++ .arrive addr fd host :: during ++ rest) =
        start.traffic before ++ s₀.traffic during ++ (s₀.play during).traffic rest ∧
      start.traffic kept = start.traffic before ++ (s₀.traffic during).filter (·.fd != fd) ++
        (s₀.play during).traffic rest ∧
      ∀ past t later, during = past ++ t :: later →
        ∀ m ∈ (t.result (s₀.play past)).replies, m.fd = fd → t.isCommandOf fd = true := by
  intro start s₀ kept
  obtain ⟨hw₀, hr₀, hpw, p, hp₀, hnew⟩ := hlife.arrived addr host
  change s₀.password = password at hpw
  obtain ⟨hplay, htraffic, hown⟩ := play_guest hlife.stays hw₀ hr₀ hp₀ (by rw [hnew]) (by rwa [hpw])
  have arrived : ∀ turns, start.play (before ++ .arrive addr fd host :: turns) = s₀.play turns ∧
      start.traffic (before ++ .arrive addr fd host :: turns) =
        start.traffic before ++ s₀.traffic turns := by
    intro turns
    rw [play_append, traffic_append]
    exact ⟨rfl, rfl⟩
  refine ⟨?_, ?_, ?_, hown⟩
  · rw [play_append _ _ rest, play_append _ _ rest, (arrived _).1, (arrived _).1, hplay]
  · rw [traffic_append _ rest, (arrived _).1, (arrived _).2]
  · rw [traffic_append _ rest, (arrived _).1, (arrived _).2, hplay, htraffic]

/-- The case of a NICK before the password, while another client arrives. -/
theorem run_guests_nick :
    let start : ServerState := { password := lit "pw" }
    let nick : Turn := .command 0 0 5 (Parser.parse (lit "NICK a")) none
    let pass : Turn := .command 0 0 6 (Parser.parse (lit "PASS :")) none
    start.traffic [.arrive 3 5 (lit "h"), .arrive 4 6 (lit "k"), pass] =
      [⟨6, ReplyBuilder.passwordMismatch⟩] ∧
      start.play [.arrive 3 5 (lit "h"), nick, .arrive 4 6 (lit "k"), pass] =
        start.play [.arrive 3 5 (lit "h"), .arrive 4 6 (lit "k"), pass] := by
  intro start nick pass
  have h := run_guests (lit "pw") [] 3 5 (lit "h") [nick, .arrive 4 6 (lit "k"), pass] []
    ⟨rfl, by decide⟩ (by decide +kernel)
  exact ⟨by decide +kernel, h.1.symm⟩

end Ircserv
