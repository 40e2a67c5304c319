import Ircserv.Proofs.Notice
import Ircserv.Proofs.Turns

/-!
# The registration of a connection

Over a connection the registration only grows, and the welcome goes out at the one turn that
completes it: the number of welcomes sent is the client's flag (`welcomes_play`).
-/

open Std

namespace Ircserv

open ServerState ReplyBuilder

variable {s : ServerState} {p q : Addr} {fd : Fd} {t : Turn} {during : List Turn}

theorem numericOf_quit {c : Client} (h : isValidNickname c.nickname = true) (reason : Str) :
    numericOf (quit c.getFullPrefix reason) = none :=
  numericOf_of_sentBy h (.quit c reason)

/-- A turn that is neither a command nor the departure of the client leaves its record alone, but
for the channels, and sends it no welcome. -/
theorem act_other (hw : WellFormed s) (hr : Registration s) (hp : s.getClientByFd fd = some p)
    (hcommand : t.isCommandOf fd = false) (hstay : t.isDepartureOf fd = false) :
    (∃ channels, (s.act t.action).clientAt p = { s.clientAt p with channels := channels }) ∧
      welcomes fd (t.result s).replies = 0 := by
  obtain ⟨hlive, hfd⟩ := hw.links.fdOwner fd p hp
  have hpq : ∀ g q, s.client.fdToClient[g]? = some q → g ≠ fd → p ≠ q := by
    rintro g q hg hgf rfl
    exact hgf ((hw.links.fdOwner g p hg).2.symm.trans hfd)
  rcases turn_cases s t with ⟨hs, hres⟩ | ⟨addr, g, host, rfl, hg⟩ |
    ⟨addr, now, g, msg, monitor, q, rfl, hg, ho⟩ | ⟨g, reason, q, rfl, hg⟩
  · rw [hs, hres]
    exact ⟨⟨_, rfl⟩, rfl⟩
  · refine ⟨⟨(s.clientAt p).channels, ?_⟩, rfl⟩
    rw [Turn.action, act, clientAt_addClient addr host hg, if_neg]
    rintro rfl
    exact Heap.fresh_not_mem _ _ hlive
  · have hgf : g ≠ fd := by simpa [Turn.isCommandOf] using hcommand
    obtain ⟨hqlive, hqfd⟩ := hw.links.fdOwner g q hg
    refine ⟨ho.ownData.others p (hpq g q hg hgf), List.countP_eq_zero.2 fun m hm => ?_⟩
    simp only [Bool.and_eq_true, beq_iff_eq, not_and]
    intro hmfd hcode
    rcases ho.numericOf_reply hr hqlive hm hcode with ⟨line, herr, hres, -⟩ | ⟨-, -, -, hres⟩ | hn
    · rw [hres] at hm
      cases List.mem_singleton.1 hm
      exact hgf hmfd
    · rw [hres] at hm
      cases List.mem_singleton.1 hm
      exact hgf (hqfd.symm.trans hmfd)
    · simp at hn
  · have hgf : g ≠ fd := by simpa [Turn.isDepartureOf] using hstay
    refine ⟨(hw.removeClient_client hg).2.2.1 p (hpq g q hg hgf), List.countP_eq_zero.2 fun m hm => ?_⟩
    obtain ⟨fds, hb, -, hmem⟩ := DisconnectNotifier.build_spec hw.links hg reason
    rw [Turn.result, hb] at hm
    obtain ⟨f, hf, rfl⟩ := List.mem_map.1 hm
    obtain ⟨r, ⟨-, a, hqa, -⟩, -⟩ := (hmem f).1 hf
    have hreg := hr.members q _ (inRoom_of_mem hw.links hqa)
    simp [numericOf_quit ((hr.clients q).valid hreg)]

namespace Outcome

variable {addr : Addr} {msg : Message} {s' : ServerState} {r : CommandResult}

/-- The command that registers a client is answered by the welcome. -/
theorem welcomed (hp : p ∈ s.client.objects) (ho : Outcome addr fd msg s p r s')
    (hreg : (s.clientAt p).registered = false) (hreg' : (s'.clientAt p).registered = true) :
    r = .reply (s.clientAt p).fd (welcome (s'.clientAt p)) := by
  have same : SameClients s s' → False := by
    intro h
    obtain ⟨cs, hcs⟩ := h.data p
    have heq : (s'.clientAt p).registered = (s.clientAt p).registered := by rw [hcs]
    rw [hreg, hreg'] at heq
    cases heq
  have enrolls : ∀ s₁ : ServerState, p ∈ s₁.client.objects →
      (s₁.clientAt p).registered = false → (s₁.clientAt p).fd = (s.clientAt p).fd →
      ((CommandDispatcher.maybeRegister p {} s₁).2.clientAt p).registered = true →
      (CommandDispatcher.maybeRegister p {} s₁).1 = .reply (s.clientAt p).fd
        (welcome ((CommandDispatcher.maybeRegister p {} s₁).2.clientAt p)) := by
    intro s₁ hp₁ hreg₁ hfd₁ hreg₂
    rcases maybeRegister_welcome hp₁ with ⟨-, hsame⟩ | ⟨hres, -⟩
    · rw [hsame, hreg₁] at hreg₂
      cases hreg₂
    · rw [hres, hfd₁]
  cases ho with
  | silent | refused | answered | quit | textChannel | textNick => exact (same (.refl s)).elim
  | pass =>
    have hat : ((s.modifyClient p (·.setPassOk true)).clientAt p).registered =
        (s.clientAt p).registered := by
      simp [hp, Client.setPassOk]
    rw [hat, hreg] at hreg'
    cases hreg'
  | @nick s₁ _ _ _ hs' =>
    obtain ⟨hp₁, hat⟩ := clientAt_updateNick hp hs'
    exact enrolls s₁ hp₁ (by rw [hat]; exact hreg) (by rw [hat]; rfl) hreg'
  | @user s₁ _ _ _ _ hs' =>
    refine enrolls s₁ (by simpa [hs'] using hp) ?_ ?_ hreg'
    · simpa [hs', hp, Client.setRealname, Client.setUsername] using hreg
    · simp [hs', hp, Client.setRealname, Client.setUsername]
  | join _ _ _ _ hs' =>
    have h := SameClients.addClientToChannel s addr p (msg.getSingleParam 0)
    rw [hs'] at h
    exact (same h).elim
  | part | kick => exact (same (.removeClientFromChannel s _ _)).elim
  | invite => exact (same (.modifyChannel s _ _)).elim
  | topic _ _ _ _ _ _ hs' | mode _ _ _ _ _ _ _ hs' | oper _ _ _ _ _ _ _ _ hs' =>
    subst hs'
    exact (same (.modifyChannel s _ _)).elim

/-- A command sends its sender a welcome if and only if it registers it. -/
theorem welcomes (hr : Registration s) (hp : p ∈ s.client.objects) (hfd : (s.clientAt p).fd = fd)
    (ho : Outcome addr fd msg s p r s') :
    welcomes fd r.replies + (s.clientAt p).registered.toNat = (s'.clientAt p).registered.toNat := by
  obtain ⟨c, cs, hc, hs'⟩ := ho.own hp
  have hmono : (s.clientAt p).registered = true → (s'.clientAt p).registered = true := by
    intro h
    rw [hs']
    exact hc.registered h
  have hnone : ¬ ((s.clientAt p).registered = false ∧ (s'.clientAt p).registered = true) →
      ServerState.welcomes fd r.replies = 0 := by
    intro hn
    refine List.countP_eq_zero.2 fun m hm => ?_
    simp only [Bool.and_eq_true, beq_iff_eq, not_and]
    intro _ hcode
    rcases ho.numericOf_reply hr hp hm hcode with ⟨line, herr, rfl, -⟩ | ⟨-, h, h', -⟩ | hquery
    · cases List.mem_singleton.1 hm
      obtain ⟨n, hn, hrange⟩ := herr.code
      rw [hcode] at hn
      cases hn
      omega
    · exact hn ⟨h, h'⟩
    · simp at hquery
  rcases hreg : (s.clientAt p).registered <;> rcases hreg' : (s'.clientAt p).registered
  · rw [hnone (by simp [hreg'])]
    rfl
  · rw [ho.welcomed hp hreg hreg', hfd]
    simp (disch := decide) only [ServerState.welcomes, CommandResult.reply, CommandResult.addReply,
      List.nil_append, List.countP_singleton, welcome, numericOf_numericReply]
    simp +decide
  · rw [hmono hreg] at hreg'
    cases hreg'
  · rw [hnone (by simp [hreg])]
    rfl

end Outcome

/-- A correct PASS is taken, unless it was taken before. -/
theorem passOk_command {addr : Addr} {now : Time} {msg : Message}
    {monitor : Option ConnectionHealthMonitor} (hw : WellFormed s) (hr : Registration s)
    (hp : s.getClientByFd fd = some p) :
    ((s.act (.dispatch addr now fd msg monitor)).clientAt p).passOk =
      ((s.clientAt p).passOk ||
        (Turn.command addr now fd msg monitor).isPassOf fd s.password) := by
  obtain ⟨hlive, -⟩ := hw.links.fdOwner fd p hp
  have ho := CommandDispatcher.dispatchWith_outcome addr now msg monitor hp
  obtain ⟨c, cs, hc, hs'⟩ := ho.own hlive
  have hpass : ((s.act (.dispatch addr now fd msg monitor)).clientAt p).passOk = c.passOk := by
    rw [act, hs']
  by_cases hcorrect : (Turn.command addr now fd msg monitor).isPassOf fd s.password = true
  · rw [hcorrect, Bool.or_true]
    simp only [Turn.isPassOf, beq_self_eq_true, Bool.true_and, Bool.and_eq_true, beq_iff_eq] at hcorrect
    obtain ⟨hcmd, hparams⟩ := hcorrect
    obtain ⟨hparam, hpw⟩ := (Message.getElem?_params msg 0 _).1 hparams
    rw [act, CommandDispatcher.dispatchWith_handleCommand addr now monitor hp (by rw [hcmd]; decide),
      CommandDispatcher.handleCommand_pass hcmd]
    show ((CommandDispatcher.handlePass fd msg s p).2.clientAt p).passOk = true
    unfold CommandDispatcher.handlePass
    by_cases hreg : (s.clientAt p).registered = true
    · have hcan := hreg
      rw [(hr.clients p).registered, Client.canRegister_iff] at hcan
      simp [hparam, hreg, hcan.1]
    · simp [hparam, hreg, hpw, hlive, Client.setPassOk]
  · rw [Bool.not_eq_true] at hcorrect
    rw [hpass, hcorrect, Bool.or_false]
    cases hc with
    | kept => rfl
    | pass h hparam _ hpw =>
      have hparams := (Message.getElem?_params msg 0 _).2 ⟨hparam, hpw⟩
      simp [Turn.isPassOf, h, hparams] at hcorrect
    | nick | user =>
      rw [Client.enroll_data]
      rfl

/-- One turn of a connection: the registration only grows, the welcome goes out if and only if the
turn completes it, and the password is taken from a correct PASS. -/
theorem registration_turn (hw : WellFormed s) (hr : Registration s)
    (hp : s.getClientByFd fd = some p) (hstay : t.isDepartureOf fd = false) :
    welcomes fd (t.result s).replies + (s.clientAt p).registered.toNat =
        ((s.act t.action).clientAt p).registered.toNat ∧
      ((s.act t.action).clientAt p).passOk =
        ((s.clientAt p).passOk || t.isPassOf fd s.password) := by
  rcases hcommand : t.isCommandOf fd
  · obtain ⟨⟨cs, hcs⟩, hnone⟩ := act_other hw hr hp hcommand hstay
    have hpass : t.isPassOf fd s.password = false := by
      cases t with
      | arrive | depart => rfl
      | command => simp_all [Turn.isPassOf, Turn.isCommandOf]
    rw [hcs, hnone, hpass]
    simp
  · obtain ⟨addr, now, msg, monitor, rfl⟩ := Turn.eq_command hcommand
    obtain ⟨hlive, hfd⟩ := hw.links.fdOwner fd p hp
    have ho := CommandDispatcher.dispatchWith_outcome addr now msg monitor hp
    exact ⟨ho.welcomes hr hlive hfd, passOk_command hw hr hp⟩

/-- Over a connection, as many welcomes are sent as the client is registered, and the password is
taken from a correct PASS. -/
theorem welcomes_play (hstay : ∀ t ∈ during, t.isDepartureOf fd = false) :
    ∀ {s : ServerState}, WellFormed s → Registration s → s.getClientByFd fd = some p →
      welcomes fd (s.traffic during) + (s.clientAt p).registered.toNat =
          ((s.play during).clientAt p).registered.toNat ∧
        ((s.play during).clientAt p).passOk =
          ((s.clientAt p).passOk || during.any (Turn.isPassOf fd s.password)) := by
  induction during with
  | nil =>
    intro s _ _ _
    simp [traffic, play, welcomes]
  | cons t during ih =>
    intro s hw hr hp
    have hst := hstay t List.mem_cons_self
    obtain ⟨hone, hpass⟩ := registration_turn hw hr hp hst
    obtain ⟨hrest, hpass'⟩ := ih (fun t' ht' => hstay t' (List.mem_cons_of_mem t ht'))
      (hw.act t.action) (hr.act hw t.action) (getClientByFd_act hw hp hst)
    have hcount : welcomes fd (s.traffic (t :: during)) = welcomes fd (t.result s).replies +
        welcomes fd ((s.act t.action).traffic during) := List.countP_append
    refine ⟨?_, ?_⟩
    · show _ = (((s.act t.action).play during).clientAt p).registered.toNat
      rw [hcount]
      omega
    · show (((s.act t.action).play during).clientAt p).passOk = _
      rw [hpass', hpass, act_password, List.any_cons, Bool.or_assoc]

/-- A flag that never goes down is raised where something is counted. -/
theorem flag_raised {n : Nat} {old new : Bool} (h : n + old.toNat = new.toNat) :
    (old = true → new = true) ∧ n ≤ 1 ∧ (n = 1 ↔ ¬ old = true ∧ new = true) := by
  cases old <;> cases new <;> simp only [Bool.toNat_true, Bool.toNat_false] at h <;> simp <;> omega

/-- The registration state machine. In every state, a client that is registered has given the
password, a valid nick, a username and a realname, one that has given any name has given the
password, and members of channels are registered. Over a connection, the password is taken from a
correct PASS, the flag never goes down, and exactly the turn that completes the registration sends
the welcome, once. -/
theorem run_registration (password : Str) :
    (∀ turns : List Turn, let s := ServerState.play { password := password } turns
      (∀ p, s.OwnsClient p → ((s.clientAt p).registered = true → (s.clientAt p).passOk = true ∧
          isValidNickname (s.clientAt p).nickname = true ∧ (s.clientAt p).nickname ≠ [] ∧
          (s.clientAt p).username ≠ [] ∧ (s.clientAt p).realname ≠ []) ∧
        ((s.clientAt p).nickname ≠ [] ∨ (s.clientAt p).username ≠ [] ∨
          (s.clientAt p).realname ≠ [] → (s.clientAt p).passOk = true)) ∧
      ∀ a, s.OwnsChannel a → ∀ p ∈ (s.channelAt a).members, (s.clientAt p).registered = true) ∧
    ∀ before addr fd host during,
      Lifetime (ServerState.play { password := password } before) fd during →
        let s₀ := (ServerState.play { password := password } before).act (.addClient addr fd host)
        let complete := fun c : Client =>
          c.passOk = true ∧ c.nickname ≠ [] ∧ c.username ≠ [] ∧ c.realname ≠ []
        ∃ p, ∀ past next, during = past ++ next →
          let s := s₀.play past
          s.getClientByFd fd = some p ∧
            (s.clientAt p).passOk = past.any (Turn.isPassOf fd password) ∧
            ((s.clientAt p).registered = true ↔ complete (s.clientAt p)) ∧
            ServerState.welcomes fd (s₀.traffic past) = (s.clientAt p).registered.toNat ∧
            ∀ t later, next = t :: later → let s' := s.act t.action
              ((s.clientAt p).registered = true → (s'.clientAt p).registered = true) ∧
                ServerState.welcomes fd (t.result s).replies ≤ 1 ∧
                (ServerState.welcomes fd (t.result s).replies = 1 ↔
                  ¬ complete (s.clientAt p) ∧ complete (s'.clientAt p)) := by
  refine ⟨fun turns => ?_, fun before addr fd host during hlife => ?_⟩
  · have hw : WellFormed (ServerState.play { password := password } turns) :=
      .play (.start password) turns
    have hr : Registration (ServerState.play { password := password } turns) :=
      .play (.start password) (.start password) turns
    refine ⟨fun p _ => ⟨fun hreg => ?_, (hr.clients p).passed⟩, fun a _ p hm =>
      hr.members p _ (inRoom_of_mem hw.links hm)⟩
    rw [(hr.clients p).registered, Client.canRegister_iff] at hreg
    exact ⟨hreg.1, (hr.clients p).nick hreg.2.1, hreg.2⟩
  · intro s₀ complete
    obtain ⟨hw₀, hr₀, hpw, p, hp₀, hnew⟩ := hlife.arrived addr host
    change s₀.password = password at hpw
    have hcomplete {s : ServerState} (hr : Registration s) :
        (s.clientAt p).registered = true ↔ complete (s.clientAt p) := by
      rw [(hr.clients p).registered, Client.canRegister_iff]
    refine ⟨p, fun past next hsplit => ?_⟩
    have hstay : ∀ t ∈ past, t.isDepartureOf fd = false := fun t ht =>
      hlife.stays t (by rw [hsplit]; exact List.mem_append_left _ ht)
    have hwp := hw₀.play past
    have hrp := hr₀.play hw₀ past
    have hp := getClientByFd_play hstay hw₀ hp₀
    obtain ⟨hcount, hpass⟩ := welcomes_play hstay hw₀ hr₀ hp₀
    rw [hnew] at hcount hpass
    rw [hpw] at hpass
    refine ⟨hp, by simpa using hpass, hcomplete hrp, by simpa using hcount,
      fun t later hnext => ?_⟩
    have hst := hlife.stays t (by rw [hsplit, hnext]; simp)
    obtain ⟨hone, -⟩ := registration_turn hwp hrp hp hst
    intro s'
    rw [← hcomplete hrp, ← hcomplete (hrp.act hwp t.action)]
    exact flag_raised hone

/-- The case of a client that is welcomed at its USER, and not once more when it changes its
nick. -/
theorem run_registration_welcomed :
    let start : ServerState := .play { password := lit "pw" } []
    let s₀ := start.act (.addClient 3 5 (lit "h"))
    let past : List Turn := [.command 0 0 5 (Parser.parse (lit "PASS pw")) none,
      .command 0 0 5 (Parser.parse (lit "NICK a")) none]
    let t : Turn := .command 0 0 5 (Parser.parse (lit "USER a 0 * a")) none
    let later : List Turn := [.command 0 0 5 (Parser.parse (lit "NICK b")) none]
    ServerState.welcomes 5 (t.result (s₀.play past)).replies = 1 ∧
      ServerState.welcomes 5 (s₀.traffic (past ++ t :: later)) = 1 := by
  intro start s₀ past t later
  obtain ⟨p, h⟩ := (run_registration (lit "pw")).2 [] 3 5 (lit "h") (past ++ t :: later)
    ⟨by decide +kernel, by decide +kernel⟩
  obtain ⟨hp, -, -, -, hnext⟩ := h past (t :: later) rfl
  obtain ⟨-, -, -, hcount, -⟩ := h (past ++ t :: later) [] (List.append_nil _).symm
  cases hp.symm.trans (show (s₀.play past).getClientByFd 5 = some 3 by decide +kernel)
  refine ⟨(hnext t later rfl).2.2.2 ⟨by decide +kernel, by decide +kernel⟩, ?_⟩
  rw [hcount]
  decide +kernel

end Ircserv
