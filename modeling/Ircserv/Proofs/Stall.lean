import Ircserv.Lib.Since
import Ircserv.Proofs.Welcome

/-!
# A registration that stalls

USER is accepted with an empty name, and a client with an empty name cannot register. So a client
whose commands were all accepted is registered exactly when the last USER it gave while registering
had both names (`run_welcome`).
-/

open Std

namespace Ircserv

open ServerState CommandResult ReplyBuilder

variable {s : ServerState} {p : Addr} {fd : Fd} {t : Turn} {msg : Message} {during : List Turn}

namespace CommandDispatcher

/-- A NICK is refused, or the client has the nick. -/
theorem handleNick_cases (hp : p ∈ s.client.objects) :
    (∃ line, ErrorReply (s.clientAt p) line ∧ (handleNick fd msg s p).1 = reply fd line) ∨
      isValidNickname ((handleNick fd msg s p).2.clientAt p).nickname = true := by
  unfold handleNick
  dsimp only
  split
  · exact .inl ⟨_, (NamedReply.needMoreParams _ _).error, rfl⟩
  split
  · exact .inl ⟨_, (NamedReply.erroneousNickname _ _).error, rfl⟩
  rename_i hvalid
  rw [Bool.not_eq_true', Bool.not_eq_false] at hvalid
  rcases hu : s.updateNick p (msg.getSingleParam 0) with ⟨_ | _, s'⟩
  · exact .inl ⟨_, .starred _ _ _ (by simp), rfl⟩
  · obtain ⟨hp', hat⟩ := clientAt_updateNick hp hu
    refine .inr ?_
    show isValidNickname ((maybeRegister p {} s').2.clientAt p).nickname = true
    rw [clientAt_maybeRegister hp', hat, Client.enroll_data]
    exact hvalid

/-- A USER that is taken sets both names. -/
theorem handleUser_names (fd : Fd) (hp : p ∈ s.client.objects) (hreg : (s.clientAt p).registered = false)
    (hn : 4 ≤ msg.getParamCount) :
    ((handleUser fd msg s p).2.clientAt p).username = msg.getSingleParam 0 ∧
      ((handleUser fd msg s p).2.clientAt p).realname = msg.getSingleParam 3 := by
  unfold handleUser
  dsimp only
  rw [if_neg (by omega), if_neg (by simp [hreg]), clientAt_maybeRegister (by simpa using hp),
    Client.enroll_data]
  simp [hp, Client.setRealname, Client.setUsername]

end CommandDispatcher

/-- A command that is accepted is not answered by an error. -/
theorem Turn.not_error_of_isAccepted {command : Str} (h : t.isAccepted fd command s = true) :
    ∃ addr now msg monitor, t = .command addr now fd msg monitor ∧ msg.command = command ∧
      ∀ c line, ErrorReply c line → (t.result s) ≠ reply fd line := by
  cases t with
  | arrive | depart => cases h
  | command addr now g msg monitor =>
    simp only [Turn.isAccepted, Bool.and_eq_true, beq_iff_eq, List.all_eq_true, Bool.or_eq_true,
      bne_iff_ne, ne_eq, Bool.not_eq_true'] at h
    obtain ⟨⟨rfl, hcmd⟩, hno⟩ := h
    refine ⟨addr, now, msg, monitor, rfl, hcmd, fun c line he hres => ?_⟩
    have hres' : (CommandDispatcher.dispatchWith addr now g msg s monitor).1 = reply g line := hres
    rw [hres'] at hno
    rcases hno ⟨g, line⟩ (List.mem_singleton.2 rfl) with hg | hline
    · exact hg rfl
    · rw [he.isErrorNumeric] at hline
      cases hline

/-- After a NICK that is accepted, the client has a nick. -/
theorem nickname_of_isAccepted (hw : WellFormed s) (hp : s.getClientByFd fd = some p)
    (h : t.isAccepted fd (lit "NICK") s = true) :
    ((s.act t.action).clientAt p).nickname ≠ [] := by
  obtain ⟨addr, now, msg, monitor, rfl, hcmd, hno⟩ := Turn.not_error_of_isAccepted h
  obtain ⟨hlive, -⟩ := hw.links.fdOwner fd p hp
  have hhandled := CommandDispatcher.dispatchWith_handleCommand addr now monitor hp
    (show msg.command ≠ lit "PONG" by rw [hcmd]; decide)
  have hnick : CommandDispatcher.handleCommand addr fd msg s p = _ :=
    CommandDispatcher.handleCommand_nick hcmd
  rw [Turn.result, hhandled, hnick] at hno
  show ((CommandDispatcher.dispatchWith addr now fd msg s monitor).2.1.clientAt p).nickname ≠ []
  rw [hhandled, hnick]
  split_ifs at hno ⊢
  · exact absurd rfl (hno (s.clientAt p) _ (.starred _ _ _ (by simp)))
  · rcases CommandDispatcher.handleNick_cases hlive with ⟨line, he, hres⟩ | hvalid
    · exact absurd hres (hno _ _ he)
    · exact isValidNickname_ne_nil hvalid

/-- A client that has a nick keeps one. -/
theorem nickname_turn (hw : WellFormed s) (hr : Registration s) (hp : s.getClientByFd fd = some p)
    (hstay : t.isDepartureOf fd = false) (hnick : (s.clientAt p).nickname ≠ []) :
    ((s.act t.action).clientAt p).nickname ≠ [] := by
  rcases hcommand : t.isCommandOf fd
  · obtain ⟨⟨cs, hcs⟩, -⟩ := act_other hw hr hp hcommand hstay
    rw [hcs]
    exact hnick
  · obtain ⟨addr, now, msg, monitor, rfl⟩ := Turn.eq_command hcommand
    obtain ⟨hlive, -⟩ := hw.links.fdOwner fd p hp
    obtain ⟨c, cs, hc, hs'⟩ :=
      (CommandDispatcher.dispatchWith_outcome addr now msg monitor hp).own hlive
    rw [Turn.action, act, hs']
    cases hc with
    | kept | pass => exact hnick
    | nick _ _ hvalid =>
      rw [Client.enroll_data]
      exact isValidNickname_ne_nil hvalid
    | user =>
      rw [Client.enroll_data]
      exact hnick

theorem Turn.isUserOf_iff {addr : Addr} {now : Time} {monitor : Option ConnectionHealthMonitor}
    {complete : Bool} : (Turn.command addr now fd msg monitor).isUserOf fd complete = true ↔
      msg.command = lit "USER" ∧ 4 ≤ msg.getParamCount ∧
        (complete = true ↔ msg.getSingleParam 0 ≠ [] ∧ msg.getSingleParam 3 ≠ []) := by
  have hnames : ((msg.getSingleParam 0 != [] && msg.getSingleParam 3 != []) == complete) = true ↔
      (complete = true ↔ msg.getSingleParam 0 ≠ [] ∧ msg.getSingleParam 3 ≠ []) := by
    rw [← bne_iff_ne, ← bne_iff_ne, ← Bool.and_eq_true, beq_iff_eq, ← Bool.coe_iff_coe]
    exact Iff.comm
  simp only [Turn.isUserOf, BEq.rfl, Bool.true_and, Bool.and_eq_true (_ && _) (_ == complete), hnames]
  simp only [Bool.and_eq_true, beq_iff_eq, decide_eq_true_eq, and_assoc]

/-- A USER of a client that is registering. -/
theorem act_user (addr : Addr) (now : Time) (monitor : Option ConnectionHealthMonitor)
    (hp : s.getClientByFd fd = some p) (hpass : (s.clientAt p).passOk = true)
    (hcmd : msg.command = lit "USER") : s.act (.dispatch addr now fd msg monitor) =
      (CommandDispatcher.handleUser fd msg s p).2 := by
  have huser : CommandDispatcher.handleCommand addr fd msg s p =
      CommandDispatcher.handleUser fd msg s p := by
    simp +decide [CommandDispatcher.handleCommand, hcmd, hpass]
  rw [act, CommandDispatcher.dispatchWith_handleCommand addr now monitor hp
    (by rw [hcmd]; decide), huser]

/-- Only a USER that is taken changes the names. -/
theorem Outcome.names {addr : Addr} {r : CommandResult} {s' : ServerState}
    (hlive : p ∈ s.client.objects) (ho : Outcome addr fd msg s p r s')
    (hother : ¬ ((s.clientAt p).passOk = true ∧ (s.clientAt p).registered = false ∧
      msg.command = lit "USER" ∧ 4 ≤ msg.getParamCount)) :
    (s'.clientAt p).username = (s.clientAt p).username ∧
      (s'.clientAt p).realname = (s.clientAt p).realname := by
  obtain ⟨c, cs, hc, hs'⟩ := ho.own hlive
  rw [hs']
  cases hc with
  | kept | pass => exact ⟨rfl, rfl⟩
  | nick =>
    rw [Client.enroll_data]
    exact ⟨rfl, rfl⟩
  | user hcmd hpass hreg hn => exact absurd ⟨hpass, hreg, hcmd, hn⟩ hother

/-- One turn: both names are there when a USER gives them while the client is registering, and until
one leaves a name empty. -/
theorem names_turn (hw : WellFormed s) (hr : Registration s) (hp : s.getClientByFd fd = some p)
    (hstay : t.isDepartureOf fd = false) :
    (((s.act t.action).clientAt p).username ≠ [] ∧ ((s.act t.action).clientAt p).realname ≠ []) ↔
      (s.registering fd = true ∧ t.isUserOf fd true = true) ∨
        ((s.clientAt p).username ≠ [] ∧ (s.clientAt p).realname ≠ []) ∧
          ¬ (s.registering fd = true ∧ t.isUserOf fd false = true) := by
  rcases hcommand : t.isCommandOf fd
  · obtain ⟨⟨cs, hcs⟩, -⟩ := act_other hw hr hp hcommand hstay
    have huser : ∀ b, t.isUserOf fd b = false := by
      intro b
      cases t with
      | arrive | depart => rfl
      | command => simp_all [Turn.isUserOf, Turn.isCommandOf]
    simp [hcs, huser]
  · obtain ⟨addr, now, msg, monitor, rfl⟩ := Turn.eq_command hcommand
    obtain ⟨hlive, -⟩ := hw.links.fdOwner fd p hp
    have hregistering : s.registering fd = true ↔
        (s.clientAt p).passOk = true ∧ (s.clientAt p).registered = false := by
      rw [registering, hp, Option.any_some, Bool.and_eq_true, Bool.not_eq_true']
    rw [hregistering, Turn.isUserOf_iff, Turn.isUserOf_iff, Turn.action]
    by_cases htaken : (s.clientAt p).passOk = true ∧ (s.clientAt p).registered = false ∧
        msg.command = lit "USER" ∧ 4 ≤ msg.getParamCount
    · obtain ⟨hpass, hreg, hcmd, hn⟩ := htaken
      obtain ⟨hu, hre⟩ := CommandDispatcher.handleUser_names fd hlive hreg hn
      rw [act_user addr now monitor hp hpass hcmd, hu, hre]
      simp only [hpass, hreg, hcmd, hn, true_and, true_iff, Bool.false_eq_true, false_iff, not_not]
      tauto
    · have ho := CommandDispatcher.dispatchWith_outcome addr now msg monitor hp
      have hno : ∀ names : Prop, ¬ (((s.clientAt p).passOk = true ∧
          (s.clientAt p).registered = false) ∧ msg.command = lit "USER" ∧
            4 ≤ msg.getParamCount ∧ names) := by
        rintro names ⟨⟨hpass, hreg⟩, hcmd, hn, -⟩
        exact htaken ⟨hpass, hreg, hcmd, hn⟩
      rw [act, (ho.names hlive htaken).1, (ho.names hlive htaken).2]
      simp only [hno, false_or, not_false_eq_true, and_true]

/-- After a NICK that is accepted, the client has a nick to the end of its connection. -/
theorem nickname_play (hstay : ∀ t ∈ during, t.isDepartureOf fd = false) :
    ∀ {s : ServerState}, WellFormed s → Registration s → s.getClientByFd fd = some p →
      ((s.clientAt p).nickname ≠ [] ∨ s.Accepts fd (lit "NICK") during) →
        ((s.play during).clientAt p).nickname ≠ [] := by
  induction during with
  | nil =>
    rintro s _ _ _ (hnick | ⟨past, t, later, h, -⟩)
    · exact hnick
    · simp at h
  | cons t during ih =>
    intro s hw hr hp hnick
    have hst := hstay t List.mem_cons_self
    refine ih (fun t' ht' => hstay t' (List.mem_cons_of_mem t ht')) (hw.act t.action)
      (hr.act hw t.action) (getClientByFd_act hw hp hst) ?_
    rcases hnick with hnick | ⟨_ | ⟨t', past⟩, u, later, h, hu⟩
    · exact .inl (nickname_turn hw hr hp hst hnick)
    · obtain ⟨rfl, rfl⟩ := List.cons.inj h
      exact .inl (nickname_of_isAccepted hw hp hu)
    · obtain ⟨rfl, rfl⟩ := List.cons.inj h
      exact .inr ⟨past, u, later, rfl, hu⟩

/-- When a registration stalls. A connection of which a PASS was accepted, and after it a NICK and a
USER, is registered and has its welcome if and only if the last USER taken while it was registering
had both names. -/
theorem run_welcome (password : Str) (before : List Turn) (addr : Addr) (fd : Fd) (host : Str)
    (during : List Turn)
    (hlife : Lifetime (ServerState.play { password := password } before) fd during) :
    let s₀ := (ServerState.play { password := password } before).act (.addClient addr fd host)
    let s := s₀.play during
    s₀.AcceptsAll fd during →
      (((∃ p, s.getClientByFd fd = some p ∧ (s.clientAt p).registered = true) ∧
          ServerState.welcomes fd (s₀.traffic during) = 1) ↔
        Runs.Since (fun s t => s.act t.action)
          (fun s t => s.registering fd = true ∧ t.isUserOf fd true = true)
          (fun s t => ¬ (s.registering fd = true ∧ t.isUserOf fd false = true)) s₀ during) := by
  intro s₀ s
  rintro ⟨past, t, later, hsplit, -, hnick, -⟩
  obtain ⟨hw₀, hr₀, -, p, hp₀, hnew⟩ := hlife.arrived addr host
  have hp : s.getClientByFd fd = some p := getClientByFd_play hlife.stays hw₀ hp₀
  -- the nick is there, and with it the password
  have hnick' : (s.clientAt p).nickname ≠ [] := by
    have hpast : ∀ t' ∈ past ++ [t], t'.isDepartureOf fd = false := by
      intro t' ht'
      refine hlife.stays t' ?_
      rw [hsplit]
      simp only [List.mem_append, List.mem_cons] at ht' ⊢
      tauto
    have hplay : s = (s₀.play (past ++ [t])).play later := by
      rw [← play_append, List.append_assoc, List.singleton_append, ← hsplit]
    rw [hplay]
    exact nickname_play (fun t' ht' => hlife.stays t' (by rw [hsplit]; simp [ht'])) (hw₀.play _)
      (hr₀.play hw₀ _) (getClientByFd_play hpast hw₀ hp₀) (.inr hnick)
  have hclient : (s.clientAt p).Enrolled := (hr₀.play hw₀ during).clients p
  obtain ⟨hcount, -⟩ := welcomes_play hlife.stays hw₀ hr₀ hp₀
  rw [hnew] at hcount
  have hgoal : ((∃ q, s.getClientByFd fd = some q ∧ (s.clientAt q).registered = true) ∧
      ServerState.welcomes fd (s₀.traffic during) = 1) ↔ (s.clientAt p).registered = true := by
    have hcount' : ServerState.welcomes fd (s₀.traffic during) = (s.clientAt p).registered.toNat :=
      hcount
    rw [hcount', hp]
    rcases hreg : (s.clientAt p).registered <;> simp [hreg]
  have hnames : (s.clientAt p).registered = true ↔
      (s.clientAt p).username ≠ [] ∧ (s.clientAt p).realname ≠ [] := by
    rw [hclient.registered, Client.canRegister_iff]
    exact ⟨fun h => h.2.2, fun h => ⟨hclient.passed (.inl hnick'), hnick', h⟩⟩
  rw [hgoal, hnames]
  refine Runs.iff_since
    (fun s : ServerState => (s.clientAt p).username ≠ [] ∧ (s.clientAt p).realname ≠ [])
    (fun h => h.1 (by rw [hnew])) during fun before' b after h => ?_
  have hbefore : ∀ t ∈ before', t.isDepartureOf fd = false := fun t' ht' =>
    hlife.stays t' (by rw [h]; simp [ht'])
  exact names_turn (hw₀.play before') (hr₀.play hw₀ before') (getClientByFd_play hbefore hw₀ hp₀)
    (hlife.stays b (by rw [h]; simp))

/-- A USER with an empty realname is accepted, and the client is never registered. -/
theorem run_welcome_blank :
    let during : List Turn := [.command 0 0 5 (Parser.parse (lit "PASS pw")) none,
      .command 0 0 5 (Parser.parse (lit "NICK a")) none,
      .command 0 0 5 (Parser.parse (lit "USER a 0 * :")) none]
    let s₀ := (ServerState.play { password := lit "pw" } []).act (.addClient 3 5 (lit "h"))
    let s := s₀.play during
    Lifetime (ServerState.play { password := lit "pw" } []) 5 during ∧ s₀.AcceptsAll 5 during ∧
      ¬ ((∃ p, s.getClientByFd 5 = some p ∧ (s.clientAt p).registered = true) ∧
        ServerState.welcomes 5 (s₀.traffic during) = 1) := by
  intro during s₀ s
  refine ⟨⟨rfl, by decide⟩, ⟨[], _, _, rfl, by decide +kernel, ⟨[], _, _, rfl, by decide +kernel⟩,
    ⟨[_], _, _, rfl, by decide +kernel⟩⟩, fun h => ?_⟩
  exact absurd h.2 (by decide +kernel)

/-- The case of a USER with an empty realname that is given again in full. -/
theorem run_welcome_again :
    let during : List Turn := [.command 0 0 5 (Parser.parse (lit "PASS pw")) none,
      .command 0 0 5 (Parser.parse (lit "NICK a")) none,
      .command 0 0 5 (Parser.parse (lit "USER a 0 * :")) none,
      .command 0 0 5 (Parser.parse (lit "USER a 0 * a")) none]
    let s₀ := (ServerState.play { password := lit "pw" } []).act (.addClient 3 5 (lit "h"))
    ServerState.welcomes 5 (s₀.traffic during) = 1 := by
  intro during s₀
  refine ((run_welcome (lit "pw") [] 3 5 (lit "h") during ⟨rfl, by decide⟩ ⟨[], _, _, rfl,
    by decide +kernel, ⟨[], _, _, rfl, by decide +kernel⟩,
    ⟨[_], _, _, rfl, by decide +kernel⟩⟩).2 ?_).2
  refine ⟨during.take 3, _, [], rfl, by decide +kernel, fun kept b rest h => ?_⟩
  simp at h

end Ircserv
