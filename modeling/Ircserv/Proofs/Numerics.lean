import Ircserv.Proofs.Channels

/-!
# The numerics among the replies

A reply with a numeric is the answer to a query, the welcome of a client that just registered, or an
error. An error is the only reply of its command, and the command did nothing else.
-/

open Std

namespace Ircserv

open CommandResult ReplyBuilder ServerState

variable {addr : Addr} {fd : Fd} {msg : Message} {s s' : ServerState} {p q : Addr}
  {r : CommandResult} {m : OutgoingMessage} {n : Nat}

theorem numericOf_channelModeIs (c : Client) (name modes args : Str) :
    numericOf (channelModeIs c name modes args) = some 324 := by
  have hline : channelModeIs c name modes args = serverPrefix ++ (lit "324" ++ chr ' ' ::
      (replyTarget c ++ lit " " ++ name ++ lit " " ++ modes ++
        (if args = [] then [] else lit " " ++ args) ++ crlf)) := by
    unfold channelModeIs serverPrefix
    rw [show lit " " = [chr ' '] from rfl]
    split_ifs <;> simp
  rw [hline, numericOf_eq_some (by decide) (by decide)]
  decide

theorem numericOf_inviting (c : Client) (nick name : Str) :
    numericOf (inviting c nick name) = some 341 := by
  have hline : inviting c nick name = serverPrefix ++ (lit "341" ++ chr ' ' ::
      (replyTarget c ++ lit " " ++ nick ++ lit " " ++ name ++ crlf)) := by
    unfold inviting serverPrefix
    rw [show lit " " = [chr ' '] from rfl]
    simp
  rw [hline, numericOf_eq_some (by decide) (by decide)]
  decide

/-- The code of an error. -/
theorem ErrorReply.code {c : Client} {line : Str} (h : ErrorReply c line) :
    ∃ n, numericOf line = some n ∧ (401 ≤ n ∧ n ≤ 482 ∨ n = 696) := by
  have hcodes : ∀ code ∈ errorCodes, (lit code).length = 3 ∧ (lit code).all isDigit = true ∧
      (401 ≤ ChannelCommandHandler.decimal (lit code) ∧
        ChannelCommandHandler.decimal (lit code) ≤ 482 ∨
        ChannelCommandHandler.decimal (lit code) = 696) := by
    decide
  have hsub : ∀ code ∈ ["433", "464"], code ∈ errorCodes := by decide
  cases h with
  | named code _ _ hcode =>
    obtain ⟨hlen, hdigits, hrange⟩ := hcodes code hcode
    exact ⟨_, numericOf_numericReply hlen hdigits _ _ _, hrange⟩
  | starred code _ _ hcode =>
    obtain ⟨hlen, hdigits, hrange⟩ := hcodes code (hsub code hcode)
    exact ⟨_, numericOf_numericReply hlen hdigits _ _ _, hrange⟩

theorem ErrorReply.isErrorNumeric {c : Client} {line : Str} (h : ErrorReply c line) :
    isErrorNumeric line = true := by
  obtain ⟨n, hn, hrange⟩ := h.code
  rw [Ircserv.isErrorNumeric, hn, Option.any_some, decide_eq_true_eq]
  omega

/-- The word after the prefix is PONG, which has no digits. -/
theorem numericOf_pong (token : Str) : numericOf (pong token) = none := by
  have hline : pong token =
      serverPrefix ++ (lit "PON" ++ (lit "G " ++ serverName ++ lit " :" ++ token ++ crlf)) := by
    unfold pong serverPrefix
    rw [show lit " PONG " = lit " " ++ lit "PON" ++ lit "G " from rfl]
    simp
  have hcode : ((pong token).drop serverPrefix.length).take 3 = lit "PON" := by
    rw [hline, List.drop_left]
    rfl
  unfold numericOf
  dsimp only
  rw [hcode]
  exact if_neg fun h => absurd h.2.2.1 (by decide)

theorem Answer.code_mem {line : Str} (h : Answer msg s p line) (hn : numericOf line = some n) :
    n ∈ [324, 331, 332, 341, 353, 366] := by
  cases h with
  | pong =>
    rw [numericOf_pong] at hn
    cases hn
  | modes =>
    rw [numericOf_channelModeIs] at hn
    cases hn
    decide
  | noTopic | topic =>
    simp (disch := decide) only [ReplyBuilder.noTopic, topicReply, numericOf_numericReply] at hn
    cases hn
    decide

theorem mem_addRepliesToMembers {members : List Addr} {line : Str} {exceptFd : Fd}
    (hm : m ∈ (addRepliesToMembers {} s members line exceptFd).replies) : m.message = line := by
  rw [addRepliesToMembers_eq] at hm
  simp only [List.nil_append, List.mem_map] at hm
  obtain ⟨g, -, rfl⟩ := hm
  rfl

/-- The replies to a `JOIN`: the line the members get, and the topic and the names. -/
theorem mem_joinReplies {a : Addr} {name : Str}
    (hm : m ∈ (CommandDispatcher.joinReplies fd s p a name).replies) :
    m.message = join (s.clientAt p).getFullPrefix (lit "JOIN") name ∨
      ∃ code ∈ ["331", "332", "353", "366"], ∃ target params text,
        m.message = numericReply (lit code) target params text := by
  simp only [CommandDispatcher.joinReplies, CommandResult.addReply] at hm
  split_ifs at hm
  · simp only [List.mem_append, List.mem_singleton, or_assoc] at hm
    rcases hm with hm | rfl | rfl | rfl
    · exact .inl (mem_addRepliesToMembers hm)
    · exact .inr ⟨"331", by simp, _, _, _, rfl⟩
    · exact .inr ⟨"353", by simp, _, _, _, rfl⟩
    · exact .inr ⟨"366", by simp, _, _, _, rfl⟩
  · simp only [List.mem_append, List.mem_singleton, or_assoc] at hm
    rcases hm with hm | rfl | rfl | rfl
    · exact .inl (mem_addRepliesToMembers hm)
    · exact .inr ⟨"332", by simp, _, _, _, rfl⟩
    · exact .inr ⟨"353", by simp, _, _, _, rfl⟩
    · exact .inr ⟨"366", by simp, _, _, _, rfl⟩

/-- A client that is registered now is told so, and no other client is told anything. -/
theorem maybeRegister_welcome (hp : p ∈ s.client.objects) :
    (CommandDispatcher.maybeRegister p {} s).1 = {} ∧
        ((CommandDispatcher.maybeRegister p {} s).2.clientAt p).registered =
          (s.clientAt p).registered ∨
      (CommandDispatcher.maybeRegister p {} s).1 = reply (s.clientAt p).fd
          (welcome ((CommandDispatcher.maybeRegister p {} s).2.clientAt p)) ∧
        (s.clientAt p).registered = false ∧
        ((CommandDispatcher.maybeRegister p {} s).2.clientAt p).registered = true := by
  have hat : (s.modifyClient p (·.markRegistered)).clientAt p = (s.clientAt p).markRegistered := by
    simp [hp]
  unfold CommandDispatcher.maybeRegister
  dsimp only
  split_ifs with hcan
  · simp only [Bool.and_eq_true, Bool.not_eq_true'] at hcan
    refine .inr ⟨?_, hcan.1, ?_⟩
    · rw [hat]
      rfl
    · rw [hat]
      rfl
  · exact .inl ⟨rfl, rfl⟩

/-- A command that is answered leaves the health monitor alone. -/
theorem dispatchWith_monitor_of_reply {now : Time} {monitor : Option ConnectionHealthMonitor}
    (hp : s.client.fdToClient[fd]? = some p)
    (hr : (CommandDispatcher.dispatchWith addr now fd msg s monitor).1.replies ≠ []) :
    (CommandDispatcher.dispatchWith addr now fd msg s monitor).2.2 = monitor := by
  have hp' : s.getClientByFd fd = some p := hp
  simp only [CommandDispatcher.dispatchWith, hp'] at hr ⊢
  split_ifs at hr ⊢ with hpong
  · unfold CommandDispatcher.handlePong at hr ⊢
    split_ifs at hr ⊢
    · rfl
    · exact absurd rfl hr
  · rfl

namespace Outcome

/-- The replies with a numeric. -/
theorem numericOf_reply (hr : Registration s) (hp : p ∈ s.client.objects)
    (ho : Outcome addr fd msg s p r s') (hm : m ∈ r.replies) (hn : numericOf m.message = some n) :
    (∃ line, ErrorReply (s.clientAt p) line ∧ r = reply fd line ∧ s' = s) ∨
      (n = 1 ∧ (s.clientAt p).registered = false ∧ (s'.clientAt p).registered = true ∧
        r = reply (s.clientAt p).fd (welcome (s'.clientAt p))) ∨
      n ∈ [324, 331, 332, 341, 353, 366] := by
  have relay : ∀ line, m.message = line → SentBy (s.clientAt p) line →
      (s.clientAt p).registered = true → False := by
    rintro line rfl hsent hreg
    rw [numericOf_of_sentBy ((hr.clients p).valid hreg) hsent] at hn
    cases hn
  have enrolls : ∀ s₁ : ServerState, p ∈ s₁.client.objects →
      (s₁.clientAt p).registered = (s.clientAt p).registered →
      (s₁.clientAt p).fd = (s.clientAt p).fd →
      m ∈ (CommandDispatcher.maybeRegister p {} s₁).1.replies →
      n = 1 ∧ (s.clientAt p).registered = false ∧
        ((CommandDispatcher.maybeRegister p {} s₁).2.clientAt p).registered = true ∧
        (CommandDispatcher.maybeRegister p {} s₁).1 = reply (s.clientAt p).fd
          (welcome ((CommandDispatcher.maybeRegister p {} s₁).2.clientAt p)) := by
    intro s₁ hp₁ hreg hfd hm
    rcases maybeRegister_welcome hp₁ with ⟨hres, -⟩ | ⟨hres, hbefore, hafter⟩
    · rw [hres] at hm
      cases hm
    · rw [hres] at hm
      cases List.mem_singleton.1 hm
      simp (disch := decide) only [welcome, numericOf_numericReply] at hn
      cases hn
      rw [hreg] at hbefore
      rw [hfd] at hres
      exact ⟨by decide, hbefore, hafter, hres⟩
  cases ho with
  | silent | pass => cases hm
  | quit => cases hm
  | refused he => exact .inl ⟨_, he.error, rfl, rfl⟩
  | answered ha =>
    cases List.mem_singleton.1 hm
    exact .inr (.inr (ha.code_mem hn))
  | @nick s₁ _ _ _ hs' =>
    obtain ⟨hp₁, hat⟩ := clientAt_updateNick hp hs'
    exact .inr (.inl (enrolls s₁ hp₁ (by rw [hat]; rfl) (by rw [hat]; rfl) hm))
  | @user s₁ _ _ _ _ hs' =>
    have hp₁ : p ∈ s₁.client.objects := by simpa [hs'] using hp
    refine .inr (.inl (enrolls s₁ hp₁ ?_ ?_ hm))
    · simp [hs', hp, Client.setRealname, Client.setUsername]
    · simp [hs', hp, Client.setRealname, Client.setUsername]
  | @join a _ _ hreg _ _ hs' =>
    have hsame := SameClients.addClientToChannel s addr p (msg.getSingleParam 0)
    rw [hs'] at hsame
    obtain ⟨cs, hcs⟩ := hsame.data p
    have hpre : (s'.clientAt p).getFullPrefix = (s.clientAt p).getFullPrefix := by
      rw [hcs]
      rfl
    rcases mem_joinReplies hm with hline | ⟨code, hcode, target, params, text, hline⟩
    · rw [hpre] at hline
      exact (relay _ hline (.join _ _ _) hreg).elim
    · rw [hline] at hn
      simp only [List.mem_cons, List.not_mem_nil, or_false] at hcode
      rcases hcode with rfl | rfl | rfl | rfl
      all_goals
        rw [numericOf_numericReply (by decide) (by decide)] at hn
        cases hn
        exact .inr (.inr (by decide))
  | part _ hreg =>
    exact (relay _ (mem_addRepliesToMembers hm) (.part _ _ _) hreg).elim
  | textChannel _ _ hreg =>
    exact (relay _ (mem_addRepliesToMembers hm) (.relayed _ _ _ _) hreg).elim
  | textNick _ _ hreg =>
    cases List.mem_singleton.1 hm
    exact (relay _ rfl (.relayed _ _ _ _) hreg).elim
  | kick _ hreg =>
    exact (relay _ (mem_addRepliesToMembers hm) (.kick _ _ _ _) hreg).elim
  | invite _ hreg =>
    rcases List.mem_append.1 hm with hm | hm
    · cases List.mem_singleton.1 hm
      rw [numericOf_inviting] at hn
      cases hn
      exact .inr (.inr (by decide))
    · cases List.mem_singleton.1 hm
      exact (relay _ rfl (.invite _ _ _) hreg).elim
  | topic _ hreg =>
    exact (relay _ (mem_addRepliesToMembers hm) (.relayed _ _ _ _) hreg).elim
  | mode _ hreg | oper _ hreg =>
    exact (relay _ (mem_addRepliesToMembers hm) (.mode _ _ _ _) hreg).elim

end Outcome

/-- Errors are atomic: a command with an error among its replies has this reply only, to its sender,
and leaves the state, the health monitor and the connection as they were. -/
theorem run_errors (password : Str) (actions : List Action) (addr : Addr) (now : Time) (fd : Fd)
    (msg : Message) (healthMonitor : Option ConnectionHealthMonitor) :
    let s := ServerState.run password actions
    let after := CommandDispatcher.dispatchWith addr now fd msg s healthMonitor
    ∀ m ∈ after.1.replies, ∀ n, numericOf m.message = some n → 401 ≤ n ∧ n ≤ 482 ∨ n = 696 →
      after.2.1 = s ∧ after.2.2 = healthMonitor ∧ after.1.replies = [m] ∧ m.fd = fd ∧
        after.1.shouldDisconnect = false := by
  intro s after m hm n hn hcode
  have hr : Registration s := .run password actions
  have hw : WellFormed s := .run password actions
  rcases hp : s.client.fdToClient[fd]? with _ | p
  · have hafter : after = ({}, s, healthMonitor) :=
      CommandDispatcher.dispatchWith_unknown addr now msg healthMonitor hp
    rw [hafter] at hm
    cases hm
  · have hlive := (hw.links.fdOwner fd p hp).1
    have ho := CommandDispatcher.dispatchWith_outcome addr now msg healthMonitor hp
    rcases ho.numericOf_reply hr hlive hm hn with ⟨line, -, hres, hs'⟩ | ⟨rfl, -⟩ | hquery
    · have hres' : after.1 = reply fd line := hres
      rw [hres'] at hm ⊢
      cases List.mem_singleton.1 hm
      refine ⟨hs', ?_, rfl, rfl, rfl⟩
      exact dispatchWith_monitor_of_reply hp (by rw [hres]; exact List.cons_ne_nil _ _)
    · omega
    · simp only [List.mem_cons, List.not_mem_nil, or_false] at hquery
      omega

/-- The case of a limit that is no number. -/
theorem run_errors_limit :
    let s := ServerState.run [] [.addClient 3 5 (lit "h"),
      .dispatch 0 0 5 (Parser.parse (lit "PASS :")) none,
      .dispatch 0 0 5 (Parser.parse (lit "NICK a")) none,
      .dispatch 0 0 5 (Parser.parse (lit "USER a 0 * a")) none,
      .dispatch 7 0 5 (Parser.parse (lit "JOIN #c")) none]
    let after := CommandDispatcher.dispatchWith 0 0 5 (Parser.parse (lit "MODE #c +l x")) s none
    after.1.replies = [⟨5, invalidModeParam (s.clientAt 3) (lit "#c") (lit "+l") (lit "x")⟩] ∧
      after.2.1 = s := by
  have h := run_errors [] [.addClient 3 5 (lit "h"),
      .dispatch 0 0 5 (Parser.parse (lit "PASS :")) none,
      .dispatch 0 0 5 (Parser.parse (lit "NICK a")) none,
      .dispatch 0 0 5 (Parser.parse (lit "USER a 0 * a")) none,
      .dispatch 7 0 5 (Parser.parse (lit "JOIN #c")) none] 0 0 5
    (Parser.parse (lit "MODE #c +l x")) none _ (by decide +kernel :
      (⟨5, lit ":irc.local 696 a #c +l x :Invalid mode parameter" ++ crlf⟩ : OutgoingMessage) ∈ _)
    696 (by decide +kernel) (by decide)
  exact ⟨by decide +kernel, h.1⟩

end Ircserv
