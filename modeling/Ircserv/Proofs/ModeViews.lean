import Ircserv.Proofs.Modes
import Ircserv.Proofs.Topics

/-!
# The modes as the members know them

The answer to a query says all the modes of a channel, and each later MODE line says one change. A
member that has asked since it joined knows the modes as long as the arguments of all MODE commands
are plain (`run_mode_views`).
-/

open Std

namespace Ircserv

open ServerState CommandResult ReplyBuilder CommandDispatcher ChannelCommandHandler Ircserv.Parser

variable {s s' : ServerState} {p q a : Addr} {fd g : Fd} {n name line : Str}
  {msg : Message} {t : Turn}
  {c : Client} {known : Option ChannelModes} {modes : ChannelModes} {change : ModeChange}

/-- The words of the lines about modes. -/
def modeWords : List Str := [lit "324", lit "MODE"]

theorem modesHeard_quiet (h : wordOf line ∉ modeWords) : modesHeard n known line = known := by
  simp only [modeWords, List.mem_cons, List.not_mem_nil, or_false, not_or, wordOf] at h
  obtain ⟨h₁, h₂⟩ := h
  simp only [modesHeard, Message.modeNews, h₁, h₂, if_false]

theorem foldl_modesHeard_quiet : ∀ {lines : List Str}, (∀ line ∈ lines, wordOf line ∉ modeWords) →
    lines.foldl (modesHeard n) known = known
  | [], _ => rfl
  | line :: lines, h => by
    rw [List.forall_mem_cons] at h
    rw [List.foldl_cons, modesHeard_quiet h.1, foldl_modesHeard_quiet h.2]

theorem foldl_linesTo_quiet {replies : List OutgoingMessage}
    (h : ∀ m ∈ replies, wordOf m.message ∉ modeWords) :
    (linesTo fd replies).foldl (modesHeard n) known = known := by
  refine foldl_modesHeard_quiet fun line hline => ?_
  simp only [linesTo, List.mem_map, List.mem_filter] at hline
  obtain ⟨m, ⟨hm, -⟩, rfl⟩ := hline
  exact h m hm

theorem linesTo_reply : linesTo fd (reply g line).replies = if g = fd then [line] else [] := by
  by_cases hg : g = fd <;> simp [linesTo, CommandResult.reply, addReply, hg]

section Lines

/-- The answer to a query about a channel whose key is a token. -/
theorem modesHeard_query (n : Str) (known : Option ChannelModes) {ch : Channel}
    (htidy : ch.modes.Tidy) (hkey : ch.modes.hasKey = true → IsToken ch.modes.key)
    (hplain : c.Plain) (hname : IsToken name) :
    modesHeard n known
        (channelModeIs c name (buildChannelModeQuery ch).1 (buildChannelModeQuery ch).2) =
      if caseFold name = caseFold n then some ch.modes else known := by
  have hnick := isToken_of_nick hplain.nick
  have htarget : IsToken (replyTarget c) := by rwa [replyTarget, if_neg hnick.ne_nil]
  have hflags : IsToken (buildChannelModeQuery ch).1 := by
    rw [buildChannelModeQuery_flags, argumentFlags]
    split_ifs <;> decide
  have hread := (modeChanges_query htidy htarget hname).2 hkey
  obtain ⟨fuel, -, hparse⟩ := parse_channelModeIs htarget hname hflags (buildChannelModeQuery ch).2
  have habout : (parse (channelModeIs c name (buildChannelModeQuery ch).1
      (buildChannelModeQuery ch).2)).isAbout 1 n = decide (caseFold name = caseFold n) := by
    rw [hparse]
    simp [Message.isAbout, Message.getSingleParam, beq_eq_decide]
  have hcommand : (parse (channelModeIs c name (buildChannelModeQuery ch).1
      (buildChannelModeQuery ch).2)).command = lit "324" := by rw [hparse]
  rw [modesHeard, Message.modeNews, if_pos hcommand, habout, hread]
  simp

/-- A line that is read as one change of a channel. -/
theorem modesHeard_mode (n : Str) (modes : ChannelModes)
    (hcommand : (parse line).command = lit "MODE") (hname : (parse line).getSingleParam 0 = name)
    (hchanges : (parse line).modeChanges 1 = some [change]) :
    modesHeard n (some modes) line =
      some (if caseFold name = caseFold n then change.onModes modes else modes) := by
  rw [modesHeard, Message.modeNews, hcommand, if_neg (by decide), if_pos rfl, Message.isAbout,
    hname, hchanges]
  by_cases hfold : caseFold name = caseFold n <;> simp [hfold]

end Lines

section Turns

/-- A client that is in a channel, in a state of a run whose keys can all be read. -/
structure Sits (s : ServerState) (fd : Fd) (p : Addr) (n : Str) : Prop where
  orderly : Orderly s
  tidy : ∀ m ch, s.room m = some ch → ch.modes.Tidy
  keys : ∀ m ch, s.room m = some ch → ch.modes.hasKey = true → IsToken ch.modes.key
  client : s.getClientByFd fd = some p
  member : s.InRoom p n

/-- A MODE command is handled by `handleMode`. -/
theorem handleMode_turn (addr : Addr) (now : Time) (monitor : Option ConnectionHealthMonitor)
    (hg : s.getClientByFd g = some q) (hcmd : msg.command = lit "MODE") :
    (Turn.command addr now g msg monitor).result s = (handleMode g msg s q).1 ∧
      s.act (Turn.command addr now g msg monitor).action = (handleMode g msg s q).2 := by
  rw [Turn.result, Turn.action, act,
    dispatchWith_handleCommand addr now monitor hg (by rw [hcmd]; decide), handleCommand_mode hcmd]
  exact ⟨rfl, rfl⟩

/-- A MODE with one parameter changes nothing. -/
theorem handleMode_state (hn : msg.getParamCount = 1) : (handleMode g msg s q).2 = s := by
  rcases hx : handleMode g msg s q with ⟨r, s'⟩
  cases hx ▸ handleMode_cases g msg s q with
  | refused hr =>
    obtain ⟨m, -, hr⟩ := hr
    cases hr
    rfl
  | query => rfl
  | change _ hcount | oper _ hcount => omega

/-- A member that asks for the modes knows them. -/
theorem Sits.asks (known : Option ChannelModes) (h : Sits s fd p n) (ht : t.asksModes fd n = true) :
    s.act t.action = s ∧ ∀ ch, s.room n = some ch →
      (linesTo fd (t.result s).replies).foldl (modesHeard n) known = some ch.modes := by
  cases t with
  | arrive | depart => cases ht
  | command addr now g msg monitor =>
    simp only [Turn.asksModes, Bool.and_eq_true, beq_iff_eq] at ht
    obtain ⟨⟨⟨rfl, hcmd⟩, hcount⟩, hfold⟩ := ht
    obtain ⟨hres, hact⟩ := handleMode_turn addr now monitor h.client hcmd
    refine ⟨by rw [hact, handleMode_state hcount], fun ch hch => ?_⟩
    obtain ⟨old, hold, hm⟩ := h.member
    cases hch.symm.trans hold
    have hroom : s.room (msg.getSingleParam 0) = some ch := by rw [room_congr s hfold, hch]
    obtain ⟨a, ha, -⟩ := room_eq_some_iff.1 hroom
    have hplain := h.orderly.plain (h.orderly.registration.members p n h.member)
    rw [hres, handleMode_query h.orderly hcount hroom hm, linesTo_reply, if_pos rfl]
    have hline := modesHeard_query n known (h.tidy n ch hch) (h.keys n ch hch) hplain
      (h.orderly.token ha)
    rwa [if_pos hfold] at hline

/-- The line of an accepted MODE, for a member that knew the modes. -/
theorem foldl_mode (hw : WellFormed s) (hp : s.client.fdToClient[fd]? = some p) (hfd : 0 ≤ fd)
    (hin : s.InRoom p n) (ha : s.channels[name]? = some a)
    (hcommand : (parse line).command = lit "MODE") (hname : (parse line).getSingleParam 0 = name)
    (hchanges : (parse line).modeChanges 1 = some [change]) :
    (linesTo fd (addRepliesToMembers {} s (s.channelAt a).getMembers line (-1)).replies).foldl
        (modesHeard n) (some modes) =
      some (if caseFold name = caseFold n then change.onModes modes else modes) := by
  have hheard := modesHeard_mode n modes hcommand hname hchanges
  rw [linesTo_broadcast hw hp hfd]
  by_cases hm : p ∈ (s.channelAt a).members
  · rw [if_pos hm]
    exact hheard
  · have hother : caseFold name ≠ caseFold n := by
      intro hfold
      rw [InRoom, ← room_congr s hfold] at hin
      exact hm ((inRoom_iff ha).1 hin)
    rw [if_neg hm, if_neg hother]
    rfl

/-- A member that knows the modes knows them after a MODE command. -/
theorem Sits.mode (h : Sits s fd p n) (hin' : (handleMode g msg s q).2.InRoom p n)
    (hw' : WellFormed (handleMode g msg s q).2)
    (hp' : (handleMode g msg s q).2.client.fdToClient[fd]? = some p)
    (hplain : (∀ m ∈ (handleMode g msg s q).1.replies, isErrorNumeric m.message = false) →
      msg.PlainArgument)
    {ch ch' : Channel} (hch : s.room n = some ch)
      (hch' : (handleMode g msg s q).2.room n = some ch') :
    (linesTo fd (handleMode g msg s q).1.replies).foldl (modesHeard n) (some ch.modes) =
      some ch'.modes := by
  have hfd : 0 ≤ fd := by
    rw [← (h.orderly.wf.links.fdOwner fd p h.client).2]
    exact (h.orderly.tidy p).fd
  rcases hx : handleMode g msg s q with ⟨r, s'⟩
  rw [hx] at hin' hw' hp' hplain hch'
  dsimp only at hin' hw' hp' hplain hch' ⊢
  cases hx ▸ handleMode_cases g msg s q with
  | refused hr =>
    obtain ⟨m, hm, hr⟩ := hr
    cases hr
    cases hch.symm.trans hch'
    have herrors : ∀ w ∈ errorCodes.map lit, w ∉ modeWords := by decide +kernel
    refine foldl_linesTo_quiet fun m' hm' => ?_
    cases List.mem_singleton.1 hm'
    exact herrors _ (wordOf_error hm.error)
  | @query a hcount ha hm =>
    cases hch.symm.trans hch'
    have hreg := h.orderly.registration.members q _ (inRoom_of_mem h.orderly.wf.links hm)
    have hroom := room_eq ha
    have hline := modesHeard_query n (some ch.modes) (h.tidy _ _ hroom) (h.keys _ _ hroom)
      (h.orderly.plain hreg) (h.orderly.token ha)
    rw [linesTo_reply]
    split_ifs
    · rw [List.foldl_cons, List.foldl_nil, hline]
      split_ifs with hfold
      · rw [room_of_spelling ha hfold] at hch
        cases hch
        rfl
      · rfl
    · rfl
  | @change a modes modeArg s₁ hreg hcount ha hm hop htoken hflag hmodes hs' =>
    obtain ⟨change, hread, -, rfl⟩ := changeModes_read htoken hflag hmodes
    subst hs'
    have hname := parse_mode_name (h.orderly.plain hreg) (h.orderly.token ha)
      (isToken_of_modeToken htoken) modeArg
    have hchanges :=
      (modeChanges_line (h.orderly.plain hreg) (h.orderly.token ha) htoken hread).2 (by
      have harg := hplain fun m hm => by
        rw [mem_addRepliesToMembers hm, isErrorNumeric,
          numericOf_of_sentBy (h.orderly.plain hreg).nick (SentBy.mode _ _ _ _)]
        rfl
      simp only [Message.PlainArgument, ← isToken_iff] at harg
      exact harg)
    rw [foldl_mode (s := s.modifyChannel a _) hw' hp' hfd hin' ha hname.1 hname.2 hchanges]
    rw [room_modifyChannel h.orderly.wf.links ha] at hch'
    split_ifs at hch' ⊢ with hfold
    · rw [room_of_spelling ha hfold] at hch
      cases hch
      cases hch'
      rfl
    · cases hch.symm.trans hch'
      rfl
  | @oper a r s₁ hreg hcount ha hm hop htoken hflag hparam hq hqm hs' =>
    subst hs'
    have hname := parse_mode_name (h.orderly.plain hreg) (h.orderly.token ha)
      (isToken_of_modeToken htoken)
      (msg.getSingleParam 2)
    have hword := modeToken_eq htoken hflag
    have hchanges := modeChanges_operator (h.orderly.plain hreg) (h.orderly.token ha)
      (h.orderly.nick_token hq)
      ((msg.getSingleParam 1).head? == some (chr '+'))
    rw [← hword] at hchanges
    rw [foldl_mode (s := s.modifyChannel a _) hw' hp' hfd hin' ha hname.1 hname.2 hchanges]
    have hsame := settings_modifyChannel h.orderly.wf.links ha hch hch' fun _ => rfl
    rw [show ch'.modes = ch.modes from congrArg Prod.snd hsame]
    split_ifs <;> rfl

/-- A member that knows the modes knows them after a turn in which it stays. -/
theorem Sits.step (h : Sits s fd p n) (ht : t.Real) (hplain : t.PlainMode s)
    (hp' : (s.act t.action).getClientByFd fd = some p) (hin' : (s.act t.action).InRoom p n)
    {ch ch' : Channel} (hch : s.room n = some ch) (hch' : (s.act t.action).room n = some ch') :
    (linesTo fd (t.result s).replies).foldl (modesHeard n) (some ch.modes) = some ch'.modes := by
  have hw' := (h.orderly.turn ht).wf
  rcases turn_cases s t with ⟨hs, hres⟩ | ⟨addr, g, host, rfl, hg⟩ |
    ⟨addr, now, g, msg, monitor, q, rfl, hg, ho⟩ | ⟨g, reason, q, rfl, hg⟩
  · rw [hs] at hch'
    cases hch.symm.trans hch'
    rw [hres]
    rfl
  · rw [show (s.act (Turn.arrive addr g host).action).room n = s.room n from rfl] at hch'
    cases hch.symm.trans hch'
    rfl
  · by_cases hcmd : msg.command = lit "MODE"
    · obtain ⟨hres, hact⟩ := handleMode_turn addr now monitor hg hcmd
      rw [hres]
      rw [hact] at hp' hin' hch' hw'
      refine h.mode hin' hw' hp' (fun hok => hplain ?_) hch hch'
      have hall : ((Turn.command addr now g msg monitor).result s).replies.all
          (fun m => m.fd != g || !isErrorNumeric m.message) = true := by
        rw [hres]
        refine List.all_eq_true.2 fun m hm => ?_
        simp [hok m hm]
      rw [Turn.result] at hall
      simp [Turn.isAccepted, hcmd, hall]
    · have hmodes : ch'.modes = ch.modes := by
        rcases ho.room_settings h.orderly hch hch' with hsame | ⟨hsame, -⟩ | ⟨hmode, -⟩
        · exact congrArg Prod.snd hsame
        · exact hsame
        · exact absurd hmode hcmd
      rw [hmodes]
      refine foldl_linesTo_quiet fun m hm hword => hcmd ?_
      simpa using Outcome.command_of_word modeWords [lit "MODE"] (by decide +kernel)
        (by decide +kernel)
        h.orderly ho hm hword
  · rw [show ch'.modes = ch.modes from congrArg Prod.snd
      (settings_removeClient h.orderly.wf hg hch hch')]
    obtain ⟨fds, hb, -, hmem⟩ := DisconnectNotifier.build_spec h.orderly.wf.links hg reason
    refine foldl_linesTo_quiet fun m hm => ?_
    rw [Turn.result, hb, DisconnectNotifier.broadcast] at hm
    obtain ⟨g', hg', rfl⟩ := List.mem_map.1 hm
    obtain ⟨-, ⟨-, a, hqm, -⟩, -⟩ := (hmem g').1 hg'
    rw [wordOf_quit
      (h.orderly.plain (h.orderly.registration.members q _ (inRoom_of_mem h.orderly.wf.links hqm)))]
    decide

end Turns

section Runs

/-- A member that knows the modes knows them as long as it stays. -/
theorem modesOf_traffic : ∀ (after : List Turn) {s : ServerState} {ch ch' : Channel},
    (∀ t ∈ after, t.Real) →
    (∀ past t later, after = past ++ t :: later → t.PlainMode (s.play past)) →
    (∀ past rest, after = past ++ rest → Sits (s.play past) fd p n) → s.room n = some ch →
    (s.play after).room n = some ch' →
    (linesTo fd (s.traffic after)).foldl (modesHeard n) (some ch.modes) = some ch'.modes
  | [], _, _, _, _, _, _, hch, hch' => by
    cases hch.symm.trans hch'
    rfl
  | t :: after, s, ch, ch', hreal, hplain, hsits, hch, hch' => by
    have hnow : Sits s fd p n := hsits [] (t :: after) rfl
    have hnext : Sits (s.act t.action) fd p n := hsits [t] after rfl
    obtain ⟨ch₁, hch₁, -⟩ := hnext.member
    have hturn := hnow.step (hreal t List.mem_cons_self)
      (hplain [] t after rfl) hnext.client hnext.member hch hch₁
    rw [traffic, linesTo_append, List.foldl_append, hturn]
    exact modesOf_traffic after (fun u hu => hreal u (List.mem_cons_of_mem t hu))
      (fun past u later hu => hplain (t :: past) u later (by rw [hu]; rfl))
      (fun past rest hu => hsits (t :: past) rest (by rw [hu]; rfl)) hch₁ hch'

/-- The key that a MODE gives is a token when its argument is plain. -/
theorem isToken_keyGiven {word : Str} (hplain : t.PlainMode s) (hword : t.keyGiven s = some word) :
    IsToken word := by
  cases t with
  | arrive | depart => cases hword
  | command addr now g msg monitor =>
    simp only [Turn.keyGiven] at hword
    split_ifs at hword with hkey
    cases hword
    exact (isToken_iff _).2 ((hplain hkey.2).1 hkey.1)

/-- The client of a descriptor that is known arrived before. -/
theorem SinceArrival.asked {start : ServerState} {turns before after : List Turn}
    {commands : List Message}
    {lines : List Str} (h : SinceArrival start fd turns commands lines)
    (hturns : turns = before ++ t :: after) (ht : t.isCommandOf fd = true)
    (hstays : ∀ past rest, after = past ++ rest →
      (start.play (before ++ t :: past)).getClientByFd fd ≠ none) :
    ∃ first, lines = linesTo fd first ++ linesTo fd ((start.play before).traffic (t :: after)) := by
  obtain ⟨arrived, addr, host, during, hsplit, hlife, -, rfl⟩ := h
  rw [hsplit] at hturns
  rcases List.append_eq_append_iff.1 hturns with ⟨mid, hbefore, hmid⟩ | ⟨mid, harrived, hmid⟩
  · rcases mid with _ | ⟨u, mid⟩
    · cases hmid
      cases ht
    · rw [List.cons_append, List.cons.injEq] at hmid
      obtain ⟨rfl, rfl⟩ := hmid
      refine ⟨(start.play (arrived ++ [.arrive addr fd host])).traffic mid, ?_⟩
      rw [traffic_append, linesTo_append, hbefore, ← play_append]
      simp
  · rcases mid with _ | ⟨u, mid⟩
    · cases hmid
      cases ht
    · cases hmid
      exact absurd (harrived ▸ hlife.free) (hstays mid _ rfl)

/-- A member that has asked for the modes of its channel while it was in it, and has not left since,
knows them: the answer says the modes, and each MODE line a change, as long as no MODE is accepted
whose argument is not plain. -/
theorem run_mode_views (password : Str) (turns : List Turn) (hreal : ∀ t ∈ turns, t.Real)
    (hplain : ∀ past t later, turns = past ++ t :: later →
      t.PlainMode (play { password := password } past)) :
    let start : ServerState := { password := password }
    ∀ fd p n ch commands lines before t after, SinceArrival start fd turns commands lines →
      turns = before ++ t :: after → t.asksModes fd n = true →
      (∀ past rest, after = past ++ rest →
        (start.play (before ++ t :: past)).getClientByFd fd = some p ∧
        (start.play (before ++ t :: past)).InRoom p n) →
      (start.play turns).room n = some ch → modesOf n lines = some ch.modes := by
  intro start fd p n ch commands lines before t after hsince hturns hasks hstays hch
  have hown : t.isCommandOf fd = true ∧ ¬ Joins p n (start.play before) t.action := by
    cases t with
    | arrive | depart => cases hasks
    | command addr now g msg monitor =>
      simp only [Turn.asksModes, Bool.and_eq_true, beq_iff_eq] at hasks
      refine ⟨beq_iff_eq.2 hasks.1.1.1, fun hj => ?_⟩
      have hjoin := hj.2.1
      rw [hasks.1.1.2] at hjoin
      exact absurd hjoin (by decide)
  obtain ⟨hown, hjoin⟩ := hown
  have hsits : ∀ past rest, turns = past ++ rest →
      ∀ p, (start.play past).getClientByFd fd = some p →
      (start.play past).InRoom p n → Sits (start.play past) fd p n := by
    intro past rest hpast p hp hin
    have hreal' : ∀ u ∈ past, u.Real := fun u hu =>
      hreal u (by rw [hpast]; exact List.mem_append_left rest hu)
    refine ⟨(Orderly.start password).play past hreal',
      fun m ch hch => tidy_play password past hreal' hch,
      fun m ch hch => ?_, hp, hin⟩
    exact key_play password past hreal' (fun kept u later word hu hword => isToken_keyGiven
      (hplain kept u (later ++ rest) (by rw [hpast, hu]; simp)) hword) hch
  obtain ⟨first, rfl⟩ :=
    hsince.asked hturns hown fun past rest h => by simp [(hstays past rest h).1]
  have hafter := hstays [] after rfl
  have hw : WellFormed (start.play before) := WellFormed.play (.start password) before
  rw [play_concat] at hafter
  obtain ⟨hp₀, hin₀, -⟩ := inRoom_before hw hafter.1 hafter.2 hjoin
  obtain ⟨hsame, hasked⟩ := Sits.asks ((linesTo fd first).foldl (modesHeard n) none)
    (hsits before (t :: after) hturns p hp₀ hin₀) hasks
  obtain ⟨ch₀, hch₀, -⟩ := hin₀
  have hpast : ∀ past, start.play (before ++ t :: past) = (start.play before).play past := by
    intro past
    have hcons : (start.play before).play (t :: past) =
        ((start.play before).act t.action).play past := rfl
    rw [play_append, hcons, hsame]
  rw [hturns, hpast] at hch
  rw [modesOf, List.foldl_append, traffic, linesTo_append, List.foldl_append,
    hasked ch₀ hch₀, hsame]
  refine modesOf_traffic (p := p) after (fun u hu => hreal u (by simp [hturns, hu]))
    (fun past u later hu => ?_)
    (fun past rest hu => ?_) hch₀ hch
  · rw [← hpast]
    exact hplain (before ++ t :: past) u later (by simp [hturns, hu])
  · rw [← hpast]
    exact hsits _ rest (by simp [hturns, hu]) p (hstays past rest hu).1 (hstays past rest hu).2

/-- The case of a member that sets a key, asks, and then sets a limit. -/
theorem run_mode_views_key :
    let start : ServerState := { password := lit "pw" }
    let arrive : Turn := .arrive 3 5 (lit "h")
    let during : List Turn := [.command 0 0 5 (parse (lit "PASS pw")) none,
      .command 0 0 5 (parse (lit "NICK a")) none, .command 0 0 5 (parse (lit "USER a 0 * a")) none,
      .command 7 0 5 (parse (lit "JOIN #c")) none, .command 0 0 5 (parse (lit "MODE #c +k b")) none,
      .command 0 0 5 (parse (lit "MODE #C")) none,
      .command 0 0 5 (parse (lit "MODE #c +l :+12")) none]
    modesOf (lit "#c") (linesTo 5 ((start.play [arrive]).traffic during)) =
      some { hasKey := true, key := lit "b", limit := 12 } := by
  intro start arrive during
  have hreal : ∀ t ∈ arrive :: during, t.Real := by
    simp only [arrive, during, List.forall_mem_cons, Turn.Real]
    exact ⟨by decide, ⟨_, rfl⟩, ⟨_, rfl⟩, ⟨_, rfl⟩, ⟨_, rfl⟩, ⟨_, rfl⟩, ⟨_, rfl⟩, ⟨_, rfl⟩, by simp⟩
  have hplain : ∀ t ∈ arrive :: during, ∀ s, t.PlainMode s := by
    simp only [arrive, during, List.forall_mem_cons]
    exact ⟨fun _ => trivial, fun _ _ => by decide +kernel, fun _ _ => by decide +kernel,
      fun _ _ => by decide +kernel, fun _ _ => by decide +kernel, fun _ _ => by decide +kernel,
      fun _ _ => by decide +kernel, fun _ _ => by decide +kernel, by simp⟩
  have hstays : ∀ k : Fin 2, (start.play (arrive :: during.take (6 + k))).getClientByFd 5 = some 3 ∧
      (start.play (arrive :: during.take (6 + k))).InRoom 3 (lit "#c") := by decide +kernel
  obtain ⟨ch, hch, hmodes⟩ : ∃ ch, (start.play (arrive :: during)).room (lit "#c") = some ch ∧
      ch.modes = { hasKey := true, key := lit "b", limit := 12 } := by
    refine ⟨((start.play (arrive :: during)).room (lit "#c")).get (by decide +kernel),
      (Option.some_get _).symm, by decide +kernel⟩
  rw [← hmodes]
  refine run_mode_views (lit "pw") (arrive :: during) hreal
    (fun past t later h => hplain t (by rw [h]; simp) _) 5 3 (lit "#c") ch _ _
    (arrive :: during.take 5) _ (during.drop 6)
    ⟨[], 3, lit "h", during, rfl, ⟨by decide +kernel, by decide +kernel⟩, rfl, rfl⟩ rfl
    (by decide +kernel) (fun past rest h => ?_) hch
  rcases List.append_eq_singleton_iff.1 h.symm with ⟨rfl, -⟩ | ⟨rfl, -⟩
  · exact hstays 0
  · exact hstays 1

end Runs

end Ircserv
