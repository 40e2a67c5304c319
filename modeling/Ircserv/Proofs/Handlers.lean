import Ircserv.Proofs.Outcome

/-!
# The handlers and their outcomes

Each handler's chain of checks is walked once: where a check fails the command is `Refused`, and
what is left at the end is what the command does, with the checks it passed.
-/

open Std

namespace Ircserv

open CommandResult ReplyBuilder

variable {addr : Addr} {fd : Fd} {msg : Message} {s : ServerState} {p : Addr}

/-- The command gives its sender an error and does nothing else. -/
def Refused (fd : Fd) (s : ServerState) (p : Addr) (handled : Handled) : Prop :=
  ∃ m, NamedReply (s.clientAt p) m ∧ handled = (reply fd m, s)

theorem Refused.outcome {handled : Handled} (h : Refused fd s p handled) :
    Outcome addr fd msg s p handled.1 handled.2 := by
  obtain ⟨m, hm, rfl⟩ := h
  exact .refused (.named hm)

namespace ChannelCommandHandler

/-- A `KICK` is refused, or an operator takes a member out of the channel. -/
theorem handleKick_cases (fd : Fd) (msg : Message) (s : ServerState) (p : Addr) :
    Refused fd s p (handleKick fd msg s p) ∨
      ∃ a q, (s.clientAt p).registered = true ∧ 2 ≤ msg.getParamCount ∧
        s.channels[msg.getSingleParam 0]? = some a ∧ p ∈ (s.channelAt a).members ∧
        (s.channelAt a).isOperator p = true ∧
        s.client.nicknameToClient[msg.getSingleParam 1]? = some q ∧ q ∈ (s.channelAt a).members ∧
        handleKick fd msg s p =
          (addRepliesToMembers {} s (s.channelAt a).getMembers
            (kick (s.clientAt p).getFullPrefix (msg.getSingleParam 0) (msg.getSingleParam 1)
              (if msg.hasParam 2 then msg.getSingleParam 2 else (s.clientAt p).nickname)) (-1),
            s.removeClientFromChannel q (msg.getSingleParam 0)) := by
  unfold handleKick
  dsimp only
  split
  · exact .inl ⟨_, .noRegistered _, rfl⟩
  rename_i hreg
  split
  · exact .inl ⟨_, .needMoreParams _ _, rfl⟩
  rename_i hn
  split
  · exact .inl ⟨_, .noSuchChannel _ _, rfl⟩
  split
  · exact .inl ⟨_, .noSuchChannel _ _, rfl⟩
  rename_i a ha
  split
  · exact .inl ⟨_, .notOnChannel _ _, rfl⟩
  rename_i hm
  split
  · exact .inl ⟨_, .chanOpPrivsNeeded _ _, rfl⟩
  rename_i hop
  split
  · exact .inl ⟨_, .noSuchNick _ _, rfl⟩
  split
  · exact .inl ⟨_, .noSuchNick _ _, rfl⟩
  rename_i q hq
  split
  · exact .inl ⟨_, .userNotInChannel _ _, rfl⟩
  rename_i hqm
  simp only [Bool.not_eq_true', Bool.not_eq_false, Channel.hasMember_iff] at hreg hm hop hqm
  exact .inr ⟨a, q, hreg, Nat.le_of_not_lt hn, ha, hm, hop, hq, hqm, rfl⟩

theorem handleKick_outcome (h : msg.command = lit "KICK") :
    Outcome addr fd msg s p (handleKick fd msg s p).1 (handleKick fd msg s p).2 := by
  rcases handleKick_cases fd msg s p with hr | ⟨a, q, hreg, -, ha, hm, hop, hq, hqm, hr⟩
  · exact hr.outcome
  · rw [hr]
    exact .kick h hreg ha hm hop hq hqm rfl

theorem handleInvite_outcome (h : msg.command = lit "INVITE") :
    Outcome addr fd msg s p (handleInvite fd msg s p).1 (handleInvite fd msg s p).2 := by
  unfold handleInvite
  dsimp only
  split
  · exact .refused (.named (.noRegistered _))
  rename_i hreg
  split
  · exact .refused (.named (.needMoreParams _ _))
  split
  · exact .refused (.named (.noSuchNick _ _))
  split
  · exact .refused (.named (.noSuchChannel _ _))
  split
  · exact .refused (.named (.noSuchNick _ _))
  rename_i q hq
  split
  · exact .refused (.named (.noSuchChannel _ _))
  rename_i a ha
  split
  · exact .refused (.named (.notOnChannel _ _))
  rename_i hm
  split
  · exact .refused (.named (.userOnChannel _ _ _))
  rename_i hqm
  split
  · exact .refused (.named (.chanOpPrivsNeeded _ _))
  rename_i hop
  simp only [Bool.not_eq_true', Bool.not_eq_false, Channel.hasMember_iff, Bool.and_eq_true,
    not_and] at hreg hm hqm hop
  exact .invite h hreg hq ha hm hqm hop

/-- A `TOPIC` is refused, or a member asks for the topic or sets it. -/
inductive TopicHandled (fd : Fd) (msg : Message) (s : ServerState) (p : Addr) : Handled → Prop
  | refused {handled : Handled} (h : Refused fd s p handled) : TopicHandled fd msg s p handled
  | answered {m : Str} (h : msg.command = lit "TOPIC" → Answer msg s p m) :
      TopicHandled fd msg s p (reply fd m, s)
  | set {a : Addr} {s' : ServerState} (hreg : (s.clientAt p).registered = true)
      (hn : msg.hasParam 1 = true) (ha : s.channels[msg.getSingleParam 0]? = some a)
      (hm : p ∈ (s.channelAt a).members)
      (hop : (s.channelAt a).modes.topicRestricted = true → (s.channelAt a).isOperator p = true)
      (hs' : s' = s.modifyChannel a (·.setTopic (msg.getSingleParam 1))) :
      TopicHandled fd msg s p (addRepliesToMembers {} s' (s'.channelAt a).getMembers
        (topic (s.clientAt p).getFullPrefix (lit "TOPIC") (msg.getSingleParam 0)
          (msg.getSingleParam 1)) (-1), s')

theorem handleTopic_cases (fd : Fd) (msg : Message) (s : ServerState) (p : Addr) :
    TopicHandled fd msg s p (handleTopic fd msg s p) := by
  unfold handleTopic
  dsimp only
  split
  · exact .refused ⟨_, .noRegistered _, rfl⟩
  rename_i hreg
  split
  · exact .refused ⟨_, .needMoreParams _ _, rfl⟩
  split
  · exact .refused ⟨_, .noSuchChannel _ _, rfl⟩
  split
  · exact .refused ⟨_, .noSuchChannel _ _, rfl⟩
  rename_i a ha
  split
  · exact .refused ⟨_, .notOnChannel _ _, rfl⟩
  rename_i hm
  simp only [Bool.not_eq_true', Bool.not_eq_false, Channel.hasMember_iff] at hreg hm
  split
  · rename_i hn
    rw [Bool.not_eq_true'] at hn
    split
    · rename_i ht
      exact .answered fun h => .noTopic h hn ha hm ht
    · rename_i ht
      exact .answered fun h => .topic h hn ha hm ht
  rename_i hn
  split
  · exact .refused ⟨_, .chanOpPrivsNeeded _ _, rfl⟩
  rename_i hop
  simp only [Bool.not_eq_true', Bool.not_eq_false, Bool.and_eq_true, not_and] at hn hop
  exact .set hreg hn ha hm hop rfl

theorem handleTopic_outcome (h : msg.command = lit "TOPIC") :
    Outcome addr fd msg s p (handleTopic fd msg s p).1 (handleTopic fd msg s p).2 := by
  rcases hx : handleTopic fd msg s p with ⟨r, s'⟩
  cases hx ▸ handleTopic_cases fd msg s p with
  | refused hr => exact hr.outcome
  | answered ha => exact .answered (ha h)
  | set hreg hn ha hm hop hs' => exact .topic h hreg hn ha hm hop hs'

theorem applyOperatorMode_cases (fd : Fd) (msg : Message) (s : ServerState) (p a : Addr)
    (channelName modeToken : Str) :
    Refused fd s p (applyOperatorMode fd msg s p a channelName modeToken) ∨
      ∃ q, msg.hasParam 2 = true ∧ s.client.nicknameToClient[msg.getSingleParam 2]? = some q ∧
        q ∈ (s.channelAt a).members ∧
        ∃ s', s' = s.modifyChannel a (·.setOperator q (modeToken.head? == some (chr '+'))) ∧
          applyOperatorMode fd msg s p a channelName modeToken =
            (addRepliesToMembers {} s' (s'.channelAt a).getMembers
              (ReplyBuilder.mode (s.clientAt p).getFullPrefix channelName modeToken
                (msg.getSingleParam 2)) (-1), s') := by
  unfold applyOperatorMode
  dsimp only
  split
  · exact .inl ⟨_, .needMoreParams _ _, rfl⟩
  rename_i hn
  split
  · exact .inl ⟨_, .noSuchNick _ _, rfl⟩
  split
  · exact .inl ⟨_, .noSuchNick _ _, rfl⟩
  rename_i q hq
  split
  · exact .inl ⟨_, .userNotInChannel _ _, rfl⟩
  rename_i hqm
  simp only [Bool.not_eq_true', Bool.not_eq_false, Channel.hasMember_iff] at hn hqm
  exact .inr ⟨q, hn, hq, hqm, _, rfl, rfl⟩

theorem changeModes_error {c : Client} {channelName modeToken message : Str} {modes : ChannelModes}
    (h : changeModes msg c channelName modeToken modes = .error message) :
    NamedReply c message := by
  unfold changeModes at h
  dsimp only at h
  split_ifs at h
  · cases h
    exact .needMoreParams _ _
  · cases h
    exact .needMoreParams _ _
  · split at h <;> cases h
    exact .invalidModeParam _ _ _ _

/-- A `MODE` is refused, or a member asks for the modes, or an operator changes them or the flag of
a member. -/
inductive ModeHandled (fd : Fd) (msg : Message) (s : ServerState) (p : Addr) : Handled → Prop
  | refused {handled : Handled} (h : Refused fd s p handled) : ModeHandled fd msg s p handled
  | query {a : Addr} (hn : msg.getParamCount = 1)
      (ha : s.channels[msg.getSingleParam 0]? = some a) (hm : p ∈ (s.channelAt a).members) :
      ModeHandled fd msg s p (reply fd (channelModeIs (s.clientAt p) (msg.getSingleParam 0)
        (buildChannelModeQuery (s.channelAt a)).1 (buildChannelModeQuery (s.channelAt a)).2), s)
  | change {a : Addr} {modes : ChannelModes} {modeArg : Str} {s' : ServerState}
      (hreg : (s.clientAt p).registered = true) (hn : 2 ≤ msg.getParamCount)
      (ha : s.channels[msg.getSingleParam 0]? = some a) (hm : p ∈ (s.channelAt a).members)
      (hop : (s.channelAt a).isOperator p = true)
      (htoken : isSupportedSingleModeToken (msg.getSingleParam 1) = true)
      (hflag : (msg.getSingleParam 1).getD 1 0 ≠ chr 'o')
      (hmodes : changeModes msg (s.clientAt p) (msg.getSingleParam 0) (msg.getSingleParam 1)
        (s.channelAt a).modes = .ok (modes, modeArg))
      (hs' : s' = s.modifyChannel a (·.setModes modes)) :
      ModeHandled fd msg s p (addRepliesToMembers {} s' (s'.channelAt a).getMembers
        (ReplyBuilder.mode (s.clientAt p).getFullPrefix (msg.getSingleParam 0)
          (msg.getSingleParam 1) modeArg) (-1), s')
  | oper {a q : Addr} {s' : ServerState}
      (hreg : (s.clientAt p).registered = true) (hn : 2 ≤ msg.getParamCount)
      (ha : s.channels[msg.getSingleParam 0]? = some a) (hm : p ∈ (s.channelAt a).members)
      (hop : (s.channelAt a).isOperator p = true)
      (htoken : isSupportedSingleModeToken (msg.getSingleParam 1) = true)
      (hflag : (msg.getSingleParam 1).getD 1 0 = chr 'o') (hparam : msg.hasParam 2 = true)
      (hq : s.client.nicknameToClient[msg.getSingleParam 2]? = some q)
      (hqm : q ∈ (s.channelAt a).members)
      (hs' : s' = s.modifyChannel a
        (·.setOperator q ((msg.getSingleParam 1).head? == some (chr '+')))) :
      ModeHandled fd msg s p (addRepliesToMembers {} s' (s'.channelAt a).getMembers
        (ReplyBuilder.mode (s.clientAt p).getFullPrefix (msg.getSingleParam 0)
          (msg.getSingleParam 1) (msg.getSingleParam 2)) (-1), s')

theorem handleMode_cases (fd : Fd) (msg : Message) (s : ServerState) (p : Addr) :
    ModeHandled fd msg s p (handleMode fd msg s p) := by
  unfold handleMode
  dsimp only
  split
  · exact .refused ⟨_, .noRegistered _, rfl⟩
  rename_i hreg
  split
  · exact .refused ⟨_, .needMoreParams _ _, rfl⟩
  rename_i hpos
  split
  · exact .refused ⟨_, .noSuchChannel _ _, rfl⟩
  split
  · exact .refused ⟨_, .noSuchChannel _ _, rfl⟩
  rename_i a ha
  split
  · exact .refused ⟨_, .notOnChannel _ _, rfl⟩
  rename_i hm
  simp only [Bool.not_eq_true', Bool.not_eq_false, Channel.hasMember_iff] at hreg hm
  split
  · rename_i hn
    exact .query hn ha hm
  rename_i hn
  have hn : 2 ≤ msg.getParamCount := by omega
  split
  · exact .refused ⟨_, .chanOpPrivsNeeded _ _, rfl⟩
  rename_i hop
  split
  · exact .refused ⟨_, .unknownMode _ _, rfl⟩
  rename_i htoken
  rw [Bool.not_eq_true', Bool.not_eq_false] at hop htoken
  split
  · rename_i hflag
    rcases applyOperatorMode_cases fd msg s p a (msg.getSingleParam 0) (msg.getSingleParam 1) with
      hr | ⟨q, hparam, hq, hqm, s', hs', hr⟩
    · exact .refused hr
    · rw [hr]
      exact .oper hreg hn ha hm hop htoken hflag hparam hq hqm hs'
  rename_i hflag
  split
  · rename_i hmodes
    exact .refused ⟨_, changeModes_error hmodes, rfl⟩
  · rename_i hmodes
    exact .change hreg hn ha hm hop htoken hflag hmodes rfl

theorem handleMode_outcome (h : msg.command = lit "MODE") :
    Outcome addr fd msg s p (handleMode fd msg s p).1 (handleMode fd msg s p).2 := by
  rcases hx : handleMode fd msg s p with ⟨r, s'⟩
  cases hx ▸ handleMode_cases fd msg s p with
  | refused hr => exact hr.outcome
  | query hn ha hm => exact .answered (.modes h hn ha hm)
  | change hreg _ ha hm hop htoken hflag hmodes hs' =>
    exact .mode h hreg ha hm hop htoken hmodes hs' hflag
  | oper hreg _ ha hm hop htoken hflag _ hq hqm hs' =>
    exact .oper h hreg ha hm hop htoken hq hqm hs' hflag

end ChannelCommandHandler

namespace CommandDispatcher

theorem handlePass_outcome (h : msg.command = lit "PASS") :
    Outcome addr fd msg s p (handlePass fd msg s p).1 (handlePass fd msg s p).2 := by
  unfold handlePass
  dsimp only
  split
  · exact .refused (.named (.needMoreParams _ _))
  rename_i hparam
  split
  · exact .refused (.named (.alreadyRegistered _))
  rename_i hreg
  rw [Bool.not_eq_true', Bool.not_eq_false] at hparam
  rw [Bool.not_eq_true] at hreg
  split
  · rename_i hpw
    exact .refused (.wrongPassword h hparam hreg hpw)
  · rename_i hpw
    exact .pass h hparam hreg (not_not.1 hpw)

theorem handleNick_outcome (h : msg.command = lit "NICK") (hpass : (s.clientAt p).passOk = true) :
    Outcome addr fd msg s p (handleNick fd msg s p).1 (handleNick fd msg s p).2 := by
  unfold handleNick
  dsimp only
  split
  · exact .refused (.named (.needMoreParams _ _))
  split
  · exact .refused (.named (.erroneousNickname _ _))
  rename_i hvalid
  rw [Bool.not_eq_true', Bool.not_eq_false] at hvalid
  rcases s.updateNick_cases p (msg.getSingleParam 0) with ⟨-, hu⟩ | ⟨q, hq, hqp, hu⟩ | ⟨-, -, hu⟩
  · rw [hu]
    exact .nick h hpass hvalid hu
  · rw [hu]
    exact .refused (.nickTaken h hvalid hq hqp)
  · rw [hu]
    exact .nick h hpass hvalid hu

theorem handleUser_outcome (h : msg.command = lit "USER") (hpass : (s.clientAt p).passOk = true) :
    Outcome addr fd msg s p (handleUser fd msg s p).1 (handleUser fd msg s p).2 := by
  unfold handleUser
  dsimp only
  split
  · exact .refused (.named (.needMoreParams _ _))
  rename_i hn
  split
  · exact .refused (.named (.alreadyRegistered _))
  rename_i hreg
  rw [Bool.not_eq_true] at hreg
  exact .user h hpass hreg (Nat.le_of_not_lt hn) rfl

theorem refuseJoin_error {c : Client} {ch : Channel} {name m : Str}
    (h : refuseJoin msg c p ch name = some m) : NamedReply c m := by
  unfold refuseJoin at h
  split_ifs at h <;> cases h
  · exact .inviteOnlyChan _ _
  · exact .badChannelKey _ _
  · exact .channelIsFull _ _

theorem addClientToChannel_some (s : ServerState) (addr p : Addr) (name : Str) :
    ∃ a s', s.addClientToChannel addr p name = (some a, s') := by
  rcases s.addClientToChannel_cases addr p name with ⟨a, -, -, hs⟩ | ⟨a, s₁, s₂, -, -, -, hs⟩
  · exact ⟨a, s, hs⟩
  · exact ⟨a, _, hs⟩

/-- A `JOIN` is refused, or the client is in the channel after it. -/
theorem handleJoin_cases (addr : Addr) (fd : Fd) (msg : Message) (s : ServerState) (p : Addr) :
    Refused fd s p (handleJoin addr fd msg s p) ∨
      (s.clientAt p).registered = true ∧ isValidChannelName (msg.getSingleParam 0) = true ∧
        (∀ b, s.channels[msg.getSingleParam 0]? = some b → p ∉ (s.channelAt b).members →
          refuseJoin msg (s.clientAt p) p (s.channelAt b) (msg.getSingleParam 0) = none) ∧
        ∃ a s', s.addClientToChannel addr p (msg.getSingleParam 0) = (some a, s') ∧
          handleJoin addr fd msg s p = (joinReplies fd s' p a (msg.getSingleParam 0), s') := by
  unfold handleJoin
  dsimp only
  split
  · exact .inl ⟨_, .noRegistered _, rfl⟩
  rename_i hreg
  split
  · exact .inl ⟨_, .needMoreParams _ _, rfl⟩
  split
  · exact .inl ⟨_, .noSuchChannel _ _, rfl⟩
  rename_i hvalid
  rw [Bool.not_eq_true', Bool.not_eq_false] at hreg hvalid
  split
  · rename_i m hrefused
    split at hrefused
    · cases hrefused
    · split_ifs at hrefused
      exact .inl ⟨_, refuseJoin_error hrefused, rfl⟩
  rename_i hrefused
  obtain ⟨a, s', hadd⟩ := addClientToChannel_some s addr p (msg.getSingleParam 0)
  refine .inr ⟨hreg, hvalid, fun b hb hmb => ?_, a, s', hadd, by rw [hadd]⟩
  rw [ServerState.getChannel, hb] at hrefused
  rw [← Channel.hasMember_iff, Bool.not_eq_true] at hmb
  simpa [hmb] using hrefused

theorem handleJoin_outcome (h : msg.command = lit "JOIN") :
    Outcome addr fd msg s p (handleJoin addr fd msg s p).1 (handleJoin addr fd msg s p).2 := by
  rcases handleJoin_cases addr fd msg s p with hr | ⟨hreg, hvalid, hadmitted, a, s', hadd, hr⟩
  · exact hr.outcome
  · rw [hr]
    exact .join h hreg hvalid hadmitted hadd

/-- A `PART` is refused, or a member leaves the channel. -/
theorem handlePart_cases (fd : Fd) (msg : Message) (s : ServerState) (p : Addr) :
    Refused fd s p (handlePart fd msg s p) ∨
      ∃ a, (s.clientAt p).registered = true ∧ s.channels[msg.getSingleParam 0]? = some a ∧
        p ∈ (s.channelAt a).members ∧ handlePart fd msg s p =
          (addRepliesToMembers {} s (s.channelAt a).getMembers
            (part (s.clientAt p).getFullPrefix (lit "PART") (msg.getSingleParam 0)) (-1),
            s.removeClientFromChannel p (msg.getSingleParam 0)) := by
  unfold handlePart
  dsimp only
  split
  · exact .inl ⟨_, .noRegistered _, rfl⟩
  rename_i hreg
  split
  · exact .inl ⟨_, .needMoreParams _ _, rfl⟩
  split
  · exact .inl ⟨_, .noSuchChannel _ _, rfl⟩
  split
  · exact .inl ⟨_, .noSuchChannel _ _, rfl⟩
  rename_i a ha
  split
  · exact .inl ⟨_, .notOnChannel _ _, rfl⟩
  rename_i hm
  simp only [Bool.not_eq_true', Bool.not_eq_false, Channel.hasMember_iff] at hreg hm
  exact .inr ⟨a, hreg, ha, hm, rfl⟩

theorem handlePart_outcome (h : msg.command = lit "PART") :
    Outcome addr fd msg s p (handlePart fd msg s p).1 (handlePart fd msg s p).2 := by
  rcases handlePart_cases fd msg s p with hr | ⟨a, hreg, ha, hm, hr⟩
  · exact hr.outcome
  · rw [hr]
    exact .part h hreg ha hm

theorem replyIf_outcome {m : Str} (b : Bool) (hm : NamedReply (s.clientAt p) m) :
    Outcome addr fd msg s p (replyIf b fd m) s := by
  cases b
  · exact .silent
  · exact .refused (.named hm)

/-- The text of the message goes to the channel at `a`. -/
structure TextToChannel (msg : Message) (s : ServerState) (p a : Addr) : Prop where
  registered : (s.clientAt p).registered = true
  enough : 2 ≤ msg.getParamCount
  hash : (msg.getSingleParam 0).head? = some (chr '#')
  valid : isValidChannelName (msg.getSingleParam 0) = true
  found : s.channels[msg.getSingleParam 0]? = some a
  member : p ∈ (s.channelAt a).members

/-- The text of the message goes to the client at `q`. -/
structure TextToNick (msg : Message) (s : ServerState) (p q : Addr) : Prop where
  registered : (s.clientAt p).registered = true
  enough : 2 ≤ msg.getParamCount
  noHash : (msg.getSingleParam 0).head? ≠ some (chr '#')
  valid : isValidNickname (msg.getSingleParam 0) = true
  found : s.client.nicknameToClient[msg.getSingleParam 0]? = some q

/-- A text goes to a channel or to a client, and otherwise there is an error. -/
theorem handleTextMessage_cases (fd : Fd) (msg : Message) (s : ServerState) (p : Addr)
    (command : Str) (replyOnError : Bool) :
    (∃ a, TextToChannel msg s p a ∧ handleTextMessage fd msg s p command replyOnError =
        (addRepliesToMembers {} s (s.channelAt a).getMembers (relayed (s.clientAt p).getFullPrefix
          command (msg.getSingleParam 0) (msg.getSingleParam 1)) fd, s)) ∨
      (∃ q, TextToNick msg s p q ∧ handleTextMessage fd msg s p command replyOnError =
        (reply (s.clientAt q).fd (relayed (s.clientAt p).getFullPrefix command
          (msg.getSingleParam 0) (msg.getSingleParam 1)), s)) ∨
      (∀ a, ¬ TextToChannel msg s p a) ∧ (∀ q, ¬ TextToNick msg s p q) ∧
        ∃ m, NamedReply (s.clientAt p) m ∧
          handleTextMessage fd msg s p command replyOnError = (replyIf replyOnError fd m, s) := by
  unfold handleTextMessage notice privmsg
  dsimp only
  rw [ite_self]
  split
  · rename_i hreg
    rw [Bool.not_eq_true'] at hreg
    exact .inr (.inr ⟨fun a h => absurd h.registered (by simp [hreg]),
      fun q h => absurd h.registered (by simp [hreg]), _, .noRegistered _, rfl⟩)
  rename_i hreg
  rw [Bool.not_eq_true', Bool.not_eq_false] at hreg
  split
  · rename_i hn
    exact .inr (.inr ⟨fun a h => absurd h.enough (by omega), fun q h => absurd h.enough (by omega),
      _, .needMoreParams _ _, rfl⟩)
  rename_i hn
  split
  · rename_i hbad
    rw [Bool.not_eq_true'] at hbad
    exact .inr (.inr ⟨fun a h => absurd h.valid (by simp [hbad.2]),
      fun q h => h.noHash hbad.1, _, .noSuchChannel _ _, rfl⟩)
  rename_i hchan
  split
  · rename_i hbad
    rw [Bool.not_eq_true'] at hbad
    exact .inr (.inr ⟨fun a h => hbad.1 h.hash, fun q h => absurd h.valid (by simp [hbad.2]),
      _, .noSuchNick _ _, rfl⟩)
  rename_i hnick
  rw [not_and, Bool.not_eq_true', Bool.not_eq_false] at hchan hnick
  split
  · rename_i hhash
    have hno : ∀ q, ¬ TextToNick msg s p q := fun q h => h.noHash hhash
    split
    · rename_i hnone
      refine .inr (.inr ⟨fun a h => ?_, hno, _, .noSuchChannel _ _, rfl⟩)
      exact absurd (h.found.symm.trans hnone) nofun
    rename_i a ha
    split
    · rename_i hm
      refine .inr (.inr ⟨fun b h => ?_, hno, _, .cannotSendToChan _ _, rfl⟩)
      cases ha.symm.trans h.found
      rw [Bool.not_eq_true', ← Bool.not_eq_true, Channel.hasMember_iff] at hm
      exact hm h.member
    rename_i hm
    rw [Bool.not_eq_true', Bool.not_eq_false, Channel.hasMember_iff] at hm
    exact .inl ⟨a, ⟨hreg, Nat.le_of_not_lt hn, hhash, hchan hhash, ha, hm⟩, rfl⟩
  · rename_i hhash
    split
    · rename_i hnone
      refine .inr (.inr ⟨fun a h => hhash h.hash, fun q h => ?_, _, .noSuchNick _ _, rfl⟩)
      exact absurd (h.found.symm.trans hnone) nofun
    rename_i q hq
    exact .inr (.inl ⟨q, ⟨hreg, Nat.le_of_not_lt hn, hhash, hnick hhash, hq⟩, rfl⟩)

theorem handleTextMessage_outcome {command : Str} (h : msg.command = command)
    (hcmd : command = lit "PRIVMSG" ∨ command = lit "NOTICE") (replyOnError : Bool) :
    Outcome addr fd msg s p (handleTextMessage fd msg s p command replyOnError).1
      (handleTextMessage fd msg s p command replyOnError).2 := by
  rcases handleTextMessage_cases fd msg s p command replyOnError with ⟨a, ht, hr⟩ | ⟨q, ht, hr⟩ |
    ⟨-, -, m, hm, hr⟩
  · rw [hr]
    exact .textChannel h hcmd ht.registered ht.found ht.member
  · rw [hr]
    exact .textNick h hcmd ht.registered ht.found
  · rw [hr]
    exact replyIf_outcome replyOnError hm

theorem ite_outcome {c : Prop} [Decidable c] {x y : Handled}
    (hx : c → Outcome addr fd msg s p x.1 x.2) (hy : ¬ c → Outcome addr fd msg s p y.1 y.2) :
    Outcome addr fd msg s p (if c then x else y).1 (if c then x else y).2 := by
  split_ifs with hc
  · exact hx hc
  · exact hy hc

theorem handleCommand_outcome (addr : Addr) (fd : Fd) (msg : Message) (s : ServerState) (p : Addr) :
    Outcome addr fd msg s p (handleCommand addr fd msg s p).1
      (handleCommand addr fd msg s p).2 := by
  unfold handleCommand
  dsimp only
  refine ite_outcome (fun hping => ite_outcome (fun _ => .refused (.named (.needMoreParams _ _)))
    fun _ => .answered (.pong hping)) fun _ => ?_
  refine ite_outcome .quit fun _ => ?_
  refine ite_outcome handlePass_outcome fun _ => ?_
  refine ite_outcome (fun hnick => ite_outcome (fun hno => .refused (.noPassword (by simpa using hno)))
    fun hok => handleNick_outcome hnick (by simpa using hok)) fun _ => ?_
  refine ite_outcome (fun huser => ite_outcome (fun hno => .refused (.noPassword (by simpa using hno)))
    fun hok => handleUser_outcome huser (by simpa using hok)) fun _ => ?_
  refine ite_outcome handleJoin_outcome fun _ => ?_
  refine ite_outcome handlePart_outcome fun _ => ?_
  refine ite_outcome (fun hpriv => handleTextMessage_outcome hpriv (.inl rfl) true) fun _ => ?_
  refine ite_outcome (fun hnotice => handleTextMessage_outcome hnotice (.inr rfl) false) fun _ => ?_
  refine ite_outcome ChannelCommandHandler.handleKick_outcome fun _ => ?_
  refine ite_outcome ChannelCommandHandler.handleInvite_outcome fun _ => ?_
  refine ite_outcome ChannelCommandHandler.handleTopic_outcome fun _ => ?_
  refine ite_outcome ChannelCommandHandler.handleMode_outcome fun _ => ?_
  exact ite_outcome (fun _ => .refused (.named (.unknownCommand _ _))) fun _ => .silent

theorem handlePong_outcome (now : Time) (monitor : Option ConnectionHealthMonitor) :
    Outcome addr fd msg s p (handlePong now fd msg (s.clientAt p) monitor).1 s := by
  unfold handlePong
  split
  · exact .refused (.named (.needMoreParams _ _))
  · exact .silent

/-- Every command of a known client has one of the outcomes. -/
theorem dispatchWith_outcome (addr : Addr) (now : Time) (msg : Message)
    (monitor : Option ConnectionHealthMonitor) (hp : s.client.fdToClient[fd]? = some p) :
    Outcome addr fd msg s p (dispatchWith addr now fd msg s monitor).1
      (dispatchWith addr now fd msg s monitor).2.1 := by
  have hp' : s.getClientByFd fd = some p := hp
  simp only [dispatchWith, hp']
  split_ifs
  · exact handlePong_outcome now monitor
  · exact handleCommand_outcome addr fd msg s p

/-- A command of an unknown descriptor does nothing. -/
theorem dispatchWith_unknown (addr : Addr) (now : Time) (msg : Message)
    (monitor : Option ConnectionHealthMonitor) (hp : s.client.fdToClient[fd]? = none) :
    dispatchWith addr now fd msg s monitor = ({}, s, monitor) := by
  have hp' : s.getClientByFd fd = none := hp
  simp only [dispatchWith, hp']

theorem dispatchWith_handleCommand (addr : Addr) (now : Time) (monitor : Option ConnectionHealthMonitor)
    (hp : s.client.fdToClient[fd]? = some p) (h : msg.command ≠ lit "PONG") :
    dispatchWith addr now fd msg s monitor =
      ((handleCommand addr fd msg s p).1, (handleCommand addr fd msg s p).2, monitor) := by
  have hp' : s.getClientByFd fd = some p := hp
  simp only [dispatchWith, hp', h, if_false]

theorem handleCommand_pass (h : msg.command = lit "PASS") :
    handleCommand addr fd msg s p = handlePass fd msg s p := by
  simp +decide [handleCommand, h]

theorem handleCommand_nick (h : msg.command = lit "NICK") : handleCommand addr fd msg s p =
    if !(s.clientAt p).passOk then (reply fd passwordMismatch, s) else handleNick fd msg s p := by
  simp +decide [handleCommand, h]

theorem handleCommand_join (h : msg.command = lit "JOIN") :
    handleCommand addr fd msg s p = handleJoin addr fd msg s p := by
  simp +decide [handleCommand, h]

theorem handleCommand_part (h : msg.command = lit "PART") :
    handleCommand addr fd msg s p = handlePart fd msg s p := by
  simp +decide [handleCommand, h]

theorem handleCommand_kick (h : msg.command = lit "KICK") :
    handleCommand addr fd msg s p = ChannelCommandHandler.handleKick fd msg s p := by
  simp +decide [handleCommand, h]

theorem handleCommand_invite (h : msg.command = lit "INVITE") :
    handleCommand addr fd msg s p = ChannelCommandHandler.handleInvite fd msg s p := by
  simp +decide [handleCommand, h]

theorem handleCommand_topic (h : msg.command = lit "TOPIC") :
    handleCommand addr fd msg s p = ChannelCommandHandler.handleTopic fd msg s p := by
  simp +decide [handleCommand, h]

theorem handleCommand_mode (h : msg.command = lit "MODE") :
    handleCommand addr fd msg s p = ChannelCommandHandler.handleMode fd msg s p := by
  simp +decide [handleCommand, h]

theorem handleCommand_privmsg (h : msg.command = lit "PRIVMSG") :
    handleCommand addr fd msg s p = handleTextMessage fd msg s p (lit "PRIVMSG") true := by
  simp +decide [handleCommand, h, handlePrivmsg]

theorem handleCommand_notice (h : msg.command = lit "NOTICE") :
    handleCommand addr fd msg s p = handleTextMessage fd msg s p (lit "NOTICE") false := by
  simp +decide [handleCommand, h, handleNotice]

end CommandDispatcher

end Ircserv
