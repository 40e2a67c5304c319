import Ircserv.Proofs.Guests
import Ircserv.Proofs.Parsing

/-!
# Whom a numeric names

A numeric goes to the sender of the command, and its first parameter is the sender's nick, or a star
before there is one (`Outcome.targeted`). The replies to a wrong password and to a nick in use have
the star whatever the nick is, and no others do (`run_targets`).
-/

open Std

namespace Ircserv

open ServerState CommandResult Ircserv.Parser ReplyBuilder

variable {s s' : ServerState} {c : Client} {p : Addr} {fd : Fd} {msg : Message} {r : CommandResult}
  {target line : Str} {addr : Addr}

/-- Every numeric of the result goes to `fd`, and has this first parameter. -/
def Targeted (fd : Fd) (target : Str) (r : CommandResult) : Prop :=
  ∀ m ∈ r.replies, numericOf m.message ≠ none →
    m.fd = fd ∧ (parse m.message).params.head? = some target

/-- A client with a nick gives a wrong password before it is registered, or asks for a nick that
another client has. -/
def Starred (msg : Message) (s : ServerState) (p : Addr) : Prop :=
  (s.clientAt p).nickname ≠ [] ∧
    (msg.command = lit "PASS" ∧ msg.hasParam 0 = true ∧ (s.clientAt p).registered = false ∧
        msg.getSingleParam 0 ≠ s.password ∨
      msg.command = lit "NICK" ∧ isValidNickname (msg.getSingleParam 0) = true ∧
        ∃ q, s.getClientByNick (msg.getSingleParam 0) = some q ∧ q ≠ p)

theorem head?_params {code rest : Str} (hcode : IsToken code) (htarget : IsToken target)
    (hrest : EndsToken rest) :
    (parse (lit ":" ++ serverName ++ lit " " ++ code ++ spaced [target] ++ rest ++ crlf)).params.head? =
      some target := by
  obtain ⟨fuel, -, hparse⟩ := parse_spaced code [target] rest (show chr ' ' ∉ serverName by decide)
    hcode (by simpa using htarget) hrest
  rw [hparse]
  rfl

theorem head?_numericReply {code : Str} (hcode : IsToken code) (htarget : IsToken target)
    (params text : Str) :
    (parse (numericReply code target params text)).params.head? = some target := by
  have hshape : numericReply code target params text =
      lit ":" ++ serverName ++ lit " " ++ code ++ spaced [target] ++
        ((if params = [] then [] else lit " " ++ params) ++ (lit " :" ++ text)) ++ crlf := by
    unfold numericReply
    rw [show lit " " = [chr ' '] from rfl]
    split_ifs <;> simp [spaced]
  have hrest : EndsToken ((if params = [] then [] else lit " " ++ params) ++ (lit " :" ++ text)) := by
    split_ifs
    · exact endsToken_space _
    · exact endsToken_space _
  rw [hshape, head?_params hcode htarget hrest]

theorem head?_channelModeIs (htarget : IsToken (replyTarget c)) (name modes args : Str) :
    (parse (channelModeIs c name modes args)).params.head? = some (replyTarget c) := by
  have hshape : channelModeIs c name modes args = lit ":" ++ serverName ++ lit " " ++ lit "324" ++
      spaced [replyTarget c] ++ chr ' ' :: (name ++ lit " " ++ modes ++
        if args = [] then [] else lit " " ++ args) ++ crlf := by
    unfold channelModeIs
    rw [show lit " " = [chr ' '] from rfl]
    split_ifs <;> simp [spaced]
  rw [hshape, head?_params (by decide) htarget (endsToken_space _)]

theorem head?_inviting (htarget : IsToken (replyTarget c)) (nick name : Str) :
    (parse (inviting c nick name)).params.head? = some (replyTarget c) := by
  have hshape : inviting c nick name = lit ":" ++ serverName ++ lit " " ++ lit "341" ++
      spaced [replyTarget c] ++ chr ' ' :: (nick ++ lit " " ++ name) ++ crlf := by
    unfold inviting
    rw [show lit " " = [chr ' '] from rfl]
    simp [spaced]
  rw [hshape, head?_params (by decide) htarget (endsToken_space _)]

namespace Targeted

theorem nil : Targeted fd target {} := nofun

theorem addReply {g : Fd} (h : Targeted fd target r) (hline : numericOf line ≠ none →
    g = fd ∧ (parse line).params.head? = some target) : Targeted fd target (r.addReply g line) := by
  intro m hm hn
  rcases List.mem_append.1 hm with hm | hm
  · exact h m hm hn
  · cases List.mem_singleton.1 hm
    exact hline hn

theorem reply {g : Fd} (hline : numericOf line ≠ none →
    g = fd ∧ (parse line).params.head? = some target) :
    Targeted fd target (CommandResult.reply g line) := addReply nil hline

theorem numeric {code params text : Str} (h : Targeted fd target r) (hcode : IsToken code)
    (htarget : IsToken target) :
    Targeted fd target (r.addReply fd (numericReply code target params text)) :=
  h.addReply fun _ => ⟨rfl, head?_numericReply hcode htarget params text⟩

/-- What is sent in a client's name is no numeric. -/
theorem members (hnick : isValidNickname c.nickname = true) (hline : SentBy c line) (s : ServerState)
    (ps : List Addr) (exceptFd : Fd) :
    Targeted fd target (addRepliesToMembers {} s ps line exceptFd) := by
  intro m hm hn
  rw [mem_addRepliesToMembers hm] at hn
  exact absurd (numericOf_of_sentBy hnick hline) hn

end Targeted

theorem isToken_replyTarget (h : c.Enrolled) : IsToken (replyTarget c) := by
  unfold replyTarget
  split_ifs with hnick
  · decide
  · exact isToken_of_nick (h.nick hnick)

/-- A client that a NICK or a USER registers is welcomed by its nick. -/
theorem maybeRegister_targeted (h : ((CommandDispatcher.maybeRegister p {} s).2.clientAt p).Enrolled)
    (hp : p ∈ s.client.objects) :
    Targeted (s.clientAt p).fd
      (replyTarget ((CommandDispatcher.maybeRegister p {} s).2.clientAt p))
      (CommandDispatcher.maybeRegister p {} s).1 := by
  rcases maybeRegister_welcome hp with ⟨hres, -⟩ | ⟨hres, -, hreg⟩
  · rw [hres]
    exact .nil
  · have hne := isValidNickname_ne_nil (h.valid hreg)
    have htarget := isToken_replyTarget h
    rw [hres]
    rw [replyTarget, if_neg hne] at htarget ⊢
    exact Targeted.nil.numeric (by decide) htarget

theorem joinReplies_targeted (h : (s.clientAt p).Enrolled) (hreg : (s.clientAt p).registered = true)
    (a : Addr) (name : Str) :
    Targeted fd (replyTarget (s.clientAt p)) (CommandDispatcher.joinReplies fd s p a name) := by
  have htarget := isToken_replyTarget h
  have hjoin : Targeted fd (replyTarget (s.clientAt p)) (addRepliesToMembers {} s
      (s.channelAt a).getMembers (join (s.clientAt p).getFullPrefix (lit "JOIN") name) (-1)) :=
    .members (h.valid hreg) (.join _ _ _) s _ _
  unfold CommandDispatcher.joinReplies
  dsimp only
  split_ifs
  · exact ((hjoin.numeric (by decide) htarget).numeric (by decide) htarget).numeric (by decide) htarget
  · exact ((hjoin.numeric (by decide) htarget).numeric (by decide) htarget).numeric (by decide) htarget

theorem Refusal.targeted (hr : Registration s) (hno : ¬ Starred msg s p) (h : Refusal msg s p line) :
    (parse line).params.head? = some (replyTarget (s.clientAt p)) := by
  have hcodes : ∀ code ∈ errorCodes, IsToken (lit code) := by decide +kernel
  have hstar : (s.clientAt p).nickname = [] → replyTarget (s.clientAt p) = lit "*" := fun h => if_pos h
  cases h with
  | named h =>
    cases h with
    | mk code _ _ hcode =>
      exact head?_numericReply (hcodes code hcode) (isToken_replyTarget (hr.clients p)) _ _
  | wrongPassword hcmd hparam hreg hpw =>
    rw [hstar (not_not.1 fun hnick => hno ⟨hnick, .inl ⟨hcmd, hparam, hreg, hpw⟩⟩)]
    exact head?_numericReply (by decide) (by decide) _ _
  | noPassword hpass =>
    rw [hstar (not_not.1 fun hnick => by simp [(hr.clients p).passed (.inl hnick)] at hpass)]
    exact head?_numericReply (by decide) (by decide) _ _
  | nickTaken hcmd hvalid hq hqp =>
    rw [hstar (not_not.1 fun hnick => hno ⟨hnick, .inr ⟨hcmd, hvalid, _, hq, hqp⟩⟩)]
    exact head?_numericReply (by decide) (by decide) _ _

theorem Answer.targeted (hr : Registration s) (h : Answer msg s p line) (hn : numericOf line ≠ none) :
    (parse line).params.head? = some (replyTarget (s.clientAt p)) := by
  have htarget := isToken_replyTarget (hr.clients p)
  cases h with
  | pong => exact absurd (numericOf_pong _) hn
  | modes => exact head?_channelModeIs htarget _ _ _
  | noTopic | topic => exact head?_numericReply (by decide) htarget _ _

/-- A command that is not refused with a star has numerics for its sender only, by its nick. -/
theorem Outcome.targeted (hr : Registration s) (hr' : Registration s') (hw : WellFormed s)
    (hp : s.client.fdToClient[fd]? = some p) (ho : Outcome addr fd msg s p r s')
    (hno : ¬ Starred msg s p) : Targeted fd (replyTarget (s'.clientAt p)) r := by
  obtain ⟨hlive, hfd⟩ := hw.links.fdOwner fd p hp
  have hvalid := (hr.clients p).valid
  cases ho with
  | silent | pass | quit => exact .nil
  | refused h => exact .reply fun _ => ⟨rfl, h.targeted hr hno⟩
  | answered h => exact .reply fun hn => ⟨rfl, h.targeted hr hn⟩
  | nick _ _ _ hs' =>
    obtain ⟨hp₁, hat⟩ := clientAt_updateNick hlive hs'
    have htarget := maybeRegister_targeted (hr'.clients p) hp₁
    rwa [hat, show ((s.clientAt p).setNick (msg.getSingleParam 0)).fd = fd from hfd] at htarget
  | @user s₁ _ _ _ _ hs' =>
    have hp₁ : p ∈ s₁.client.objects := by simpa [hs'] using hlive
    have htarget := maybeRegister_targeted (hr'.clients p) hp₁
    have hfd₁ : (s₁.clientAt p).fd = fd := by
      simp [hs', hlive, Client.setRealname, Client.setUsername, hfd]
    rwa [hfd₁] at htarget
  | @join a _ _ hreg _ _ hs' =>
    have hsame := SameClients.addClientToChannel s addr p (msg.getSingleParam 0)
    rw [hs'] at hsame
    obtain ⟨cs, hcs⟩ := hsame.data p
    exact joinReplies_targeted (hr'.clients p) (by rw [hcs]; exact hreg) a _
  | part _ hreg => exact .members (hvalid hreg) (.part _ _ _) _ _ _
  | textChannel _ _ hreg => exact .members (hvalid hreg) (.relayed _ _ _ _) _ _ _
  | textNick _ _ hreg =>
    exact .reply fun hn => absurd (numericOf_of_sentBy (hvalid hreg) (.relayed _ _ _ _)) hn
  | kick _ hreg => exact .members (hvalid hreg) (.kick _ _ _ _) _ _ _
  | invite _ hreg =>
    have hinviting := head?_inviting (isToken_replyTarget (hr.clients p)) (msg.getSingleParam 0)
      (msg.getSingleParam 1)
    have hinvite := numericOf_of_sentBy (hvalid hreg)
      (.invite _ (msg.getSingleParam 0) (msg.getSingleParam 1))
    exact Targeted.addReply (.reply fun _ => ⟨rfl, hinviting⟩) fun hn => absurd hinvite hn
  | topic _ hreg => exact .members (hvalid hreg) (.relayed _ _ _ _) _ _ _
  | mode _ hreg | oper _ hreg => exact .members (hvalid hreg) (.mode _ _ _ _) _ _ _

/-- A star stands where the nick is missing. -/
theorem Starred.refused (hr : Registration s) (hw : WellFormed s)
    (hp : s.client.fdToClient[fd]? = some p) (h : Starred msg s p) (addr : Addr) (now : Time)
    (monitor : Option ConnectionHealthMonitor) :
    (CommandDispatcher.dispatchWith addr now fd msg s monitor).2.1 = s ∧ ∃ line,
      (CommandDispatcher.dispatchWith addr now fd msg s monitor).1 = reply fd line ∧
        numericOf line ≠ none ∧ (parse line).params.head? = some (lit "*") := by
  obtain ⟨hnick, ⟨hcmd, hparam, hreg, hpw⟩ | ⟨hcmd, hvalid, q, hq, hqp⟩⟩ := h
  · rw [CommandDispatcher.dispatchWith_handleCommand addr now monitor hp (by rw [hcmd]; decide),
      CommandDispatcher.handleCommand_pass hcmd]
    simp only [CommandDispatcher.handlePass, hparam, hreg, hpw, Bool.not_true, Bool.false_eq_true,
      if_false, ne_eq, not_false_eq_true, if_true]
    refine ⟨trivial, _, rfl, ?_, head?_numericReply (by decide) (by decide) _ _⟩
    rw [passwordMismatch, numericOf_numericReply (by decide) (by decide)]
    exact Option.some_ne_none _
  · have hpass : (s.clientAt p).passOk = true := (hr.clients p).passed (.inl hnick)
    have hown : (s.clientAt p).nickname ≠ msg.getSingleParam 0 := by
      intro hsame
      have hself := (hw.getClientByNick_iff hnick).2 ⟨(hw.links.fdOwner fd p hp).1, rfl⟩
      rw [hsame, hq] at hself
      exact hqp (Option.some.inj hself)
    have htaken : s.updateNick p (msg.getSingleParam 0) = (false, s) := by
      rcases s.updateNick_cases p (msg.getSingleParam 0) with ⟨hsame, -⟩ | ⟨-, -, -, hu⟩ | ⟨-, hmine, -⟩
      · exact absurd hsame hown
      · exact hu
      · exact absurd (hmine q hq) hqp
    have hparam := Message.hasParam_of_ne_nil (isValidNickname_ne_nil hvalid)
    rw [CommandDispatcher.dispatchWith_handleCommand addr now monitor hp (by rw [hcmd]; decide),
      CommandDispatcher.handleCommand_nick hcmd]
    simp only [CommandDispatcher.handleNick, hpass, hparam, hvalid, htaken, Bool.not_true,
      Bool.not_false, Bool.false_eq_true, if_false, if_true]
    refine ⟨trivial, _, rfl, ?_, head?_numericReply (by decide) (by decide) _ _⟩
    rw [nickInUse, numericOf_numericReply (by decide) (by decide)]
    exact Option.some_ne_none _

/-- Each numeric reply to a command goes to its sender. Its first parameter is the sender's nick, or
a star if there is none, in every reply to a command if and only if the command gives no wrong
password and asks for no nick in use, or the sender has no nick. -/
theorem run_targets (password : Str) (actions : List Action) :
    let s := run password actions
    ∀ addr now fd msg monitor p, s.getClientByFd fd = some p →
      let after := CommandDispatcher.dispatchWith addr now fd msg s monitor
      (∀ m ∈ after.1.replies, numericOf m.message ≠ none → m.fd = fd) ∧
      ((∀ m ∈ after.1.replies, numericOf m.message ≠ none →
        (parse m.message).params.head? = some (replyTarget (after.2.1.clientAt p))) ↔
          ¬ Starred msg s p) := by
  intro s addr now fd msg monitor p hp after
  have hw : WellFormed s := .run password actions
  have hr : Registration s := .run password actions
  have hr' : Registration after.2.1 := hr.act hw (.dispatch addr now fd msg monitor)
  have ho := CommandDispatcher.dispatchWith_outcome addr now msg monitor hp
  by_cases hstar : Starred msg s p
  · obtain ⟨hs, line, hreply, hn, hhead⟩ := hstar.refused hr hw hp addr now monitor
    have hreply' : after.1 = reply fd line := hreply
    have hs' : after.2.1 = s := hs
    have hvalid := (hr.clients p).nick hstar.1
    rw [hreply', hs']
    refine ⟨fun m hm _ => by rw [List.mem_singleton.1 hm],
      iff_of_false (fun hall => ?_) (not_not.2 hstar)⟩
    -- no nick is a star
    have hnick := hall ⟨fd, line⟩ (List.mem_singleton.2 rfl) hn
    rw [hhead, replyTarget, if_neg hstar.1, Option.some.injEq] at hnick
    rw [← hnick] at hvalid
    exact absurd hvalid (by decide)
  · have htargeted := ho.targeted hr hr' hw hp hstar
    exact ⟨fun m hm hn => (htargeted m hm hn).1,
      iff_of_true (fun m hm hn => (htargeted m hm hn).2) hstar⟩

/-- The case of a client with a nick that joins a channel. -/
theorem run_targets_join :
    let s := run [] [.addClient 3 5 (lit "h"),
      .dispatch 0 0 5 (Parser.parse (lit "PASS :")) none,
      .dispatch 0 0 5 (Parser.parse (lit "NICK a")) none,
      .dispatch 0 0 5 (Parser.parse (lit "USER a 0 * a")) none]
    let after := CommandDispatcher.dispatchWith 7 0 5 (Parser.parse (lit "JOIN #x")) s none
    after.1.replies.length = 4 ∧ (after.2.1.clientAt 3).nickname = lit "a" ∧
      ∀ m ∈ after.1.replies, numericOf m.message ≠ none →
        m.fd = 5 ∧ (parse m.message).params.head? = some (replyTarget (after.2.1.clientAt 3)) := by
  intro s after
  obtain ⟨hfd, hnamed⟩ := run_targets [] _ 7 0 5 (Parser.parse (lit "JOIN #x")) none 3
    (by decide +kernel : s.getClientByFd 5 = some 3)
  have hno : ¬ Starred (Parser.parse (lit "JOIN #x")) s 3 := by
    rintro ⟨-, ⟨hcmd, -⟩ | ⟨hcmd, -⟩⟩
    · exact absurd hcmd (by decide)
    · exact absurd hcmd (by decide)
  exact ⟨by decide +kernel, by decide +kernel, fun m hm hn => ⟨hfd m hm hn, hnamed.2 hno m hm hn⟩⟩

/-- A registered client that asks for a nick in use is called a star. -/
theorem nick_starred :
    let s := run [] [.addClient 3 5 (lit "h"), .addClient 4 6 (lit "k"),
      .dispatch 0 0 5 (Parser.parse (lit "PASS :")) none,
      .dispatch 0 0 5 (Parser.parse (lit "NICK a")) none,
      .dispatch 0 0 5 (Parser.parse (lit "USER a 0 * a")) none,
      .dispatch 0 0 6 (Parser.parse (lit "PASS :")) none,
      .dispatch 0 0 6 (Parser.parse (lit "NICK b")) none]
    let after := CommandDispatcher.dispatchWith 0 0 5 (Parser.parse (lit "NICK b")) s none
    s.getClientByFd 5 = some 3 ∧ (after.2.1.clientAt 3).nickname = lit "a" ∧
      after.1 = reply 5 (lit ":irc.local 433 * b :Nickname is already in use" ++ crlf) ∧
      ¬ ∀ m ∈ after.1.replies, numericOf m.message ≠ none →
        (parse m.message).params.head? = some (after.2.1.clientAt 3).nickname := by
  decide +kernel

end Ircserv
