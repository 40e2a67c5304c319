import Ircserv.Dispatch
import Ircserv.Proofs.Nicks

/-!
# What a command can do

`Outcome` lists everything one command can do, each case with the checks it passed:
the replies and the state after it. Every invariant of the state is then a case analysis of
`Outcome` (`dispatchWith_outcome`), and no later proof opens a handler.
-/

open Std

namespace Ircserv

open CommandResult ReplyBuilder

/-- The codes of the error numerics. -/
def errorCodes : List String :=
  ["401", "403", "404", "421", "432", "433", "441", "442", "443", "451", "461", "462", "464", "471",
    "472", "473", "475", "482", "696"]

/-- An error numeric to a client; two of them go to a star whatever the client's nick is. -/
inductive ErrorReply (c : Client) : Str → Prop
  | named (code : String) (params text : Str) (h : code ∈ errorCodes) :
      ErrorReply c (numericReply (lit code) (replyTarget c) params text)
  | starred (code : String) (params text : Str) (h : code ∈ ["433", "464"]) :
      ErrorReply c (numericReply (lit code) (lit "*") params text)

/-- An error numeric that gives the client's nick. -/
inductive NamedReply (c : Client) : Str → Prop
  | mk (code : String) (params text : Str) (h : code ∈ errorCodes) :
      NamedReply c (numericReply (lit code) (replyTarget c) params text)

theorem NamedReply.error {c : Client} {m : Str} (h : NamedReply c m) : ErrorReply c m := by
  cases h with
  | mk code params text h => exact .named code params text h

namespace NamedReply

variable (c : Client)

@[simp] theorem needMoreParams (command : Str) : NamedReply c (needMoreParams c command) :=
  .mk _ _ _ (by simp [errorCodes])

@[simp] theorem alreadyRegistered : NamedReply c (alreadyRegistered c) := .mk _ _ _ (by simp [errorCodes])

@[simp] theorem erroneousNickname (nick : Str) : NamedReply c (erroneousNickname c nick) :=
  .mk _ _ _ (by simp [errorCodes])

@[simp] theorem noSuchNick (name : Str) : NamedReply c (noSuchNick c name) :=
  .mk _ _ _ (by simp [errorCodes])

@[simp] theorem noSuchChannel (name : Str) : NamedReply c (noSuchChannel c name) :=
  .mk _ _ _ (by simp [errorCodes])

@[simp] theorem cannotSendToChan (name : Str) : NamedReply c (cannotSendToChan c name) :=
  .mk _ _ _ (by simp [errorCodes])

@[simp] theorem userNotInChannel (name : Str) : NamedReply c (userNotInChannel c name) :=
  .mk _ _ _ (by simp [errorCodes])

@[simp] theorem notOnChannel (name : Str) : NamedReply c (notOnChannel c name) :=
  .mk _ _ _ (by simp [errorCodes])

@[simp] theorem userOnChannel (nick name : Str) : NamedReply c (userOnChannel c nick name) :=
  .mk _ _ _ (by simp [errorCodes])

@[simp] theorem chanOpPrivsNeeded (name : Str) : NamedReply c (chanOpPrivsNeeded c name) :=
  .mk _ _ _ (by simp [errorCodes])

@[simp] theorem channelIsFull (name : Str) : NamedReply c (channelIsFull c name) :=
  .mk _ _ _ (by simp [errorCodes])

@[simp] theorem inviteOnlyChan (name : Str) : NamedReply c (inviteOnlyChan c name) :=
  .mk _ _ _ (by simp [errorCodes])

@[simp] theorem badChannelKey (name : Str) : NamedReply c (badChannelKey c name) :=
  .mk _ _ _ (by simp [errorCodes])

@[simp] theorem noRegistered : NamedReply c (noRegistered c) := .mk _ _ _ (by simp [errorCodes])

@[simp] theorem unknownCommand (command : Str) : NamedReply c (unknownCommand c command) :=
  .mk _ _ _ (by simp [errorCodes])

@[simp] theorem unknownMode (modeToken : Str) : NamedReply c (unknownMode c modeToken) :=
  .mk _ _ _ (by simp [errorCodes])

@[simp] theorem invalidModeParam (name modeToken modeArg : Str) :
    NamedReply c (invalidModeParam c name modeToken modeArg) := .mk _ _ _ (by simp [errorCodes])

end NamedReply

/-- Why a command is refused: an error that gives the client's nick, a password that is wrong or was
not given, or a nick that is taken. -/
inductive Refusal (msg : Message) (s : ServerState) (p : Addr) : Str → Prop
  | named {m : Str} (h : NamedReply (s.clientAt p) m) : Refusal msg s p m
  | wrongPassword (h : msg.command = lit "PASS") (hparam : msg.hasParam 0 = true)
      (hreg : (s.clientAt p).registered = false) (hpw : msg.getSingleParam 0 ≠ s.password) :
      Refusal msg s p passwordMismatch
  | noPassword (hpass : (s.clientAt p).passOk = false) : Refusal msg s p passwordMismatch
  | nickTaken {q : Addr} (h : msg.command = lit "NICK")
      (hvalid : isValidNickname (msg.getSingleParam 0) = true)
      (hq : s.client.nicknameToClient[msg.getSingleParam 0]? = some q) (hqp : q ≠ p) :
      Refusal msg s p (nickInUse (msg.getSingleParam 0))

theorem Refusal.error {msg : Message} {s : ServerState} {p : Addr} {m : Str} (h : Refusal msg s p m) :
    ErrorReply (s.clientAt p) m := by
  cases h with
  | named h => exact h.error
  | wrongPassword | noPassword | nickTaken => exact .starred _ _ _ (by simp)

/-- A query's answer: `PING`, the modes and the topic of a channel. -/
inductive Answer (msg : Message) (s : ServerState) (p : Addr) : Str → Prop
  | pong (h : msg.command = lit "PING") : Answer msg s p (pong (msg.getSingleParam 0))
  | modes {a : Addr} (h : msg.command = lit "MODE") (hn : msg.getParamCount = 1)
      (ha : s.channels[msg.getSingleParam 0]? = some a) (hm : p ∈ (s.channelAt a).members) :
      Answer msg s p (channelModeIs (s.clientAt p) (msg.getSingleParam 0)
        (ChannelCommandHandler.buildChannelModeQuery (s.channelAt a)).1
        (ChannelCommandHandler.buildChannelModeQuery (s.channelAt a)).2)
  | noTopic {a : Addr} (h : msg.command = lit "TOPIC") (hn : msg.hasParam 1 = false)
      (ha : s.channels[msg.getSingleParam 0]? = some a) (hm : p ∈ (s.channelAt a).members)
      (ht : (s.channelAt a).topic = []) :
      Answer msg s p (noTopic (s.clientAt p) (msg.getSingleParam 0))
  | topic {a : Addr} (h : msg.command = lit "TOPIC") (hn : msg.hasParam 1 = false)
      (ha : s.channels[msg.getSingleParam 0]? = some a) (hm : p ∈ (s.channelAt a).members)
      (ht : (s.channelAt a).topic ≠ []) :
      Answer msg s p (topicReply (s.clientAt p) (msg.getSingleParam 0) (s.channelAt a).topic)

/-- What the command `msg` of the client at `p`, whose descriptor is `fd`, can do. -/
inductive Outcome (addr : Addr) (fd : Fd) (msg : Message) (s : ServerState) (p : Addr) :
    CommandResult → ServerState → Prop
  | silent : Outcome addr fd msg s p {} s
  | refused {m : Str} (h : Refusal msg s p m) : Outcome addr fd msg s p (reply fd m) s
  | answered {m : Str} (h : Answer msg s p m) : Outcome addr fd msg s p (reply fd m) s
  | quit (h : msg.command = lit "QUIT") :
      Outcome addr fd msg s p CommandDispatcher.handleQuit s
  | pass (h : msg.command = lit "PASS") (hparam : msg.hasParam 0 = true)
      (hreg : (s.clientAt p).registered = false) (hpw : msg.getSingleParam 0 = s.password) :
      Outcome addr fd msg s p {} (s.modifyClient p (·.setPassOk true))
  | nick {s' : ServerState} (h : msg.command = lit "NICK") (hpass : (s.clientAt p).passOk = true)
      (hvalid : isValidNickname (msg.getSingleParam 0) = true)
      (hs' : s.updateNick p (msg.getSingleParam 0) = (true, s')) :
      Outcome addr fd msg s p (CommandDispatcher.maybeRegister p {} s').1
        (CommandDispatcher.maybeRegister p {} s').2
  | user {s' : ServerState} (h : msg.command = lit "USER") (hpass : (s.clientAt p).passOk = true)
      (hreg : (s.clientAt p).registered = false) (hn : 4 ≤ msg.getParamCount)
      (hs' : s' = (s.modifyClient p (·.setUsername (msg.getSingleParam 0))).modifyClient p
        (·.setRealname (msg.getSingleParam 3))) :
      Outcome addr fd msg s p (CommandDispatcher.maybeRegister p {} s').1
        (CommandDispatcher.maybeRegister p {} s').2
  | join {a : Addr} {s' : ServerState} (h : msg.command = lit "JOIN")
      (hreg : (s.clientAt p).registered = true)
      (hvalid : isValidChannelName (msg.getSingleParam 0) = true)
      (hadmitted : ∀ b, s.channels[msg.getSingleParam 0]? = some b → p ∉ (s.channelAt b).members →
        CommandDispatcher.refuseJoin msg (s.clientAt p) p (s.channelAt b) (msg.getSingleParam 0)
          = none)
      (hs' : s.addClientToChannel addr p (msg.getSingleParam 0) = (some a, s')) :
      Outcome addr fd msg s p
        (CommandDispatcher.joinReplies fd s' p a (msg.getSingleParam 0)) s'
  | part {a : Addr} (h : msg.command = lit "PART") (hreg : (s.clientAt p).registered = true)
      (ha : s.channels[msg.getSingleParam 0]? = some a) (hm : p ∈ (s.channelAt a).members) :
      Outcome addr fd msg s p
        (addRepliesToMembers {} s (s.channelAt a).getMembers
          (part (s.clientAt p).getFullPrefix (lit "PART") (msg.getSingleParam 0)) (-1))
        (s.removeClientFromChannel p (msg.getSingleParam 0))
  | textChannel {a : Addr} {command : Str} (h : msg.command = command)
      (hcmd : command = lit "PRIVMSG" ∨ command = lit "NOTICE")
      (hreg : (s.clientAt p).registered = true)
      (ha : s.channels[msg.getSingleParam 0]? = some a) (hm : p ∈ (s.channelAt a).members) :
      Outcome addr fd msg s p
        (addRepliesToMembers {} s (s.channelAt a).getMembers
          (relayed (s.clientAt p).getFullPrefix command (msg.getSingleParam 0)
            (msg.getSingleParam 1)) fd) s
  | textNick {q : Addr} {command : Str} (h : msg.command = command)
      (hcmd : command = lit "PRIVMSG" ∨ command = lit "NOTICE")
      (hreg : (s.clientAt p).registered = true)
      (hq : s.client.nicknameToClient[msg.getSingleParam 0]? = some q) :
      Outcome addr fd msg s p
        (reply (s.clientAt q).fd (relayed (s.clientAt p).getFullPrefix command
          (msg.getSingleParam 0) (msg.getSingleParam 1))) s
  | kick {a q : Addr} {reason : Str} (h : msg.command = lit "KICK")
      (hreg : (s.clientAt p).registered = true)
      (ha : s.channels[msg.getSingleParam 0]? = some a) (hm : p ∈ (s.channelAt a).members)
      (hop : (s.channelAt a).isOperator p = true)
      (hq : s.client.nicknameToClient[msg.getSingleParam 1]? = some q)
      (hqm : q ∈ (s.channelAt a).members)
      (hreason : reason =
        if msg.hasParam 2 then msg.getSingleParam 2 else (s.clientAt p).nickname) :
      Outcome addr fd msg s p
        (addRepliesToMembers {} s (s.channelAt a).getMembers
          (kick (s.clientAt p).getFullPrefix (msg.getSingleParam 0) (msg.getSingleParam 1) reason)
          (-1))
        (s.removeClientFromChannel q (msg.getSingleParam 0))
  | invite {a q : Addr} (h : msg.command = lit "INVITE")
      (hreg : (s.clientAt p).registered = true)
      (hq : s.client.nicknameToClient[msg.getSingleParam 0]? = some q)
      (ha : s.channels[msg.getSingleParam 1]? = some a) (hm : p ∈ (s.channelAt a).members)
      (hqm : q ∉ (s.channelAt a).members)
      (hop : (s.channelAt a).modes.inviteOnly = true → (s.channelAt a).isOperator p = true) :
      Outcome addr fd msg s p
        ((reply fd (inviting (s.clientAt p) (msg.getSingleParam 0) (msg.getSingleParam 1))).addReply
          (s.clientAt q).fd
          (invite (s.clientAt p).getFullPrefix (msg.getSingleParam 0) (msg.getSingleParam 1)))
        (s.inviteClientToChannel q a)
  | topic {a : Addr} {s' : ServerState} (h : msg.command = lit "TOPIC")
      (hreg : (s.clientAt p).registered = true) (hn : msg.hasParam 1 = true)
      (ha : s.channels[msg.getSingleParam 0]? = some a) (hm : p ∈ (s.channelAt a).members)
      (hop : (s.channelAt a).modes.topicRestricted = true → (s.channelAt a).isOperator p = true)
      (hs' : s' = s.modifyChannel a (·.setTopic (msg.getSingleParam 1))) :
      Outcome addr fd msg s p
        (addRepliesToMembers {} s' (s'.channelAt a).getMembers
          (topic (s.clientAt p).getFullPrefix (lit "TOPIC") (msg.getSingleParam 0)
            (msg.getSingleParam 1)) (-1)) s'
  | mode {a : Addr} {s' : ServerState} {modes : ChannelModes} {modeArg : Str}
      (h : msg.command = lit "MODE") (hreg : (s.clientAt p).registered = true)
      (ha : s.channels[msg.getSingleParam 0]? = some a) (hm : p ∈ (s.channelAt a).members)
      (hop : (s.channelAt a).isOperator p = true)
      (htoken : ChannelCommandHandler.isSupportedSingleModeToken (msg.getSingleParam 1) = true)
      (hmodes : ChannelCommandHandler.changeModes msg (s.clientAt p) (msg.getSingleParam 0)
        (msg.getSingleParam 1) (s.channelAt a).modes = .ok (modes, modeArg))
      (hs' : s' = s.modifyChannel a (·.setModes modes))
      (hflag : (msg.getSingleParam 1).getD 1 0 ≠ chr 'o') :
      Outcome addr fd msg s p
        (addRepliesToMembers {} s' (s'.channelAt a).getMembers
          (ReplyBuilder.mode (s.clientAt p).getFullPrefix (msg.getSingleParam 0)
            (msg.getSingleParam 1) modeArg) (-1)) s'
  | oper {a q : Addr} {s' : ServerState} (h : msg.command = lit "MODE")
      (hreg : (s.clientAt p).registered = true)
      (ha : s.channels[msg.getSingleParam 0]? = some a) (hm : p ∈ (s.channelAt a).members)
      (hop : (s.channelAt a).isOperator p = true)
      (htoken : ChannelCommandHandler.isSupportedSingleModeToken (msg.getSingleParam 1) = true)
      (hq : s.client.nicknameToClient[msg.getSingleParam 2]? = some q)
      (hqm : q ∈ (s.channelAt a).members)
      (hs' : s' = s.modifyChannel a
        (·.setOperator q ((msg.getSingleParam 1).head? == some (chr '+'))))
      (hflag : (msg.getSingleParam 1).getD 1 0 = chr 'o') :
      Outcome addr fd msg s p
        (addRepliesToMembers {} s' (s'.channelAt a).getMembers
          (ReplyBuilder.mode (s.clientAt p).getFullPrefix (msg.getSingleParam 0)
            (msg.getSingleParam 1) (msg.getSingleParam 2)) (-1)) s'

end Ircserv
