import Ircserv.Health

/-!
# The command dispatcher

Every handler takes the state and gives back the replies with the state after the command.
`client` is the address of the client the message came from, `fd` its descriptor, and `addr` the
address a channel created by the command asks for.
-/

namespace Ircserv

/-- A command's replies, with the state after it. -/
abbrev Handled := CommandResult × ServerState

/-- One round of the loop of `addRepliesToMembers`. -/
def addReplyToMember (state : ServerState) (message : Str) (exceptFd : Fd)
    (result : CommandResult) (member : Addr) : CommandResult :=
  if (state.clientAt member).fd ≠ exceptFd then
    result.addReply (state.clientAt member).fd message
  else result

def addRepliesToMembers (result : CommandResult) (state : ServerState) (members : List Addr)
    (message : Str) (exceptFd : Fd) : CommandResult :=
  members.foldl (addReplyToMember state message exceptFd) result

open CommandResult ReplyBuilder

namespace ChannelCommandHandler

def appendModeArg (args value : Str) : Str :=
  (if args = [] then args else args ++ lit " ") ++ value

/-- The flags and the arguments of a channel's modes. -/
def buildChannelModeQuery (channel : Channel) : Str × Str :=
  let m := channel.modes
  let modes := lit "+"
  let modes := if m.inviteOnly then modes ++ lit "i" else modes
  let modes := if m.topicRestricted then modes ++ lit "t" else modes
  let (modes, args) :=
    if m.hasKey then (modes ++ lit "k", appendModeArg [] m.key) else (modes, [])
  if m.limit ≥ 0 then (modes ++ lit "l", appendModeArg args (intToString m.limit))
  else (modes, args)

def handleKick (fd : Fd) (msg : Message) (state : ServerState) (client : Addr) : Handled :=
  let c := state.clientAt client
  if !c.registered then (reply fd (noRegistered c), state)
  else if msg.getParamCount < 2 then (reply fd (needMoreParams c (lit "KICK")), state)
  else
  let channelName := msg.getSingleParam 0
  let targetNick := msg.getSingleParam 1
  if !isValidChannelName channelName then (reply fd (noSuchChannel c channelName), state)
  else match state.getChannel channelName with
  | none => (reply fd (noSuchChannel c channelName), state)
  | some channel =>
  let ch := state.channelAt channel
  if !ch.hasMember client then (reply fd (notOnChannel c channelName), state)
  else if !ch.isOperator client then (reply fd (chanOpPrivsNeeded c channelName), state)
  else if !isValidNickname targetNick then (reply fd (noSuchNick c targetNick), state)
  else match state.getClientByNick targetNick with
  | none => (reply fd (noSuchNick c targetNick), state)
  | some targetClient =>
  if !ch.hasMember targetClient then (reply fd (userNotInChannel c channelName), state)
  else
  let reason := if msg.hasParam 2 then msg.getSingleParam 2 else c.nickname
  let kickMsg := kick c.getFullPrefix channelName targetNick reason
  (addRepliesToMembers {} state ch.getMembers kickMsg (-1),
    state.removeClientFromChannel targetClient channelName)

def handleInvite (fd : Fd) (msg : Message) (state : ServerState) (client : Addr) : Handled :=
  let c := state.clientAt client
  if !c.registered then (reply fd (noRegistered c), state)
  else if msg.getParamCount < 2 then (reply fd (needMoreParams c (lit "INVITE")), state)
  else
  let targetNick := msg.getSingleParam 0
  let channelName := msg.getSingleParam 1
  if !isValidNickname targetNick then (reply fd (noSuchNick c targetNick), state)
  else if !isValidChannelName channelName then (reply fd (noSuchChannel c channelName), state)
  else match state.getClientByNick targetNick with
  | none => (reply fd (noSuchNick c targetNick), state)
  | some targetClient =>
  match state.getChannel channelName with
  | none => (reply fd (noSuchChannel c channelName), state)
  | some channel =>
  let ch := state.channelAt channel
  if !ch.hasMember client then (reply fd (notOnChannel c channelName), state)
  else if ch.hasMember targetClient then
    (reply fd (userOnChannel c targetNick channelName), state)
  else if ch.modes.inviteOnly && !ch.isOperator client then
    (reply fd (chanOpPrivsNeeded c channelName), state)
  else
  let result := reply fd (inviting c targetNick channelName)
  (result.addReply (state.clientAt targetClient).fd
      (invite c.getFullPrefix targetNick channelName),
    state.inviteClientToChannel targetClient channel)

def handleTopic (fd : Fd) (msg : Message) (state : ServerState) (client : Addr) : Handled :=
  let c := state.clientAt client
  if !c.registered then (reply fd (noRegistered c), state)
  else if !msg.hasParam 0 then (reply fd (needMoreParams c (lit "TOPIC")), state)
  else
  let channelName := msg.getSingleParam 0
  if !isValidChannelName channelName then (reply fd (noSuchChannel c channelName), state)
  else match state.getChannel channelName with
  | none => (reply fd (noSuchChannel c channelName), state)
  | some channel =>
  let ch := state.channelAt channel
  if !ch.hasMember client then (reply fd (notOnChannel c channelName), state)
  else if !msg.hasParam 1 then
    if ch.topic = [] then (reply fd (noTopic c channelName), state)
    else (reply fd (topicReply c channelName ch.topic), state)
  else if ch.modes.topicRestricted && !ch.isOperator client then
    (reply fd (chanOpPrivsNeeded c channelName), state)
  else
  let topic := msg.getSingleParam 1
  let state := state.modifyChannel channel (·.setTopic topic)
  (addRepliesToMembers {} state (state.channelAt channel).getMembers
      (ReplyBuilder.topic c.getFullPrefix (lit "TOPIC") channelName topic) (-1), state)

def isspace (c : UInt8) : Bool := c == chr ' ' || (9 ≤ c && c ≤ 13)

/-- The number a string of digits denotes. -/
def decimal (digits : Str) : Nat := digits.foldl (fun n d => 10 * n + (d.toNat - 48)) 0

def LONG_MAX : Int := 0x7FFFFFFFFFFFFFFF

def LONG_MIN : Int := -0x8000000000000000

def INT_MAX : Int := 0x7FFFFFFF

/-- `std::strtol` in base ten, with a 64-bit `long`: the value, whether it is out of range, and
what `end` points to. -/
def strtol (nptr : Str) : Int × Bool × Str :=
  let subject := nptr.dropWhile isspace
  let (negative, body) :=
    match subject with
    | c :: rest => if c = chr '-' then (true, rest) else if c = chr '+' then (false, rest)
        else (false, c :: rest)
    | [] => (false, [])
  let (digits, rest) := body.span isDigit
  if digits = [] then (0, false, nptr)
  else
    let value : Int := if negative then -(decimal digits : Int) else decimal digits
    if LONG_MAX < value then (LONG_MAX, true, rest)
    else if value < LONG_MIN then (LONG_MIN, true, rest)
    else (value, false, rest)

/-- `c_str`: the bytes up to the first NUL. -/
def cStr (s : Str) : Str := s.takeWhile (· != 0)

/-- The limit a parameter denotes, if it is accepted. -/
def parsePositiveLimit (value : Str) : Option Int :=
  if value = [] then none
  else
    let (parsed, range, rest) := strtol (cStr value)
    if rest ≠ [] ∨ range ∨ parsed < 1 ∨ INT_MAX < parsed then none else some parsed

def isSupportedSingleModeToken (modeToken : Str) : Bool :=
  match modeToken with
  | [sign, mode] =>
    if sign != chr '+' && sign != chr '-' then false
    else mode == chr 'i' || mode == chr 't' || mode == chr 'k' || mode == chr 'o' ||
      mode == chr 'l'
  | _ => false

def applyOperatorMode (fd : Fd) (msg : Message) (state : ServerState) (client channel : Addr)
    (channelName modeToken : Str) : Handled :=
  let c := state.clientAt client
  if !msg.hasParam 2 then (reply fd (needMoreParams c (lit "MODE")), state)
  else
  let targetNick := msg.getSingleParam 2
  if !isValidNickname targetNick then (reply fd (noSuchNick c targetNick), state)
  else match state.getClientByNick targetNick with
  | none => (reply fd (noSuchNick c targetNick), state)
  | some targetClient =>
  if !(state.channelAt channel).hasMember targetClient then
    (reply fd (userNotInChannel c channelName), state)
  else
  let state := state.modifyChannel channel
    (·.setOperator targetClient (modeToken.head? == some (chr '+')))
  (addRepliesToMembers {} state (state.channelAt channel).getMembers
      (mode c.getFullPrefix channelName modeToken targetNick) (-1), state)

/-- What `MODE` does to a channel's modes, and the argument it broadcasts; an error otherwise. -/
def changeModes (msg : Message) (c : Client) (channelName modeToken : Str) (modes : ChannelModes) :
    Except Str (ChannelModes × Str) :=
  let adding := modeToken.head? == some (chr '+')
  let flag := modeToken.getD 1 0
  if flag = chr 'i' then .ok (modes.setInviteOnly adding, [])
  else if flag = chr 't' then .ok (modes.setTopicRestricted adding, [])
  else if flag = chr 'k' then
    if adding then
      if !msg.hasParam 2 then .error (needMoreParams c (lit "MODE"))
      else .ok (modes.setKey (msg.getSingleParam 2), msg.getSingleParam 2)
    else .ok (modes.unSetKey, [])
  else if flag = chr 'l' then
    if adding then
      if !msg.hasParam 2 then .error (needMoreParams c (lit "MODE"))
      else match parsePositiveLimit (msg.getSingleParam 2) with
        | none => .error (invalidModeParam c channelName modeToken (msg.getSingleParam 2))
        | some limit => .ok (modes.setLimit limit, msg.getSingleParam 2)
    else .ok (modes.unSetLimit, [])
  else .ok (modes, [])

def handleMode (fd : Fd) (msg : Message) (state : ServerState) (client : Addr) : Handled :=
  let c := state.clientAt client
  if !c.registered then (reply fd (noRegistered c), state)
  else if msg.getParamCount < 1 then (reply fd (needMoreParams c (lit "MODE")), state)
  else
  let channelName := msg.getSingleParam 0
  if !isValidChannelName channelName then (reply fd (noSuchChannel c channelName), state)
  else match state.getChannel channelName with
  | none => (reply fd (noSuchChannel c channelName), state)
  | some channel =>
  let ch := state.channelAt channel
  if !ch.hasMember client then (reply fd (notOnChannel c channelName), state)
  else if msg.getParamCount = 1 then
    let (modes, modeArgs) := buildChannelModeQuery ch
    (reply fd (channelModeIs c channelName modes modeArgs), state)
  else if !ch.isOperator client then (reply fd (chanOpPrivsNeeded c channelName), state)
  else
  let modeToken := msg.getSingleParam 1
  if !isSupportedSingleModeToken modeToken then (reply fd (unknownMode c modeToken), state)
  else if modeToken.getD 1 0 = chr 'o' then
    applyOperatorMode fd msg state client channel channelName modeToken
  else match changeModes msg c channelName modeToken ch.modes with
  | .error message => (reply fd message, state)
  | .ok (modes, modeArg) =>
  let state := state.modifyChannel channel (·.setModes modes)
  (addRepliesToMembers {} state (state.channelAt channel).getMembers
      (mode c.getFullPrefix channelName modeToken modeArg) (-1), state)

end ChannelCommandHandler

namespace CommandDispatcher

def handlePass (fd : Fd) (msg : Message) (state : ServerState) (client : Addr) : Handled :=
  let c := state.clientAt client
  if !msg.hasParam 0 then (reply fd (needMoreParams c (lit "PASS")), state)
  else if c.registered then (reply fd (alreadyRegistered c), state)
  else if msg.getSingleParam 0 ≠ state.password then (reply fd passwordMismatch, state)
  else ({}, state.modifyClient client (·.setPassOk true))

def maybeRegister (client : Addr) (result : CommandResult) (state : ServerState) : Handled :=
  let c := state.clientAt client
  if !c.registered && c.canRegister then
    let state := state.modifyClient client (·.markRegistered)
    let c := state.clientAt client
    (result.addReply c.fd (welcome c), state)
  else (result, state)

def handleNick (fd : Fd) (msg : Message) (state : ServerState) (client : Addr) : Handled :=
  let c := state.clientAt client
  if !msg.hasParam 0 then (reply fd (needMoreParams c (lit "NICK")), state)
  else
  let nick := msg.getSingleParam 0
  if !isValidNickname nick then (reply fd (erroneousNickname c nick), state)
  else
  let (updated, state) := state.updateNick client nick
  if !updated then (reply fd (nickInUse nick), state)
  else maybeRegister client {} state

def handleUser (fd : Fd) (msg : Message) (state : ServerState) (client : Addr) : Handled :=
  let c := state.clientAt client
  if msg.getParamCount < 4 then (reply fd (needMoreParams c (lit "USER")), state)
  else if c.registered then (reply fd (alreadyRegistered c), state)
  else
  let state := state.modifyClient client (·.setUsername (msg.getSingleParam 0))
  let state := state.modifyClient client (·.setRealname (msg.getSingleParam 3))
  maybeRegister client {} state

/-- The reply that refuses a client that is not a member yet, if there is one. -/
def refuseJoin (msg : Message) (c : Client) (client : Addr) (ch : Channel) (channelName : Str) :
    Option Str :=
  if ch.modes.inviteOnly && !ch.isInvited client then some (inviteOnlyChan c channelName)
  else if ch.modes.hasKey && (!msg.hasParam 1 || msg.getSingleParam 1 != ch.modes.key) then
    some (badChannelKey c channelName)
  else if ch.modes.limit ≥ 0 ∧ ch.modes.limit.toNat ≤ ch.memberCount then
    some (channelIsFull c channelName)
  else none

/-- The replies to a client that is in the channel after `JOIN`. -/
def joinReplies (fd : Fd) (state : ServerState) (client channel : Addr) (channelName : Str) :
    CommandResult :=
  let c := state.clientAt client
  let ch := state.channelAt channel
  let joinMsg := join c.getFullPrefix (lit "JOIN") channelName
  let result := addRepliesToMembers {} state ch.getMembers joinMsg (-1)
  let result :=
    if ch.topic = [] then result.addReply fd (noTopic c channelName)
    else result.addReply fd (topicReply c channelName ch.topic)
  let result := result.addReply fd (nameReply state c ch)
  result.addReply fd (endOfNames c channelName)

def handleJoin (addr : Addr) (fd : Fd) (msg : Message) (state : ServerState) (client : Addr) :
    Handled :=
  let c := state.clientAt client
  if !c.registered then (reply fd (noRegistered c), state)
  else if !msg.hasParam 0 then (reply fd (needMoreParams c (lit "JOIN")), state)
  else
  let channelName := msg.getSingleParam 0
  if !isValidChannelName channelName then (reply fd (noSuchChannel c channelName), state)
  else
  let refused :=
    match state.getChannel channelName with
    | none => none
    | some channel =>
      if !(state.channelAt channel).hasMember client then
        refuseJoin msg c client (state.channelAt channel) channelName
      else none
  match refused with
  | some message => (reply fd message, state)
  | none =>
  let (channel, state) := state.addClientToChannel addr client channelName
  match channel with
  | none => (reply fd (noSuchChannel c channelName), state)
  | some channel => (joinReplies fd state client channel channelName, state)

def handlePart (fd : Fd) (msg : Message) (state : ServerState) (client : Addr) : Handled :=
  let c := state.clientAt client
  if !c.registered then (reply fd (noRegistered c), state)
  else if !msg.hasParam 0 then (reply fd (needMoreParams c (lit "PART")), state)
  else
  let channelName := msg.getSingleParam 0
  if !isValidChannelName channelName then (reply fd (noSuchChannel c channelName), state)
  else match state.getChannel channelName with
  | none => (reply fd (noSuchChannel c channelName), state)
  | some channel =>
  let ch := state.channelAt channel
  if !ch.hasMember client then (reply fd (notOnChannel c channelName), state)
  else
  let partMsg := part c.getFullPrefix (lit "PART") channelName
  (addRepliesToMembers {} state ch.getMembers partMsg (-1),
    state.removeClientFromChannel client channelName)

/-- A reply to a command that may have to stay silent about its errors. -/
def replyIf (replyOnError : Bool) (fd : Fd) (message : Str) : CommandResult :=
  if replyOnError then reply fd message else {}

def handleTextMessage (fd : Fd) (msg : Message) (state : ServerState) (client : Addr)
    (command : Str) (replyOnError : Bool) : Handled :=
  let c := state.clientAt client
  if !c.registered then (replyIf replyOnError fd (noRegistered c), state)
  else if msg.getParamCount < 2 then (replyIf replyOnError fd (needMoreParams c command), state)
  else
  let targetName := msg.getSingleParam 0
  let text := msg.getSingleParam 1
  if targetName.head? = some (chr '#') ∧ !isValidChannelName targetName then
    (replyIf replyOnError fd (noSuchChannel c targetName), state)
  else if targetName.head? ≠ some (chr '#') ∧ !isValidNickname targetName then
    (replyIf replyOnError fd (noSuchNick c targetName), state)
  else
  let message :=
    if command = lit "NOTICE" then notice c.getFullPrefix command targetName text
    else privmsg c.getFullPrefix command targetName text
  if targetName.head? = some (chr '#') then
    match state.getChannel targetName with
    | none => (replyIf replyOnError fd (noSuchChannel c targetName), state)
    | some channel =>
    let ch := state.channelAt channel
    if !ch.hasMember client then (replyIf replyOnError fd (cannotSendToChan c targetName), state)
    else (addRepliesToMembers {} state ch.getMembers message fd, state)
  else
    match state.getClientByNick targetName with
    | none => (replyIf replyOnError fd (noSuchNick c targetName), state)
    | some targetClient => (reply (state.clientAt targetClient).fd message, state)

def handlePrivmsg (fd : Fd) (msg : Message) (state : ServerState) (client : Addr) : Handled :=
  handleTextMessage fd msg state client (lit "PRIVMSG") true

def handleNotice (fd : Fd) (msg : Message) (state : ServerState) (client : Addr) : Handled :=
  handleTextMessage fd msg state client (lit "NOTICE") false

def handleQuit : CommandResult := { shouldDisconnect := true }

def handlePong (now : Time) (fd : Fd) (msg : Message) (c : Client)
    (healthMonitor : Option ConnectionHealthMonitor) :
    CommandResult × Option ConnectionHealthMonitor :=
  if !msg.hasParam 0 then (reply fd (needMoreParams c (lit "PONG")), healthMonitor)
  else ({}, healthMonitor.map
    (·.markPongReceived fd (msg.getSingleParam (msg.getParamCount - 1)) now))

/-- The commands that leave the health monitor alone. -/
def handleCommand (addr : Addr) (fd : Fd) (msg : Message) (state : ServerState) (client : Addr) :
    Handled :=
  let c := state.clientAt client
  let command := msg.command
  if command = lit "PING" then
    if !msg.hasParam 0 then (reply fd (needMoreParams c command), state)
    else (reply fd (pong (msg.getSingleParam 0)), state)
  else if command = lit "QUIT" then (handleQuit, state)
  else if command = lit "PASS" then handlePass fd msg state client
  else if command = lit "NICK" then
    if !c.passOk then (reply fd passwordMismatch, state) else handleNick fd msg state client
  else if command = lit "USER" then
    if !c.passOk then (reply fd passwordMismatch, state) else handleUser fd msg state client
  else if command = lit "JOIN" then handleJoin addr fd msg state client
  else if command = lit "PART" then handlePart fd msg state client
  else if command = lit "PRIVMSG" then handlePrivmsg fd msg state client
  else if command = lit "NOTICE" then handleNotice fd msg state client
  else if command = lit "KICK" then ChannelCommandHandler.handleKick fd msg state client
  else if command = lit "INVITE" then ChannelCommandHandler.handleInvite fd msg state client
  else if command = lit "TOPIC" then ChannelCommandHandler.handleTopic fd msg state client
  else if command = lit "MODE" then ChannelCommandHandler.handleMode fd msg state client
  else if command ≠ [] then (reply fd (unknownCommand c command), state)
  else ({}, state)

/-- `dispatch` with the health monitor given, if any. -/
def dispatchWith (addr : Addr) (now : Time) (fd : Fd) (msg : Message) (state : ServerState)
    (healthMonitor : Option ConnectionHealthMonitor) :
    CommandResult × ServerState × Option ConnectionHealthMonitor :=
  match state.getClientByFd fd with
  | none => ({}, state, healthMonitor)
  | some client =>
    if msg.command = lit "PONG" then
      let (result, healthMonitor) :=
        handlePong now fd msg (state.clientAt client) healthMonitor
      (result, state, healthMonitor)
    else
      let (result, state) := handleCommand addr fd msg state client
      (result, state, healthMonitor)

end CommandDispatcher

namespace DisconnectNotifier

/-- The notification so far, with the descriptors it has gone to. -/
abbrev Notified := CommandResult × List Fd

/-- One round of the loop over a channel's members; `notified` is the set `notifiedFds`. -/
def notifyMember (state : ServerState) (fd : Fd) (quitMessage : Str) (acc : Notified)
    (member : Addr) : Notified :=
  let memberFd := (state.clientAt member).fd
  if memberFd = fd then acc
  else if memberFd ∈ acc.2 then acc
  else (acc.1.addReply memberFd quitMessage, memberFd :: acc.2)

def notifyChannel (state : ServerState) (fd : Fd) (quitMessage : Str) (acc : Notified)
    (channel : Addr) : Notified :=
  (state.channelAt channel).getMembers.foldl (notifyMember state fd quitMessage) acc

/-- The notification of the disconnection of `fd`. -/
def build (fd : Fd) (reason : Str) (state : ServerState) : CommandResult :=
  match state.getClientByFd fd with
  | none => {}
  | some client =>
    let c := state.clientAt client
    let quitMessage := ReplyBuilder.quit c.getFullPrefix reason
    (c.getChannels.foldl (notifyChannel state fd quitMessage) ({}, [])).1

end DisconnectNotifier

end Ircserv
