import Ircserv.State
import Ircserv.Message

/-!
# Replies

What a command gives back to the connection layer, and the texts of the replies.
-/

namespace Ircserv

structure OutgoingMessage where
  fd : Fd
  message : Str
  deriving DecidableEq, Inhabited

structure CommandResult where
  replies : List OutgoingMessage := []
  shouldDisconnect : Bool := false
  deriving DecidableEq, Inhabited

def CommandResult.addReply (r : CommandResult) (fd : Fd) (message : Str) : CommandResult :=
  { r with replies := r.replies ++ [⟨fd, message⟩] }

/-- A result with one reply. -/
def CommandResult.reply (fd : Fd) (message : Str) : CommandResult :=
  CommandResult.addReply {} fd message

namespace ReplyBuilder

def serverName : Str := lit "irc.local"

def crlf : Str := [cr, lf]

/-- The nick of the client, or a star before it has one. -/
def replyTarget (client : Client) : Str :=
  if client.nickname = [] then lit "*" else client.nickname

def numericReply (code target params text : Str) : Str :=
  let reply := lit ":" ++ serverName ++ lit " " ++ code ++ lit " " ++ target
  let reply := if params = [] then reply else reply ++ lit " " ++ params
  reply ++ lit " :" ++ text ++ crlf

def ping (token : Str) : Str := lit ":" ++ serverName ++ lit " PING :" ++ token ++ crlf

def pong (token : Str) : Str :=
  lit ":" ++ serverName ++ lit " PONG " ++ serverName ++ lit " :" ++ token ++ crlf

def welcome (client : Client) : Str :=
  numericReply (lit "001") client.nickname []
    (lit "Welcome to the IRC Network " ++ client.getFullPrefix)

def needMoreParams (client : Client) (command : Str) : Str :=
  numericReply (lit "461") (replyTarget client) command (lit "Not enough parameters")

def alreadyRegistered (client : Client) : Str :=
  numericReply (lit "462") (replyTarget client) [] (lit "You may not reregister")

def passwordMismatch : Str := numericReply (lit "464") (lit "*") [] (lit "Password incorrect")

def erroneousNickname (client : Client) (nick : Str) : Str :=
  numericReply (lit "432") (replyTarget client) nick (lit "Erroneous nickname")

def nickInUse (nick : Str) : Str :=
  numericReply (lit "433") (lit "*") nick (lit "Nickname is already in use")

def noSuchNick (client : Client) (targetName : Str) : Str :=
  numericReply (lit "401") (replyTarget client) targetName (lit "No such nick/channel")

def noSuchChannel (client : Client) (channelName : Str) : Str :=
  numericReply (lit "403") (replyTarget client) channelName (lit "No such channel")

def noTopic (client : Client) (channelName : Str) : Str :=
  numericReply (lit "331") (replyTarget client) channelName (lit "No topic is set")

def topicReply (client : Client) (channelName topic : Str) : Str :=
  numericReply (lit "332") (replyTarget client) channelName topic

def channelModeIs (client : Client) (channelName modes modeArgs : Str) : Str :=
  let reply := lit ":" ++ serverName ++ lit " " ++ lit "324" ++ lit " " ++ replyTarget client ++
    lit " " ++ channelName ++ lit " " ++ modes
  let reply := if modeArgs = [] then reply else reply ++ lit " " ++ modeArgs
  reply ++ crlf

def inviting (client : Client) (targetNick channelName : Str) : Str :=
  lit ":" ++ serverName ++ lit " " ++ lit "341" ++ lit " " ++ replyTarget client ++ lit " " ++
    targetNick ++ lit " " ++ channelName ++ crlf

/-- One round of the loop over the members, appending to `names`. -/
def appendName (state : ServerState) (channel : Channel) (names : Str) (member : Addr) : Str :=
  let names := if names = [] then names else names ++ lit " "
  let names := if channel.isOperator member then names ++ lit "@" else names
  names ++ (state.clientAt member).nickname

def nameReply (state : ServerState) (client : Client) (channel : Channel) : Str :=
  numericReply (lit "353") (replyTarget client) (lit "= " ++ channel.name)
    (channel.getMembers.foldl (appendName state channel) [])

def endOfNames (client : Client) (channelName : Str) : Str :=
  numericReply (lit "366") (replyTarget client) channelName (lit "End of /NAMES list")

def cannotSendToChan (client : Client) (channelName : Str) : Str :=
  numericReply (lit "404") (replyTarget client) channelName (lit "Cannot send to channel")

def userNotInChannel (client : Client) (channelName : Str) : Str :=
  numericReply (lit "441") (replyTarget client) channelName (lit "You are not on that channel")

def notOnChannel (client : Client) (channelName : Str) : Str :=
  numericReply (lit "442") (replyTarget client) channelName (lit "You are not on that channel")

def userOnChannel (client : Client) (targetNick channelName : Str) : Str :=
  numericReply (lit "443") (replyTarget client) (targetNick ++ lit " " ++ channelName)
    (lit "is already on channel")

def chanOpPrivsNeeded (client : Client) (channelName : Str) : Str :=
  numericReply (lit "482") (replyTarget client) channelName (lit "You are not channel operator")

def channelIsFull (client : Client) (channelName : Str) : Str :=
  numericReply (lit "471") (replyTarget client) channelName (lit "Cannot join channel (+l)")

def inviteOnlyChan (client : Client) (channelName : Str) : Str :=
  numericReply (lit "473") (replyTarget client) channelName (lit "Cannot join channel (+i)")

def badChannelKey (client : Client) (channelName : Str) : Str :=
  numericReply (lit "475") (replyTarget client) channelName (lit "Cannot join channel (+k)")

def noRegistered (client : Client) : Str :=
  numericReply (lit "451") (replyTarget client) [] (lit ":You have not registered")

def unknownCommand (client : Client) (command : Str) : Str :=
  numericReply (lit "421") (replyTarget client) command (lit "Unknown command")

def unknownMode (client : Client) (modeToken : Str) : Str :=
  numericReply (lit "472") (replyTarget client) modeToken (lit "is unknown mode char to me")

def invalidModeParam (client : Client) (channelName modeToken modeArg : Str) : Str :=
  numericReply (lit "696") (replyTarget client)
    (channelName ++ lit " " ++ modeToken ++ lit " " ++ modeArg) (lit "Invalid mode parameter")

def join (clientFullPrefix command channelName : Str) : Str :=
  lit ":" ++ clientFullPrefix ++ lit " " ++ command ++ lit " " ++ channelName ++ crlf

def part (clientFullPrefix command channelName : Str) : Str :=
  lit ":" ++ clientFullPrefix ++ lit " " ++ command ++ lit " " ++ channelName ++ crlf

/-- A relayed line whose last parameter is `text`. -/
def relayed (client command target text : Str) : Str :=
  lit ":" ++ client ++ lit " " ++ command ++ lit " " ++ target ++ lit " :" ++ text ++ crlf

def privmsg (client command target text : Str) : Str := relayed client command target text

def notice (client command target text : Str) : Str := relayed client command target text

def topic (client command target text : Str) : Str := relayed client command target text

def invite (client target channelName : Str) : Str :=
  lit ":" ++ client ++ lit " INVITE " ++ target ++ lit " :" ++ channelName ++ crlf

def quit (client reason : Str) : Str := lit ":" ++ client ++ lit " QUIT :" ++ reason ++ crlf

def kick (client channelName target reason : Str) : Str :=
  lit ":" ++ client ++ lit " KICK " ++ channelName ++ lit " " ++ target ++ lit " :" ++ reason ++
    crlf

def mode (client channelName modeToken modeArg : Str) : Str :=
  let reply := lit ":" ++ client ++ lit " MODE " ++ channelName ++ lit " " ++ modeToken
  let reply := if modeArg = [] then reply else reply ++ lit " " ++ modeArg
  reply ++ crlf

end ReplyBuilder

end Ircserv
