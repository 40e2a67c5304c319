import Ircserv.Dispatch
import Ircserv.Rooms

/-!
# Lines as their receiver reads them

A line of the server itself has its name in front, and a numeric. A change of a channel is told to
its members as one line: the command with its sender in front, and with the parameters the command
had.
-/

namespace Ircserv

open ReplyBuilder

/-- Where a line of the server itself begins. -/
def serverPrefix : Str := lit ":" ++ serverName ++ lit " "

/-- The code of a numeric reply. -/
def numericOf (line : Str) : Option Nat :=
  let code := (line.drop serverPrefix.length).take 3
  if serverPrefix.isPrefixOf line ∧ code.length = 3 ∧ code.all isDigit = true ∧
      (line.drop (serverPrefix.length + 3)).head? = some (chr ' ') then
    some (ChannelCommandHandler.decimal code)
  else none

/-- Whether the line is an error numeric. -/
def isErrorNumeric (line : Str) : Bool := (numericOf line).any fun n => decide (400 ≤ n)

/-- The line begins with the prefix of the client. -/
def SentBy (c : Client) (line : Str) : Prop := (lit ":" ++ c.getFullPrefix) <+: line

/-- The commands that change a channel and that its members are told of. -/
def Message.isChannelEvent (msg : Message) : Bool :=
  [lit "JOIN", lit "PART", lit "KICK"].contains msg.command ||
    [lit "TOPIC", lit "MODE"].contains msg.command && msg.hasParam 1

/-- The argument a mode change is announced with: the key, the limit or the nick. -/
def Message.modeArgument (msg : Message) : Str :=
  let modeToken := msg.getSingleParam 1
  let adding := modeToken.head? == some (chr '+')
  let flag := modeToken.getD 1 0
  if flag = chr 'o' ∨ adding ∧ (flag = chr 'k' ∨ flag = chr 'l') then msg.getSingleParam 2 else []

/-- The commands whose lines go to other clients with the sender in front. -/
def Message.isRelayed (msg : Message) : Bool :=
  [lit "PRIVMSG", lit "NOTICE", lit "TOPIC", lit "KICK", lit "INVITE", lit "JOIN", lit "PART"].contains
    msg.command

/-- The parameters the line of the command has. The nick of the sender stands for a reason that is
not there. -/
def Message.relayedParams (msg : Message) (client : Client) : List Str :=
  if msg.command = lit "JOIN" ∨ msg.command = lit "PART" then [msg.getSingleParam 0]
  else if msg.command = lit "KICK" then
    [msg.getSingleParam 0, msg.getSingleParam 1,
      if msg.hasParam 2 then msg.getSingleParam 2 else client.nickname]
  else [msg.getSingleParam 0, msg.getSingleParam 1]

namespace ServerState

/-- The line that tells of the event, from the client it comes from. -/
def eventLine (s : ServerState) (p : Addr) (msg : Message) : Str :=
  let sender := (s.clientAt p).getFullPrefix
  let name := msg.getSingleParam 0
  if msg.command = lit "JOIN" ∨ msg.command = lit "PART" then join sender msg.command name
  else if msg.command = lit "KICK" then
    kick sender name (msg.getSingleParam 1)
      (if msg.hasParam 2 then msg.getSingleParam 2 else (s.clientAt p).nickname)
  else if msg.command = lit "TOPIC" then
    topic sender msg.command name (msg.getSingleParam 1)
  else mode sender name (msg.getSingleParam 1) msg.modeArgument

end ServerState

end Ircserv
