import Ircserv.Serial

/-!
# What is said in a channel

The conversation of a channel is one list of texts, in the order in which its members say them, each
with the members there at that time. What a member should hear of it are the texts of the others.
-/

namespace Ircserv

/-- A text that a member says in a channel. -/
structure Said where
  author : Fd
  line : Str
  /-- The members of the channel at that time. -/
  present : List Fd
  deriving DecidableEq

/-- All that are there hear the text but its author. -/
def Said.heardBy (fd : Fd) (said : Said) : Bool := said.author != fd && said.present.contains fd

/-- The message is a text to the channel. -/
def Message.isTextIn (msg : Message) (channel : Str) : Bool :=
  [lit "PRIVMSG", lit "NOTICE"].contains msg.command && msg.isAbout 0 channel

/-- The line is a text in the channel. -/
def isTextIn (channel line : Str) : Bool := (Parser.parse line).isTextIn channel

namespace ServerState

/-- The text that a turn says in the channel, if it is one and its client is a member. -/
def saidIn (s : ServerState) (channel : Str) : Turn → Option Said
  | .command _ _ fd msg _ => do
    let client ← s.getClientByFd fd
    let ch ← s.room channel
    if ch.hasMember client && msg.isTextIn channel && decide (2 ≤ msg.getParamCount) then
      some {
        author := fd
        line := ReplyBuilder.relayed (s.clientAt client).getFullPrefix msg.command
          (msg.getSingleParam 0) (msg.getSingleParam 1)
        present := ch.getMembers.map fun member => (s.clientAt member).fd }
    else none
  | _ => none

/-- What is said in the channel during some turns. -/
def conversation (channel : Str) : ServerState → List Turn → List Said
  | _, [] => []
  | s, t :: turns => (s.saidIn channel t).toList ++ (s.act t.action).conversation channel turns

end ServerState

end Ircserv
