import Ircserv.Modes
import Ircserv.Views

/-!
# A channel's topic and modes as its members see them

What a line says about the topic of a channel, and what it says about its modes. The topic is what
the latest of the lines about it said. The modes are told in whole by the answer to a query, and
from then on each MODE line tells a change.
-/

namespace Ircserv

namespace Message

/-- What a line says the topic of the channel is. -/
def topicNews (msg : Message) (channel : Str) : Option Str :=
  if msg.command = lit "331" then if msg.isAbout 1 channel then some [] else none
  else if msg.command = lit "332" then
    if msg.isAbout 1 channel then some (msg.getSingleParam 2) else none
  else if msg.command = lit "TOPIC" then
    if msg.isAbout 0 channel then some (msg.getSingleParam 1) else none
  else none

/-- The modes of the channel after a line, if they were known before it: `none` when they were not.
-/
def modeNews (msg : Message) (channel : Str) (known : Option ChannelModes) : Option ChannelModes :=
  if msg.command = lit "324" then
    if msg.isAbout 1 channel then (msg.modeChanges 2).map ChannelModes.ofChanges else known
  else if msg.command = lit "MODE" then
    if msg.isAbout 0 channel then known.bind fun modes =>
      (msg.modeChanges 1).map fun changes => changes.foldl ModeChange.onModes modes
    else known
  else known

end Message

/-- What a line says the topic of the channel is. -/
def topicHeard (channel line : Str) : Option Str := (Parser.parse line).topicNews channel

/-- The topic of the channel as the lines tell it, if they do. -/
def topicOf (channel : Str) (lines : List Str) : Option Str :=
  (lines.filterMap (topicHeard channel)).getLast?

/-- The modes of the channel as one more line tells them. -/
def modesHeard (channel : Str) (known : Option ChannelModes) (line : Str) : Option ChannelModes :=
  (Parser.parse line).modeNews channel known

/-- The modes of the channel as the lines tell them, if they do. -/
def modesOf (channel : Str) (lines : List Str) : Option ChannelModes :=
  lines.foldl (modesHeard channel) none

/-- Whether the turn asks for the modes of the channel. -/
def Turn.asksModes (fd : Fd) (channel : Str) : Turn → Bool
  | .command _ _ g msg _ => g == fd && msg.command == lit "MODE" && msg.getParamCount == 1 &&
    caseFold (msg.getSingleParam 0) == caseFold channel
  | _ => false

instance (msg : Message) : Decidable msg.PlainArgument :=
  inferInstanceAs (Decidable (_ ∧ _))

/-- The argument of the turn's MODE, if it is accepted, is read as one parameter again. -/
def Turn.PlainMode (s : ServerState) : Turn → Prop
  | .command addr now fd msg healthMonitor =>
    (Turn.command addr now fd msg healthMonitor).isAccepted fd (lit "MODE") s = true →
      msg.PlainArgument
  | _ => True

end Ircserv
