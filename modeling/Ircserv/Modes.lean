import Ircserv.Turns
import Mathlib.Data.Nat.Digits.Defs

/-!
# What a mode line says

The flag word of a mode line has a sign and flags, and the flags take their arguments from those
that follow it, in order: a key and a limit when they are set, and every operator. A limit is a
number in decimal, which a NUL ends.
-/

namespace Ircserv

inductive ModeChange
  | inviteOnly (adding : Bool)
  | topicRestricted (adding : Bool)
  | key (key : Option Str)
  | limit (limit : Option Int)
  | operator (nick : Str) (adding : Bool)
  deriving DecidableEq, Inhabited

namespace ModeChange

/-- What the change does to the modes. -/
def onModes (modes : ChannelModes) : ModeChange → ChannelModes
  | .inviteOnly adding => { modes with inviteOnly := adding }
  | .topicRestricted adding => { modes with topicRestricted := adding }
  | .key word => { modes with hasKey := word.isSome, key := word.getD [] }
  | .limit n => { modes with limit := n.getD (-1) }
  | .operator _ _ => modes

/-- The number of a limit's argument: what precedes a NUL is white space, a plus that may be left
out, and digits. -/
def readNumber (arg : Str) : Option Int :=
  let word := (arg.takeWhile (· != 0)).dropWhile ChannelCommandHandler.isspace
  let digits := if word.head? = some (chr '+') then word.tail else word
  if digits ≠ [] ∧ digits.all isDigit then
    some (Nat.ofDigits 10 (digits.reverse.map fun d => d.toNat - 48) : Nat)
  else none

/-- The change of one flag, and the arguments it leaves. -/
def readFlag (adding : Bool) (flag : UInt8) (args : List Str) : Option (ModeChange × List Str) :=
  if flag = chr 'i' then some (inviteOnly adding, args)
  else if flag = chr 't' then some (topicRestricted adding, args)
  else if flag = chr 'k' then
    if adding then args.head?.map fun arg => (key (some arg), args.tail)
    else some (key none, args)
  else if flag = chr 'l' then
    if adding then
      (args.head?.bind readNumber).map fun n => (limit (some n), args.tail)
    else some (limit none, args)
  else if flag = chr 'o' then args.head?.map fun arg => (operator arg adding, args.tail)
  else none

def readFlags (adding : Bool) : Str → List Str → Option (List ModeChange)
  | [], _ => some []
  | flag :: flags, args =>
    (readFlag adding flag args).bind fun (change, args) =>
      (readFlags adding flags args).map (change :: ·)

/-- The changes of a flag word. -/
def readWord : Str → List Str → Option (List ModeChange)
  | sign :: flags, args =>
    if sign = chr '+' then readFlags true flags args
    else if sign = chr '-' then readFlags false flags args
    else none
  | [], _ => none

end ModeChange

/-- The changes a line has whose parameter at `index` is the flag word. -/
def Message.modeChanges (msg : Message) (index : Nat) : Option (List ModeChange) :=
  ModeChange.readWord (msg.getSingleParam index) (msg.params.drop (index + 1))

/-- The modes of a channel that has these changes and no others. -/
def ChannelModes.ofChanges (changes : List ModeChange) : ChannelModes :=
  changes.foldl ModeChange.onModes {}

/-- The change on a channel. -/
def ServerState.changed (s : ServerState) (change : ModeChange) (ch : Channel) : Channel :=
  match change with
  | .operator nick adding =>
    match s.getClientByNick nick with
    | some q => { ch with
        members := ch.members.modify q fun info => { info with isOperator := adding } }
    | none => ch
  | change => { ch with modes := change.onModes ch.modes }

/-- The argument of the MODE command is read as one parameter again: a key is a token, and no space
is left between the white space before a limit, once the spaces at its front are skipped. -/
def Message.PlainArgument (msg : Message) : Prop :=
  let arg := msg.getSingleParam 2
  (msg.getSingleParam 1 = lit "+k" → arg ≠ [] ∧ chr ' ' ∉ arg ∧ arg.head? ≠ some (chr ':')) ∧
    (msg.getSingleParam 1 = lit "+l" →
      chr ' ' ∉ (Parser.skipSeparators arg).takeWhile ChannelCommandHandler.isspace)

/-- The key that a MODE gives to a channel. -/
def Turn.keyGiven (s : ServerState) : Turn → Option Str
  | .command addr now fd msg healthMonitor =>
    if msg.getSingleParam 1 = lit "+k" ∧
        (Turn.command addr now fd msg healthMonitor).isAccepted fd (lit "MODE") s = true then
      some (msg.getSingleParam 2)
    else none
  | _ => none

end Ircserv
