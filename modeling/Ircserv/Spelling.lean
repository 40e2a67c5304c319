import Ircserv.Rooms

/-!
# Spellings of a name

A name may be written in any letter case. The commands print the spelling they were given.
-/

namespace Ircserv

/-- The text is the same as the other, but for places where it has `new` for `old`. -/
inductive Respelt (old new : Str) : Str → Str → Prop
  | same (text : Str) : Respelt old new text text
  | echo : Respelt old new old new
  | append {x x' y y' : Str} (hx : Respelt old new x x') (hy : Respelt old new y y') :
      Respelt old new (x ++ y) (x' ++ y')

namespace Message

/-- Where a command names a channel; a text may name one. -/
def channelIndex (msg : Message) : Option Nat :=
  if msg.command = lit "INVITE" then some 1
  else if [lit "JOIN", lit "PART", lit "KICK", lit "TOPIC", lit "MODE", lit "PRIVMSG",
      lit "NOTICE"].contains msg.command then some 0
  else none

/-- Where a command names its target; a text may name one. -/
def nickIndex (msg : Message) : Option Nat :=
  if [lit "PRIVMSG", lit "NOTICE", lit "INVITE"].contains msg.command then some 0
  else if msg.command = lit "KICK" then some 1
  else if msg.command = lit "MODE" ∧ [lit "+o", lit "-o"].contains (msg.getSingleParam 1) then some 2
  else none

/-- The message with another spelling of a parameter. -/
def respell (msg : Message) (index : Nat) (new : Str) : Message :=
  { msg with params := msg.params.set index new }

end Message

/-- A name that a command may be given in another spelling: of a channel that there is, or of a
target as long as it stays a valid nick or no valid one. -/
def Respellable (s : ServerState) (msg : Message) (i : Nat) (new : Str) : Prop :=
  some i = msg.channelIndex ∧ s.room (msg.getSingleParam i) ≠ none ∨
    some i = msg.nickIndex ∧ isValidNickname new = isValidNickname (msg.getSingleParam i)

end Ircserv
