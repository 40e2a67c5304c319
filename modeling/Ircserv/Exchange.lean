import Ircserv.Bot

/-!
# Bots in a channel

The bots of one channel see each other's messages. What a bot enqueues for the channel is relayed to
all others, and the messages under way arrive in any order.
-/

namespace Ircserv

structure Exchange (n : Nat) where
  bots : Fin n → Bot
  /-- The messages under way, each with the bot that it goes to. -/
  pending : List (Fin n × Message) := []
  /-- The texts that the bots have sent to the channel. -/
  sent : List Str := []

namespace Exchange

variable {n : Nat} (channel : Str) (client : Fin n → Str)

/-- A message to the channel, as all but its author see it. -/
def relay (author : Option (Fin n)) (sender text : Str) : List (Fin n × Message) :=
  ((List.finRange n).filter fun i => some i ≠ author).map fun i =>
    (i, { sender := sender, command := lit "PRIVMSG", params := [channel, text] })

/-- The text that a line sends to the channel, if it does. -/
def channelText (line : Str) : Option Str :=
  let message := Parser.parse line
  if message.command = lit "PRIVMSG" ∧ message.getSingleParam 0 = channel then
    some (message.getSingleParam 1)
  else none

/-- One of the messages under way arrives. A bot that was told to quit still answers, as it does in
what it has read. -/
def deliver (e : Exchange n) (choice : Nat × Option Tm) : Option (Exchange n) :=
  match e.pending[choice.1]? with
  | none => none
  | some (i, message) =>
    let bot := (e.bots i).handleMessage choice.2 message
    let texts := (bot.outbox.drop (e.bots i).outbox.length).filterMap (channelText channel)
    some {
      bots := Function.update e.bots i bot
      pending := e.pending.eraseIdx choice.1 ++ texts.flatMap (relay channel (some i) (client i))
      sent := e.sent ++ texts }

/-- The messages arrive in the order chosen. -/
def run (e : Exchange n) (order : List (Nat × Option Tm)) : Option (Exchange n) :=
  order.foldlM (deliver channel client) e

end Exchange

end Ircserv
