import Ircserv.Bot
import Ircserv.Server

/-!
# The loop of the bot

`Bot::run`, from the registration to its end: one pass of a loop is a step, and what `poll`, `recv`
and `send` give are its inputs.
-/

namespace Ircserv

namespace Bot

/-- What `poll` gives for the one descriptor. -/
inductive Polled
  | failed
  | timeout
  | ready (revents : PollMask)
  deriving DecidableEq, Inhabited

/-- What the system gives back in one pass; the `n`-th call of `send` takes `send n` bytes, and none
when it fails. -/
structure Pass where
  poll : Polled := .timeout
  received : Received := { recv := none }
  send : Nat → Nat := fun _ => 0
  deriving Inhabited

/-- What `flushOutput` hands to `send`, and what it leaves. -/
structure Flushed where
  sent : Str := []
  outbox : List Str := []
  /-- It throws. -/
  failed : Bool := false
  deriving DecidableEq, Inhabited

/-- The loop of `flushOutput`, after `n` calls of `send`. -/
def flushOutput (send : Nat → Nat) : Nat → List Str → Flushed
  | _, [] => {}
  | n, line :: outbox =>
    let sent := min (send n) line.length
    if sent = 0 then { outbox := line :: outbox, failed := true }
    else
      let left := line.drop sent
      if left ≠ [] then { sent := line.take sent, outbox := left :: outbox }
      else
        let rest := flushOutput send (n + 1) outbox
        { rest with sent := line ++ rest.sent }

/-- Where `run` stands. -/
inductive Stage
  /-- At the start of a pass of the loop with `poll`. -/
  | polling
  /-- In the loop that flushes what is left. -/
  | draining
  | returned
  | thrown
  deriving DecidableEq, Inhabited

/-- The bot in its loop, with the bytes it received and sent so far. -/
structure Session where
  bot : Bot
  stage : Stage := .polling
  received : Str := []
  sent : Str := []
  deriving DecidableEq, Inhabited

namespace Session

def readFromServer (c : Session) (received : Received) : Session :=
  match c.bot.readFromServer received with
  | none => { c with stage := .thrown }
  | some bot => { c with bot := bot, received := c.received ++ received.recv.getD [] }

def flushOutput (c : Session) (send : Nat → Nat) : Session :=
  let r := Bot.flushOutput send 0 c.bot.outbox
  { c with
    bot := { c.bot with outbox := r.outbox }
    sent := c.sent ++ r.sent
    stage := if r.failed then .thrown else c.stage }

/-- A pass of the loop with `poll`, when the bot is running. -/
def poll (c : Session) (p : Pass) : Session :=
  match p.poll with
  | .failed => { c with stage := .thrown }
  | .timeout => c
  | .ready revents =>
    if revents.has (POLLERR ||| POLLHUP ||| POLLNVAL) then { c with stage := .thrown }
    else
      let c := if revents.has POLLIN then c.readFromServer p.received else c
      if c.stage = .thrown then c
      else if revents.has POLLOUT then c.flushOutput p.send
      else c

def step (c : Session) (p : Pass) : Session :=
  match c.stage with
  | .polling => if c.bot.running then c.poll p else { c with stage := .draining }
  | .draining => if c.bot.outbox = [] then { c with stage := .returned } else c.flushOutput p.send
  | .returned | .thrown => c

def run (c : Session) (passes : List Pass) : Session := passes.foldl step c

/-- The bot is connected, and its registration is in the outbox. -/
def start (password channel nickname : Str) : Session where
  bot := enqueueRegistration { password := password, channel := channel, nickname := nickname }

end Session

/-- The bot after some lines, each with what `localtime` gives then. -/
def hears (bot : Bot) (heard : List (Str × Option Tm)) : Bot :=
  heard.foldl (fun bot line => bot.handleMessage line.2 (Parser.parse line.1)) bot

end Bot

end Ircserv
