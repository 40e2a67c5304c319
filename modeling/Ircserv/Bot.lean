import Ircserv.LineBuffer
import Ircserv.Reply

/-!
# The bot

`bonus::Bot`: what it does with the bytes that it receives, and the lines it puts in its outbox.
-/

namespace Ircserv

open ReplyBuilder

namespace IrcFormatter

def pass (password : Str) : Str := lit "PASS " ++ password ++ crlf

def nick (nickname : Str) : Str := lit "NICK " ++ nickname ++ crlf

def user (username realname : Str) : Str :=
  lit "USER " ++ username ++ lit " 0 * :" ++ realname ++ crlf

def pong (token : Str) : Str := lit "PONG :" ++ token ++ crlf

def join (channel : Str) : Str := lit "JOIN " ++ channel ++ crlf

def commandWithTrailing (command target trailing : Str) : Str :=
  command ++ lit " " ++ target ++ lit " :" ++ trailing ++ crlf

def privmsg (target text : Str) : Str := commandWithTrailing (lit "PRIVMSG") target text

def quit (message : Str) : Str := lit "QUIT :" ++ message ++ crlf

end IrcFormatter

/-- The fields of a `std::tm` that are printed; `year` counts from 1900, and `mon` from zero. -/
structure Tm where
  year : Int
  mon : Nat
  mday : Nat
  hour : Nat
  min : Nat
  sec : Nat
  deriving DecidableEq, Inhabited

/-- A number of at least two digits, as `strftime` prints it. -/
def twoDigits (n : Nat) : Str := if n < 10 then lit "0" ++ intToString n else intToString n

/-- `%Y-%m-%d %H:%M:%S`. -/
def Tm.text (tm : Tm) : Str :=
  intToString (tm.year + 1900) ++ lit "-" ++ twoDigits (tm.mon + 1) ++ lit "-" ++
    twoDigits tm.mday ++ lit " " ++ twoDigits tm.hour ++ lit ":" ++ twoDigits tm.min ++ lit ":" ++
    twoDigits tm.sec

/-- The text of what `localtime` gives, unless it is a null pointer or the buffer of `strftime` is
too small. -/
def currentTimeText (timeInfo : Option Tm) : Str :=
  match timeInfo with
  | none => lit "time unavailable"
  | some tm => if 64 ≤ tm.text.length then lit "time unavailable" else tm.text

structure Bot where
  password : Str := []
  channel : Str := []
  nickname : Str := []
  running : Bool := true
  joined : Bool := false
  lineBuffer : LineBuffer := {}
  /-- The queue, with its front first. -/
  outbox : List Str := []
  deriving DecidableEq, Inhabited

namespace Bot

def enqueue (bot : Bot) (line : Str) : Bot := { bot with outbox := bot.outbox ++ [line] }

def enqueueRegistration (bot : Bot) : Bot :=
  let bot := if bot.password = [] then bot else bot.enqueue (IrcFormatter.pass bot.password)
  let bot := bot.enqueue (IrcFormatter.nick bot.nickname)
  bot.enqueue (IrcFormatter.user bot.nickname (lit "ft_irc bonus bot"))

def senderNick (sender : Str) : Str :=
  match sender.findIdx? (· == chr '!') with
  | some e => sender.take e
  | none =>
    match sender.findIdx? (· == chr '@') with
    | some e => sender.take e
    | none => sender

def replyTarget (message : Message) : Str :=
  let target := message.getSingleParam 0
  if target.head? = some (chr '#') ∨ target.head? = some (chr '&') then target
  else senderNick message.sender

/-- The reply to a command, and the bot after it; `timeInfo` is what `localtime` gives. -/
def buildCommandReply (timeInfo : Option Tm) (bot : Bot) (text : Str) : Str × Bot :=
  if text = lit "!help" then (lit "commands: !help !ping !echo <text> !time !quit", bot)
  else if text = lit "!ping" then (lit "pong", bot)
  else if (lit "!echo ").isPrefixOf text then (text.drop 6, bot)
  else if text = lit "!time" then (currentTimeText timeInfo, bot)
  else if text = lit "!quit" then
    let bot := bot.enqueue (IrcFormatter.quit (lit "bonus bot shutting down"))
    (lit "bye", { bot with running := false })
  else (lit "unknown command; try !help", bot)

def sendReply (bot : Bot) (message : Message) (text : Str) : Bot :=
  if text = [] then bot else bot.enqueue (IrcFormatter.privmsg (replyTarget message) text)

def handlePrivmsg (timeInfo : Option Tm) (bot : Bot) (message : Message) : Bot :=
  if !message.hasParam 1 then bot
  else
    let text := message.getSingleParam 1
    if text.head? ≠ some (chr '!') then bot
    else
      let (reply, bot) := buildCommandReply timeInfo bot text
      bot.sendReply message reply

def handleMessage (timeInfo : Option Tm) (bot : Bot) (message : Message) : Bot :=
  if message.command = lit "PING" ∧ message.hasParam 0 then
    bot.enqueue (IrcFormatter.pong (message.getSingleParam 0))
  else if message.command = lit "001" ∧ !bot.joined then
    { bot.enqueue (IrcFormatter.join bot.channel) with joined := true }
  else if message.command = lit "PRIVMSG" then bot.handlePrivmsg timeInfo message
  else bot

/-- The loop of `readFromServer`, over the lines in the queue; `localtime n` is the local time at
the line with `n` lines after it. -/
def handleLines (localtime : Nat → Option Tm) : Nat → Bot → Bot
  | 0, bot => bot
  | fuel + 1, bot =>
    if bot.lineBuffer.hasLine then
      let (line, lineBuffer) := bot.lineBuffer.popLine
      handleLines localtime fuel
        ({ bot with lineBuffer := lineBuffer }.handleMessage (localtime fuel) (Parser.parse line))
    else bot

/-- What `recv` gives, if it does, and what `localtime` gives for the lines read then. -/
structure Received where
  recv : Option Str
  localtime : Nat → Option Tm := fun _ => none

/-- Nothing is left of the bot when it throws. -/
def readFromServer (bot : Bot) (received : Received) : Option Bot :=
  match received.recv with
  | none => none
  | some [] => none
  | some buffer =>
    let bot := { bot with lineBuffer := bot.lineBuffer.append buffer }
    some (handleLines received.localtime bot.lineBuffer.lines.length bot)

def reads (bot : Bot) (received : List Received) : Option Bot :=
  received.foldlM readFromServer bot

end Bot

end Ircserv
