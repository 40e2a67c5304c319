import Ircserv.Lines

/-!
# Runs of the state

A run of the state is any sequence of arrivals, removals and commands, from the empty state. A turn
is an action with everything it has to say: an arrival says nothing, a command gives its result, and
before a client is removed the notice of its disconnection is built. A connection lasts from the
arrival on a free descriptor to the departure of that descriptor.
-/

namespace Ircserv

/-- What the server does to its state. The address is what `new` is asked for, the time and the
health monitor are those `dispatch` is given. -/
inductive Action
  | addClient (addr : Addr) (fd : Fd) (host : Str)
  | removeClient (fd : Fd)
  | dispatch (addr : Addr) (now : Time) (fd : Fd) (msg : Message)
      (healthMonitor : Option ConnectionHealthMonitor)

namespace ServerState

def act (s : ServerState) : Action → ServerState
  | .addClient addr fd host => s.addClient addr fd host
  | .removeClient fd => s.removeClient fd
  | .dispatch addr now fd msg healthMonitor =>
    (CommandDispatcher.dispatchWith addr now fd msg s healthMonitor).2.1

/-- The state after the actions, from the empty one. -/
def run (password : Str) (actions : List Action) : ServerState :=
  actions.foldl act { password := password }

/-- The client is one that the map of descriptors owns. -/
def OwnsClient (s : ServerState) (p : Addr) : Prop :=
  ∃ fd : Fd, s.client.fdToClient[fd]? = some p

/-- The channel is one that the map of channels owns. -/
def OwnsChannel (s : ServerState) (a : Addr) : Prop :=
  ∃ n : Str, s.channels[n]? = some a

end ServerState

inductive Turn
  | arrive (addr : Addr) (fd : Fd) (host : Str)
  | command (addr : Addr) (now : Time) (fd : Fd) (msg : Message)
      (healthMonitor : Option ConnectionHealthMonitor)
  | depart (fd : Fd) (reason : Str)

namespace Turn

def action : Turn → Action
  | .arrive addr fd host => .addClient addr fd host
  | .command addr now fd msg healthMonitor => .dispatch addr now fd msg healthMonitor
  | .depart fd _ => .removeClient fd

/-- What the turn gives to the connections. -/
def result (s : ServerState) : Turn → CommandResult
  | .arrive _ _ _ => {}
  | .command addr now fd msg healthMonitor =>
    (CommandDispatcher.dispatchWith addr now fd msg s healthMonitor).1
  | .depart fd reason => DisconnectNotifier.build fd reason s

/-- Whether the turn is a command of the descriptor. -/
def isCommandOf (fd : Fd) : Turn → Bool
  | .command _ _ g _ _ => g == fd
  | _ => false

/-- Whether the turn is the departure of the descriptor. -/
def isDepartureOf (fd : Fd) : Turn → Bool
  | .depart g _ => g == fd
  | _ => false

/-- Whether the turn is a PASS of the descriptor with this password. -/
def isPassOf (fd : Fd) (password : Str) : Turn → Bool
  | .command _ _ g msg _ => g == fd && msg.command == lit "PASS" && msg.params[0]? == some password
  | _ => false

/-- Whether the turn is a USER of the descriptor, with a username and a realname (`complete`), or
with one of them empty. -/
def isUserOf (fd : Fd) (complete : Bool) : Turn → Bool
  | .command _ _ g msg _ => g == fd && msg.command == lit "USER" && decide (4 ≤ msg.getParamCount) &&
    (msg.getSingleParam 0 != [] && msg.getSingleParam 3 != []) == complete
  | _ => false

/-- Whether the turn is this command of the descriptor, and no reply to it is an error. -/
def isAccepted (fd : Fd) (command : Str) (s : ServerState) : Turn → Bool
  | .command addr now g msg healthMonitor => g == fd && msg.command == command &&
    (CommandDispatcher.dispatchWith addr now g msg s healthMonitor).1.replies.all fun m =>
      m.fd != fd || !isErrorNumeric m.message
  | _ => false

end Turn

namespace ServerState

def play (s : ServerState) (turns : List Turn) : ServerState :=
  turns.foldl (fun s t => s.act t.action) s

/-- The replies of the turns, in order. -/
def traffic (s : ServerState) : List Turn → List OutgoingMessage
  | [] => []
  | t :: turns => (t.result s).replies ++ (s.act t.action).traffic turns

/-- The client of the descriptor has given the password and is not registered yet. -/
def registering (s : ServerState) (fd : Fd) : Bool :=
  (s.getClientByFd fd).any fun p => (s.clientAt p).passOk && !(s.clientAt p).registered

/-- One of the turns is this command of the descriptor, and is accepted. -/
def Accepts (s : ServerState) (fd : Fd) (command : Str) (turns : List Turn) : Prop :=
  ∃ past t later, turns = past ++ t :: later ∧ t.isAccepted fd command (s.play past) = true

/-- A PASS of the descriptor is accepted, and after it a NICK and a USER, in any order. -/
def AcceptsAll (s : ServerState) (fd : Fd) (turns : List Turn) : Prop :=
  ∃ past t later, turns = past ++ t :: later ∧ t.isAccepted fd (lit "PASS") (s.play past) = true ∧
    (s.play (past ++ [t])).Accepts fd (lit "NICK") later ∧
    (s.play (past ++ [t])).Accepts fd (lit "USER") later

/-- The welcomes sent to the descriptor. -/
def welcomes (fd : Fd) (replies : List OutgoingMessage) : Nat :=
  replies.countP fun m => m.fd == fd && numericOf m.message == some 1

end ServerState

/-- The turns of a connection: the client arrives on a descriptor that is free, and does not
depart. -/
structure Lifetime (s : ServerState) (fd : Fd) (during : List Turn) : Prop where
  free : s.getClientByFd fd = none
  stays : ∀ t ∈ during, t.isDepartureOf fd = false

end Ircserv
