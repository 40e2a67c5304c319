import Ircserv.Reply

/-!
# The connection health monitor

Times are `std::time_t`, in seconds; each operation takes the time it is called at. A history is the
calls that were made on a monitor, in their order, each with that time.
-/

open Std

namespace Ircserv

abbrev Time := Int

structure HealthState where
  lastActivity : Time
  waitingForPong : Bool := false
  lastPingSentAt : Time := 0
  lastPongReceivedAt : Time := 0
  expectedPongToken : Str := []
  deriving DecidableEq, Inhabited

structure ConnectionHealthMonitor where
  timeoutSeconds : Time := 120
  clients : ExtTreeMap Fd HealthState := ∅
  deriving Inhabited

namespace ConnectionHealthMonitor

def getOrCreateState (m : ConnectionHealthMonitor) (fd : Fd) (now : Time) :
    ConnectionHealthMonitor :=
  { m with clients := m.clients.insertIfNew fd { lastActivity := now } }

/-- Writes through the reference `getOrCreateState` returns. -/
def modifyState (m : ConnectionHealthMonitor) (fd : Fd) (now : Time)
    (f : HealthState → HealthState) : ConnectionHealthMonitor :=
  let m := m.getOrCreateState fd now
  { m with clients := m.clients.modify fd f }

def updateActivity (m : ConnectionHealthMonitor) (fd : Fd) (now : Time) :
    ConnectionHealthMonitor :=
  m.modifyState fd now fun state => { state with lastActivity := now }

def makePingToken (fd : Fd) (now : Time) : Str :=
  lit "irc.local-" ++ intToString fd ++ lit "-" ++ intToString now

def generatePing (m : ConnectionHealthMonitor) (fd : Fd) (now : Time) :
    CommandResult × ConnectionHealthMonitor :=
  let token := makePingToken fd now
  (CommandResult.reply fd (ReplyBuilder.ping token),
    m.modifyState fd now fun state => { state with
      lastActivity := now
      waitingForPong := true
      lastPingSentAt := now
      expectedPongToken := token })

def markPongReceived (m : ConnectionHealthMonitor) (fd : Fd) (token : Str) (now : Time) :
    ConnectionHealthMonitor :=
  m.modifyState fd now fun state =>
    let state := { state with lastActivity := now }
    if state.waitingForPong && token == state.expectedPongToken then
      { state with waitingForPong := false, lastPongReceivedAt := now, expectedPongToken := [] }
    else state

def hasTimedOut (m : ConnectionHealthMonitor) (fd : Fd) (now : Time) : Bool :=
  match m.clients[fd]? with
  | none => false
  | some state =>
    if !state.waitingForPong then false else m.timeoutSeconds < now - state.lastPingSentAt

def collectTimedOutClients (m : ConnectionHealthMonitor) (now : Time) : List Fd :=
  m.clients.keys.filter fun fd => m.hasTimedOut fd now

def removeClient (m : ConnectionHealthMonitor) (fd : Fd) : ConnectionHealthMonitor :=
  { m with clients := m.clients.erase fd }

def isWaitingForPong (m : ConnectionHealthMonitor) (fd : Fd) : Bool :=
  match m.clients[fd]? with
  | none => false
  | some state => state.waitingForPong

end ConnectionHealthMonitor

/-- A call that changes a health monitor. -/
inductive HealthCall where
  | updateActivity (fd : Fd) (now : Time)
  | generatePing (fd : Fd) (now : Time)
  | markPongReceived (fd : Fd) (token : Str) (now : Time)
  | removeClient (fd : Fd)
  deriving DecidableEq

namespace ConnectionHealthMonitor

def call (m : ConnectionHealthMonitor) : HealthCall → ConnectionHealthMonitor
  | .updateActivity fd now => m.updateActivity fd now
  | .generatePing fd now => (m.generatePing fd now).2
  | .markPongReceived fd token now => m.markPongReceived fd token now
  | .removeClient fd => m.removeClient fd

/-- The monitor after a history. -/
def calls (timeout : Time) (history : List HealthCall) : ConnectionHealthMonitor :=
  history.foldl call { timeoutSeconds := timeout }

end ConnectionHealthMonitor

/-- The calls after which the ping that was sent to `fd` at `t` is not waited for. -/
def HealthCall.Settles (fd : Fd) (t : Time) : HealthCall → Prop
  | .updateActivity _ _ => False
  | .generatePing g _ => g = fd
  | .markPongReceived g token _ => g = fd ∧ token = ConnectionHealthMonitor.makePingToken fd t
  | .removeClient g => g = fd

/-- The last ping to `fd` was sent at `t`, and neither its token came back nor the client left. -/
def Awaited (history : List HealthCall) (fd : Fd) (t : Time) : Prop :=
  ∃ before after, history = before ++ .generatePing fd t :: after ∧ ∀ c ∈ after, ¬ c.Settles fd t

end Ircserv
