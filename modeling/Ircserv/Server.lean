import Ircserv.Connection
import Ircserv.Dispatch

/-!
# The server loop

`Machine.step` runs `Server::run` one iteration of one of its loops at a time: a call of `poll`,
the handling of one entry of `_pollfds`, or the disconnection of one client that timed out. What
the system calls give back is an `Input`.

`trace` is not in the source. It records, latest first, what the server did at its sockets, the
lines it handed to the parser, and the results it applied; nothing the server does depends on it.
-/

open Std

namespace Ircserv

/-- The bits of `events` and `revents`. -/
abbrev PollMask := BitVec 16

def POLLIN : PollMask := 0x001
def POLLOUT : PollMask := 0x004
def POLLERR : PollMask := 0x008
def POLLHUP : PollMask := 0x010
def POLLNVAL : PollMask := 0x020

/-- Whether any of the bits of `bits` is up in `mask`. -/
def PollMask.has (mask bits : PollMask) : Bool := mask &&& bits != 0

structure PollFd where
  fd : Fd
  events : PollMask
  revents : PollMask := 0
  deriving DecidableEq, Inhabited

inductive Event
  | listen (fd : Fd)
  | accept (fd : Fd)
  | poll (fds : List Fd)
  | recv (fd : Fd) (data : Option Str)
  | tooLong (fd : Fd)
  /-- A line handed to the parser, then dispatched. -/
  | line (fd : Fd) (line : Str)
  /-- A reply appended to a send buffer, with the buffer after it. -/
  | enqueue (fd : Fd) (message buffer : Str)
  /-- A reply to a descriptor the server does not know. -/
  | skip (fd : Fd)
  /-- All the replies of a result were gone through. -/
  | applied (result : CommandResult)
  /-- A `send`, with the bytes it took and the buffer after it. -/
  | send (fd : Fd) (bytes buffer : Str)
  /-- `_notifyAndDisconnect` was called, with the state it found. -/
  | disconnect (fd : Fd) (reason : Str) (state : ServerState)
  | close (fd : Fd)
  /-- A null or dangling `Connection*` was followed. -/
  | fault (fd : Fd)

/-- A descriptor `accept` gave back, with its host and whether `fcntl` accepts it. -/
structure Accepted where
  fd : Fd
  host : Str := []
  nonBlocking : Bool := true
  deriving DecidableEq, Inhabited

/-- What the system gives back while one entry is handled. `time n` and `addr n` are what the
`n`-th call of `std::time` and of `new` give. -/
structure Syscalls where
  accept : Option Accepted := none
  recv : Option Str := none
  send : Nat := 0
  time : Nat → Time := fun _ => 0
  addr : Nat → Addr := fun _ => 0
  deriving Inhabited

structure Server where
  listenFd : Fd
  pollfds : List PollFd := []
  /-- `none` is the null pointer. -/
  connections : ExtTreeMap Fd (Option Addr) := ∅
  /-- The `Connection` objects alive. -/
  objects : Heap Connection := ∅
  state : ServerState
  healthMonitor : ConnectionHealthMonitor := { timeoutSeconds := 30 }
  trace : List Event := []
  deriving Inhabited

namespace Server

def log (s : Server) (e : Event) : Server := { s with trace := e :: s.trace }

def addFd (s : Server) (fd : Fd) (events : PollMask) : Server :=
  { s with pollfds := s.pollfds ++ [{ fd := fd, events := events }] }

/-- The constructor. -/
def construct (listenFd : Fd) (password : Str) : Server :=
  ({ listenFd := listenFd, state := { password := password } } : Server).log (.listen listenFd)
    |>.addFd listenFd POLLIN

/-- The result is `false` when `_setNonBlocking` throws. -/
def acceptClient (k : Syscalls) (s : Server) : Bool × Server :=
  match k.accept with
  | none => (true, s)
  | some cs =>
    let s := s.log (.accept cs.fd)
    if !cs.nonBlocking then (false, s)
    else
      let conn := Heap.fresh s.objects (k.addr 0)
      let s := { s with
        objects := s.objects.insert conn { fd := cs.fd }
        connections := s.connections.insert cs.fd (some conn) }
      let s := s.addFd cs.fd POLLIN
      (true, { s with state := s.state.addClient (k.addr 1) cs.fd cs.host })

/-- The connection a pointer leads to, if it leads to one. -/
def connectionAt (s : Server) (conn : Option Addr) : Option Connection :=
  conn.bind fun p => s.objects[p]?

/-- The connection of `fd`. -/
def connection (s : Server) (fd : Fd) : Option Connection :=
  s.connections[fd]?.bind s.connectionAt

def setConnection (s : Server) (conn : Addr) (c : Connection) : Server :=
  { s with objects := s.objects.modify conn fun _ => c }

/-- Writes the events of the first entry of `fd`. -/
def modifyEvents (fd : Fd) (f : PollMask → PollMask) : List PollFd → List PollFd
  | [] => []
  | p :: ps =>
    if p.fd = fd then { p with events := f p.events } :: ps else p :: modifyEvents fd f ps

def enablePollout (s : Server) (fd : Fd) : Server :=
  { s with pollfds := modifyEvents fd (· ||| POLLOUT) s.pollfds }

def disablePollout (s : Server) (fd : Fd) : Server :=
  { s with pollfds := modifyEvents fd (· &&& ~~~POLLOUT) s.pollfds }

def removeFd (s : Server) (fd : Fd) : Server :=
  { s with pollfds := s.pollfds.eraseP (·.fd == fd) }

/-- One round of the loop of `_enqueueReplies`. -/
def enqueueReply (s : Server) (reply : OutgoingMessage) : Server :=
  match s.connections[reply.fd]? with
  | none => s.log (.skip reply.fd)
  | some conn =>
    match conn, s.connectionAt conn with
    | some p, some c =>
      let c := c.bufferSend reply.message
      ((s.setConnection p c).log (.enqueue reply.fd reply.message c.sendBuffer)).enablePollout
        reply.fd
    | _, _ => s.log (.fault reply.fd)

def enqueueReplies (s : Server) (result : CommandResult) : Server :=
  (result.replies.foldl enqueueReply s).log (.applied result)

def disconnectClient (s : Server) (fd : Fd) : Server :=
  let s := s.log (.close fd)
  let s := s.removeFd fd
  let s :=
    match s.connections[fd]? with
    | none => s
    | some conn =>
      { s with
        objects := match conn with
          | some p => s.objects.erase p
          | none => s.objects
        connections := s.connections.erase fd
        state := s.state.removeClient fd }
  { s with healthMonitor := s.healthMonitor.removeClient fd }

def notifyAndDisconnect (s : Server) (fd : Fd) (reason : Str) : Server :=
  let s := s.log (.disconnect fd reason s.state)
  let notify := DisconnectNotifier.build fd reason s.state
  let s := s.enqueueReplies notify
  s.disconnectClient fd

def applyCommandResult (s : Server) (result : CommandResult) (sourceFd : Fd) : Server :=
  let s := s.enqueueReplies result
  if result.shouldDisconnect then s.notifyAndDisconnect sourceFd (lit "Client Quit") else s

/-- The `n`-th line of `_handleRead`, after `hasCompleteLine` said yes. -/
def handleLine (k : Syscalls) (fd : Fd) (conn : Addr) (c : Connection) (n : Nat) (s : Server) :
    Bool × Server :=
  let (line, c) := c.popLine
  let s := (s.setConnection conn c).log (.line fd line)
  let msg := Parser.parse line
  let (result, state, healthMonitor) :=
    CommandDispatcher.dispatchWith (k.addr n) (k.time (n + 1)) fd msg s.state
      (some s.healthMonitor)
  let s := { s with state := state, healthMonitor := healthMonitor.getD s.healthMonitor }
  let s := s.applyCommandResult result fd
  (!result.shouldDisconnect, s)

/-- The loop of `_handleRead`; `conn` is the local pointer. Each round takes a byte off the
receive buffer, so its length bounds the rounds. -/
def handleLines (k : Syscalls) (fd : Fd) (conn : Addr) : Nat → Nat → Server → Bool × Server
  | 0, _, s => (true, s)
  | fuel + 1, n, s =>
    match s.objects[conn]? with
    | none => (false, s.log (.fault fd))
    | some c =>
      let (complete, c) := c.hasCompleteLine
      let s := s.setConnection conn c
      if !complete then (true, s)
      else
        let (going, s) := handleLine k fd conn c n s
        if !going then (false, s) else handleLines k fd conn fuel (n + 1) s

def handleRead (k : Syscalls) (s : Server) (fd : Fd) : Bool × Server :=
  -- `_connections[fd]` makes a null entry where there is none
  let s := { s with connections := s.connections.insertIfNew fd none }
  match s.connections[fd]?.getD none, s.connection fd with
  | some conn, some c =>
    let (received, c) := c.readFromSocket k.recv
    let s := (s.setConnection conn c).log (.recv fd k.recv)
    if !received then (false, s)
    else if c.isLineTooLong then (false, s.log (.tooLong fd))
    else
      let s := { s with healthMonitor := s.healthMonitor.updateActivity fd (k.time 0) }
      handleLines k fd conn (c.recvBuffer.length + 1) 0 s
  | _, _ => (false, s.log (.fault fd))

def handleWrite (k : Syscalls) (s : Server) (fd : Fd) : Bool × Server :=
  let s := { s with connections := s.connections.insertIfNew fd none }
  match s.connections[fd]?.getD none, s.connection fd with
  | some conn, some c =>
    let (written, c') := c.writeToSocket k.send
    -- an empty buffer is not handed to `send`
    let s := if c.sendBuffer = [] then s
      else s.log (.send fd (c.sendBuffer.take k.send) c'.sendBuffer)
    let s := s.setConnection conn c'
    if !written then (false, s)
    else if !c'.hasPendingOutput then (true, s.disablePollout fd)
    else (true, s)
  | _, _ => (false, s.log (.fault fd))

def SIZE_MAX : Nat := 0xFFFFFFFFFFFFFFFF

/-- `--i` on a `size_t`. -/
def sizeDec (i : Nat) : Nat := (i + SIZE_MAX) % (SIZE_MAX + 1)

/-- `++i` on a `size_t`. -/
def sizeInc (i : Nat) : Nat := (i + 1) % (SIZE_MAX + 1)

/-- The POLLIN branch for a client. -/
def readBranch (k : Syscalls) (s : Server) (fd : Fd) : Bool × Server :=
  let (going, s) := s.handleRead k fd
  if !going then
    (false, if s.connections.contains fd then
      s.notifyAndDisconnect fd (lit "Connection reset") else s)
  else (true, s)

/-- The POLLOUT branch for a client. -/
def writeBranch (k : Syscalls) (s : Server) (fd : Fd) : Bool × Server :=
  let (going, s) := s.handleWrite k fd
  if !going then (false, s.notifyAndDisconnect fd (lit "Connection reset")) else (true, s)

/-- What the loop over `_pollfds` does for a client whose `revents` are not zero; `false` when
the client was disconnected. -/
def handleClient (k : Syscalls) (s : Server) (fd : Fd) (rev : PollMask) : Bool × Server :=
  let (going, s) := if rev.has POLLIN then s.readBranch k fd else (true, s)
  if !going then (false, s)
  else
  let (going, s) := if rev.has POLLOUT then s.writeBranch k fd else (true, s)
  if !going then (false, s)
  else if rev.has (POLLERR ||| POLLHUP ||| POLLNVAL) then
    (false, s.notifyAndDisconnect fd (lit "Connection reset"))
  else (true, s)

/-- The body of the loop over `_pollfds` at index `i`, with the index before `++i`; `none` when an
exception leaves the loop. -/
def visit (k : Syscalls) (s : Server) (i : Nat) : Option Nat × Server :=
  match s.pollfds[i]? with
  | none => (some i, s)
  | some p =>
    if p.revents = 0 then (some i, s)
    else if p.fd = s.listenFd then
      if p.revents.has POLLIN then
        let (accepted, s) := s.acceptClient k
        (if accepted then some i else none, s)
      else (some i, s)
    else
      let (kept, s) := s.handleClient k p.fd p.revents
      (some (if kept then i else sizeDec i), s)

end Server

/-- Where `run` stands. -/
inductive Phase
  /-- At the start of a pass. -/
  | poll
  /-- In the loop over `_pollfds`, at an index. -/
  | scan (i : Nat)
  /-- In the loop over the clients that timed out. -/
  | timeouts (fds : List Fd)
  | stopped
  deriving DecidableEq, Inhabited

inductive PollResult
  | interrupted
  | failed
  | ready (revents : Nat → PollMask)
  deriving Inhabited

structure Input where
  /-- What `_isShutdownRequested` says before and after `poll`. -/
  shutdownBefore : Bool := false
  shutdownAfter : Bool := false
  poll : PollResult := .interrupted
  calls : Syscalls := {}
  now : Time := 0
  deriving Inhabited

structure Machine where
  server : Server
  phase : Phase := .poll
  deriving Inhabited

namespace Input

/-- `poll` returns with these `revents`. -/
def ready (revents : List PollMask) : Input := { poll := .ready fun i => revents.getD i 0 }

/-- `accept` gives back `fd`. -/
def accepts (fd : Fd) : Input := { calls := { accept := some { fd := fd } } }

/-- `recv` gives back `data`. -/
def receives (data : String) : Input := { calls := { recv := some (lit data) } }

/-- `send` takes `n` bytes. -/
def sends (n : Nat) : Input := { calls := { send := n } }

end Input

namespace Machine

def start (listenFd : Fd) (password : Str) : Machine :=
  { server := .construct listenFd password }

/-- The call of `poll` and what follows it. -/
def pollStep (s : Server) (inp : Input) : Machine :=
  if inp.shutdownBefore then ⟨s, .stopped⟩
  else
    let s := s.log (.poll (s.pollfds.map (·.fd)))
    match inp.poll with
    | .failed => ⟨s, .stopped⟩
    | .interrupted => ⟨s, if inp.shutdownAfter then .stopped else .poll⟩
    | .ready revents =>
      ⟨{ s with pollfds := s.pollfds.mapIdx fun i p => { p with revents := revents i } },
        if inp.shutdownAfter then .stopped else .scan 0⟩

def scanStep (s : Server) (i : Nat) (inp : Input) : Machine :=
  if i < s.pollfds.length then
    match s.visit inp.calls i with
    | (some i, s) => ⟨s, .scan (Server.sizeInc i)⟩
    | (none, s) => ⟨s, .stopped⟩
  else ⟨s, .timeouts (s.healthMonitor.collectTimedOutClients inp.now)⟩

def step (m : Machine) (inp : Input) : Machine :=
  match m.phase with
  | .poll => pollStep m.server inp
  | .scan i => scanStep m.server i inp
  | .timeouts [] => ⟨m.server, .poll⟩
  | .timeouts (fd :: fds) =>
    ⟨m.server.notifyAndDisconnect fd (lit "Ping timeout"), .timeouts fds⟩
  | .stopped => m

end Machine

/-- The descriptors open after a trace. -/
def openFds : List Event → List Fd
  | [] => []
  | .listen fd :: earlier => fd :: openFds earlier
  | .accept fd :: earlier => fd :: openFds earlier
  | .close fd :: earlier => (openFds earlier).filter (· ≠ fd)
  | _ :: earlier => openFds earlier

/-- What the events since `fd` was last accepted have to say, in the order they happened. -/
def sinceAccept {β : Type*} (fd : Fd) (f : Event → List β) : List Event → List β
  | [] => []
  | .accept g :: earlier => if g = fd then [] else sinceAccept fd f earlier
  | e :: earlier => sinceAccept fd f earlier ++ f e

/-- `accept` does not give back a descriptor that is open. -/
def Input.Fresh (inp : Input) (m : Machine) : Prop :=
  ∀ cs, inp.calls.accept = some cs → cs.fd ∉ openFds m.server.trace

instance (inp : Input) (m : Machine) : Decidable (inp.Fresh m) :=
  decidable_of_iff (∀ cs ∈ inp.calls.accept, cs.fd ∉ openFds m.server.trace) Iff.rfl

/-- The machines a run of the server goes through. -/
inductive Reachable (listenFd : Fd) (password : Str) : Machine → Prop
  | start : Reachable listenFd password (.start listenFd password)
  | step {m : Machine} (inp : Input) : Reachable listenFd password m → inp.Fresh m →
      Reachable listenFd password (m.step inp)

namespace Machine

def run (m : Machine) : List Input → Machine
  | [] => m
  | inp :: inputs => (m.step inp).run inputs

/-- `accept` never gives back an open descriptor along the run. -/
def FreshRun (m : Machine) : List Input → Prop
  | [] => True
  | inp :: inputs => inp.Fresh m ∧ (m.step inp).FreshRun inputs

instance : (m : Machine) → (inputs : List Input) → Decidable (m.FreshRun inputs)
  | _, [] => inferInstanceAs (Decidable True)
  | m, inp :: inputs =>
    have := instDecidableFreshRun (m.step inp) inputs
    inferInstanceAs (Decidable (inp.Fresh m ∧ (m.step inp).FreshRun inputs))

end Machine

theorem Reachable.run {listenFd : Fd} {password : Str} : ∀ {m : Machine} (inputs : List Input),
    Reachable listenFd password m → m.FreshRun inputs → Reachable listenFd password (m.run inputs)
  | _, [], h, _ => h
  | _, inp :: inputs, h, hf => Reachable.run inputs (.step inp h hf.1) hf.2

end Ircserv
