import Ircserv.Server

/-!
# The server from its constructor to its destructor

The constructor makes the listening socket in several steps, any of which can fail and throw. When
`run` returns or throws, the destructor closes what is still open.
-/

open Std

namespace Ircserv

/-- What the system calls of the constructor give back, in their order; a descriptor below zero is a
failure. -/
structure Setup where
  sigint : Bool := true
  sigpipe : Bool := true
  socket : Fd
  setsockopt : Bool := true
  nonBlocking : Bool := true
  bind : Bool := true
  listen : Bool := true
  deriving DecidableEq, Inhabited

namespace Server

/-- The constructor, with what it did at its sockets; no server is left when it throws. -/
def create (k : Setup) (password : Str) : List Event × Option Server :=
  if !k.sigint then ([], none)
  else if !k.sigpipe then ([], none)
  else if k.socket < 0 then ([], none)
  else
    let opened := [Event.listen k.socket]
    if !k.setsockopt then (.close k.socket :: opened, none)
    -- `_setNonBlocking` throws, and the socket stays open
    else if !k.nonBlocking then (opened, none)
    else if !k.bind then (.close k.socket :: opened, none)
    else if !k.listen then (.close k.socket :: opened, none)
    else (opened, some (.construct k.socket password))

/-- The loop of `_closeAllFds`; each round takes an entry out of `_connections`, so their number
bounds the rounds. -/
def closeConnections : Nat → Server → Server
  | 0, s => s
  | fuel + 1, s =>
    match s.connections.minKey? with
    | none => s
    | some fd => closeConnections fuel (s.disconnectClient fd)

/-- The destructor. -/
def closeAllFds (s : Server) : Server :=
  let s := closeConnections s.connections.size s
  let s :=
    if 0 ≤ s.listenFd then
      { (s.log (.close s.listenFd)).removeFd s.listenFd with listenFd := -1 }
    else s
  { s with pollfds := [] }

end Server

/-- What the program does at its sockets, once `main` has read its arguments. -/
def ircserv (k : Setup) (password : Str) (inputs : List Input) : List Event :=
  match Server.create k password with
  | (trace, none) => trace
  | (_, some s) => (Machine.run ⟨s, .poll⟩ inputs).server.closeAllFds.trace

/-- The descriptor that `accept` gives is not put anywhere: its `fcntl` fails, and `run` throws. -/
def Machine.Refuses (m : Machine) (inp : Input) (fd : Fd) : Prop :=
  ∃ cs, inp.calls.accept = some cs ∧ cs.fd = fd ∧ cs.nonBlocking = false ∧
    (m.step inp).server = m.server.log (.accept fd)

/-- The `fcntl` of a descriptor fails, of the listening socket or of one of the inputs. -/
def Setup.Loses (k : Setup) (password : Str) (inputs : List Input) (fd : Fd) : Prop :=
  (k.sigint ∧ k.sigpipe ∧ 0 ≤ k.socket ∧ k.setsockopt ∧ k.nonBlocking = false ∧ fd = k.socket) ∨
    ∃ trace s, Server.create k password = (trace, some s) ∧ ∃ before inp after,
      inputs = before ++ inp :: after ∧ (Machine.run ⟨s, .poll⟩ before).Refuses inp fd

namespace Event

/-- The descriptor is opened. -/
def opensFd (fd : Fd) : Event → Bool
  | .listen g | .accept g => g == fd
  | _ => false

/-- The descriptor is closed. -/
def closesFd (fd : Fd) : Event → Bool
  | .close g => g == fd
  | _ => false

end Event

/-- Nothing is left in the tables or on the heap. -/
structure Server.Cleared (s : Server) : Prop where
  listenFd : s.listenFd = -1
  pollfds : s.pollfds = []
  connections : s.connections = ∅
  objects : s.objects = ∅
  fdToClient : s.state.client.fdToClient = ∅
  nicknameToClient : s.state.client.nicknameToClient = ∅
  clients : s.state.client.objects = ∅
  channels : s.state.channels = ∅
  channelObjects : s.state.objects = ∅
  healthMonitor : s.healthMonitor.clients = ∅

end Ircserv
