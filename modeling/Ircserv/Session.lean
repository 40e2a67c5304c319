import Ircserv.Server

/-!
# A client at its socket

The server together with the client behind one descriptor. The socket holds the bytes the client
sent that `recv` has not taken yet; what `poll` reports of it and what `recv` gives for it depend on
them. The other descriptors may do anything.
-/

namespace Ircserv

/-- The chunk that `recv` gave, if it gave one. -/
def chunkOf (data : Option Str) : List Str := data.toList.filter (· ≠ [])

namespace Machine

/-- The entry that the next step handles. -/
def entry? (m : Machine) : Option PollFd :=
  match m.phase with
  | .scan i => m.server.pollfds[i]?
  | _ => none

/-- What the next step receives from `fd`. -/
def chunk (m : Machine) (inp : Input) (fd : Fd) : List Str :=
  match m.entry? with
  | some e =>
    if e.fd = fd ∧ fd ≠ m.server.listenFd ∧ e.revents.has POLLIN = true then chunkOf inp.calls.recv
    else []
  | none => []

/-- Whether the next step accepts `fd`. -/
def accepts (m : Machine) (inp : Input) (fd : Fd) : Bool :=
  match m.entry?, inp.calls.accept with
  | some e, some cs => e.fd == m.server.listenFd && e.revents.has POLLIN && cs.fd == fd
  | _, _ => false

/-- The entries as the next step has them reported by `poll`. -/
def reported (m : Machine) (inp : Input) : List PollFd :=
  match m.phase, inp.poll with
  | .poll, .ready revents => m.server.pollfds.mapIdx fun i p => { p with revents := revents i }
  | _, _ => []

end Machine

structure Socket where
  /-- The bytes sent and not received. -/
  queue : Str := []
  /-- The client has closed its end. -/
  closed : Bool := false
  /-- All the bytes sent. -/
  sent : Str := []
  deriving DecidableEq, Inhabited

/-- The bits that make the server disconnect a client. -/
def hangUp : PollMask := POLLERR ||| POLLHUP ||| POLLNVAL

namespace Socket

/-- What `poll` may report: input when there is some or the client has closed, and a hang-up when it
has closed. -/
def Reports (s : Socket) (revents : PollMask) : Prop :=
  (revents.has POLLIN = true → s.queue ≠ [] ∨ s.closed = true) ∧
    (revents.has hangUp = true → s.closed = true)

instance (s : Socket) (revents : PollMask) : Decidable (s.Reports revents) :=
  inferInstanceAs (Decidable (_ ∧ _))

/-- What `recv` may give: some of the bytes, at most `recvSize` of them; the end of the stream when
there are none and the client has closed; an error when there are none and it has not. -/
def Gives (s : Socket) : Option Str → Prop
  | none => s.queue = [] ∧ s.closed = false
  | some [] => s.queue = [] ∧ s.closed = true
  | some (a :: data) => a :: data <+: s.queue ∧ data.length + 1 ≤ Connection.recvSize

instance (s : Socket) : (data : Option Str) → Decidable (s.Gives data)
  | none => inferInstanceAs (Decidable (_ ∧ _))
  | some [] => inferInstanceAs (Decidable (_ ∧ _))
  | some (_ :: _) => inferInstanceAs (Decidable (_ ∧ _))

end Socket

structure Session where
  machine : Machine
  socket : Socket := {}
  deriving Inhabited

/-- What happens next: the client sends or closes, or the server makes a step. -/
inductive Act
  | send (data : Str)
  | close
  | server (inp : Input)
  deriving Inhabited

namespace Session

def start (listenFd : Fd) (password : Str) : Session := { machine := .start listenFd password }

def step (fd : Fd) (w : Session) : Act → Session
  | .send data =>
    { w with socket := { w.socket with
        queue := w.socket.queue ++ data
        sent := w.socket.sent ++ data } }
  | .close => { w with socket := { w.socket with closed := true } }
  | .server inp =>
    { machine := w.machine.step inp
      socket :=
        if w.machine.accepts inp fd then {}
        else { w.socket with
          queue := w.socket.queue.drop (w.machine.chunk inp fd).flatten.length } }

/-- What can happen: the client sends until it closes, as long as it is connected, and the system
treats `fd` as its socket says. A `send` may fail at any time. -/
def Allowed (fd : Fd) (w : Session) : Act → Prop
  | .send _ => fd ∈ w.machine.server.connections ∧ w.socket.closed = false
  | .close => fd ∈ w.machine.server.connections
  | .server inp => inp.Fresh w.machine ∧
      (∀ e ∈ w.machine.reported inp, e.fd = fd → w.socket.Reports e.revents) ∧
      ∀ e ∈ w.machine.entry?, e.fd = fd →
        e.revents.has POLLIN = true → w.socket.Gives inp.calls.recv

instance (fd : Fd) (w : Session) : (act : Act) → Decidable (w.Allowed fd act)
  | .send _ => inferInstanceAs (Decidable (_ ∧ _))
  | .close => inferInstanceAs (Decidable (_ ∈ _))
  | .server _ => inferInstanceAs (Decidable (_ ∧ _ ∧ _))

/-- The sessions a run goes through, when every step meets a condition. -/
inductive Reachable (listenFd : Fd) (password : Str) (fd : Fd) (C : Session → Act → Prop) :
    Session → Prop
  | start : Reachable listenFd password fd C (.start listenFd password)
  | step {w : Session} (act : Act) : Reachable listenFd password fd C w → w.Allowed fd act →
      C w act → Reachable listenFd password fd C (w.step fd act)

def run (fd : Fd) (w : Session) : List Act → Session
  | [] => w
  | act :: acts => (w.step fd act).run fd acts

/-- Everything along the run can happen and meets the condition. -/
def AllowedRun (fd : Fd) (C : Session → Act → Prop) (w : Session) : List Act → Prop
  | [] => True
  | act :: acts => w.Allowed fd act ∧ C w act ∧ (w.step fd act).AllowedRun fd C acts

instance decidableAllowedRun (fd : Fd) (C : Session → Act → Prop) [∀ w act, Decidable (C w act)] :
    (w : Session) → (acts : List Act) → Decidable (w.AllowedRun fd C acts)
  | _, [] => inferInstanceAs (Decidable True)
  | w, act :: acts =>
    have := decidableAllowedRun fd C (w.step fd act) acts
    inferInstanceAs (Decidable (w.Allowed fd act ∧ C w act ∧ (w.step fd act).AllowedRun fd C acts))

theorem Reachable.run {listenFd : Fd} {password : Str} {fd : Fd} {C : Session → Act → Prop} :
    ∀ {w : Session} (acts : List Act), Reachable listenFd password fd C w →
      w.AllowedRun fd C acts → Reachable listenFd password fd C (w.run fd acts)
  | _, [], h, _ => h
  | _, act :: acts, h, hall => Reachable.run acts (.step act h hall.1 hall.2.1) hall.2.2

end Session

end Ircserv
