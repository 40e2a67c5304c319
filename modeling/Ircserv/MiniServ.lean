import Ircserv.Libft

/-!
# mini_serv

The server of `mini_serv.c`: one loop over `select`, which gives the sets of the descriptors that
can be read and written, and a visit to each descriptor. What the system calls give back is an
argument (`Calls`), and so is which of the calls of `malloc` and `calloc` succeed (`heap`). A buffer
is the string that it holds, without its NUL.

`allocs` and `trace` are not in the source: how often memory was asked for, and what the server did,
latest first. A run that has ended is an `error` with the state at its end: it called `fatal`, or C
does not say what happens next, as when a length or the next id is more than an `int` can hold.
-/

namespace Ircserv

namespace MiniServ

def FD_SETSIZE : Nat := 1024

def INT_MAX : Nat := 2147483647

abbrev FdSet := Nat → Bool

inductive Event
  | fatal
  /-- C does not define what comes after this. -/
  | undefined
  /-- An `accept`, with the id that the client gets. -/
  | accept (fd id : Nat)
  /-- A `recv`, with the bytes that it gave. -/
  | receive (fd : Nat) (data : Str)
  /-- A `recv` that gave none, and the `close` after it. -/
  | leave (fd : Nat)
  /-- A message put behind what waits for a client. -/
  | append (fd : Nat) (msg : Str)
  /-- A call of `flush_client`, with the buffer that it finds. -/
  | flush (fd : Nat) (buf : Option Str)
  /-- A `send`, with the bytes that it took. -/
  | send (fd : Nat) (bytes : Str)
  deriving DecidableEq

/-- What the system gives back in one step: the sets of `select` (`none` is an error), the
descriptor of `accept`, the bytes of `recv`, and how many bytes `send` takes, with `0` for a
failure. -/
structure Calls where
  select : Option (FdSet × FdSet) := none
  accept : Option Nat := none
  recv : Option Str := none
  send : Nat := 0

/-- The globals. -/
structure State where
  sockfd : Nat
  active : FdSet
  maxfd : Nat
  ids : Nat → Nat := fun _ => 0
  nextId : Nat := 0
  rbuf : Nat → Option Str := fun _ => none
  wbuf : Nat → Option Str := fun _ => none
  allocs : Nat := 0
  trace : List Event := []

/-- What `main` sets up before its loop. -/
def initState (sockfd : Nat) : State :=
  { sockfd := sockfd, active := fun fd => fd == sockfd, maxfd := sockfd }

/-- `"server: client %d just arrived\n"`. -/
def arrived (id : Nat) : Str := lit "server: client " ++ (intToString id ++ lit " just arrived\n")

/-- `"server: client %d just left\n"`. -/
def left (id : Nat) : Str := lit "server: client " ++ (intToString id ++ lit " just left\n")

/-- `"client %d: %s"`. -/
def clientLine (id : Nat) (line : Str) : Str :=
  lit "client " ++ (intToString id ++ (lit ": " ++ line))

/-- What `extract_message` returns: `1` with the line and what is left, `0`, or `-1`. -/
inductive Extracted
  | message (msg buf : Str)
  | nothing
  | failed

namespace State

def log (s : State) (event : Event) : State := { s with trace := event :: s.trace }

def setRbuf (s : State) (fd : Nat) (buf : Option Str) : State :=
  { s with rbuf := Function.update s.rbuf fd buf }

def setWbuf (s : State) (fd : Nat) (buf : Option Str) : State :=
  { s with wbuf := Function.update s.wbuf fd buf }

def fatal {α : Type} (s : State) : Except State α := .error (s.log .fatal)

def undefined {α : Type} (s : State) : Except State α := .error (s.log .undefined)

/-- A number that the source has in an `int`. -/
def int (s : State) (n : Nat) : Except State Nat := if n ≤ INT_MAX then .ok n else s.undefined

variable (heap : Nat → Bool)

/-- Whether memory was there. -/
def malloc (s : State) : Bool × State := (heap s.allocs, { s with allocs := s.allocs + 1 })

def strJoin (s : State) (buf : Option Str) (add : Str) : Except State (Option Str × State) := do
  let _ ← s.int (buf.getD []).length
  let (ok, s) := s.malloc heap
  .ok (if ok then some (buf.getD [] ++ cString add) else none, s)

/-- One round of the loop of `send_all`. -/
def sendTo (except : Nat) (msg : Str) (s : State) (fd : Nat) : Except State State :=
  if s.active fd ∧ fd ≠ except ∧ fd ≠ s.sockfd then do
    let (buf, s) ← s.strJoin heap (s.wbuf fd) msg
    match buf with
    | none => s.fatal
    | some buf => .ok ((s.log (.append fd (cString msg))).setWbuf fd (some buf))
  else .ok s

def sendAll (s : State) (except : Nat) (msg : Str) : Except State State :=
  (List.range (s.maxfd + 1)).foldlM (sendTo heap except msg) s

/-- What `accept_client` does to the globals. -/
def enter (s : State) (connfd : Nat) : State :=
  { s.log (.accept connfd s.nextId) with
    ids := Function.update s.ids connfd s.nextId
    nextId := s.nextId + 1
    active := Function.update s.active connfd true
    maxfd := max s.maxfd connfd }

def acceptClient (k : Calls) (s : State) : Except State State :=
  match k.accept with
  | none => .ok s
  | some connfd => do
    let _ ← s.int (s.nextId + 1)
    if connfd < FD_SETSIZE then
      let s := s.enter connfd
      s.sendAll heap connfd (arrived (s.ids connfd))
    else s.undefined

def extractMessage (s : State) (buf : Option Str) : Except State (Extracted × State) :=
  match buf with
  | none => .ok (.nothing, s)
  | some buf => do
    let i ← s.int (buf.takeWhile (· ≠ lf)).length
    if i < buf.length then
      let (ok, s) := s.malloc heap
      .ok (if ok then .message (buf.take (i + 1)) (buf.drop (i + 1)) else .failed, s)
    else .ok (.nothing, s)

/-- The loop of `handle_client`. Each round takes a byte at least off the buffer, so its length
bounds the rounds. -/
def extractAll (fd : Nat) : Nat → State → Except State State
  | 0, s => .ok s
  | fuel + 1, s => do
    let (extracted, s) ← s.extractMessage heap (s.rbuf fd)
    match extracted with
    | .nothing => .ok s
    | .failed => s.fatal
    | .message line buf =>
      let (ok, s) := (s.setRbuf fd (some buf)).malloc heap
      if ok then do
        -- `sprintf` returns the length
        let _ ← s.int (clientLine (s.ids fd) line).length
        extractAll fd fuel (← s.sendAll heap fd (clientLine (s.ids fd) line))
      else s.fatal

/-- What `handle_client` does to the globals when the client has left. -/
def dismiss (s : State) (fd : Nat) : State :=
  { ((s.log (.leave fd)).setRbuf fd none).setWbuf fd none with
    active := Function.update s.active fd false }

def handleClient (k : Calls) (s : State) (fd : Nat) : Except State State :=
  -- `recv` gives no more than it is asked for; an error gives nothing
  match (k.recv.getD []).take 4096 with
  | [] => (s.dismiss fd).sendAll heap fd (left (s.ids fd))
  | data => do
    let s := s.log (.receive fd data)
    let (buf, s) ← s.strJoin heap (s.rbuf fd) data
    match buf with
    | none => s.fatal
    | some buf => extractAll heap fd (buf.length + 1) (s.setRbuf fd (some buf))

def flushClient (k : Calls) (s : State) (fd : Nat) : Except State State :=
  let s := s.log (.flush fd (s.wbuf fd))
  match s.wbuf fd with
  -- `strlen` of a null pointer
  | none => s.undefined
  | some buf => do
    let len ← s.int buf.length
    -- `send` takes no more than it is given
    let n := min k.send len
    let s := s.log (.send fd (buf.take n))
    if n = 0 then .ok s
    else if n = len then .ok (s.setWbuf fd none)
    else
      let (ok, s) := s.malloc heap
      if ok then .ok (s.setWbuf fd (some (buf.drop n))) else s.fatal

/-- The first half of the body of the second loop of `main`. -/
def visitRead (k : Calls) (rfds : FdSet) (s : State) (fd : Nat) : Except State State :=
  if rfds fd then
    if fd = s.sockfd then s.acceptClient heap k else s.handleClient heap k fd
  else .ok s

/-- The second half. -/
def visitWrite (k : Calls) (wfds : FdSet) (s : State) (fd : Nat) : Except State State :=
  if wfds fd ∧ s.active fd then s.flushClient heap k fd else .ok s

def visit (k : Calls) (rfds wfds : FdSet) (s : State) (fd : Nat) : Except State State := do
  visitWrite heap k wfds (← s.visitRead heap k rfds fd) fd

/-- The descriptors that `main` asks to be writable. -/
def waiting (s : State) : FdSet := fun fd => fd ≤ s.maxfd && s.active fd && (s.wbuf fd).isSome

end State

/-- Where `main` is: before `select`, or before the visit to a descriptor. -/
inductive Phase
  | select
  | scan (rfds wfds : FdSet) (fd : Nat)

structure Machine where
  phase : Phase
  state : State

def initMachine (sockfd : Nat) : Machine := ⟨.select, initState sockfd⟩

/-- One step of the loop of `main`. `select` leaves some of the descriptors that it was given. -/
def Machine.step (heap : Nat → Bool) (m : Machine) (k : Calls) : Except State Machine :=
  match m.phase with
  | .select =>
    match k.select with
    | none => m.state.fatal
    | some (r, w) =>
      .ok ⟨.scan (fun fd => m.state.active fd && r fd) (fun fd => m.state.waiting fd && w fd) 0,
        m.state⟩
  | .scan rfds wfds fd =>
    if fd ≤ m.state.maxfd then do
      .ok ⟨.scan rfds wfds (fd + 1), ← m.state.visit heap k rfds wfds fd⟩
    else .ok ⟨.select, m.state⟩

/-- `accept` gives back a descriptor that is not in use. -/
def Machine.Fresh (m : Machine) (k : Calls) : Prop :=
  ∀ connfd, k.accept = some connfd → m.state.active connfd = false

/-- The states of the runs whose steps are all `ok`. -/
inductive Reachable (heap : Nat → Bool) (sockfd : Nat) (ok : Calls → Prop) : Machine → Prop
  | start : Reachable heap sockfd ok (initMachine sockfd)
  | step {m m' : Machine} {k : Calls} (h : Reachable heap sockfd ok m) (hfresh : m.Fresh k)
      (hok : ok k) (hstep : m.step heap k = .ok m') : Reachable heap sockfd ok m'

end MiniServ

end Ircserv
