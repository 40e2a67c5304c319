import Ircserv.MiniServ
import Ircserv.Lib.CMemory
import Mathlib.Data.UInt

/-!
# mini_serv over memory

`mini_serv.c` once more, with the memory it works on: the buffers are pointers to blocks of the
heap, local arrays are blocks that are there as long as their function runs, and the functions of
`string.h` read and write bytes. An access that C does not define is a `fault`.
-/

namespace Ircserv

namespace MiniServ

namespace C

open CMemory

/-- The globals, and the memory. -/
structure Globals where
  sockfd : Nat
  active : FdSet
  maxfd : Nat
  ids : Nat → Nat := fun _ => 0
  nextId : Nat := 0
  rbuf : Nat → Option Ptr := fun _ => none
  wbuf : Nat → Option Ptr := fun _ => none
  mem : Mem UInt8 := {}
  allocs : Nat := 0
  trace : List Event := []

/-- Why a run has ended. -/
inductive Halt
  /-- An access to memory that C does not define. -/
  | fault
  /-- As in `MiniServ`, with what the server did. -/
  | ended (trace : List Event)

abbrev Prog := StateT Globals (Except Halt)

variable {α : Type}

def fault : Prog α := fun _ => .error .fault

def stop (event : Event) : Prog α := fun c => .error (.ended (event :: c.trace))

def fatal : Prog α := stop .fatal

/-- A number that the source has in an `int`. -/
def int (n : Nat) : Prog Nat := if n ≤ INT_MAX then pure n else stop .undefined

def log (event : Event) : Prog Unit := modify fun c => { c with trace := event :: c.trace }

/-- Reads from memory. -/
def access (f : Mem UInt8 → Option α) : Prog α := fun c =>
  match f c.mem with
  | some x => .ok (x, c)
  | none => .error .fault

/-- Writes to memory. -/
def change (f : Mem UInt8 → Option (Mem UInt8)) : Prog Unit := fun c =>
  match f c.mem with
  | some mem => .ok ((), { c with mem := mem })
  | none => .error .fault

def load (p : Ptr) : Prog UInt8 := access (·.load p)

def store (p : Ptr) (c : UInt8) : Prog Unit := change (·.write p [c])

def string (p : Ptr) : Prog Str := access (·.string p)

def strlen (p : Ptr) : Prog Nat := List.length <$> string p

def strcpy (dst src : Ptr) : Prog Unit := change (·.strcpy dst src)

def strcat (dst src : Ptr) : Prog Unit := change (·.strcat dst src)

/-- `sprintf`, with the text that the format gives. -/
def sprintf (dst : Ptr) (text : Str) : Prog Unit := do
  let _ ← int text.length
  change (·.write dst (text ++ [0]))

/-- A `size_t`. -/
def size (n : Nat) : Nat := n % 2 ^ 64

variable (heap : Nat → Bool)

/-- A block whose bytes are all `fill`, if there is memory. -/
def obtainBlock (n : Nat) (fill : Option UInt8) : Prog (Option Ptr) := fun c =>
  if heap c.allocs then
    let (p, mem) := c.mem.alloc .heap (List.replicate (size n) fill)
    .ok (some p, { c with mem := mem, allocs := c.allocs + 1 })
  else .ok (none, { c with allocs := c.allocs + 1 })

def malloc (n : Nat) : Prog (Option Ptr) := obtainBlock heap n none

def calloc (n : Nat) : Prog (Option Ptr) := obtainBlock heap n (some 0)

def free : Option Ptr → Prog Unit
  | none => pure ()
  | some p => change (·.release .heap p)

/-- A function with a local array of `n` characters. -/
def withArray (n : Nat) (body : Ptr → Prog Unit) : Prog Unit := do
  let p : Ptr ← fun c =>
    let (p, mem) := c.mem.alloc .stack (List.replicate n none)
    .ok (p, { c with mem := mem })
  body p
  change (·.release .stack p)

def setRbuf (fd : Nat) (buf : Option Ptr) : Prog Unit :=
  modify fun c => { c with rbuf := Function.update c.rbuf fd buf }

def setWbuf (fd : Nat) (buf : Option Ptr) : Prog Unit :=
  modify fun c => { c with wbuf := Function.update c.wbuf fd buf }

def strJoin (buf : Option Ptr) (add : Ptr) : Prog (Option Ptr) := do
  let len ← (match buf with
    | none => pure 0
    | some buf => strlen buf >>= int : Prog Nat)
  match ← malloc heap (len + (← strlen add) + 1) with
  | none => return none
  | some newbuf => do
    store newbuf 0
    buf.forM (strcat newbuf)
    free buf
    strcat newbuf add
    return some newbuf

/-- One round of the loop of `send_all`. -/
def sendTo (except : Nat) (msg : Ptr) (fd : Nat) : Prog Unit := do
  let c ← get
  if c.active fd ∧ fd ≠ except ∧ fd ≠ c.sockfd then do
    let buf ← strJoin heap (c.wbuf fd) msg
    setWbuf fd buf
    match buf with
    | none => fatal
    | some _ => log (.append fd (← string msg))

def sendAll (except : Nat) (msg : Ptr) : Prog Unit := do
  (List.range ((← get).maxfd + 1)).forM (sendTo heap except msg)

def acceptClient (k : Calls) : Prog Unit := withArray 64 fun msg => do
  match k.accept with
  | none => return
  | some connfd => do
    let _ ← int ((← get).nextId + 1)
    if connfd < FD_SETSIZE then do
      modify fun c =>
        { c with
          ids := Function.update c.ids connfd c.nextId
          nextId := c.nextId + 1
          active := Function.update c.active connfd true
          maxfd := max c.maxfd connfd
          trace := .accept connfd c.nextId :: c.trace }
      sprintf msg (arrived ((← get).ids connfd))
      sendAll heap connfd msg
    -- `FD_SET` writes behind the end of `g_active`
    else fault

/-- What `extract_message` returns: `1` with the line and what is left, `0`, or `-1`. -/
inductive Extracted
  | message (msg buf : Ptr)
  | nothing
  | failed

/-- The loop of `extract_message`: the index of the first `\n`. A round for each byte of the block
is more than it needs. -/
def seek (buf : Ptr) : Nat → Nat → Prog (Option Nat)
  | 0, _ => fault
  | rounds + 1, i => do
    let c ← load (buf.add i)
    if c = 0 then return none
    else if c = lf then return some i
    else seek buf rounds (← int (i + 1))

def extractMessage : Option Ptr → Prog Extracted
  | none => return .nothing
  | some buf => do
    match ← seek buf (← access (·.size buf)) 0 with
    | none => return .nothing
    | some i => do
      match ← calloc heap ((← strlen (buf.add (i + 1))) + 1) with
      | none => return .failed
      | some newbuf => do
        strcpy newbuf (buf.add (i + 1))
        store (buf.add (← int (i + 1))) 0
        return .message buf newbuf

/-- The loop of `handle_client`. Each round takes a byte at least off the buffer. -/
def extractAll (fd : Nat) : Nat → Prog Unit
  | 0 => fault
  | rounds + 1 => do
    match ← extractMessage heap ((← get).rbuf fd) with
    | .nothing => return
    | .failed => fatal
    | .message line buf => do
      setRbuf fd (some buf)
      -- the size of `"client %d: "` is 12
      match ← malloc heap ((← strlen line) + 12 + 32) with
      | none => fatal
      | some out => do
        sprintf out (clientLine ((← get).ids fd) (← string line))
        sendAll heap fd out
        free (some out)
        free (some line)
        extractAll fd rounds

/-- The branch of `handle_client` for a client that has left. -/
def clientLeft (fd : Nat) (msg : Ptr) : Prog Unit := do
  sprintf msg (left ((← get).ids fd))
  free ((← get).rbuf fd)
  setRbuf fd none
  free ((← get).wbuf fd)
  setWbuf fd none
  modify fun c => { c with active := Function.update c.active fd false }
  log (.leave fd)
  sendAll heap fd msg

/-- The other branch, after `recv` gave some bytes for `buf`. -/
def clientSent (fd : Nat) (buf : Ptr) (data : Str) : Prog Unit := do
  log (.receive fd data)
  change (·.write buf data)
  store (buf.add data.length) 0
  let joined ← strJoin heap ((← get).rbuf fd) buf
  setRbuf fd joined
  match joined with
  | none => fatal
  | some joined => extractAll heap fd ((← strlen joined) + 1)

def handleClient (k : Calls) (fd : Nat) : Prog Unit :=
  withArray 4097 fun buf => withArray 64 fun msg =>
    match (k.recv.getD []).take 4096 with
    | [] => clientLeft heap fd msg
    | data => clientSent heap fd buf data

def flushClient (k : Calls) (fd : Nat) : Prog Unit := do
  match (← get).wbuf fd with
  | none => fault
  | some buf => do
    log (.flush fd (some (← string buf)))
    let len ← strlen buf >>= int
    let data ← access (·.bytes buf len)
    let n := min k.send len
    log (.send fd (data.take n))
    if n = 0 then return
    else if n = len then do
      free (some buf)
      setWbuf fd none
    else
      match ← malloc heap (len - n + 1) with
      | none => fatal
      | some rest => do
        strcpy rest (buf.add n)
        free (some buf)
        setWbuf fd (some rest)

/-- The first half of the body of the second loop of `main`. -/
def visitRead (k : Calls) (rfds : FdSet) (fd : Nat) : Prog Unit := do
  if rfds fd then
    if fd = (← get).sockfd then acceptClient heap k else handleClient heap k fd

/-- The second half. -/
def visitWrite (k : Calls) (wfds : FdSet) (fd : Nat) : Prog Unit := do
  if wfds fd ∧ (← get).active fd then flushClient heap k fd

def visit (k : Calls) (rfds wfds : FdSet) (fd : Nat) : Prog Unit := do
  visitRead heap k rfds fd
  visitWrite heap k wfds fd

structure Machine where
  phase : Phase
  globals : Globals

def initMachine (sockfd : Nat) : Machine :=
  ⟨.select, { sockfd := sockfd, active := fun fd => fd == sockfd, maxfd := sockfd }⟩

/-- One step of the loop of `main`. -/
def Machine.step (m : Machine) (k : Calls) : Except Halt Machine :=
  let c := m.globals
  match m.phase with
  | .select =>
    match k.select with
    | none => .error (.ended (.fatal :: c.trace))
    | some (r, w) =>
      .ok ⟨.scan (fun fd => c.active fd && r fd)
        (fun fd => fd ≤ c.maxfd && c.active fd && (c.wbuf fd).isSome && w fd) 0, c⟩
  | .scan rfds wfds fd =>
    if fd ≤ c.maxfd then do
      let (_, c) ← visit heap k rfds wfds fd c
      .ok ⟨.scan rfds wfds (fd + 1), c⟩
    else .ok ⟨.select, c⟩

/-- What `accept` gives, an `fd_set` has room for. -/
def FitsSet (k : Calls) : Prop := ∀ connfd, k.accept = some connfd → connfd < FD_SETSIZE

/-- The states of the runs in which `accept` gives descriptors that are not in use, and for which
there is room. -/
inductive Reachable (sockfd : Nat) : Machine → Prop
  | start : Reachable sockfd (initMachine sockfd)
  | step {m m' : Machine} {k : Calls} (h : Reachable sockfd m)
      (hfresh : ∀ connfd, k.accept = some connfd → m.globals.active connfd = false)
      (hroom : FitsSet k) (hstep : m.step heap k = .ok m') : Reachable sockfd m'

/-- A run of several steps, if each can be one. -/
def Machine.play (m : Machine) : List Calls → Option Machine
  | [] => some m
  | k :: ks =>
    if k.accept.all fun connfd => !m.globals.active connfd && decide (connfd < FD_SETSIZE) then
      match m.step heap k with
      | .ok m' => m'.play ks
      | .error _ => none
    else none

theorem Reachable.play {heap : Nat → Bool} {sockfd : Nat} : ∀ {ks : List Calls} {m m' : Machine},
    Reachable heap sockfd m → m.play heap ks = some m' → Reachable heap sockfd m'
  | [], _, _, h, heq => by
    cases heq
    exact h
  | k :: ks, m, m', h, heq => by
    rw [Machine.play] at heq
    split_ifs at heq with hk
    split at heq
    · rename_i m₁ hstep
      have hconnfd (connfd : Nat) (hc : k.accept = some connfd) :
          m.globals.active connfd = false ∧ connfd < FD_SETSIZE := by
        simpa [hc] using hk
      exact (h.step (fun connfd hc => (hconnfd connfd hc).1) (fun connfd hc => (hconnfd connfd hc).2)
        hstep).play heq
    · cases heq

section Refinement

/-- One of the pointers to a buffer. -/
inductive Slot
  | rbuf (fd : Nat)
  | wbuf (fd : Nat)
  deriving DecidableEq

variable (c : Globals)

def Globals.buffer : Slot → Option Ptr
  | .rbuf fd => c.rbuf fd
  | .wbuf fd => c.wbuf fd

/-- The globals with strings in place of the pointers. -/
def Globals.state (str : Slot → Option Str) : State where
  sockfd := c.sockfd
  active := c.active
  maxfd := c.maxfd
  ids := c.ids
  nextId := c.nextId
  rbuf fd := str (.rbuf fd)
  wbuf fd := str (.wbuf fd)
  allocs := c.allocs
  trace := c.trace

/-- The buffers hold the strings of the other model, each in a block of its own, and no other memory
is there than `frame`. -/
structure Models (frame : Blocks UInt8) (c : Globals) (s : State) : Prop where
  buffers : ∃ str, s = c.state str ∧ Owns c.mem.block c.buffer str frame
  ids : ∀ fd, c.ids fd ≤ INT_MAX

/-- The other model is where this one is, and there is no other memory than that of the buffers. -/
structure Machine.Models (m : Machine) (s : MiniServ.Machine) : Prop where
  phase : m.phase = s.phase
  globals : C.Models (fun _ => none) m.globals s.state

/-- The run has ended where an `int` was too small. (A descriptor that an `fd_set` has no room for
is a `fault`.) -/
def Halt.lost : Halt → Prop
  | .ended (.undefined :: _) => True
  | _ => False

/-- The run has ended, and so has that of the other model, after the same events. -/
def Halt.agrees : Halt → State → Prop
  | .ended trace, s => trace = s.trace
  | .fault, _ => False

end Refinement

end C

end MiniServ

end Ircserv
