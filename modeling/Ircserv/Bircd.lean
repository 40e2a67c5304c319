import Ircserv.Libft
import Ircserv.Server

/-!
# bircd

The server of `bircd/`: a table of slots, one for each descriptor, with the functions to call when
the descriptor is ready and two arrays of a fixed size. What the system calls give back is an
argument (`Calls`).

`trace` is not in the source. It records, latest first, what the server did; nothing depends on it.
A process that has ended, because a call failed or because it called a null pointer, is an `error`
with what it was then.
-/

namespace Ircserv

namespace Bircd

def MAX_CLIENTS : Nat := 42

def BUF_SIZE : Nat := 100

inductive FdType
  | free
  | serv
  | client
  deriving DecidableEq, Inhabited

/-- The functions that the slots point to. -/
inductive Callback
  | srvAccept
  | clientRead
  | clientWrite
  deriving DecidableEq

/-- `t_fd`; `none` is the null pointer. -/
structure Slot where
  type : FdType := .free
  fctRead : Option Callback := none
  fctWrite : Option Callback := none
  bufReadLen : Int := 0
  bufRead : CharArray (BUF_SIZE + 1) := default
  bufWriteLen : Int := 0
  bufWrite : CharArray (BUF_SIZE + 1) := default
  deriving DecidableEq, Inhabited

inductive Event
  | exit
  /-- A call through one of the pointers of a slot. -/
  | call (fd : Fd) (callback : Option Callback)
  | accept (fd : Fd)
  /-- A `recv`, with the bytes that it gave. -/
  | recv (fd : Fd) (data : Str)
  /-- There was no room left for what a `recv` could give. -/
  | full (fd : Fd)
  /-- A message that was extracted and given to `broadcast_message`. -/
  | message (fd : Fd) (msg : Str)
  /-- A message put into a write buffer. -/
  | queue (fd : Fd) (msg : Str)
  /-- A message that there was no room for. -/
  | drop (fd : Fd) (msg : Str)
  /-- A `send`, with the bytes that it took. -/
  | send (fd : Fd) (bytes : Str)
  | close (fd : Fd)
  deriving DecidableEq

/-- What the system gives back: the descriptor of `accept`, the bytes of `recv` (`none` is an error
and the empty string the end of the stream), and how many bytes `send` takes, with `0` for a
failure. -/
structure Calls where
  accept : Option Fd := none
  recv : Option Str := none
  send : Nat := 0
  deriving DecidableEq, Inhabited

/-- `t_env`. Of `pollfds` these are the first `nfds` entries. -/
structure Env where
  fds : Fd → Slot := fun _ => {}
  maxfd : Nat
  pollfds : List PollFd := []
  trace : List Event := []
  deriving Inhabited

def cleanFd (fd : Slot) : Slot :=
  { fd with type := .free, fctRead := none, fctWrite := none, bufReadLen := 0, bufWriteLen := 0 }

/-- `get_crlf_pos` from the index `i` on. -/
def crlfPosFrom (i : Nat) : Str → Nat
  | a :: b :: s => if a = cr ∧ b = lf then i + 2 else crlfPosFrom (i + 1) (b :: s)
  | _ => 0

def getCrlfPos (str : Str) (len : Int) : Nat := crlfPosFrom 0 (str.take len.toNat)

namespace Env

def nfds (e : Env) : Nat := e.pollfds.length

def log (e : Env) (event : Event) : Env := { e with trace := event :: e.trace }

def setSlot (e : Env) (fd : Fd) (slot : Slot) : Env := { e with fds := Function.update e.fds fd slot }

/-- What `srv_create` does once the socket `s` listens. -/
def srvCreate (e : Env) (s : Fd) : Env :=
  e.setSlot s { e.fds s with type := .serv, fctRead := some .srvAccept }

def srvAccept (k : Calls) (e : Env) : Except Env Env :=
  match k.accept with
  | none => .error (e.log .exit)
  | some cs =>
    .ok ((e.log (.accept cs)).setSlot cs { cleanFd (e.fds cs) with
      type := .client
      fctRead := some .clientRead
      fctWrite := some .clientWrite })

/-- What `broadcast_message` puts into the write buffers; the array is not initialised, and what it
holds at first is written over. -/
def fullMsg (msg : Str) : CharArray (BUF_SIZE + 3) :=
  (CharArray.ftStrlcpy default 0 msg BUF_SIZE).ftStrlcat [cr, lf] (BUF_SIZE + 3)

/-- One round of the loop of `broadcast_message`. -/
def broadcastTo (senderFd : Fd) (msg : Str) (e : Env) (i : Nat) : Env :=
  let slot := e.fds i
  let msgLen := ftStrlen (fullMsg msg).1
  if slot.type = .client ∧ (i : Fd) ≠ senderFd then
    if slot.bufWriteLen + msgLen > BUF_SIZE then e.log (.drop i (cString (fullMsg msg).1))
    else (e.log (.queue i (cString (fullMsg msg).1))).setSlot i { slot with
      bufWrite := slot.bufWrite.ftStrlcat (fullMsg msg).1 (BUF_SIZE + 1)
      bufWriteLen := slot.bufWriteLen + msgLen }
  else e

def broadcastMessage (e : Env) (senderFd : Fd) (msg : Str) : Env :=
  (List.range e.maxfd).foldl (broadcastTo senderFd msg) (e.log (.message senderFd (cString msg)))

/-- What `recv` returned, or `-1` when the buffer is full. -/
def readAndStore (k : Calls) (e : Env) (cs : Fd) : Int × Env :=
  let slot := e.fds cs
  if BUF_SIZE - slot.bufReadLen = 0 then (-1, e.log (.full cs))
  else
    match k.recv with
    | none => (-1, e.log (.recv cs []))
    | some data =>
      -- `recv` gives no more than it is asked for
      let tmp := data.take (BUF_SIZE - slot.bufReadLen).toNat
      let e := e.log (.recv cs tmp)
      if tmp.length = 0 then (0, e)
      else
        let bufRead := slot.bufRead.ftMemcpy slot.bufReadLen.toNat tmp
        let bufReadLen := slot.bufReadLen + tmp.length
        (tmp.length, e.setSlot cs { slot with
          bufRead := bufRead.setChar bufReadLen.toNat 0
          bufReadLen := bufReadLen })

def extractAndConsume (e : Env) (cs : Fd) (crlfEnd : Nat) : Env :=
  let slot := e.fds cs
  let e := e.setSlot cs { slot with bufRead := slot.bufRead.setChar (crlfEnd - 2) 0 }
  let e := e.broadcastMessage cs (e.fds cs).bufRead.1
  let slot := e.fds cs
  e.setSlot cs { slot with
    bufRead := slot.bufRead.ftMemmove 0 crlfEnd (slot.bufReadLen - crlfEnd + 1).toNat
    bufReadLen := slot.bufReadLen - crlfEnd }

/-- The loop of `client_read`. Each round takes two bytes at least off the buffer, so its length
bounds the rounds. -/
def extractAll (cs : Fd) : Nat → Env → Env
  | 0, e => e
  | fuel + 1, e =>
    let crlfEnd := getCrlfPos (e.fds cs).bufRead.1 (e.fds cs).bufReadLen
    if crlfEnd = 0 then e else extractAll cs fuel (e.extractAndConsume cs crlfEnd)

def closeFd (e : Env) (cs : Fd) : Env := (e.log (.close cs)).setSlot cs (cleanFd (e.fds cs))

def clientRead (k : Calls) (e : Env) (cs : Fd) : Env :=
  let (r, e) := e.readAndStore k cs
  if r ≤ 0 then e.closeFd cs
  else extractAll cs ((e.fds cs).bufReadLen.toNat + 1) e

def clientWrite (k : Calls) (e : Env) (cs : Fd) : Env :=
  let slot := e.fds cs
  if slot.bufWriteLen = 0 then e
  else
    -- `send` takes no more than it is given
    let sent := min k.send slot.bufWriteLen.toNat
    let e := e.log (.send cs (slot.bufWrite.1.take sent))
    if sent = 0 then e.closeFd cs
    else e.setSlot cs { slot with
      bufWrite := slot.bufWrite.ftMemmove 0 sent (slot.bufWriteLen - sent + 1).toNat
      bufWriteLen := slot.bufWriteLen - sent }

/-- Calls a function of a slot. -/
def invoke (k : Calls) (e : Env) (fd : Fd) (callback : Option Callback) : Except Env Env :=
  let e := e.log (.call fd callback)
  match callback with
  | none => .error e
  | some .srvAccept => e.srvAccept k
  | some .clientRead => .ok (e.clientRead k fd)
  | some .clientWrite => .ok (e.clientWrite k fd)

/-- The loop of `init_fd` from the index `i` on, with what is in `pollfds` so far; `none` when it
has not ended after `fuel` rounds. -/
def initFdFrom (e : Env) : Nat → Nat → List PollFd → Option (List PollFd)
  | 0, _, _ => none
  | fuel + 1, i, pollfds =>
    if i < e.maxfd then
      if (e.fds i).type ≠ .free then
        if pollfds.length ≥ MAX_CLIENTS + 1 then initFdFrom e fuel i pollfds
        else
          let events := if ftStrlen (e.fds i).bufWrite.1 > 0 then POLLIN ||| POLLOUT else POLLIN
          initFdFrom e fuel (i + 1) (pollfds ++ [{ fd := i, events := events, revents := 0 }])
      else initFdFrom e fuel (i + 1) pollfds
    else some pollfds

def initFd (fuel : Nat) (e : Env) : Option Env :=
  (initFdFrom e fuel 0 []).map fun pollfds => { e with pollfds := pollfds }

/-- `poll` writes the `revents` of the entries. -/
def poll (e : Env) (revents : Nat → PollMask) : Env :=
  { e with pollfds := e.pollfds.mapIdx fun i p => { p with revents := revents i } }

/-- The first half of the body of the loop of `check_fd`. -/
def checkIn (k : Calls) (e : Env) (p : PollFd) : Except Env Env :=
  if p.revents.has POLLIN then e.invoke k p.fd (e.fds p.fd).fctRead else .ok e

/-- The second half. -/
def checkOut (k : Calls) (e : Env) (p : PollFd) : Except Env Env :=
  if p.revents.has POLLOUT then e.invoke k p.fd (e.fds p.fd).fctWrite else .ok e

def checkEntry (k : Calls) (e : Env) (p : PollFd) : Except Env Env := do
  checkOut k (← e.checkIn k p) p

/-- The loop of `check_fd` over the entries that are left; nothing in it changes them. -/
def checkFrom (calls : Nat → Calls) : Nat → List PollFd → Env → Except Env Env
  | _, [], e => .ok e
  | i, p :: ps, e => do checkFrom calls (i + 1) ps (← e.checkEntry (calls i) p)

def checkFd (calls : Nat → Calls) (e : Env) : Except Env Env := checkFrom calls 0 e.pollfds e

end Env

end Bircd

end Ircserv
