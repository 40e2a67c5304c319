import Ircserv.Bircd
import Ircserv.Lib.Delimited
import Ircserv.Lib.Halting
import Mathlib.Data.Finset.Card

/-!
# Runs of bircd

The callbacks of the slots are called in any order, and sockets are made to listen. `socket` and
`accept` give back descriptors that are not in use. What a client has sent and been sent is read off
the trace, since its descriptor was accepted. `main` makes one socket listen, and then `main_loop`
goes on with passes: `init_fd`, `poll` and `check_fd`.
-/

namespace Ircserv

namespace Bircd

/-- `init_env`, in memory that `malloc` gave. -/
def initEnv (memory : Fd → Slot) (maxfd : Nat) : Env :=
  { fds := fun fd => cleanFd (memory fd), maxfd := maxfd }

inductive Op
  | create (s : Fd)
  | read (fd : Fd) (k : Calls)
  | write (fd : Fd) (k : Calls)

namespace Op

/-- The client that is accepted. -/
def accepts (e : Env) : Op → Option Fd
  | read fd k => if (e.fds fd).fctRead = some .srvAccept then k.accept else none
  | _ => none

/-- The descriptor that the system gives back. -/
def opened (e : Env) : Op → Option Fd
  | create s => some s
  | op => op.accepts e

/-- It is not in use. -/
def Fresh (op : Op) (e : Env) : Prop := ∀ s, op.opened e = some s → (e.fds s).type = .free

instance (op : Op) (e : Env) : Decidable (op.Fresh e) :=
  decidable_of_iff (∀ s ∈ op.opened e, (e.fds s).type = .free) Iff.rfl

end Op

def Env.step (e : Env) : Op → Except Env Env
  | .create s => .ok (e.srvCreate s)
  | .read fd k => e.invoke k fd (e.fds fd).fctRead
  | .write fd k => e.invoke k fd (e.fds fd).fctWrite

/-- The states of the runs whose steps are all `ok`. -/
inductive Reachable (memory : Fd → Slot) (maxfd : Nat) (ok : Env → Op → Prop) : Env → Prop
  | start : Reachable memory maxfd ok (initEnv memory maxfd)
  | step {e e' : Env} (op : Op) (h : Reachable memory maxfd ok e) (hfresh : op.Fresh e)
      (hok : ok e op) (hstep : e.step op = .ok e') : Reachable memory maxfd ok e'

/-- The descriptors that the system gives back along a run are not in use. -/
def FreshRun (e : Env) : List Op → Prop
  | [] => True
  | op :: ops => op.Fresh e ∧ ∀ e', e.step op = .ok e' → FreshRun e' ops

/-- The calls that `check_fd` makes for some entries. -/
def opsFrom (calls : Nat → Calls) : Nat → List PollFd → List Op
  | _, [] => []
  | i, p :: ps =>
    (if p.revents.has POLLIN then [.read p.fd (calls i)] else []) ++
      (if p.revents.has POLLOUT then [.write p.fd (calls i)] else []) ++ opsFrom calls (i + 1) ps

namespace Event

def isAccept (fd : Fd) : Event → Bool
  | accept g => g == fd
  | _ => false

def recvOf (fd : Fd) : Event → Str
  | recv g data => if g = fd then data else []
  | _ => []

def messageOf (fd : Fd) : Event → List Str
  | message g msg => if g = fd then [msg] else []
  | _ => []

def fullOf (fd : Fd) : Event → List Unit
  | full g => if g = fd then [()] else []
  | _ => []

def queueOf (fd : Fd) : Event → Str
  | queue g msg => if g = fd then msg else []
  | _ => []

def sendOf (fd : Fd) : Event → Str
  | send g bytes => if g = fd then bytes else []
  | _ => []

/-- A message for the client, whether there was room for it or not. -/
def offerOf (fd : Fd) : Event → List Str
  | queue g msg => if g = fd then [msg] else []
  | drop g msg => if g = fd then [msg] else []
  | _ => []

/-- A message of another client, with its CRLF. -/
def castOf (fd : Fd) : Event → List Str
  | message g msg => if g = fd then [] else [msg ++ [cr, lf]]
  | _ => []

end Event

open History in
section

/-- The bytes that the client has sent. -/
def received (fd : Fd) (trace : List Event) : Str := since (Event.isAccept fd) (Event.recvOf fd) trace

/-- The messages that were extracted from them. -/
def messages (fd : Fd) (trace : List Event) : List Str :=
  since (Event.isAccept fd) (Event.messageOf fd) trace

/-- The read buffer of the client was found full. -/
def Overran (fd : Fd) (trace : List Event) : Prop :=
  since (Event.isAccept fd) (Event.fullOf fd) trace ≠ []

/-- The bytes that were queued for the client. -/
def queued (fd : Fd) (trace : List Event) : Str :=
  since (Event.isAccept fd) (Event.queueOf fd) trace

/-- The bytes that the client has been sent. -/
def sent (fd : Fd) (trace : List Event) : Str := since (Event.isAccept fd) (Event.sendOf fd) trace

/-- The messages that were queued for the client, or were to be. -/
def offered (fd : Fd) (trace : List Event) : List Str :=
  since (Event.isAccept fd) (Event.offerOf fd) trace

/-- The messages of the other clients. -/
def broadcasts (fd : Fd) (trace : List Event) : List Str :=
  since (Event.isAccept fd) (Event.castOf fd) trace

end

namespace Env

/-- The clients that are connected. -/
def clients (e : Env) : Finset Nat := (Finset.range e.maxfd).filter fun i =>
    (e.fds i).type = .client

/-- One pass of `main_loop`; `none` when `init_fd` has not ended after `fuel` rounds. -/
def pass (fuel : Nat) (revents : Nat → PollMask) (calls : Nat → Calls) (e : Env) :
    Option (Except Env Env) :=
  (e.initFd fuel).map fun e => (e.poll revents).checkFd calls

end Env

/-- The states before a pass, in the runs of `main` with the listener `s`. `accept` gives
descriptors that are not in use, and for which the table has a slot. -/
inductive Serving (memory : Fd → Slot) (maxfd s : Nat) : Env → Prop
  | start : Serving memory maxfd s ((initEnv memory maxfd).srvCreate s)
  | pass {e e₁ e' : Env} {fuel : Nat} {revents : Nat → PollMask} {calls : Nat → Calls}
      (h : Serving memory maxfd s e) (hinit : e.initFd fuel = some e₁)
      (hfresh : FreshRun (e₁.poll revents) (opsFrom calls 0 (e₁.poll revents).pollfds))
      (htable : ∀ i cs, (calls i).accept = some cs → ∃ n : Nat, n < maxfd ∧ cs = n)
      (hpass : e.pass fuel revents calls = some (.ok e')) : Serving memory maxfd s e'

end Bircd

end Ircserv
