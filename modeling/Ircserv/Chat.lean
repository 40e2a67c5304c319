import Ircserv.MiniServ
import Ircserv.Lib.Framing
import Ircserv.Lib.Halting

/-!
# What the clients of mini_serv are told

The notices are read off what came in (`told`): who arrived and who left while the client was there,
and the lines that the others finished. What a client is sent and what waits for it are the messages
that `send_all` has put there (`appended`).
-/

namespace Ircserv

namespace MiniServ

open History Framing

namespace Event

def isAccept (fd : Nat) : Event → Bool
  | accept g _ => g == fd
  | _ => false

def receiveOf (fd : Nat) : Event → Str
  | receive g data => if g = fd then data else []
  | _ => []

def appendOf (fd : Nat) : Event → List Str
  | append g msg => if g = fd then [msg] else []
  | _ => []

def sendOf (fd : Nat) : Event → Str
  | send g bytes => if g = fd then bytes else []
  | _ => []

def idOf : Event → List Nat
  | accept _ id => [id]
  | _ => []

/-- The client whose doing it is. -/
def client : Event → Option Nat
  | accept fd _ => some fd
  | receive fd _ => some fd
  | leave fd => some fd
  | _ => none

end Event

/-- The bytes that the client has sent. -/
def stream (fd : Nat) (trace : List Event) : Str :=
  since (Event.isAccept fd) (Event.receiveOf fd) trace

/-- The messages that were put behind what waits for the client. -/
def appended (fd : Nat) (trace : List Event) : List Str :=
  since (Event.isAccept fd) (Event.appendOf fd) trace

/-- The bytes that the client has been sent. -/
def sent (fd : Nat) (trace : List Event) : Str :=
  since (Event.isAccept fd) (Event.sendOf fd) trace

/-- The ids that were given, in the order of the clients. -/
def idsGiven (trace : List Event) : List Nat := trace.reverse.flatMap Event.idOf

/-- The id of the client. -/
def idOf (fd : Nat) : List Event → Nat
  | [] => 0
  | event :: earlier => if event.isAccept fd then event.idOf.headD 0 else idOf fd earlier

/-- The lines that the bytes finish. -/
def newLines (fd : Nat) (earlier : List Event) (data : Str) : List Str :=
  (lines lf (stream fd earlier ++ data)).drop (lines lf (stream fd earlier)).length

/-- What the others are told of an event. -/
def notices (earlier : List Event) : Event → List Str
  | .accept _ id => [arrived id]
  | .receive fd data => (newLines fd earlier data).map (clientLine (idOf fd earlier))
  | .leave fd => [left (idOf fd earlier)]
  | _ => []

/-- What the client is told since it was accepted. -/
def told (fd : Nat) : List Event → List Str
  | [] => []
  | event :: earlier =>
    if event.isAccept fd then []
    else told fd earlier ++ if event.client = some fd then [] else notices earlier event

/-- The lines of the client that an event finishes. -/
def linesOf (fd : Nat) (earlier : List Event) : Event → List Str
  | .receive g data => if g = fd then newLines fd earlier data else []
  | _ => []

/-- The lines that the others were told of, as those of the client, since it was accepted. -/
def spoken (fd : Nat) : List Event → List Str
  | [] => []
  | event :: earlier =>
    if event.isAccept fd then [] else spoken fd earlier ++ linesOf fd earlier event

/-- The client is connected. -/
def State.Connected (s : State) (fd : Nat) : Prop := s.active fd = true ∧ fd ≠ s.sockfd

/-- What `recv` gives has no NUL. -/
def Calls.NulFree (k : Calls) : Prop := ∀ data ∈ k.recv, 0 ∉ data

instance (k : Calls) : Decidable k.NulFree := inferInstanceAs (Decidable (∀ data ∈ k.recv, 0 ∉ data))

instance (m : Machine) (k : Calls) : Decidable (m.Fresh k) :=
  inferInstanceAs (Decidable (∀ connfd ∈ k.accept, m.state.active connfd = false))

/-- A run of several steps, if each can be one. -/
def Machine.play (heap : Nat → Bool) (m : Machine) : List Calls → Option Machine
  | [] => some m
  | k :: ks =>
    if m.Fresh k ∧ k.NulFree then
      match m.step heap k with
      | .ok m' => m'.play heap ks
      | .error _ => none
    else none

theorem Reachable.play {heap : Nat → Bool} {sockfd : Nat} : ∀ {ks : List Calls} {m m' : Machine},
    Reachable heap sockfd Calls.NulFree m → m.play heap ks = some m' →
      Reachable heap sockfd Calls.NulFree m'
  | [], _, _, h, heq => by
    cases heq
    exact h
  | k :: ks, m, m', h, heq => by
    rw [Machine.play] at heq
    split_ifs at heq with hk
    split at heq
    · rename_i m₁ hstep
      exact (h.step hk.1 hk.2 hstep).play heq
    · cases heq

/-- They are those of what follows the last line that it has finished. -/
theorem newLines_eq (fd : Nat) (earlier : List Event) (data : Str) :
    newLines fd earlier data = lines lf (rest lf (stream fd earlier) ++ data) := by
  rw [newLines, lines_append, List.drop_left]

/-- The lines of a client are those of all the bytes that it has sent, however they came. -/
theorem spoken_eq (fd : Nat) (trace : List Event) : spoken fd trace = lines lf (stream fd trace) := by
  induction trace with
  | nil => rfl
  | cons event earlier ih =>
    by_cases hstart : event.isAccept fd = true
    · rw [spoken, if_pos hstart, stream, since_cons_start hstart]
      rfl
    · rw [spoken, if_neg hstart, ih]
      rw [Bool.not_eq_true] at hstart
      have hstream : stream fd (event :: earlier) = stream fd earlier ++ event.receiveOf fd :=
        since_cons hstart earlier
      rw [hstream, lines_append]
      congr 1
      have hsilent : lines lf (rest lf (stream fd earlier) ++ []) = [] := by
        rw [List.append_nil]
        exact lines_of_not_mem (not_mem_rest _)
      cases event with
      | receive g data =>
        rw [linesOf, Event.receiveOf]
        split_ifs
        · exact newLines_eq fd earlier data
        · exact hsilent.symm
      | _ => exact hsilent.symm

end MiniServ

end Ircserv
