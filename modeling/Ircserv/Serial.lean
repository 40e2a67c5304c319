import Ircserv.Session
import Ircserv.Views

/-!
# The server as one turn after another

What the server does to its state over a run, in the order it does it: clients arrive, their lines
are dispatched, and they depart. A list of turns and a trace tell of the same run when they leave
the same marks.
-/

namespace Ircserv

/-- What a turn has in common with the event that records it. -/
inductive Mark
  | arrived (fd : Fd)
  | asked (fd : Fd) (msg : Message)
  | departed (fd : Fd)
  deriving DecidableEq

def Turn.mark : Turn → Mark
  | .arrive _ fd _ => .arrived fd
  | .command _ _ fd msg _ => .asked fd msg
  | .depart fd _ => .departed fd

def Event.mark? : Event → Option Mark
  | .accept fd => some (.arrived fd)
  | .line fd l => some (.asked fd (Parser.parse l))
  | .close fd => some (.departed fd)
  | _ => none

/-- The message that the descriptor asked with. -/
def Mark.commandOf (fd : Fd) : Mark → Option Message
  | .asked g msg => if g = fd then some msg else none
  | _ => none

/-- The messages of the commands of the descriptor. -/
def commandsOf (fd : Fd) (turns : List Turn) : List Message :=
  turns.filterMap fun t => t.mark.commandOf fd

/-- What `accept` promises: a descriptor, and an address that is printed as one word. -/
def Input.Real (inp : Input) : Prop := ∀ cs ∈ inp.calls.accept, 0 ≤ cs.fd ∧ chr ' ' ∉ cs.host

instance (inp : Input) : Decidable inp.Real :=
  inferInstanceAs (Decidable (∀ cs ∈ inp.calls.accept, _))

/-- The descriptor was accepted between two of the turns. Since then its client has not departed,
and its commands and the lines for it are the ones given. -/
def SinceArrival (start : ServerState) (fd : Fd) (turns : List Turn) (commands : List Message)
    (lines : List Str) : Prop :=
  ∃ before addr host during, turns = before ++ .arrive addr fd host :: during ∧
    Lifetime (start.play before) fd during ∧ commandsOf fd during = commands ∧
    linesTo fd ((start.play (before ++ [.arrive addr fd host])).traffic during) = lines

end Ircserv
