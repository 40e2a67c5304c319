import Ircserv.Server

/-!
# One scan of the poll array

The loop over `_pollfds`, from where it stands until it is left.
-/

namespace Ircserv

/-- The descriptors that `poll` reported, in the order of the array. -/
def Server.ready (s : Server) : List Fd := (s.pollfds.filter (·.revents != 0)).map (·.fd)

namespace Machine

def scanning (m : Machine) : Bool :=
  match m.phase with
  | .scan _ => true
  | _ => false

/-- The descriptor that the next step handles. -/
def handles (m : Machine) : List Fd :=
  match m.phase with
  | .scan i => (m.server.pollfds[i]?.toList.filter (·.revents != 0)).map (·.fd)
  | _ => []

/-- The machine after the inputs, or where it leaves the loop. -/
def sweep (m : Machine) : List Input → Machine
  | [] => m
  | inp :: inputs => if m.scanning then (m.step inp).sweep inputs else m

/-- The descriptors that the loop handles. -/
def swept (m : Machine) : List Input → List Fd
  | [] => []
  | inp :: inputs => if m.scanning then m.handles ++ (m.step inp).swept inputs else []

/-- While the loop runs, `accept` gives back only descriptors that are not in the array. -/
def AcceptsNew (m : Machine) : List Input → Prop
  | [] => True
  | inp :: inputs => m.scanning = true →
      (∀ cs ∈ inp.calls.accept, cs.fd ∉ m.server.pollfds.map (·.fd)) ∧ (m.step inp).AcceptsNew inputs

instance : (m : Machine) → (inputs : List Input) → Decidable (m.AcceptsNew inputs)
  | _, [] => inferInstanceAs (Decidable True)
  | m, inp :: inputs =>
    have := instDecidableAcceptsNew (m.step inp) inputs
    inferInstanceAs (Decidable (_ → _ ∧ _))

end Machine

end Ircserv
