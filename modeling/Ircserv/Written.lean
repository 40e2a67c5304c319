import Ircserv.Reply

/-!
# Messages as they are written

A message can be written in many ways: any number of spaces may stand before it and, from one on,
between its words. The canonical way has one space everywhere and a colon before the last parameter.
-/

namespace Ircserv

/-- One space, and `extra` more. -/
def gap (extra : Nat) : Str := List.replicate (extra + 1) (chr ' ')

/-- Words, each after its gap. -/
def gaps (words : List (Nat × Str)) : Str := words.flatMap fun w => gap w.1 ++ w.2

/-- A way to write a message. Each number counts the spaces of a gap beyond the first; the gap of
the prefix follows it, the others go before their word. -/
structure Written where
  leading : Nat := 0
  sender : Option (Str × Nat) := none
  command : Str
  middles : List (Nat × Str) := []
  trailing : Option (Nat × Str) := none
  sender_word : ∀ p ∈ sender, chr ' ' ∉ p.1
  command_word : command ≠ [] ∧ chr ' ' ∉ command
  command_first : sender = none → command.head? ≠ some (chr ':')
  middle_word : ∀ m ∈ middles, m.2 ≠ [] ∧ chr ' ' ∉ m.2 ∧ m.2.head? ≠ some (chr ':')

namespace Written

def text (w : Written) : Str :=
  List.replicate w.leading (chr ' ') ++ w.sender.elim [] (fun p => chr ':' :: p.1 ++ gap p.2) ++
    w.command ++ gaps w.middles ++ w.trailing.elim [] fun t => gap t.1 ++ chr ':' :: t.2

/-- The message that is written. -/
def message (w : Written) : Message where
  sender := w.sender.elim [] (·.1)
  command := Parser.upperCommand w.command
  params := w.middles.map (·.2) ++ (w.trailing.map (·.2)).toList

end Written

/-- The canonical way to write a message. -/
def Message.canonical (m : Message) : Str :=
  (if m.sender = [] then [] else lit ":" ++ m.sender ++ lit " ") ++ m.command ++
    m.params.dropLast.flatMap (lit " " ++ ·) ++ m.params.getLast?.elim [] (lit " :" ++ ·) ++
    ReplyBuilder.crlf

end Ircserv
