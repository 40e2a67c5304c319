import Ircserv.Utils

/-!
# Messages and the parser

The parser's position in its input is the rest of the input still to be read.
-/

namespace Ircserv

structure Message where
  /-- `_prefix`, without the leading colon. -/
  sender : Str := []
  command : Str := []
  params : List Str := []
  deriving DecidableEq, Inhabited

namespace Message

def getParamCount (m : Message) : Nat := m.params.length

def hasParam (m : Message) (index : Nat) : Bool := index < m.params.length

/-- The parameter at `index`, or the empty string. -/
def getSingleParam (m : Message) (index : Nat) : Str := m.params.getD index []

end Message

namespace Parser

def removeIrcLineTerminator (line : Str) : Str :=
  if 2 ≤ line.length ∧ (line)[line.length - 2]? = some cr ∧ (line)[line.length - 1]? = some lf then
    line.take (line.length - 2)
  else line

/-- `std::toupper` in the "C" locale. -/
def toupper (c : UInt8) : UInt8 :=
  if chr 'a' ≤ c ∧ c ≤ chr 'z' then c - (chr 'a' - chr 'A') else c

def upperCommand (command : Str) : Str := command.map toupper

def isMessageSeparator (c : UInt8) : Bool := c == chr ' '

def skipSeparators (input : Str) : Str := input.dropWhile isMessageSeparator

/-- The token at the front of the input, and what follows it. -/
def readToken (input : Str) : Str × Str := input.span fun c => !isMessageSeparator c

/-- The prefix, if there is one, and what follows it; `none` when nothing follows it. -/
def readPrefix (input : Str) : Option (Str × Str) :=
  match skipSeparators input with
  | [] => some ([], [])
  | c :: rest =>
    if c ≠ chr ':' then some ([], c :: rest)
    else
      let (sender, rest) := readToken rest
      if rest = [] then none else some (sender, skipSeparators rest)

/-- The parameters; each round of the loop eats at least one byte of the input, so its length
bounds the rounds. -/
def readParams : Nat → Str → List Str
  | 0, _ => []
  | fuel + 1, input =>
    match skipSeparators input with
    | [] => []
    | c :: rest =>
      if c = chr ':' then [rest]
      else
        let (token, rest) := readToken (c :: rest)
        token :: readParams fuel rest

def parse (line : Str) : Message :=
  let input := removeIrcLineTerminator line
  match readPrefix input with
  | none => {}
  | some (sender, input) =>
    if input = [] then {}
    else
      let (command, input) := readToken input
      { sender := sender
        command := upperCommand command
        params := readParams input.length input }

end Parser

end Ircserv
