import Ircserv.Rooms
import Ircserv.Turns

/-!
# A channel as its members see it

What a client can tell of a channel from the lines it is sent. The 353 reply to its JOIN lists the
nicks, those of operators with a mark, and each later line may add, remove, rename or mark one. A
view has the nicks up to letter case, with whether they are operators.
-/

namespace Ircserv

/-- What a line says about the members of a channel. -/
inductive News
  | names (list : Str)
  | comes (nick : Str)
  | goes (nick : Str)
  | renamed (old new : Str)
  | marked (nick : Str) (isOperator : Bool)

/-- One name of a 353 reply. -/
def listName (view : IrcMap Bool) (name : Str) : IrcMap Bool :=
  match name with
  | [] => view
  | c :: nick => if c = chr '@' then view.insert nick true else view.insert (c :: nick) false

/-- The nick in a name of a 353 reply, which operators have marked. -/
def listedNick : Str → Str
  | [] => []
  | c :: nick => if c = chr '@' then nick else c :: nick

def News.apply (view : IrcMap Bool) : News → IrcMap Bool
  | .names list => (list.splitOn (chr ' ')).foldl listName ∅
  | .comes nick => view.insertIfNew nick false
  | .goes nick => view.erase nick
  | .renamed old new =>
    match view[old]? with
    | some isOperator => (view.erase old).insert new isOperator
    | none => view
  | .marked nick isOperator => view.modify nick fun _ => isOperator

namespace Message

/-- The nick of the client that a message comes from. -/
def senderNick (msg : Message) : Str := msg.sender.takeWhile (· != chr '!')

/-- The parameter names the channel. -/
def isAbout (msg : Message) (index : Nat) (channel : Str) : Bool :=
  caseFold (msg.getSingleParam index) == caseFold channel

def news (msg : Message) (channel : Str) : Option News :=
  if msg.command = lit "353" then
    if msg.isAbout 2 channel then some (.names (msg.getSingleParam 3)) else none
  else if msg.command = lit "JOIN" then
    if msg.isAbout 0 channel then some (.comes msg.senderNick) else none
  else if msg.command = lit "PART" then
    if msg.isAbout 0 channel then some (.goes msg.senderNick) else none
  else if msg.command = lit "KICK" then
    if msg.isAbout 0 channel then some (.goes (msg.getSingleParam 1)) else none
  else if msg.command = lit "QUIT" then some (.goes msg.senderNick)
  else if msg.command = lit "NICK" then some (.renamed msg.senderNick (msg.getSingleParam 0))
  else if msg.command = lit "MODE" then
    if msg.isAbout 0 channel && msg.getSingleParam 1 == lit "+o" then
      some (.marked (msg.getSingleParam 2) true)
    else if msg.isAbout 0 channel && msg.getSingleParam 1 == lit "-o" then
      some (.marked (msg.getSingleParam 2) false)
    else none
  else none

end Message

/-- What a line says about the channel. -/
def heard (channel line : Str) : Option News := (Parser.parse line).news channel

/-- The view after one more line. -/
def hear (channel : Str) (view : IrcMap Bool) (line : Str) : IrcMap Bool :=
  (heard channel line).elim view (News.apply view)

/-- The view after the lines. -/
def viewOf (channel : Str) (lines : List Str) : IrcMap Bool := lines.foldl (hear channel) ∅

/-- The lines that go to the descriptor. -/
def linesTo (fd : Fd) (replies : List OutgoingMessage) : List Str :=
  (replies.filter (·.fd = fd)).map (·.message)

namespace ServerState

/-- The client is in the channel, as an operator or not. -/
def Ranks (s : ServerState) (client : Addr) (channel : Str) (isOperator : Bool) : Prop :=
  ∃ ch, s.room channel = some ch ∧ client ∈ ch.members ∧ ch.isOperator client = isOperator

instance (s : ServerState) (client : Addr) (channel : Str) (isOperator : Bool) :
    Decidable (s.Ranks client channel isOperator) :=
  decidable_of_iff ((s.room channel).any
    (fun ch => ch.hasMember client && ch.isOperator client == isOperator) = true) <| by
    simp [Ranks, Channel.hasMember, Option.any_eq_true]

/-- The view has the nicks of the members, with whether they are operators, and nothing else. -/
def TrueView (s : ServerState) (channel : Str) (view : IrcMap Bool) : Prop :=
  ∀ (nick : Str) (isOperator : Bool), view[nick]? = some isOperator ↔
    ∃ q, s.Ranks q channel isOperator ∧ caseFold (s.clientAt q).nickname = caseFold nick

end ServerState

namespace Turn

/-- What the connections give: `accept` a descriptor and a printed address, the parser a message. -/
def Real : Turn → Prop
  | .arrive _ fd host => 0 ≤ fd ∧ chr ' ' ∉ host
  | .command _ _ _ msg _ => ∃ line, msg = Parser.parse line
  | .depart _ _ => True

/-- A member of the channel asks for a valid nick that nobody has. -/
def Renames (channel : Str) (s : ServerState) : Turn → Prop
  | .command _ _ fd msg _ => msg.command = lit "NICK" ∧
      isValidNickname (msg.getSingleParam 0) = true ∧
      s.getClientByNick (msg.getSingleParam 0) = none ∧
      ∃ q, s.getClientByFd fd = some q ∧ s.InRoom q channel
  | _ => False

end Turn

end Ircserv
