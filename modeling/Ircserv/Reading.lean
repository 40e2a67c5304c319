import Ircserv.Connection
import Ircserv.Message

/-!
# Reading, from one connection

The read loop of `_handleRead` as one connection sees it: a chunk is received, the front of the
buffer is tested for length, and the complete lines are popped. Of the dispatcher it needs to know
only whether a line makes it request a disconnection.
-/

namespace Ircserv

/-- Whether `_handleRead` said yes so far, and what made it say no. -/
inductive ReadStatus
  | going
  | failed
  | tooLong
  | left
  deriving DecidableEq, Inhabited

/-- What a connection has come to, and the connections that `popLine` was called on. -/
structure Reading where
  conn : Connection
  status : ReadStatus := .going
  pops : List Connection := []
  deriving DecidableEq, Inhabited

/-- The loop over the complete lines; `quits` are the lines that request a disconnection. Each round
takes a byte off the receive buffer, so its length bounds the rounds. -/
def Connection.popLines (quits : Str → Bool) : Nat → Connection → Reading
  | 0, c => { conn := c }
  | fuel + 1, c =>
    let (complete, c) := c.hasCompleteLine
    if !complete then { conn := c }
    else
      let (line, c') := c.popLine
      if quits line then { conn := c', status := .left, pops := [c] }
      else
        let r := c'.popLines quits fuel
        { r with pops := c :: r.pops }

namespace Connection

/-- A chunk that is received and drained, without the test on the length of the lines. -/
def feed (c : Connection) (chunk : Str) : Reading :=
  let c := (c.readFromSocket (some chunk)).2
  c.popLines (fun _ => false) (c.recvBuffer.length + 1)

/-- The lines popped from the chunks, each drained when it has come, and the connection after it. -/
def feeds (c : Connection) : List Str → List Str × Connection
  | [] => ([], c)
  | chunk :: chunks =>
    let r := c.feed chunk
    let (lines, c) := r.conn.feeds chunks
    (r.pops.map (fun c => c.popLine.1) ++ lines, c)

end Connection

namespace Reading

/-- The lines handed to the parser. -/
def handed (r : Reading) : List Str := r.pops.map fun c => c.popLine.1

/-- `_handleRead` when `recv` gives a chunk. -/
def readChunk (quits : Str → Bool) (r : Reading) (chunk : Str) : Reading :=
  if r.status ≠ .going then r
  else
    let (received, c) := r.conn.readFromSocket (some chunk)
    if !received then { r with conn := c, status := .failed }
    else if c.isLineTooLong then { r with conn := c, status := .tooLong }
    else
      let r' := c.popLines quits (c.recvBuffer.length + 1)
      { r' with pops := r.pops ++ r'.pops }

def readChunks (quits : Str → Bool) (r : Reading) (chunks : List Str) : Reading :=
  chunks.foldl (readChunk quits) r

/-- A connection from which nothing was read. -/
def start (fd : Fd) : Reading := { conn := { fd := fd } }

end Reading

end Ircserv
