import Ircserv.Utils

/-!
# The client's line buffer

`bonus::irc::LineBuffer`, which the bot puts the bytes in that it receives from the server.
-/

namespace Ircserv

structure LineBuffer where
  buffer : Str := []
  /-- The queue, with its front first. -/
  lines : List Str := []
  deriving DecidableEq, Inhabited

namespace LineBuffer

/-- The loop of `append`; each round takes a byte off the buffer, so its length bounds the
rounds. -/
def cutLines : Nat → LineBuffer → LineBuffer
  | 0, b => b
  | fuel + 1, b =>
    match b.buffer.findIdx? (· == lf) with
    | none => b
    | some lineEnd =>
      let line := b.buffer.take lineEnd
      let line := if line.getLast? = some cr then line.dropLast else line
      cutLines fuel { buffer := b.buffer.drop (lineEnd + 1), lines := b.lines ++ [line] }

def append (b : LineBuffer) (data : Str) : LineBuffer :=
  let b := { b with buffer := b.buffer ++ data }
  cutLines (b.buffer.length + 1) b

def hasLine (b : LineBuffer) : Bool := !b.lines.isEmpty

def popLine (b : LineBuffer) : Str × LineBuffer :=
  match b.lines with
  | [] => ([], b)
  | line :: lines => (line, { b with lines := lines })

/-- What a client does with its buffer: it appends what it receives, and it pops a line if the
buffer has one. -/
inductive Use
  | append (data : Str)
  | popLine
  deriving DecidableEq

/-- The chunk that is appended. -/
def Use.chunk : Use → Str
  | .append data => data
  | .popLine => []

/-- The chunks that are appended. -/
def chunks : List Use → List Str
  | [] => []
  | .append data :: us => data :: chunks us
  | .popLine :: us => chunks us

/-- The lines popped, and the buffer after it. -/
def use (b : LineBuffer) : Use → List Str × LineBuffer
  | .append data => ([], b.append data)
  | .popLine => if b.hasLine then ([b.popLine.1], b.popLine.2) else ([], b)

def uses (b : LineBuffer) : List Use → List Str × LineBuffer
  | [] => ([], b)
  | u :: us => ((b.use u).1 ++ ((b.use u).2.uses us).1, ((b.use u).2.uses us).2)

end LineBuffer

end Ircserv
