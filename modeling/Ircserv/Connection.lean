import Ircserv.Utils

/-!
# Connections

One client's buffers. What `recv` and `send` give back is an argument: `none` from `recv` is an
error and the empty string the end of the stream; `0` from `send` is a failure.
-/

namespace Ircserv

structure Connection where
  fd : Fd
  /-- The cached position of the first line feed, `none` for `npos`. -/
  nlPos : Option Nat := none
  recvBuffer : Str := []
  sendBuffer : Str := []
  deriving DecidableEq, Inhabited

namespace Connection

/-- The most bytes one `recv` asks for, `buf_size + 1`. -/
def recvSize : Nat := 4096 + 1

/-- The longest line let through, with its line feed. -/
def maxOk : Nat := 512

def isLineTooLong (conn : Connection) : Bool :=
  if conn.recvBuffer.length ≤ maxOk then false
  else
    let scanEnd := min conn.recvBuffer.length maxOk
    !(conn.recvBuffer.take scanEnd).contains lf

def readFromSocket (conn : Connection) (recv : Option Str) : Bool × Connection :=
  match recv with
  | none => (false, conn)
  | some [] => (false, conn)
  | some buf => (true, { conn with recvBuffer := conn.recvBuffer ++ buf })

def hasCompleteLine (conn : Connection) : Bool × Connection :=
  let nlPos := conn.recvBuffer.findIdx? (· == lf)
  (nlPos.isSome, { conn with nlPos := nlPos })

/-- The line before the cached line feed. The source indexes the buffer with whatever `_nlPos`
is; it only calls this after `hasCompleteLine` said yes. -/
def popLine (conn : Connection) : Str × Connection :=
  match conn.nlPos with
  | none => ([], conn)
  | some nPos =>
    let len := if 0 < nPos ∧ conn.recvBuffer[nPos - 1]? = some cr then nPos - 1 else nPos
    (conn.recvBuffer.take len,
      { conn with recvBuffer := conn.recvBuffer.drop (nPos + 1), nlPos := none })

def bufferSend (conn : Connection) (msg : Str) : Connection :=
  { conn with sendBuffer := conn.sendBuffer ++ msg }

def hasPendingOutput (conn : Connection) : Bool := !conn.sendBuffer.isEmpty

/-- `sent` is how many bytes `send` takes. -/
def writeToSocket (conn : Connection) (sent : Nat) : Bool × Connection :=
  if conn.sendBuffer = [] then (true, conn)
  else if sent = 0 then (false, conn)
  else (true, { conn with sendBuffer := conn.sendBuffer.drop sent })

end Connection

end Ircserv
