import Linuxpp.Foundations.Framing
import Linuxpp.Foundations.Machine
import Linuxpp.Message.ClosedStream

/-!
# A stream that is received in both ways

The caller receives messages with `recv_part`, with `recv`, or with one after the other: between two
messages it may go on with either. The bytes are any bytes, sent by whatever is at the other end,
which closes the connection behind them.
-/

namespace Linuxpp

open Framing

/-- A stream of bytes, as `recv` reads it. -/
def takeMessage (stream : List UInt8) : Option (List UInt8 × List UInt8) :=
  match recv stream with
  | (.ok message, rest) => some (message, rest)
  | (.error _, _) => none

/-- The caller, and the messages that it has received. -/
structure Reception where
  receiver : Receiver
  messages : List (List UInt8) := []
deriving DecidableEq, Repr

/-- The calls of the caller. -/
inductive ReceptionStep where
  | recvPart (o : RecvOutcome)
  | recv
  /-- The caller uses another buffer for the next message. -/
  | useBuffer (buf : List UInt8)
deriving DecidableEq, Repr

instance (length available : ℕ) : DecidablePred (RecvOutcome.PossibleToEnd length available) :=
  fun o =>
    match o with
    | .again => isTrue trivial
    | .bytes n => inferInstanceAs (Decidable (if length = 0 then n = 0 else _))

instance : DecidablePred ReceiveState.Between := fun state =>
  inferInstanceAs (Decidable (state.state = .finished ∨ _))

namespace Reception

/-- After a call of `recv_part` in which `::recv` took `n` bytes off the stream. A state that is
`finished` hands the buffer over as a message. -/
def afterBytes (c : Reception) (n : ℕ) : Reception :=
  match recvPart c.receiver.buf c.receiver.state (.ok (c.receiver.stream.take n)) with
  | (.ok state, buf) => {
      receiver := { stream := c.receiver.stream.drop n, state := state, buf := buf }
      messages := if state.state = .finished then c.messages ++ [buf] else c.messages }
  | (.error _, buf) => { c with receiver := { c.receiver with buf := buf } }

/-- After a call of `recv_part` in which `::recv` failed. -/
def afterError (c : Reception) (e : Errno) : Reception :=
  { c with receiver := { c.receiver with
      buf := (recvPart c.receiver.buf c.receiver.state (.error e)).2 } }

/-- The buffer when `recv` throws: it is resized for a message behind whose header the stream is
truncated. -/
def bufTruncated (stream buf : List UInt8) : List UInt8 :=
  let header := stream.take msgSizeTypeSize
  if header.length ≠ msgSizeTypeSize then buf
  else
    let msgSize := BigEndian.decode header
    copyTo ((stream.drop msgSizeTypeSize).take msgSize) (resize buf msgSize 0) 0

/-- After a call of `recv`. -/
def afterRecv (c : Reception) : Reception :=
  match Linuxpp.recv c.receiver.stream with
  | (.ok message, rest) =>
    { receiver := { c.receiver with stream := rest, buf := message }
      messages := c.messages ++ [message] }
  | (.error _, rest) => { c with receiver := { c.receiver with
      stream := rest, buf := bufTruncated c.receiver.stream c.receiver.buf } }

end Reception

/-- A call of the caller. It calls `recv` only between two messages. -/
def receptionStep : Machine Reception ReceptionStep := fun c l =>
  match l with
  | .recvPart .again => some (c.afterError .EAGAIN)
  | .recvPart (.bytes n) =>
    if (RecvOutcome.bytes n).PossibleToEnd (recvLength c.receiver.state)
        c.receiver.stream.length then
      some (c.afterBytes n)
    else none
  | .recv => if c.receiver.state.Between then some c.afterRecv else none
  | .useBuffer buf =>
    if c.receiver.state.state ≠ .receivingMsg then
      some { c with receiver := { c.receiver with buf := buf } }
    else none

/-- The caller has received messages of the stream `bytes`, in order: between two of them what
follows is what is still to come, and when the stream is used up it has received them all. -/
structure ReceivesMessagesOf (f : Format UInt8 (List UInt8)) (bytes : List UInt8) (c : Reception) :
    Prop where
  inOrder : c.messages <+: f.messages bytes
  between : c.receiver.state.Between →
    f.messages bytes = c.messages ++ f.messages c.receiver.stream
  complete : c.receiver.stream = [] → recvLength c.receiver.state ≠ 0 →
    c.messages = f.messages bytes

end Linuxpp
