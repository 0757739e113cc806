import Linuxpp.Foundations.Machine
import Linuxpp.Kernel.Errno
import Linuxpp.Message.LengthPrefixedMessage

/-!
# `tcp_datagram_socket`

Messages are sent as frames on a stream of bytes. `recv` takes one frame off the stream, and
`recv_part` does so in pieces, from a state that the caller holds between the calls.

A `Connection` is a socket on which messages are sent and the caller of `recv_part` at its other
end. Every `sendmsg` transmits all the bytes it is given.
-/

namespace Linuxpp

/-- `sizeof(msg_size_type)`, the type being `uint16_t`. -/
def msgSizeTypeSize : ℕ := 2

/-- A difference of two values of `std::size_t`. -/
def subSize (a b : ℕ) : ℕ := (a + 2 ^ 64 - b) % 2 ^ 64

/-- `receive_state::state_type`. -/
inductive StateType where
  | receivingMsgSize
  | receivingMsg
  | finished
deriving DecidableEq, Repr

/-- `receive_state`. -/
structure ReceiveState where
  msgSize : ℕ := 0
  bytesReceived : ℕ := 0
  state : StateType := .receivingMsgSize
deriving DecidableEq, Repr

/-- The number of bytes that `recv_part` asks `::recv` for. -/
def recvLength (state : ReceiveState) : ℕ :=
  match state.state with
  | .receivingMsgSize => subSize msgSizeTypeSize state.bytesReceived
  | .receivingMsg => subSize state.msgSize state.bytesReceived
  | .finished => subSize msgSizeTypeSize 0

/-- The loop of `recv_size_part` over the bytes received from position `i` on. -/
def assembleMsgSize (msgSize i : ℕ) : List UInt8 → ℕ
  | [] => msgSize
  | b :: bs =>
    assembleMsgSize (msgSize ||| (b.toNat <<< ((msgSizeTypeSize - 1 - i) * 8))) (i + 1) bs

/-- `recv_size_part` when `::recv` returns the bytes `received`. -/
def recvSizePart (state : ReceiveState) (received : List UInt8) : ReceiveState :=
  let newState := { state with
    bytesReceived := state.bytesReceived + received.length
    msgSize := assembleMsgSize state.msgSize state.bytesReceived received }
  if newState.bytesReceived ≠ msgSizeTypeSize then newState
  else { newState with state := .receivingMsg, bytesReceived := 0 }

/-- `recv_msg_part` after the call of `::recv` that returns the bytes `received`. -/
def recvMsgPart (buf : List UInt8) (state : ReceiveState) (received : List UInt8) :
    ReceiveState × List UInt8 :=
  let buf := copyTo received buf state.bytesReceived
  let newState := { state with bytesReceived := state.bytesReceived + received.length }
  if newState.bytesReceived ≠ newState.msgSize then (newState, buf)
  else ({ newState with state := .finished }, buf)

/-- `recv_part(buf, state)`: the state it returns, or the error it throws, and the buffer after it.
`received` is what `::recv` returns or the error it fails with. -/
def recvPart (buf : List UInt8) (state : ReceiveState) (received : Except Errno (List UInt8)) :
    Except Errno ReceiveState × List UInt8 :=
  match state.state with
  | .receivingMsgSize => (received.map (recvSizePart state), buf)
  | .receivingMsg =>
    let buf := resize buf state.msgSize 0
    match received with
    | .error e => (.error e, buf)
    | .ok received =>
      let (newState, buf) := recvMsgPart buf state received
      (.ok newState, buf)
  | .finished => (received.map (recvSizePart {}), buf)

/-- `recv(buf)` on a stream of which `stream` is still to come: the payload or the error that is
thrown, and the rest of the stream. With `MSG_WAITALL` a receive is short only at the end. -/
def recv (stream : List UInt8) : Except Errno (List UInt8) × List UInt8 :=
  let header := stream.take msgSizeTypeSize
  let afterHeader := stream.drop msgSizeTypeSize
  if header.length ≠ msgSizeTypeSize then (.error .ENODATA, afterHeader)
  else
    -- `ntohs`
    let msgSize := BigEndian.decode header
    let buf := afterHeader.take msgSize
    if buf.length ≠ msgSize then (.error .ENODATA, afterHeader.drop msgSize)
    else (.ok buf, afterHeader.drop msgSize)

section Send

variable (nbo : NetworkByteOrder msgSizeTypeSize)

/-- The bytes that `sendmsg` gathers from the entries of the message. -/
def transmit (msg : LengthPrefixedMessage) : List UInt8 := msg.bytes nbo fun _ => msg.length

/-- `send(buf, length)` for a buffer of `length` bytes. -/
def sendBuffer (this : ObjectId) (buf : List UInt8) : List UInt8 :=
  transmit nbo (.buffer msgSizeTypeSize this buf buf.length)

/-- `send(buffers, size_buffers)`, which refills the message of the socket. -/
def sendBuffers (msg : LengthPrefixedMessage) (buffers : List Iovec) :
    List UInt8 × LengthPrefixedMessage :=
  let msg := msg.fill msgSizeTypeSize buffers
  (transmit nbo msg, msg)

/-- `send<N>(buffers)`, whose message is uninitialised but for its first entry at first. -/
def sendArray (this : ObjectId) (indeterminate buffers : List Iovec) : List UInt8 :=
  transmit nbo (.array msgSizeTypeSize this indeterminate buffers)

/-- `send<N>(buffers)` transmits what `send(buffers, N)` does, on any socket. -/
def SendsAgree (regions : List (List UInt8)) : Prop :=
  ∀ (this : ObjectId) (msg : LengthPrefixedMessage) (indeterminate : List Iovec),
    indeterminate.length = regions.length + 1 →
    sendArray nbo this indeterminate (regions.map Iovec.ofRegion) =
      (sendBuffers nbo msg (regions.map Iovec.ofRegion)).1

end Send

/-- The two ends of a connection: the message of the sending socket, what was sent and what is still
to be received, and the caller of `recv_part` with its state, its buffer and what it has got. -/
structure Connection where
  msg : LengthPrefixedMessage := { this := 0 }
  sent : List (List UInt8) := []
  stream : List UInt8 := []
  state : ReceiveState := {}
  buf : List UInt8 := []
  yielded : List (List UInt8) := []
  consumed : ℕ := 0
deriving DecidableEq, Repr

/-- What one `::recv` does. -/
inductive RecvOutcome where
  /-- It throws `EAGAIN`. -/
  | again
  /-- It returns the first `n` bytes of the stream. -/
  | bytes (n : ℕ)
deriving DecidableEq, Repr

/-- The steps of the two ends. -/
inductive ConnectionStep where
  | sendBuffer (this : ObjectId) (buf : List UInt8)
  | sendBuffers (regions : List (List UInt8))
  | recvPart (o : RecvOutcome)
  /-- The caller uses another buffer for the next message. -/
  | useBuffer (buf : List UInt8)
deriving DecidableEq, Repr

/-- The outcomes of `::recv` for `length` bytes: no byte if none is asked for; otherwise some bytes,
as many as were asked for at most, or `EAGAIN`. -/
def RecvOutcome.Possible (length available : ℕ) : RecvOutcome → Prop
  | .again => length ≠ 0
  | .bytes n => if length = 0 then n = 0 else 0 < n ∧ n ≤ length ∧ n ≤ available

instance (length available : ℕ) : DecidablePred (RecvOutcome.Possible length available) := fun o =>
  match o with
  | .again => inferInstanceAs (Decidable (length ≠ 0))
  | .bytes n => inferInstanceAs (Decidable (if length = 0 then n = 0 else _))

/-- The caller after a call of `recv_part` in which `::recv` took `n` bytes off the stream. A state
that is `finished` hands the buffer over as a message. -/
def Connection.afterRecvPart (c : Connection) (n : ℕ) : Connection :=
  match recvPart c.buf c.state (.ok (c.stream.take n)) with
  | (.ok state, buf) => { c with
      state := state
      buf := buf
      stream := c.stream.drop n
      consumed := c.consumed + n
      yielded := if state.state = .finished then c.yielded ++ [buf] else c.yielded }
  | (.error _, buf) => { c with buf := buf }

/-- The caller after a call of `recv_part` in which `::recv` failed: it keeps its state. -/
def Connection.afterError (c : Connection) (e : Errno) : Connection :=
  { c with buf := (recvPart c.buf c.state (.error e)).2 }

/-- A step of a connection. -/
def connectionStep (nbo : NetworkByteOrder msgSizeTypeSize) : Machine Connection ConnectionStep :=
  fun c l =>
    match l with
    | .sendBuffer this buf =>
      -- the length is a `std::uint16_t`
      if buf.length < 256 ^ msgSizeTypeSize then
        some { c with stream := c.stream ++ sendBuffer nbo this buf, sent := c.sent ++ [buf] }
      else none
    | .sendBuffers regions =>
      if regions.flatten.length < 256 ^ msgSizeTypeSize then
        let (bytes, msg) := sendBuffers nbo c.msg (regions.map Iovec.ofRegion)
        some { c with msg := msg, stream := c.stream ++ bytes, sent := c.sent ++ [regions.flatten] }
      else none
    | .recvPart o =>
      if o.Possible (recvLength c.state) c.stream.length then
        match o with
        | .again => some (c.afterError .EAGAIN)
        | .bytes n => some (c.afterRecvPart n)
      else none
    | .useBuffer buf =>
      if c.state.state ≠ .receivingMsg then some { c with buf := buf } else none

/-- The caller of `recv_part` is between two messages. -/
def ReceiveState.Between (state : ReceiveState) : Prop :=
  state.state = .finished ∨ state.state = .receivingMsgSize ∧ state.bytesReceived = 0

/-- No offset into a buffer and no length asked for is out of range. -/
def ReceiveState.InBounds (state : ReceiveState) : Prop :=
  match state.state with
  | .receivingMsgSize => state.bytesReceived + recvLength state = msgSizeTypeSize
  | .receivingMsg => state.bytesReceived + recvLength state = state.msgSize ∧ state.msgSize ≤ 65535
  | .finished => state.bytesReceived = state.msgSize ∧ state.msgSize ≤ 65535

/-- How much is still to be received: bytes, and messages. -/
def Connection.unread (c : Connection) : ℕ :=
  c.stream.length + (c.sent.length - c.yielded.length)

/-- The step is a call of `recv_part`. -/
def ConnectionStep.IsRecvPart (l : ConnectionStep) : Prop := ∃ o, l = .recvPart o

end Linuxpp
