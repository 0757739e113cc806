import Linuxpp.Message.TcpDatagramSocket

/-!
# Sends and receives that fail or are short

`sendmsg` may transmit less than it is given, or nothing, and each of the two calls of `::recv` that
`recv` makes may fail or return less than it is asked for.
-/

namespace Linuxpp

section Send

/-- What `sendmsg` does. -/
inductive SendOutcome where
  | fails (errno : Errno)
  /-- It transmits the first `n` bytes. -/
  | transmits (n : ℕ)
deriving DecidableEq

/-- A `sendmsg` of `length` bytes transmits some of them, unless it fails. -/
def SendOutcome.Possible (length : ℕ) : SendOutcome → Prop
  | .fails _ => True
  | .transmits n => 0 < n ∧ n ≤ length

instance (length : ℕ) : DecidablePred (SendOutcome.Possible length) := fun o =>
  match o with
  | .fails _ => isTrue trivial
  | .transmits _ => inferInstanceAs (Decidable (_ ∧ _))

/-- A `sendmsg` of `length` bytes transmits all of them, unless it fails. -/
def SendOutcome.Full (length : ℕ) : SendOutcome → Prop
  | .fails _ => True
  | .transmits n => n = length

/-- `linuxpp::net::send` for a message of these bytes: what it returns or the error it throws, and
what is transmitted. -/
def netSend (bytes : List UInt8) : SendOutcome → Except Errno ℕ × List UInt8
  | .fails errno => (.error errno, [])
  | .transmits n => (.ok n, bytes.take n)

/-- The calls of the overloads of `send`. -/
inductive SendCall where
  /-- `send(buf, length)`. -/
  | buffer (this : ObjectId) (buf : List UInt8)
  /-- `send(buffers, size_buffers)`. -/
  | buffers (regions : List (List UInt8))
  /-- `send<N>(buffers)`, whose message is uninitialised but for its first entry at first. -/
  | array (this : ObjectId) (indeterminate : List Iovec) (regions : List (List UInt8))
deriving DecidableEq

namespace SendCall

/-- The message that the call is to send. -/
def payload : SendCall → List UInt8
  | buffer _ buf => buf
  | buffers regions | array _ _ regions => regions.flatten

/-- The payload is in range, and an array for `N` buffers has `N + 1` entries. -/
def InRange : SendCall → Prop
  | buffer _ buf => buf.length < 256 ^ msgSizeTypeSize
  | buffers regions => regions.flatten.length < 256 ^ msgSizeTypeSize
  | array _ indeterminate regions => regions.flatten.length < 256 ^ msgSizeTypeSize ∧
      indeterminate.length = regions.length + 1

instance : DecidablePred InRange := fun call =>
  match call with
  | buffer _ _ | buffers _ => inferInstanceAs (Decidable (_ < _))
  | array _ _ _ => inferInstanceAs (Decidable (_ ∧ _))

/-- The call is one of `send<N>` with a buffer. -/
def IsArrayWithBuffers : SendCall → Prop
  | array _ _ regions => regions ≠ []
  | _ => False

/-- The bytes that the call hands to `sendmsg`, and the message of the socket after it. -/
def message (nbo : NetworkByteOrder msgSizeTypeSize) (msg : LengthPrefixedMessage) :
    SendCall → List UInt8 × LengthPrefixedMessage
  | buffer this buf => (sendBuffer nbo this buf, msg)
  | buffers regions => sendBuffers nbo msg (regions.map Iovec.ofRegion)
  | array this indeterminate regions =>
    (sendArray nbo this indeterminate (regions.map Iovec.ofRegion), msg)

end SendCall

/-- `send(buffers, size_buffers)` throws without transmitting anything, or it transmits a header
with the size of the payload, the next `recv` at the other end returns the payload, and what follows
is still to be received after it. -/
def SentUnderItsLength (nbo : NetworkByteOrder msgSizeTypeSize) (msg : LengthPrefixedMessage)
    (regions : List (List UInt8)) (o : SendOutcome) : Prop :=
  match netSend ((SendCall.buffers regions).message nbo msg).1 o with
  | (.error _, transmitted) => transmitted = []
  | (.ok _, transmitted) =>
    BigEndian.decode (transmitted.take msgSizeTypeSize) = regions.flatten.length ∧
      ∀ following, recv (transmitted ++ following) = (.ok regions.flatten, following)

/-- A connection whose sends may be short. `conn.sent` are the messages for which `send` returned;
`missing` is what was not transmitted of the last message of which something was. -/
structure CutConnection where
  conn : Connection := {}
  missing : List UInt8 := []
deriving DecidableEq

/-- The steps of the two ends. -/
inductive CutStep where
  | send (call : SendCall) (o : SendOutcome)
  | recvPart (o : RecvOutcome)
  | useBuffer (buf : List UInt8)
deriving DecidableEq

/-- The sending end after a call of `send`. -/
def CutConnection.afterSend (nbo : NetworkByteOrder msgSizeTypeSize) (c : CutConnection)
    (call : SendCall) (o : SendOutcome) : CutConnection :=
  let (bytes, msg) := call.message nbo c.conn.msg
  let (result, transmitted) := netSend bytes o
  match result with
  | .error _ => { c with conn := { c.conn with msg := msg } }
  | .ok n => {
      conn := { c.conn with
        msg := msg
        stream := c.conn.stream ++ transmitted
        sent := c.conn.sent ++ [call.payload] }
      missing := bytes.drop n }

/-- A step of a connection whose sends may be short. -/
def cutStep (nbo : NetworkByteOrder msgSizeTypeSize) : Machine CutConnection CutStep := fun c l =>
  match l with
  | .send call o =>
    if call.InRange ∧ o.Possible (call.message nbo c.conn.msg).1.length then
      some (c.afterSend nbo call o)
    else none
  | .recvPart o =>
    (connectionStep nbo c.conn (.recvPart o)).map fun conn => { c with conn := conn }
  | .useBuffer buf =>
    (connectionStep nbo c.conn (.useBuffer buf)).map fun conn => { c with conn := conn }

/-- A send that transmits something is not one of `send<N>` with a buffer, and it follows on sends
that transmitted all or nothing. -/
def FollowsWholeSends (c : CutConnection) : CutStep → Prop
  | .send call (.transmits _) => c.missing = [] ∧ ¬ call.IsArrayWithBuffers
  | _ => True

end Send

section Receive

def MSG_PEEK : UInt32 := 2

/-- What a call of `::recv` does on a connection that is open. -/
inductive RecvReturn where
  | fails (errno : Errno)
  /-- It returns the next `n` bytes. -/
  | bytes (n : ℕ)
deriving DecidableEq

/-- The outcomes of `::recv` for `length` bytes when `available` bytes may arrive. -/
def RecvReturn.Possible (length available : ℕ) : RecvReturn → Prop
  | .fails _ => True
  | .bytes n => if length = 0 then n = 0 else 0 < n ∧ n ≤ length ∧ n ≤ available

/-- `recv(buf, flags)` on a stream of which `stream` is still to come, `header` and `payload` being
the outcomes of its calls of `::recv`: the payload or the error that is thrown, and the rest of the
stream. -/
def recvCall (stream : List UInt8) (flags : UInt32) (header payload : RecvReturn) :
    Except Errno (List UInt8) × List UInt8 :=
  match header with
  | .fails errno => (.error errno, stream)
  | .bytes n =>
    let afterHeader := stream.drop n
    if n ≠ msgSizeTypeSize then (.error .ENODATA, afterHeader)
    else
      -- `ntohs`
      let msgSize := BigEndian.decode (stream.take n)
      match payload with
      | .fails errno => (.error errno, afterHeader)
      | .bytes m =>
        -- only the second call gets the caller's flags
        let rest := if flags &&& MSG_PEEK ≠ 0 then afterHeader else afterHeader.drop m
        if m ≠ msgSize then (.error .ENODATA, rest) else (.ok (afterHeader.take m), rest)

/-- The outcomes are possible for the lengths that `recv` asks for. -/
def RecvCallPossible (stream : List UInt8) (header payload : RecvReturn) : Prop :=
  header.Possible msgSizeTypeSize stream.length ∧
    payload.Possible (BigEndian.decode (stream.take msgSizeTypeSize))
      (stream.drop msgSizeTypeSize).length

/-- Calls of `recv` return the payloads in order, and leave nothing. -/
def ReceivesAll (stream : List UInt8) : List (List UInt8) → Prop
  | [] => stream = []
  | p :: ps => ∃ rest, recv stream = (.ok p, rest) ∧ ReceivesAll rest ps

/-- The calls of `recv` to come return the payloads, and then whatever is sent later. -/
def Resumes (stream : List UInt8) (payloads : List (List UInt8)) : Prop :=
  ∀ later : List (List UInt8), (∀ p ∈ later, p.length < 256 ^ msgSizeTypeSize) →
    ReceivesAll (stream ++ later.flatMap (frame msgSizeTypeSize)) (payloads ++ later)

end Receive

end Linuxpp
