import Linuxpp.Message.Iovec

/-!
# Length-prefixed messages

`length_prefixed_message_buffer`, `length_prefixed_message_vector` and
`length_prefixed_message_array` share one shape: a `length_` member in network byte order, and
entries the first of which is to point to that member. `this` is the identity of the object.
-/

namespace Linuxpp

/-- An object of one of the three classes. -/
structure LengthPrefixedMessage where
  this : ObjectId
  length : ℕ := 0
  iovec : List Iovec := []
deriving DecidableEq, Repr

/-- `static_cast<T>` to an unsigned type of `size` bytes. -/
def castTo (size v : ℕ) : ℕ := v % 256 ^ size

namespace LengthPrefixedMessage

/-- The entry for the `length_` member of the object, a `network_byte_order<T>` of `size` bytes. -/
def lengthIovec (size : ℕ) (this : ObjectId) : Iovec := makeIovecConst (.lengthOf this) size 1

/-- Assignment to `iovec_.front()`. -/
def setFront (front : Iovec) : List Iovec → List Iovec
  | [] => []
  | _ :: rest => front :: rest

/-- `length_prefixed_message_buffer(buf, length)`. -/
def buffer (size : ℕ) (this : ObjectId) (buf : List UInt8) (length : ℕ) :
    LengthPrefixedMessage where
  this := this
  length := length
  iovec := [lengthIovec size this, makeIovecConstVoid (.region buf) length]

/-- `length_prefixed_message_vector(buffers, size_buffers)`. -/
def vector (size : ℕ) (this : ObjectId) (buffers : List Iovec) : LengthPrefixedMessage where
  this := this
  length := castTo size (accumulate buffers)
  iovec :=
    let iovec := List.replicate (buffers.length + 1) {}
    copyTo buffers (setFront (lengthIovec size this) iovec) 1

/-- `fill(buffers, size_buffers)`. -/
def fill (size : ℕ) (msg : LengthPrefixedMessage) (buffers : List Iovec) :
    LengthPrefixedMessage where
  this := msg.this
  length := castTo size (accumulate buffers)
  iovec :=
    let iovec := resize msg.iovec (buffers.length + 1) {}
    copyTo buffers (setFront (lengthIovec size msg.this) iovec) 1

/-- `length_prefixed_message_array(buffers)` for `N` buffers. The constructor leaves the `N + 1`
entries of its array uninitialised; `indeterminate` is what they hold. -/
def array (size : ℕ) (this : ObjectId) (indeterminate buffers : List Iovec) :
    LengthPrefixedMessage where
  this := this
  length := castTo size (accumulate buffers)
  iovec :=
    -- the copy starts at the first entry
    copyTo buffers (setFront (lengthIovec size this) indeterminate) 0

/-- The bytes that `iovec()` describes when the `length_` members hold `lengths`. -/
def bytes {size : ℕ} (nbo : NetworkByteOrder size) (msg : LengthPrefixedMessage)
    (lengths : ObjectId → ℕ) : List UInt8 :=
  msg.iovec.flatMap (Iovec.bytes nbo lengths)

/-- `iovec()` describes `bs`, whatever the `length_` members of other objects hold. -/
def Denotes {size : ℕ} (nbo : NetworkByteOrder size) (msg : LengthPrefixedMessage)
    (bs : List UInt8) : Prop :=
  ∀ lengths : ObjectId → ℕ, lengths msg.this = msg.length → msg.bytes nbo lengths = bs

end LengthPrefixedMessage

/-- The frame of a payload: its length as a big-endian number of `size` bytes, then the payload. -/
def frame (size : ℕ) (payload : List UInt8) : List UInt8 :=
  BigEndian.encode size payload.length ++ payload

section Agreement

variable {size : ℕ} (nbo : NetworkByteOrder size)

/-- The vector, constructed from the regions or refilled with them after any earlier use, and the
buffer on the joined regions describe the frame of the joined regions. -/
def VectorAndBufferAgree (regions : List (List UInt8)) : Prop :=
  ∀ (this : ObjectId) (earlier : LengthPrefixedMessage),
    (LengthPrefixedMessage.vector size this (regions.map Iovec.ofRegion)).Denotes nbo
      (frame size regions.flatten) ∧
    (earlier.fill size (regions.map Iovec.ofRegion)).Denotes nbo (frame size regions.flatten) ∧
    (LengthPrefixedMessage.buffer size this regions.flatten regions.flatten.length).Denotes nbo
      (frame size regions.flatten)

/-- The array, too, describes that frame, whatever its entries hold at first. -/
def EncodersAgree (regions : List (List UInt8)) : Prop :=
  VectorAndBufferAgree nbo regions ∧
  ∀ (this : ObjectId) (indeterminate : List Iovec), indeterminate.length = regions.length + 1 →
    (LengthPrefixedMessage.array size this indeterminate (regions.map Iovec.ofRegion)).Denotes nbo
      (frame size regions.flatten)

end Agreement
end Linuxpp
