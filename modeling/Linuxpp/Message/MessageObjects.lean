import Linuxpp.Foundations.Machine
import Linuxpp.Message.TcpDatagramSocket
import Mathlib.Logic.Function.Basic

/-!
# Message objects that are copied and moved

`length_prefixed_message_buffer` and `length_prefixed_message_vector` leave copies and moves to the
compiler, and so does `tcp_datagram_socket`, which has a vector as a member. The objects live in a
store under their identities; the object that a socket has is one of the kind `socketMember`.
-/

namespace Linuxpp

/-- The kinds of message objects. -/
inductive MessageKind where
  | buffer
  | vector
  /-- The member of a `tcp_datagram_socket`, a vector. -/
  | socketMember
deriving DecidableEq, Repr

/-- A message object. -/
structure MessageObject where
  kind : MessageKind
  msg : LengthPrefixedMessage
deriving DecidableEq, Repr

namespace MessageObject

/-- The members of `src` in the object `o`: the implicit copy and move constructors and
assignments of a class copy or move each member. -/
def into (src : MessageObject) (o : ObjectId) : MessageObject :=
  { src with msg := { src.msg with this := o } }

/-- What a move leaves behind: an array is copied, and a `std::vector` is left empty. -/
def movedFrom (src : MessageObject) : MessageObject :=
  match src.kind with
  | .buffer => src
  | .vector | .socketMember => { src with msg := { src.msg with iovec := [] } }

end MessageObject

/-- A `sendmsg` of a socket: the message that is sent, and the first entry that is transmitted. -/
structure SentHeader where
  message : ObjectId
  first : Option Iovec
deriving DecidableEq, Repr

/-- The live message objects, and the messages that sockets have sent. -/
structure MessageStore where
  objects : ObjectId → Option MessageObject := fun _ => none
  sends : List SentHeader := []

/-- The operations on messages and sockets. -/
inductive MessageStep where
  | constructBuffer (o : ObjectId) (buf : List UInt8) (length : ℕ)
  | constructVector (o : ObjectId) (buffers : List Iovec)
  /-- The default constructor of a vector or of a socket; it leaves `length_` as it is. -/
  | defaultConstruct (kind : MessageKind) (o : ObjectId) (indeterminate : ℕ)
  | copyConstruct (o src : ObjectId)
  | moveConstruct (o src : ObjectId)
  | copyAssign (o src : ObjectId)
  | moveAssign (o src : ObjectId)
  | fill (o : ObjectId) (buffers : List Iovec)
  | destroy (o : ObjectId)
  /-- `swap` of two sockets. -/
  | swap (a b : ObjectId)
  /-- `send(buf, length)`; `this` is the temporary message. -/
  | sendBuffer (sock this : ObjectId) (buf : List UInt8)
  /-- `send(buffers, size_buffers)`. -/
  | sendBuffers (sock : ObjectId) (buffers : List Iovec)
  /-- `send<N>(buffers)`; `this` is the temporary message. -/
  | sendArray (sock this : ObjectId) (indeterminate buffers : List Iovec)
deriving DecidableEq, Repr

namespace MessageStore

/-- The kind of a live object. -/
def kind? (s : MessageStore) (o : ObjectId) : Option MessageKind := (s.objects o).map (·.kind)

/-- The entries of a live object. -/
def iovec (s : MessageStore) (o : ObjectId) : List Iovec := (s.objects o).elim [] (·.msg.iovec)

def set (s : MessageStore) (o : ObjectId) (x : Option MessageObject) : MessageStore :=
  { s with objects := Function.update s.objects o x }

/-- `o` is constructed from or assigned `src` by a copy. -/
def copy (s : MessageStore) (o src : ObjectId) : MessageStore :=
  match s.objects src with
  | some obj => s.set o (some (obj.into o))
  | none => s

/-- `o` is constructed from or assigned `src` by a move. -/
def move (s : MessageStore) (o src : ObjectId) : MessageStore :=
  match s.objects src with
  | some obj => (s.set o (some (obj.into o))).set src (some obj.movedFrom)
  | none => s

/-- `std::swap` of the messages of two sockets, by a temporary object. -/
def swap (s : MessageStore) (a b : ObjectId) : MessageStore :=
  match s.objects a with
  | some temporary =>
    let s := s.set a (some temporary.movedFrom)
    let s := s.move a b
    s.set b (some (temporary.into b))
  | none => s

def refill (size : ℕ) (s : MessageStore) (o : ObjectId) (buffers : List Iovec) : MessageStore :=
  match s.objects o with
  | some obj => s.set o (some { obj with msg := obj.msg.fill size buffers })
  | none => s

/-- A message is handed to `sendmsg`. -/
def send (s : MessageStore) (message : ObjectId) (entries : List Iovec) : MessageStore :=
  { s with sends := s.sends ++ [⟨message, entries.head?⟩] }

/-- The operation can be called. -/
def Possible (s : MessageStore) : MessageStep → Prop
  | .constructBuffer o _ _ | .constructVector o _ => s.kind? o = none
  | .defaultConstruct kind o _ => s.kind? o = none ∧ kind ≠ .buffer
  | .copyConstruct o src =>
    s.kind? o = none ∧ (s.kind? src = some .buffer ∨ s.kind? src = some .vector)
  | .moveConstruct o src => s.kind? o = none ∧ s.kind? src ≠ none
  | .copyAssign o src =>
    s.kind? o = s.kind? src ∧ (s.kind? src = some .buffer ∨ s.kind? src = some .vector)
  | .moveAssign o src => s.kind? o = s.kind? src ∧ s.kind? src ≠ none
  | .fill o _ => s.kind? o = some .vector
  | .destroy o => s.kind? o ≠ none
  | .swap a b => s.kind? a = some .socketMember ∧ s.kind? b = some .socketMember
  | .sendBuffer sock this _ => s.kind? sock = some .socketMember ∧ s.kind? this = none
  | .sendBuffers sock _ => s.kind? sock = some .socketMember
  | .sendArray sock this indeterminate buffers =>
    s.kind? sock = some .socketMember ∧ s.kind? this = none ∧
      indeterminate.length = buffers.length + 1 ∧
      -- the caller has no pointer into the temporary
      ∀ v ∈ buffers, v.iovBase ≠ .lengthOf this

instance (s : MessageStore) : DecidablePred s.Possible := fun l =>
  match l with
  | .constructBuffer _ _ _ | .constructVector _ _ => inferInstanceAs (Decidable (_ = _))
  | .defaultConstruct _ _ _ | .swap _ _ | .sendBuffer _ _ _ | .sendArray _ _ _ _ =>
    inferInstanceAs (Decidable (_ ∧ _))
  | .copyConstruct _ _ | .moveConstruct _ _ => inferInstanceAs (Decidable (_ ∧ _))
  | .copyAssign _ _ | .moveAssign _ _ => inferInstanceAs (Decidable (_ ∧ _))
  | .fill _ _ | .sendBuffers _ _ => inferInstanceAs (Decidable (_ = _))
  | .destroy _ => inferInstanceAs (Decidable (¬ _))

/-- The store after the operation; `size` is the size of the prefix type. -/
def after (size : ℕ) (s : MessageStore) : MessageStep → MessageStore
  | .constructBuffer o buf length => s.set o (some ⟨.buffer, .buffer size o buf length⟩)
  | .constructVector o buffers => s.set o (some ⟨.vector, .vector size o buffers⟩)
  | .defaultConstruct kind o indeterminate =>
    s.set o (some ⟨kind, { this := o, length := indeterminate }⟩)
  | .copyConstruct o src | .copyAssign o src => s.copy o src
  | .moveConstruct o src | .moveAssign o src => s.move o src
  | .fill o buffers => s.refill size o buffers
  | .destroy o => s.set o none
  | .swap a b => s.swap a b
  | .sendBuffer _ this buf =>
    s.send this (LengthPrefixedMessage.buffer size this buf buf.length).iovec
  | .sendBuffers sock buffers =>
    let s := s.refill size sock buffers
    s.send sock (s.iovec sock)
  | .sendArray _ this indeterminate buffers =>
    s.send this (LengthPrefixedMessage.array size this indeterminate buffers).iovec

end MessageStore

/-- The program's operations. -/
def messageStep (size : ℕ) : Machine MessageStore MessageStep := fun s l =>
  if s.Possible l then some (s.after size l) else none

section Headers

variable (size : ℕ)

/-- The first entry of every message points to its own length, so that no other object has a part
in what it describes; and every message that was sent went out under its own header. -/
structure DescribeOwnHeaders (s : MessageStore) : Prop where
  own : ∀ o obj, s.objects o = some obj → ∀ v ∈ obj.msg.iovec.head?,
    v = LengthPrefixedMessage.lengthIovec size o
  independent : ∀ o obj, s.objects o = some obj → ∀ v ∈ obj.msg.iovec.head?,
    ∀ (nbo : NetworkByteOrder size) (lengths lengths' : ObjectId → ℕ), lengths o = lengths' o →
      v.bytes nbo lengths = v.bytes nbo lengths'
  sent : ∀ h ∈ s.sends, h.first = some (LengthPrefixedMessage.lengthIovec size h.message)

/-- No entries are copied, moved or swapped into another object, and no array is sent that has a
buffer. -/
def KeepsHeaders (s : MessageStore) : MessageStep → Prop
  | .copyConstruct o src | .moveConstruct o src | .copyAssign o src | .moveAssign o src =>
    s.iovec src = [] ∨ o = src
  | .swap a b => (s.iovec a = [] ∧ s.iovec b = []) ∨ a = b
  | .sendArray _ _ _ buffers => buffers = []
  | _ => True

end Headers
end Linuxpp
