import Linuxpp.Descriptor.PipeIo
import Linuxpp.Foundations.BigEndian

/-!
# Objects through a pipe

`pipe::write(obj)` and `pipe::read<T>()`, which are templates for POD types, and a pipe that is used
through them. What `::write` and `::read` transfer is in the labels of the machine, and so is what
other calls of the thread leave in `errno`.
-/

namespace Linuxpp

/-- The POD types, by what the templates need of them. -/
inductive PodType where
  | ssizeT
  /-- An array of `size` bytes. -/
  | array (size : ℕ)
  | pointer
  /-- A class of `size` bytes that has a conversion to a pointer. -/
  | convertible (size : ℕ)
  | other (size : ℕ)
deriving DecidableEq, Repr

namespace PodType

/-- `sizeof(T)`. -/
def size : PodType → ℕ
  | ssizeT | pointer => 8
  | array size | convertible size | other size => size

/-- `pipe::write(obj)` passes the object for a `void const *`, to which its type must convert. -/
def WriteInstantiates : PodType → Prop
  | array _ | pointer | convertible _ => True
  | ssizeT | other _ => False

/-- `pipe::read<T>()` returns a `syscall_return<ssize_t>` as a `syscall_return<T>`, to which it does
not convert otherwise. -/
def ReadInstantiates : PodType → Prop
  | ssizeT => True
  | _ => False

instance : DecidablePred WriteInstantiates := fun t =>
  match t with
  | array _ | pointer | convertible _ => isTrue trivial
  | ssizeT | other _ => isFalse id

instance : DecidablePred ReadInstantiates := fun t =>
  match t with
  | ssizeT => isTrue trivial
  | array _ | pointer | convertible _ | other _ => isFalse id

end PodType

/-- An object of a POD type, and the memory at the address to which it converts. -/
structure PodObject where
  type : PodType
  bytes : List UInt8
  target : List UInt8
  length_bytes : bytes.length = type.size
  /-- An array converts to its own address. -/
  target_array : ∀ size, type = .array size → target = bytes

/-- A value of `ssize_t`. -/
def IsSsize (v : ℤ) : Prop := -2 ^ 63 ≤ v ∧ v < 2 ^ 63

/-- The representation of `ssize_t`, a type of eight bytes without padding. -/
structure SsizeRepresentation where
  object : ℤ → List UInt8
  injective : ∀ v w, IsSsize v → IsSsize w → object v = object w → v = w
  surjective : ∀ bs : List UInt8, bs.length = 8 → ∃ v, IsSsize v ∧ object v = bs

/-- Two's complement, the least significant byte first. -/
def littleEndianObject (v : ℤ) : List UInt8 :=
  (BigEndian.encode PodType.ssizeT.size (v % 2 ^ 64).toNat).reverse

/-- What leaves a call of `pipe::read<T>()`. -/
inductive PipeReadError where
  | systemError (e : SystemError)
  /-- An exception reaches the end of a function that is `noexcept`. -/
  | terminate
deriving DecidableEq

namespace Pipe

variable (call : IoCall (List UInt8)) (p : Pipe)

/-- `pipe::write(std::nothrow, obj)`. -/
def writeObjectNothrow (obj : PodObject) (errno : ℤ) : SyscallReturn ℤ × ℤ :=
  -- the buffer is where the object points to
  let (ret, errno) := p.writeNothrow call obj.target obj.type.size errno
  if ret.fail ∨ ret.returnValue ≠ obj.type.size then
    (⟨Errno.EAGAIN.value, ret.returnValue⟩, errno)
  else (⟨0, ret.returnValue⟩, errno)

/-- `pipe::write(obj)`. -/
def writeObject (obj : PodObject) (errno : ℤ) : Except SystemError Unit × ℤ :=
  let (ret, errno) := p.writeObjectNothrow call obj errno
  if ret.fail then (.error ⟨ret.errnoValue, "object write failed"⟩, errno)
  else if ret.returnValue ≠ obj.type.size then
    (.error ⟨Errno.EAGAIN.value, "partial object write"⟩, errno)
  else (.ok (), errno)

/-- `pipe::read<ssize_t>(std::nothrow)`, `t` being what the bytes of its object are at first. The
error is the text of an exception. -/
def readObjectNothrow (t : List UInt8) (errno : ℤ) : Except String (SyscallReturn ℤ) × ℤ :=
  let (ret, errno) := p.readNothrow call t PodType.ssizeT.size errno
  if ret.fail then (SyscallReturn.seterrno 0 ret.errnoValue, errno)
  else if ret.returnValue ≠ PodType.ssizeT.size then
    (SyscallReturn.seterrno 0 Errno.ENODATA.value, errno)
  else
    -- the result of the call, and not the object that was read
    (.ok ret, errno)

/-- `pipe::read<ssize_t>()`. -/
def readObject (t : List UInt8) (errno : ℤ) : Except PipeReadError ℤ × ℤ :=
  match p.readObjectNothrow call t errno with
  | (.error _, errno) => (.error .terminate, errno)
  | (.ok ret, errno) =>
    if ret.fail then (.error (.systemError ⟨ret.errnoValue, "failed to read object"⟩), errno)
    else (.ok ret.returnValue, errno)

end Pipe

section Run

/-- The number of bytes that a call transfers. -/
def IoOutcome.count : IoOutcome → ℕ
  | fails _ => 0
  | transfers count => count

/-- A call of `pipe::write(obj)`. -/
structure ObjectWrite where
  obj : PodObject
  outcome : IoOutcome
  result : Except SystemError Unit

/-- A call of `pipe::read<ssize_t>()`, and the bytes that it took from the pipe. -/
structure ObjectRead where
  taken : List UInt8
  outcome : IoOutcome
  result : Except PipeReadError ℤ

/-- A pipe and the thread that uses it: the bytes in the pipe, `errno`, all the bytes that have
entered the pipe, and the calls made. -/
structure TypedPipe where
  contents : List UInt8 := []
  errno : ℤ := 0
  entered : List UInt8 := []
  writes : List ObjectWrite := []
  reads : List ObjectRead := []

namespace TypedPipe

/-- The bytes of the objects that went into the pipe as a whole. -/
def written (s : TypedPipe) : List (List UInt8) :=
  (s.writes.filter fun w => w.outcome = .transfers w.obj.type.size).map fun w => w.obj.bytes

/-- What the successful reads have returned. -/
def returned (s : TypedPipe) : List ℤ := s.reads.filterMap fun r => r.result.toOption

end TypedPipe

/-- The steps of the thread. -/
inductive TypedPipeStep where
  | write (obj : PodObject) (o : IoOutcome)
  | read (t : List UInt8) (o : IoOutcome)
  /-- Some other call leaves this in `errno`. -/
  | other (errno : ℤ)

/-- A step; a call transfers no more than it is asked for and than there is. -/
def typedPipeStep (p : Pipe) : Machine TypedPipe TypedPipeStep := fun s l =>
  match l with
  | .write obj o =>
    if obj.type.WriteInstantiates ∧ o.count ≤ obj.type.size ∧ o.count ≤ obj.target.length then
      let (result, errno) := p.writeObject (fun _ _ _ => o) obj s.errno
      let bytes := obj.target.take o.count
      some { s with
        contents := s.contents ++ bytes
        errno := errno
        entered := s.entered ++ bytes
        writes := s.writes ++ [⟨obj, o, result⟩] }
    else none
  | .read t o =>
    if o.count ≤ PodType.ssizeT.size ∧ o.count ≤ s.contents.length then
      let (result, errno) := p.readObject (fun _ _ _ => o) t s.errno
      some { s with
        contents := s.contents.drop o.count
        errno := errno
        reads := s.reads ++ [⟨s.contents.take o.count, o, result⟩] }
    else none
  | .other errno => some { s with errno := errno }

/-- Values go through the pipe as they are. -/
structure RoundTrip (rep : SsizeRepresentation) (s : TypedPipe) : Prop where
  /-- What has entered the pipe are the bytes of the objects, in order. -/
  enters : s.entered = s.writes.flatMap fun w => w.obj.bytes.take w.outcome.count
  /-- The reads have taken them in the same order. -/
  leaves : s.entered = (s.reads.flatMap fun r => r.taken) ++ s.contents
  /-- A short or failed transfer is reported as an error. -/
  writeErrors : ∀ w ∈ s.writes, w.outcome ≠ .transfers w.obj.type.size →
    ∃ e, w.result = .error e
  readErrors : ∀ r ∈ s.reads, r.outcome ≠ .transfers PodType.ssizeT.size →
    ∃ e, r.result = .error (.systemError e)
  /-- A complete read returns the value whose representation it has taken. -/
  values : ∀ r ∈ s.reads, r.outcome = .transfers PodType.ssizeT.size →
    ∀ v, IsSsize v → r.taken = rep.object v → r.result = .ok v
  /-- Successive successful reads return the objects that went into the pipe, in order. -/
  inOrder : s.returned.map rep.object <+: s.written

/-- The object that is written points to its own bytes, as far as they are transferred; and a
complete read finds no error in `errno`, and the representation of its own size, which is what comes
next in the pipe, and is the object whose turn it is. -/
def ConveysValue (rep : SsizeRepresentation) (s : TypedPipe) : TypedPipeStep → Prop
  | .write obj o => obj.target.take o.count = obj.bytes.take o.count
  | .read _ o => o = .transfers PodType.ssizeT.size →
      s.errno = 0 ∧ s.contents.take PodType.ssizeT.size = rep.object PodType.ssizeT.size ∧
        s.written[s.returned.length]? = some (rep.object PodType.ssizeT.size)
  | .other _ => True

end Run
end Linuxpp
