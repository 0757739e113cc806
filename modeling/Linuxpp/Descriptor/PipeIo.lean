import Linuxpp.Descriptor.UniqueFd
import Linuxpp.Kernel.Errno
import Mathlib.Algebra.Ring.Int.Defs

/-!
# `syscall_return` and the reads and writes

`errno` belongs to the thread: a call that fails sets it, and a call that succeeds leaves it as it
is. What `::read` and `::write` do is a parameter; a function here gives its result and the `errno`
behind it.
-/

namespace Linuxpp

/-- `syscall_return<T>`. -/
structure SyscallReturn (T : Type) where
  errnoValue : ℤ
  returnValue : T
deriving DecidableEq

namespace SyscallReturn

variable {T : Type}

/-- `syscall_return(return_value)`. -/
def ofReturnValue (returnValue : T) : SyscallReturn T := ⟨0, returnValue⟩

/-- `syscall_return(seterrno, errno_value)`, `init` being `T{}`; the error is the text of a
`std::logic_error`. -/
def seterrno (init : T) (errnoValue : ℤ) : Except String (SyscallReturn T) :=
  if errnoValue = 0 then .error "errno value cannot be 0" else .ok ⟨errnoValue, init⟩

/-- `good`, which is `operator bool`. -/
def good (r : SyscallReturn T) : Bool := r.errnoValue == 0

def fail (r : SyscallReturn T) : Bool := !r.good

@[simp] theorem good_ofReturnValue (v : T) : (ofReturnValue v).good = true := rfl

@[simp] theorem good_eq_true {r : SyscallReturn T} : r.good = true ↔ r.errnoValue = 0 := by
  simp [good]

@[simp] theorem fail_eq_true {r : SyscallReturn T} : r.fail = true ↔ r.errnoValue ≠ 0 := by
  simp [fail, good]

end SyscallReturn

/-- A `std::system_error` of the system category. -/
structure SystemError where
  code : ℤ
  what : String
deriving DecidableEq

/-- What `::read` or `::write` does. -/
inductive IoOutcome where
  | fails (errno : Errno)
  | transfers (count : ℕ)
deriving DecidableEq

namespace IoOutcome

/-- The `ssize_t` that the call returns. -/
def ret : IoOutcome → ℤ
  | fails _ => -1
  | transfers count => count

/-- What `errno` holds after the call. -/
def errnoAfter (errno : ℤ) : IoOutcome → ℤ
  | fails e => e.value
  | transfers _ => errno

def IsFailure : IoOutcome → Prop
  | fails _ => True
  | transfers _ => False

instance : DecidablePred IsFailure := fun o =>
  match o with
  | fails _ => isTrue trivial
  | transfers _ => isFalse id

end IoOutcome

/-- `::read` or `::write`, by descriptor, buffer and size; `B` is the type of the buffers. -/
abbrev IoCall (B : Type) := Int → B → ℕ → IoOutcome

/-- `static_cast<std::size_t>`. -/
def toSize (v : ℤ) : ℕ := (v % 2 ^ 64).toNat

section Functions

variable {B : Type} (call : IoCall B)

/-- The throwing reads and writes of a bare descriptor. -/
def fdCall (what : String) (fd : Int) (buf : B) (length : ℕ) (errno : ℤ) :
    Except SystemError ℕ × ℤ :=
  let o := call fd buf length
  let errno := o.errnoAfter errno
  if o.ret = -1 then (.error ⟨errno, what⟩, errno) else (.ok (toSize o.ret), errno)

/-- `linuxpp::write(fd, buf, length)`. -/
def write (fd : Int) (buf : B) (length : ℕ) (errno : ℤ) : Except SystemError ℕ × ℤ :=
  fdCall call "write failed" fd buf length errno

/-- `linuxpp::read(fd, buf, length)`. -/
def read (fd : Int) (buf : B) (length : ℕ) (errno : ℤ) : Except SystemError ℕ × ℤ :=
  fdCall call "read failed" fd buf length errno

/-- `linuxpp::write(std::nothrow, fd, buf, length)`. -/
def writeNothrow (fd : Int) (buf : B) (length : ℕ) (errno : ℤ) : SyscallReturn ℤ × ℤ :=
  let o := call fd buf length
  let errno := o.errnoAfter errno
  if o.ret = -1 then (⟨errno, o.ret⟩, errno) else (.ofReturnValue o.ret, errno)

/-- `linuxpp::pipe`. -/
structure Pipe where
  readFd : UniqueFd
  writeFd : UniqueFd
deriving DecidableEq

namespace Pipe

/-- The `std::nothrow` forms: the result takes what `errno` holds, whether or not the call has
failed. -/
def callNothrow (fd : Int) (buf : B) (size : ℕ) (errno : ℤ) : SyscallReturn ℤ × ℤ :=
  let o := call fd buf size
  let errno := o.errnoAfter errno
  (⟨errno, o.ret⟩, errno)

/-- The throwing forms. -/
def callThrowing (what : String) (fd : Int) (buf : B) (size : ℕ) (errno : ℤ) :
    Except SystemError ℕ × ℤ :=
  let (ret, errno) := callNothrow call fd buf size errno
  if ret.good then (.ok (toSize ret.returnValue), errno)
  else (.error ⟨ret.errnoValue, what⟩, errno)

variable (p : Pipe)

/-- `pipe::write(std::nothrow, buf, size)`. -/
def writeNothrow (buf : B) (size : ℕ) (errno : ℤ) : SyscallReturn ℤ × ℤ :=
  callNothrow call p.writeFd.get buf size errno

/-- `pipe::write(buf, size)`. -/
def write (buf : B) (size : ℕ) (errno : ℤ) : Except SystemError ℕ × ℤ :=
  callThrowing call "write system call failed" p.writeFd.get buf size errno

/-- `pipe::read(std::nothrow, buf, size)`. -/
def readNothrow (buf : B) (size : ℕ) (errno : ℤ) : SyscallReturn ℤ × ℤ :=
  callNothrow call p.readFd.get buf size errno

/-- `pipe::read(buf, size)`. -/
def read (buf : B) (size : ℕ) (errno : ℤ) : Except SystemError ℕ × ℤ :=
  callThrowing call "read system call failed" p.readFd.get buf size errno

end Pipe
end Functions

section ToldApart

/-- The results tell what the call did: `nothrow` and `throwing` are those of the two forms of a
function, `sibling` is that of the throwing function of the bare descriptor. -/
structure ToldApart (o : IoOutcome) (nothrow : SyscallReturn ℤ)
    (throwing sibling : Except SystemError ℕ) : Prop where
  good : nothrow.good = true ↔ o.ret ≠ -1
  carries : nothrow.returnValue = o.ret
  throws : (∃ e, throwing = .error e) ↔ o.ret = -1
  agrees : throwing.mapError SystemError.code = sibling.mapError SystemError.code

variable {B : Type} (call : IoCall B) (p : Pipe) (buf : B) (size : ℕ) (errno : ℤ)

/-- The forms of `pipe::write` tell what the call did, and agree with those of `linuxpp::write`. -/
def WriteToldApart : Prop :=
  ToldApart (call p.writeFd.get buf size) (p.writeNothrow call buf size errno).1
      (p.write call buf size errno).1 (write call p.writeFd.get buf size errno).1 ∧
    p.writeNothrow call buf size errno = writeNothrow call p.writeFd.get buf size errno

/-- The forms of `pipe::read` tell what the call did, and agree with `linuxpp::read`. -/
def ReadToldApart : Prop :=
  ToldApart (call p.readFd.get buf size) (p.readNothrow call buf size errno).1
    (p.read call buf size errno).1 (read call p.readFd.get buf size errno).1

/-- What `errno` holds after calls with these outcomes, and no other use of it. -/
def errnoAfterCalls (errno : ℤ) (calls : List IoOutcome) : ℤ :=
  calls.foldl (fun errno o => o.errnoAfter errno) errno

end ToldApart
end Linuxpp
