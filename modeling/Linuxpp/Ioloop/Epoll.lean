import Mathlib.Data.UInt
import Linuxpp.Kernel.Errno

/-!
# `linuxpp::epoll`

An epoll object together with what the kernel knows: the descriptors of the process that are open,
and the interest set of the epoll instance. Every open file has one descriptor, so that closing a
descriptor drops its registration.
-/

namespace Linuxpp

/-- A member of the interest set: a descriptor, the events it is registered for, and the `data.ptr`
that is reported with them. -/
structure Registration where
  fd : Int
  events : UInt32
  ptr : ℕ
deriving DecidableEq, Repr

/-- `struct epoll_event` whose `data` holds a pointer; the null pointer is `none`. -/
structure EpollEvent where
  events : UInt32 := 0
  ptr : Option ℕ := none
deriving DecidableEq, Repr

/-- The members of `epoll`, and the state of the kernel. -/
structure Epoll where
  sizeEvents : ℕ := 0
  openFds : List Int := []
  interest : List Registration := []
deriving DecidableEq, Repr

namespace Epoll

/-- The descriptor is in the interest set. -/
def registered (e : Epoll) (fd : Int) : Bool := e.interest.any fun r => r.fd = fd

/-- `EPOLL_CTL_ADD`. `failure` is an error that the kernel reports for a reason of its own. -/
def ctlAdd (e : Epoll) (r : Registration) (failure : Option Errno) : Except Errno Epoll :=
  if r.fd ∉ e.openFds then .error .EBADF
  else if e.registered r.fd then .error .EEXIST
  else match failure with
    | some errno => .error errno
    | none => .ok { e with interest := e.interest ++ [r] }

/-- `EPOLL_CTL_DEL`. -/
def ctlDel (e : Epoll) (fd : Int) : Except Errno Epoll :=
  if fd ∉ e.openFds then .error .EBADF
  else if e.registered fd then
    .ok { e with interest := e.interest.filter fun r => r.fd ≠ fd }
  else .error .ENOENT

/-- `add(fd, events, context)`. -/
def add (e : Epoll) (fd : Int) (events : UInt32) (context : ℕ) (failure : Option Errno) :
    Except Errno Unit × Epoll :=
  match e.ctlAdd ⟨fd, events, context⟩ failure with
  | .error errno => (.error errno, e)
  | .ok e' => (.ok (), { e' with sizeEvents := e'.sizeEvents + 1 })

/-- `del(std::nothrow, fd)`. -/
def del (e : Epoll) (fd : Int) : Except Errno Unit × Epoll :=
  match e.ctlDel fd with
  | .error errno => (.error errno, e)
  | .ok e' => (.ok (), { e' with sizeEvents := e'.sizeEvents - 1 })

/-- The process opens a file under the number `fd`. -/
def openFd (e : Epoll) (fd : Int) : Epoll := { e with openFds := e.openFds ++ [fd] }

/-- The process closes `fd`. -/
def closeFd (e : Epoll) (fd : Int) : Epoll :=
  { e with
    openFds := e.openFds.filter fun fd' => fd' ≠ fd
    interest := e.interest.filter fun r => r.fd ≠ fd }

end Epoll

/-- `resize` of a vector of events. -/
def resizeEvents (events : List EpollEvent) (n : ℕ) : List EpollEvent :=
  events.take n ++ List.replicate (n - events.length) ({} : EpollEvent)

end Linuxpp
