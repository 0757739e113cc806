import Linuxpp.Descriptor.PipeIo
import Linuxpp.Foundations.Construction
import Linuxpp.Net.Accept

/-!
# The constructors of the classes that have descriptors

Every member that has a descriptor is a `unique_fd`, made of what a system call returns; the
constructor throws if that failed. A failing call is given by the `errno` that it leaves.
-/

namespace Linuxpp

open Construction

/-- `EFD_CLOEXEC`, `TFD_CLOEXEC`, `EPOLL_CLOEXEC` and `O_CLOEXEC`. -/
def EFD_CLOEXEC : UInt32 := 0x80000
def TFD_CLOEXEC : UInt32 := 0x80000
def EPOLL_CLOEXEC : UInt32 := 0x80000
def O_CLOEXEC : UInt32 := 0x80000

/-- A socket option that was set. -/
structure SocketOption where
  level : ℕ
  optname : ℕ
  optval : ℤ
deriving DecidableEq, Repr

/-- A socket, with the options that were set and the addresses that it is bound and connected to. -/
structure SocketFile where
  domain : ℕ
  type : UInt32
  protocol : ℕ
  options : List SocketOption := []
  name : Option Net.SockaddrIn := none
  peer : Option Net.SockaddrIn := none
deriving DecidableEq, Repr

/-- What a descriptor refers to, with the flags that it was made with. -/
inductive FileDescription where
  | eventfd (initvalue : UInt32) (flags : UInt32)
  | timerfd (flags : UInt32)
  | epoll (flags : UInt32)
  | pipeRead (flags : UInt32)
  | pipeWrite (flags : UInt32)
  | socket (file : SocketFile)
  /-- What the rest of the program has opened. -/
  | other
deriving DecidableEq, Repr

namespace FileDescription

/-- `FD_CLOEXEC`. -/
def closeOnExec : FileDescription → Bool
  | eventfd _ flags => flags &&& EFD_CLOEXEC ≠ 0
  | timerfd flags => flags &&& TFD_CLOEXEC ≠ 0
  | epoll flags => flags &&& EPOLL_CLOEXEC ≠ 0
  | pipeRead flags | pipeWrite flags => flags &&& O_CLOEXEC ≠ 0
  | socket file => file.type &&& Net.SOCK_CLOEXEC ≠ 0
  | other => false

/-- A call on a socket. -/
def onSocket (f : SocketFile → SocketFile) : FileDescription → FileDescription
  | socket file => socket (f file)
  | d => d

end FileDescription

/-- The descriptor is closed by `execve`. -/
def ClosesOnExec (file : FileDescription) : Prop := file.closeOnExec = true

/-- A constructor, on the descriptors of the process. -/
abbrev Constructor := Attempt FileDescription SystemError

/-- What is thrown for a system call. -/
def systemError (what : String) (errno : Errno) : SystemError where
  code := errno.value
  what := what

/-- The descriptor of a member. -/
def UniqueFd.fds (u : UniqueFd) : List Int := [u.get]

/-- A member that is initialised with what a system call returns. -/
def uniqueFd (file : FileDescription) (what : String) (failure : Option Errno) :
    Constructor UniqueFd :=
  (Attempt.openNew file (failure.map (systemError what))).map UniqueFd.ofFd

/-- `eventfd(initvalue, flags)`. -/
def eventfd (initvalue flags : UInt32) (failure : Option Errno) : Constructor UniqueFd :=
  uniqueFd (.eventfd initvalue (flags ||| EFD_CLOEXEC)) "eventfd system call failed" failure

/-- `monotonic_timerfd(flags)`. -/
def monotonicTimerfd (flags : UInt32) (failure : Option Errno) : Constructor UniqueFd :=
  uniqueFd (.timerfd (flags ||| TFD_CLOEXEC)) "timerfd_create system call failed" failure

/-- `epoll()`. -/
def epoll (failure : Option Errno) : Constructor UniqueFd :=
  uniqueFd (.epoll EPOLL_CLOEXEC) "epoll_create failed" failure

/-- `pipe(nocloexec, flags)`. `pipe2` opens both descriptors or none. -/
def pipeNocloexec (flags : UInt32) (failure : Option Errno) : Constructor (UniqueFd × UniqueFd) :=
  Attempt.member (uniqueFd (.pipeRead flags) "pipe2 failed" failure) UniqueFd.fds fun _ =>
    uniqueFd (.pipeWrite flags) "pipe2 failed" none

/-- `pipe(flags)`. -/
def pipe (flags : UInt32) (failure : Option Errno) : Constructor (UniqueFd × UniqueFd) :=
  pipeNocloexec (flags ||| O_CLOEXEC) failure

end Linuxpp
