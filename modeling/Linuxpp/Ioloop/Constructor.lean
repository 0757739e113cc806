import Linuxpp.Descriptor.Constructors
import Linuxpp.Ioloop.EventLoop

/-!
# The constructor of `ioloop`

Five members have descriptors of their own. The body registers four handlers, one after the other,
and every call on the way may fail: then the members that are there are destroyed. A loop that is
constructed starts where the runs of the event loop start.
-/

/-- The numbers of the descriptors that are open. -/
def DescriptorTable.openFds {φ : Type*} (t : DescriptorTable φ) : List Int :=
  ((List.range t.slots.length).map Int.ofNat).filter fun fd => (t.get fd).isSome

namespace Linuxpp.Ioloop

open Construction

/-- What the constructor throws: what the constructor of a member throws, or what `add_handler`
does. -/
inductive IoloopError where
  | member (e : SystemError)
  | handler (e : HandlerError)
deriving DecidableEq

/-- The outcomes of the system calls. -/
structure IoloopCalls where
  stopEventfd : Option Errno := none
  timeoutTimerfd : Option Errno := none
  periodicTimeoutTimerfd : Option Errno := none
  callbacksEventfd : Option Errno := none
  epoll : Option Errno := none
  epollCtl : OwnFunction → Option Errno := fun _ => none

/-- The members with descriptors, and those for the handlers. -/
structure IoloopObject (κ : Type) where
  stopEventfd : UniqueFd
  timeoutTimerfd : UniqueFd
  periodicTimeoutTimerfd : UniqueFd
  callbacksEventfd : UniqueFd
  epoll : UniqueFd
  handlers : Handlers (HandlerFunction κ)
deriving DecidableEq

def EFD_NONBLOCK : UInt32 := 0x800

section Constructor

variable {κ : Type}

/-- The descriptors that are registered. -/
def ownFd (stopEventfd timeoutTimerfd periodicTimeoutTimerfd callbacksEventfd : UniqueFd) :
    OwnFunction → Int
  | .processCallbacks => callbacksEventfd.get
  | .processStop => stopEventfd.get
  | .processTimeouts => timeoutTimerfd.get
  | .processPeriodicTimeouts => periodicTimeoutTimerfd.get

/-- The calls of `add_handler`, up to the first that throws. The nodes get the addresses
`address`. -/
def registerAll (fd : OwnFunction → Int) (address : OwnFunction → ℕ)
    (failure : OwnFunction → Option Errno) :
    List OwnFunction → Handlers (HandlerFunction κ) →
      Except HandlerError Unit × Handlers (HandlerFunction κ)
  | [], s => (.ok (), s)
  | f :: fs, s =>
    match s.addHandler (fd f) eventRead (.own f) (address f) (failure f) with
    | (.error e, s) => (.error e, s)
    | (.ok (), s) => registerAll fd address failure fs s

/-- The body of the constructor, behind the members. -/
def registerOwn (fd : OwnFunction → Int) (address : OwnFunction → ℕ)
    (failure : OwnFunction → Option Errno) :
    Attempt FileDescription IoloopError (Handlers (HandlerFunction κ)) := fun t =>
  match registerAll fd address failure OwnFunction.all { epoll := { openFds := t.openFds } } with
  | (.error e, _) => (.error (.handler e), t)
  | (.ok (), s) => (.ok s, t)

/-- A member, whose constructor throws a `std::system_error`. -/
def ioloopMember {β : Type} (make : Constructor UniqueFd)
    (rest : UniqueFd → Attempt FileDescription IoloopError β) :
    Attempt FileDescription IoloopError (UniqueFd × β) :=
  .member (make.mapError .member) UniqueFd.fds rest

/-- `ioloop()`. The members are made in the order in which the class declares them. -/
def ioloop (κ : Type) (address : OwnFunction → ℕ) (calls : IoloopCalls) :
    Attempt FileDescription IoloopError (IoloopObject κ) :=
  (ioloopMember (eventfd 0 0 calls.stopEventfd) fun stop =>
    ioloopMember (monotonicTimerfd 0 calls.timeoutTimerfd) fun timeout =>
      ioloopMember (monotonicTimerfd 0 calls.periodicTimeoutTimerfd) fun periodicTimeout =>
        ioloopMember (eventfd 0 EFD_NONBLOCK calls.callbacksEventfd) fun callbacks =>
          ioloopMember (epoll calls.epoll) fun _ =>
            registerOwn (ownFd stop timeout periodicTimeout callbacks) address calls.epollCtl).map
    fun (stop, timeout, periodicTimeout, callbacks, epoll, handlers) =>
      ⟨stop, timeout, periodicTimeout, callbacks, epoll, handlers⟩

end Constructor

section Law

variable {κ : Type}

/-- The handlers, in a process that has the numbers `openFds` in use. -/
def Handlers.withOpenFds (s : Handlers κ) (openFds : List Int) : Handlers κ :=
  { s with epoll := { s.epoll with openFds := openFds } }

/-- What the system calls report, in their order. -/
def IoloopCalls.failures (calls : IoloopCalls) : List (Option IoloopError) :=
  [calls.stopEventfd.map (systemError "eventfd system call failed"),
    calls.timeoutTimerfd.map (systemError "timerfd_create system call failed"),
    calls.periodicTimeoutTimerfd.map (systemError "timerfd_create system call failed"),
    calls.callbacksEventfd.map (systemError "eventfd system call failed"),
    calls.epoll.map (systemError "epoll_create failed")].map (Option.map .member) ++
  (OwnFunction.all.map calls.epollCtl).map (Option.map fun errno => .handler (.addFailed errno))

namespace IoloopObject

/-- The descriptors of the members. -/
def fds (o : IoloopObject κ) : List Int :=
  [o.stopEventfd.get, o.timeoutTimerfd.get, o.periodicTimeoutTimerfd.get, o.callbacksEventfd.get,
    o.epoll.get]

/-- The descriptor that a function is registered for. -/
def fd (o : IoloopObject κ) : OwnFunction → Int :=
  ownFd o.stopEventfd o.timeoutTimerfd o.periodicTimeoutTimerfd o.callbacksEventfd

/-- The loop, which nothing has happened to. The numbers `openFds` are in use. -/
def asEventLoop (o : IoloopObject κ) (own : OwnFds) (clock : TimeType) (openFds : List Int) :
    EventLoop κ :=
  { EventLoop.construct κ own clock with handlers := o.handlers.withOpenFds openFds }

/-- The loop is the constructed one of the runs of the event loop, once the program has opened the
other files that it has open. -/
structure StartsAsConstructed (o : IoloopObject κ) (own : OwnFds) (address : OwnFunction → ℕ)
    (t : DescriptorTable FileDescription) : Prop where
  fd : own.fd = o.fd
  address : own.address = address
  knows : o.handlers.epoll.openFds = t.openFds
  reached : ∀ clock, ∃ openFds, openFds.Perm t.openFds ∧
    eventLoopStep.Reachable (EventLoop.construct κ own clock) (o.asEventLoop own clock openFds)

end IoloopObject

end Law

end Linuxpp.Ioloop
