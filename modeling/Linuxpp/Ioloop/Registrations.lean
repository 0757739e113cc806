import Linuxpp.Ioloop.Callbacks
import Linuxpp.Ioloop.Handlers
import Linuxpp.Ioloop.PeriodicTimeouts

/-!
# The registration operations of `ioloop` and their calls of the kernel

Each of the five operations changes a table of its own and makes at most one call of the kernel,
which may fail with any error. Here they act on the members of `ioloop` as a whole, and `addCallback`
is the critical section of `add_callback` without interference.
-/

namespace Linuxpp

/-- `del(std::nothrow, fd)`. `failure` is an error that the kernel reports for a reason of its own,
such as `EPERM` for a number that a regular file has got since. -/
def Epoll.delOr (e : Epoll) (fd : Int) (failure : Option Errno) : Except Errno Unit × Epoll :=
  match failure with
  | some errno => (.error errno, e)
  | none => e.del fd

/-- `eventfd::write(std::nothrow)`. The kernel reports `failure`, or `EAGAIN` on a saturated
counter. -/
def eventfdWrite (counter : ℕ) (failure : Option Errno) : Except Errno Unit × ℕ :=
  match failure with
  | some errno => (.error errno, counter)
  | none =>
    if counter < Ioloop.maxEventfdCounter then (.ok (), counter + 1) else (.error .EAGAIN, counter)

namespace Ioloop

variable {κ : Type}

/-- `remove_handler`, where `EPOLL_CTL_DEL` may fail for a reason of the kernel's own. -/
def Handlers.removeHandlerOr (s : Handlers κ) (fd : Int) (failure : Option Errno) :
    Except HandlerError Unit × Handlers κ :=
  if ¬ s.handled fd then (.ok (), s)
  else if s.processingHandlers then
    (.ok (), { s with removedHandlers := s.removedHandlers ++ [fd] })
  else
    let s' := s.erase fd
    let (result, epoll) := s'.epoll.delOr fd failure
    let s' := { s' with epoll := epoll }
    match result with
    | .ok () => (.ok (), s')
    | .error errno =>
      if errno ≠ .ENOENT then (.error (.removeFailed errno), s') else (.ok (), s')

/-- The members of `ioloop` for handlers, queued callbacks and timeouts. -/
structure IoloopMembers (κ : Type) where
  handlers : Handlers κ := {}
  newCallbacks : List κ := []
  callbacksEventfd : ℕ := 0
  timeouts : Timeouts κ := {}
  periodicTimeouts : PeriodicTimeouts κ := {}
deriving DecidableEq

/-- What the registration operations throw. -/
inductive RegistrationError where
  | handler (e : HandlerError)
  | writeFailed (errno : Errno)
  /-- What `set_oneshot` throws. -/
  | settimeFailed (errno : Errno)
deriving DecidableEq

/-- A call of a registration operation, with the error that the kernel reports for a reason of its
own, if it does. -/
inductive Registering (κ : Type) where
  | addCallback (callback : κ) (failure : Option Errno)
  | addHandler (fd : Int) (events : UInt32) (callback : κ) (address : ℕ) (failure : Option Errno)
  | removeHandler (fd : Int) (failure : Option Errno)
  | addTimeout (timeout : TimeType) (callback : κ) (o : SettimeOutcome)
  | addPeriodicTimeout (period : Int) (callback : κ) (now : TimeType) (o : SettimeOutcome)
deriving DecidableEq

namespace IoloopMembers

/-- `add_callback`. -/
def addCallback (m : IoloopMembers κ) (callback : κ) (failure : Option Errno) :
    Except RegistrationError Unit × IoloopMembers κ :=
  let m' := { m with newCallbacks := m.newCallbacks ++ [callback] }
  let (ret, counter) := eventfdWrite m.callbacksEventfd failure
  let m' := { m' with callbacksEventfd := counter }
  match ret with
  | .ok () => (.ok (), m')
  | .error errno => if errno ≠ .EAGAIN then (.error (.writeFailed errno), m') else (.ok (), m')

/-- Makes the call. The handle that an addition returns is left out. -/
def perform (m : IoloopMembers κ) :
    Registering κ → Except RegistrationError Unit × IoloopMembers κ
  | .addCallback callback failure => m.addCallback callback failure
  | .addHandler fd events callback address failure =>
    let (result, handlers) := m.handlers.addHandler fd events callback address failure
    (result.mapError .handler, { m with handlers := handlers })
  | .removeHandler fd failure =>
    let (result, handlers) := m.handlers.removeHandlerOr fd failure
    (result.mapError .handler, { m with handlers := handlers })
  | .addTimeout timeout callback o =>
    let (result, timeouts) := m.timeouts.addTimeout timeout callback o
    ((result.map fun _ => ()).mapError .settimeFailed, { m with timeouts := timeouts })
  | .addPeriodicTimeout period callback now o =>
    let (result, timeouts) := m.periodicTimeouts.addPeriodicTimeout period callback now o
    ((result.map fun _ => ()).mapError .settimeFailed, { m with periodicTimeouts := timeouts })

end IoloopMembers

/-- What is registered with an `ioloop`. -/
structure Registered (κ : Type) where
  handlers : List (HandlerNode κ)
  interest : List Registration
  newCallbacks : List κ
  timeouts : List (TimeoutCallback κ)
  pendingTimeoutAdditions : List (TimeoutCallback κ)
  periodicTimeouts : List (PeriodicTimeoutCallback κ)
  pendingPeriodicTimeoutAdditions : List (PeriodicTimeoutCallback κ)
deriving DecidableEq

/-- The tables of the members. -/
def IoloopMembers.registered (m : IoloopMembers κ) : Registered κ where
  handlers := m.handlers.handlers
  interest := m.handlers.epoll.interest
  newCallbacks := m.newCallbacks
  timeouts := m.timeouts.timeouts
  pendingTimeoutAdditions := m.timeouts.pendingTimeoutAdditions
  periodicTimeouts := m.periodicTimeouts.periodicTimeouts
  pendingPeriodicTimeoutAdditions := m.periodicTimeouts.pendingPeriodicTimeoutAdditions

section Conditions

/-- If the call throws, all that is registered is as before. -/
def AllOrNothing (m : IoloopMembers κ) (call : Registering κ) : Prop :=
  ∀ e, (m.perform call).1 = .error e → (m.perform call).2.registered = m.registered

/-- The call is one of `add_handler`, or the kernel is not called, or that succeeds or fails with
the error that the operation ignores. -/
def Registering.KernelAgrees (m : IoloopMembers κ) : Registering κ → Prop
  | .addCallback _ failure => ∀ errno ∈ failure, errno = .EAGAIN
  | .addHandler _ _ _ _ _ => True
  | .removeHandler fd failure =>
    m.handlers.handled fd = true → m.handlers.processingHandlers = false →
      (∀ errno ∈ failure, errno = .ENOENT) ∧ (failure = none → fd ∈ m.handlers.epoll.openFds)
  | .addTimeout timeout _ o =>
    m.timeouts.processingTimeouts = false →
      (∀ front ∈ m.timeouts.timeouts.head?, timeout < front.timeout) → o.errno = none
  | .addPeriodicTimeout period _ now o =>
    m.periodicTimeouts.processingPeriodicTimeouts = false →
      (∀ front ∈ m.periodicTimeouts.periodicTimeouts.head?, now + period < front.timeout) →
        o.errno = none

end Conditions

end Ioloop
end Linuxpp
