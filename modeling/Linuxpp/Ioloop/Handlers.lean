import Linuxpp.Foundations.Machine
import Linuxpp.Ioloop.Epoll

/-!
# The descriptor handlers of `ioloop`

`handlers_` is an `unordered_map`: its entries are nodes at addresses that stay the same until the
node is erased, and that may be used again afterwards. `start` runs user code in the middle of its
batch, so it is cut there: `epollWait` returns from the wait, `dispatch` calls one handler, and
`prune` is the code behind the batch.

`κ` is the type of the callbacks.
-/

namespace Linuxpp.Ioloop

/-- `event_enum`. -/
def eventRead : UInt32 := 1
def eventWrite : UInt32 := 2
def eventError : UInt32 := 4

/-- `EPOLLIN`, `EPOLLOUT` and `EPOLLERR`. -/
def EPOLLIN : UInt32 := 1
def EPOLLOUT : UInt32 := 4
def EPOLLERR : UInt32 := 8

/-- `epoll_events`. -/
def epollEvents (ioloopEvents : UInt32) : UInt32 :=
  (if ioloopEvents &&& eventRead ≠ 0 then EPOLLIN else 0) |||
  (if ioloopEvents &&& eventWrite ≠ 0 then EPOLLOUT else 0) |||
  (if ioloopEvents &&& eventError ≠ 0 then EPOLLERR else 0)

/-- A node of `handlers_`: its address, its key, and its `handler_callback`. -/
structure HandlerNode (κ : Type) where
  address : ℕ
  fd : Int
  events : UInt32
  callback : κ
deriving DecidableEq, Repr

/-- What `add_handler`, `remove_handler` and `start` throw. -/
inductive HandlerError where
  | alreadyHandled
  | addFailed (nested : Errno)
  | removeFailed (errno : Errno)
  | pruneFailed (errno : Errno)
deriving DecidableEq

/-- The text of the exception. -/
def HandlerError.what : HandlerError → String
  | alreadyHandled => "failed to insert handler: fd is already handled"
  | addFailed _ => "failed to add fd to epoll"
  | removeFailed _ => "linuxpp::epoll_.del(...) failed in linuxpp::ioloop::remove_handler"
  | pruneFailed _ => "linuxpp::ioloop::epoll_.del(...) failed in linuxpp::ioloop::start"

/-- The members of `ioloop` for handlers. -/
structure Handlers (κ : Type) where
  handlers : List (HandlerNode κ) := []
  processingHandlers : Bool := false
  removedHandlers : List Int := []
  epollEvents : List EpollEvent := []
  epoll : Epoll := {}
deriving DecidableEq

namespace Handlers

variable {κ : Type}

/-- `fd` is a key of `handlers_`. -/
def handled (s : Handlers κ) (fd : Int) : Bool := s.handlers.any fun n => n.fd = fd

/-- `handlers_.erase(fd)`. -/
def erase (s : Handlers κ) (fd : Int) : Handlers κ :=
  { s with handlers := s.handlers.filter fun n => n.fd ≠ fd }

/-- `add_handler`. The node that is emplaced gets the address `address`. -/
def addHandler (s : Handlers κ) (fd : Int) (events : UInt32) (callback : κ) (address : ℕ)
    (failure : Option Errno) : Except HandlerError Unit × Handlers κ :=
  if s.handled fd then (.error .alreadyHandled, s)
  else
    let s' := { s with handlers := s.handlers ++ [HandlerNode.mk address fd events callback] }
    let (result, epoll) := s'.epoll.add fd (Ioloop.epollEvents events) address failure
    match result with
    | .error errno => (.error (.addFailed errno), ({ s' with epoll := epoll }).erase fd)
    | .ok () => (.ok (), { s' with epoll := epoll })

/-- `remove_handler`. -/
def removeHandler (s : Handlers κ) (fd : Int) : Except HandlerError Unit × Handlers κ :=
  if ¬ s.handled fd then (.ok (), s)
  else if s.processingHandlers then
    (.ok (), { s with removedHandlers := s.removedHandlers ++ [fd] })
  else
    let s' := s.erase fd
    let (result, epoll) := s'.epoll.del fd
    let s' := { s' with epoll := epoll }
    match result with
    | .ok () => (.ok (), s')
    | .error errno =>
      if errno ≠ .ENOENT then (.error (.removeFailed errno), s') else (.ok (), s')

/-- The loop of `start` over the handlers that were removed during the batch. -/
def pruneLoop (s : Handlers κ) : List Int → Except HandlerError Unit × Handlers κ
  | [] => (.ok (), s)
  | handler :: rest =>
    let (result, epoll) := s.epoll.del handler
    let s' := { s with epoll := epoll }
    match result with
    | .ok () => pruneLoop (s'.erase handler) rest
    | .error errno =>
      if errno ≠ .ENOENT then (.error (.pruneFailed errno), s')
      else pruneLoop (s'.erase handler) rest

/-- `start` behind a batch. -/
def prune (s : Handlers κ) : Except HandlerError Unit × Handlers κ :=
  if s.removedHandlers = [] then (.ok (), s)
  else
    match s.pruneLoop s.removedHandlers with
    | (.ok (), s') => (.ok (), { s' with removedHandlers := [] })
    | (.error e, s') => (.error e, s')

/-- The handler that a reported pointer leads to. -/
def deref (s : Handlers κ) (event : EpollEvent) : Option (HandlerNode κ) :=
  event.ptr.bind fun p => s.handlers.find? fun n => n.address = p

end Handlers

/-- An event of a batch. `about` is the descriptor that the kernel reported it for in the wait of
this batch; it is `none` for what a failed wait left in the buffer. -/
structure BatchEvent where
  event : EpollEvent
  about : Option Int
deriving DecidableEq, Repr

/-- Where the thread of the loop is in `start`. -/
inductive BatchPoint where
  /-- Not in a batch. -/
  | idle
  /-- Before the dispatch of the next of the events, or behind the last one. -/
  | dispatching (sentry : Bool) (events : List BatchEvent)
  /-- In a handler, with the events that follow. -/
  | calling (sentry : Bool) (events : List BatchEvent)
deriving DecidableEq, Repr

/-- The outcomes of `epoll_wait`. -/
inductive WaitOutcome where
  /-- It reports the registrations of these descriptors as ready for these events. -/
  | ready (reports : List (Int × UInt32))
  | fails (errno : Errno)
deriving DecidableEq

/-- A call of a handler: the event it is made for, its arguments, and the callback. -/
structure HandlerCall (κ : Type) where
  event : BatchEvent
  fd : Int
  events : UInt32
  callback : κ
deriving DecidableEq

/-- The handlers, where the thread of the loop is, and the calls that were made so far. -/
structure HandlerLoop (κ : Type) where
  members : Handlers κ := {}
  point : BatchPoint := .idle
  calls : List (HandlerCall κ) := []
deriving DecidableEq

/-- The steps of the thread of the loop. -/
inductive HandlerStep (κ : Type) where
  | addHandler (fd : Int) (events : UInt32) (callback : κ) (address : ℕ) (failure : Option Errno)
  | removeHandler (fd : Int)
  | openFd (fd : Int)
  | closeFd (fd : Int)
  | epollWait (o : WaitOutcome)
  | dispatch
  | handlerReturns
  | handlerThrows
  | prune
deriving DecidableEq

/-- User code runs outside of batches and in handlers. -/
def BatchPoint.userCode : BatchPoint → Bool
  | .idle | .calling _ _ => true
  | .dispatching _ _ => false

/-- The events of the batch that were not dispatched yet. -/
def BatchPoint.pending : BatchPoint → List BatchEvent
  | .idle => []
  | .dispatching _ events | .calling _ events => events

/-- The event that the kernel reports for a descriptor of the interest set. -/
def Epoll.report (e : Epoll) (fd : Int) (events : UInt32) : BatchEvent where
  event := ⟨events, (e.interest.find? fun r => r.fd = fd).map Registration.ptr⟩
  about := some fd

/-- The batch of `start` after `epoll_wait` returned: the events that were reported, or, when it
failed for another reason than `EINTR`, what is in the buffer. -/
def batchOf {κ : Type} (s : Handlers κ) : WaitOutcome → List EpollEvent × Option (List BatchEvent)
  | .ready reports =>
    let batch := reports.map fun report => Epoll.report s.epoll report.1 report.2
    (batch.map BatchEvent.event, some batch)
  | .fails errno =>
    let events := resizeEvents s.epollEvents s.epoll.sizeEvents
    (events, if errno = .EINTR then none else some (events.map fun event => ⟨event, none⟩))

/-- The kernel reports registrations, each at most once, and as many as the buffer has room for. -/
def WaitOutcome.Possible (e : Epoll) : WaitOutcome → Prop
  | .ready reports => (∀ report ∈ reports, e.registered report.1 = true) ∧
      (reports.map Prod.fst).Nodup ∧ reports.length ≤ e.sizeEvents
  | .fails _ => True

instance (e : Epoll) : DecidablePred (WaitOutcome.Possible e) := fun o =>
  match o with
  | .ready reports => inferInstanceAs (Decidable ((∀ report ∈ reports, _ = true) ∧ _ ∧ _))
  | .fails _ => isTrue trivial

/-- A step of the thread of the loop. -/
def handlerStep {κ : Type} : Machine (HandlerLoop κ) (HandlerStep κ) := fun c l =>
  match l with
  | .addHandler fd events callback address failure =>
    -- a node is not put at the address of another one
    if c.point.userCode ∧ ∀ n ∈ c.members.handlers, n.address ≠ address then
      some { c with members := (c.members.addHandler fd events callback address failure).2 }
    else none
  | .removeHandler fd =>
    if c.point.userCode then some { c with members := (c.members.removeHandler fd).2 } else none
  | .openFd fd =>
    if c.point.userCode ∧ fd ∉ c.members.epoll.openFds then
      some { c with members := { c.members with epoll := c.members.epoll.openFd fd } }
    else none
  | .closeFd fd =>
    if c.point.userCode then
      some { c with members := { c.members with epoll := c.members.epoll.closeFd fd } }
    else none
  | .epollWait o =>
    match c.point with
    | .idle =>
      if o.Possible c.members.epoll then
        match batchOf c.members o with
        | (events, none) => some { c with members := { c.members with epollEvents := events } }
        | (events, some batch) => some { c with
            members := { c.members with epollEvents := events, processingHandlers := true }
            point := .dispatching c.members.processingHandlers batch }
      else none
    | _ => none
  | .dispatch =>
    match c.point with
    | .dispatching sentry (event :: events) =>
      -- nothing is said of a batch that follows a pointer to no node
      match c.members.deref event.event with
      | some handler => some { c with
          point := .calling sentry events
          calls := c.calls ++ [⟨event, handler.fd, handler.events, handler.callback⟩] }
      | none => none
    | _ => none
  | .handlerReturns =>
    match c.point with
    | .calling sentry events => some { c with point := .dispatching sentry events }
    | _ => none
  | .handlerThrows =>
    match c.point with
    | .calling sentry _ => some { c with
        members := { c.members with processingHandlers := sentry }, point := .idle }
    | _ => none
  | .prune =>
    match c.point with
    | .dispatching sentry [] =>
      let members := { c.members with processingHandlers := sentry }
      some { c with members := members.prune.2, point := .idle }
    | _ => none

section Conditions

variable {κ : Type}

/-- User code closes no descriptor that has a handler. -/
def StaysOpen (c : HandlerLoop κ) : HandlerStep κ → Prop
  | .closeFd fd => c.members.handled fd = false
  | _ => True

/-- `epoll_wait` reports events, or is interrupted. -/
def WaitReports (_ : HandlerLoop κ) : HandlerStep κ → Prop
  | .epollWait (.fails errno) => errno = .EINTR
  | _ => True

/-- A removal does what it is for: outside a batch the handler is erased at once, in a batch it is
put off, and behind the batch all that were put off are erased. Nothing is thrown, and no other step
forgets a removal that was put off. -/
def RemovalHarmless (c : HandlerLoop κ) (l : HandlerStep κ) : Prop :=
  match l with
  | .removeHandler fd =>
    (c.members.removeHandler fd).1 = .ok () ∧
    if c.members.processingHandlers then
      c.members.handled fd = true →
        (c.members.removeHandler fd).2.removedHandlers = c.members.removedHandlers ++ [fd]
    else (c.members.removeHandler fd).2.handled fd = false
  | .prune =>
    c.members.prune.1 = .ok () ∧ ∀ fd ∈ c.members.removedHandlers,
      c.members.prune.2.handled fd = false ∧ c.members.prune.2.epoll.registered fd = false
  | l => ∀ t, handlerStep c l = some t → t.members.removedHandlers = c.members.removedHandlers

/-- The descriptors that are taken out of the interest set are open at that time. -/
def RemovedWhileOpen (c : HandlerLoop κ) : HandlerStep κ → Prop
  | .removeHandler fd =>
    c.members.handled fd = true → c.members.processingHandlers = false →
      fd ∈ c.members.epoll.openFds
  | .prune => ∀ fd ∈ c.members.removedHandlers, fd ∈ c.members.epoll.openFds
  | _ => True

/-- One of the events leads to the handler of `fd`. -/
def Handlers.LeadTo (s : Handlers κ) (events : List BatchEvent) (fd : Int) : Prop :=
  ∃ e ∈ events, ∃ n, s.deref e.event = some n ∧ n.fd = fd

/-- A handler is removed when no event that is still to be dispatched leads to it, and no batch
begins with an event that leads to a handler whose removal is still put off. -/
def RemovedNotReported (c : HandlerLoop κ) : HandlerStep κ → Prop
  | .removeHandler fd => ¬ c.members.LeadTo c.point.pending fd
  | .epollWait o => ∀ batch, (batchOf c.members o).2 = some batch →
      ∀ fd ∈ c.members.removedHandlers, ¬ c.members.LeadTo batch fd
  | _ => True

/-- No handler is registered for `fd`. -/
def NotAnew (fd : Int) (c : HandlerLoop κ) : HandlerStep κ → Prop
  | .addHandler fd' events callback address failure =>
    fd' = fd → (c.members.addHandler fd' events callback address failure).1 ≠ .ok ()
  | _ => True

end Conditions

end Linuxpp.Ioloop
