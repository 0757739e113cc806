import Linuxpp.Ioloop.Handlers
import Linuxpp.Ioloop.StartStop
import Linuxpp.Ioloop.ThrowingCallbacks

/-!
# `ioloop` as a whole

The thread that calls `start` has one location, and everything that the loop does is done there: it
tests `keep_running_`, waits in `epoll_wait`, and calls the handlers of a batch one after the other.
Four of the handlers are the loop's own. The constructor registers them for the eventfds and the
timerfds that only the loop knows, and through them it runs the queued callbacks, the one-shot and
the periodic timeouts. All other handlers belong to the user.

Other threads call `add_callback` and `stop` at any time, the clock moves, and the kernel reports a
descriptor of the loop only when it is readable. User code may throw. It calls `start` on no loop
that is running, and it removes no handler of the loop itself and closes no descriptor of it. A pass
that arms its timerfd succeeds in that.

The queued callbacks, `start` and `stop`, the two timers and the handlers each have a machine of
their own. The views at the end show the loop as each of these sees it.
-/

namespace Linuxpp.Ioloop

/-- The functions that the constructor registers. -/
inductive OwnFunction where
  | processCallbacks
  | processStop
  | processTimeouts
  | processPeriodicTimeouts
deriving DecidableEq, Repr

/-- In the order of the constructor. -/
def OwnFunction.all : List OwnFunction :=
  [processCallbacks, processStop, processTimeouts, processPeriodicTimeouts]

/-- What is registered as a handler. -/
inductive HandlerFunction (κ : Type) where
  | own (f : OwnFunction)
  | user (callback : κ)
deriving DecidableEq, Repr

/-- The descriptors of `callbacks_eventfd_`, `stop_eventfd_`, `timeout_timerfd_` and
`periodic_timeout_timerfd_`, each with the function that it is registered with, and the addresses of
their nodes in `handlers_`. -/
structure OwnFds where
  fd : OwnFunction → Int
  address : OwnFunction → ℕ
  fd_injective : Function.Injective fd
  address_injective : Function.Injective address

/-- The function of the loop that an event is for. -/
def OwnFds.function (own : OwnFds) (e : BatchEvent) : Option OwnFunction :=
  OwnFunction.all.find? fun f => e.about = some (own.fd f)

/-- What the thread of the loop does in the handler of an event. -/
inductive Activity (κ : Type) where
  /-- It runs a handler of the user. -/
  | user
  | processStop
  /-- In `process_callbacks`, which begins in the phase `.dispatching true`. -/
  | processCallbacks (phase : LoopPhase κ)
  /-- In `process_timeouts` or `process_periodic_timeouts`, before the `read`. -/
  | reading (q : TimerQueue)
  /-- Behind the `read`. -/
  | passing (q : TimerQueue)
deriving DecidableEq, Repr

/-- Where a function begins. -/
def HandlerFunction.activity {κ : Type} : HandlerFunction κ → Activity κ
  | .own .processCallbacks => .processCallbacks (.dispatching true)
  | .own .processStop => .processStop
  | .own .processTimeouts => .reading .timeouts
  | .own .processPeriodicTimeouts => .reading .periodicTimeouts
  | .user _ => .user

/-- Where the thread of the loop is, and which events of the batch it has not dispatched yet. -/
inductive LoopLocation (κ : Type) where
  | outside
  /-- `start` was entered, and `keep_running_` is still to be set. -/
  | entered
  /-- Before the test of `keep_running_`. -/
  | testing
  /-- In `epoll_wait`. -/
  | waiting
  /-- Before the handler of the next event, or behind the last one. -/
  | dispatching (sentry : Bool) (events : List BatchEvent)
  /-- In the handler of an event. -/
  | calling (sentry : Bool) (events : List BatchEvent) (activity : Activity κ)
deriving DecidableEq

/-- The members of `ioloop`, the location of its thread, the threads that call `stop`, and what has
happened. -/
structure EventLoop (κ : Type) where
  own : OwnFds
  handlers : Handlers (HandlerFunction κ)
  newCallbacks : List (QueuedCallback κ) := []
  callbacksEventfd : ℕ := 0
  mutex : MutexHolder κ := .none
  keepRunning : Bool := true
  stopEventfd : ℕ := 0
  timeouts : TimeoutLoop κ := {}
  periodicTimeouts : PeriodicTimeoutLoop κ := {}
  clock : TimeType
  location : LoopLocation κ := .outside
  stops : Stopper → Option StopCall := fun _ => none
  calls : List (HandlerCall (HandlerFunction κ)) := []
  entered : List (QueuedCallback κ) := []
  ran : List (QueuedCallback κ) := []
  starts : ℕ := 0
  stopped : Bool := false
  batches : ℕ := 0
  armedBy : TimerQueue → SettimeOutcome := fun _ => { now := 0 }

/-- The node of a function of the loop. -/
def OwnFds.node {κ : Type} (own : OwnFds) (f : OwnFunction) : HandlerNode (HandlerFunction κ) :=
  ⟨own.address f, own.fd f, eventRead, .own f⟩

/-- The registration of one of the loop's own functions. -/
def OwnFds.register {κ : Type} (own : OwnFds) (s : Handlers (HandlerFunction κ)) (f : OwnFunction) :
    Handlers (HandlerFunction κ) :=
  (s.addHandler (own.fd f) eventRead (.own f) (own.address f) none).2

/-- The constructor, when its calls succeed. -/
def EventLoop.construct (κ : Type) (own : OwnFds) (clock : TimeType) : EventLoop κ where
  own := own
  handlers := OwnFunction.all.foldl own.register
    { epoll := { openFds := OwnFunction.all.map own.fd } }
  clock := clock

section Views

variable {κ : Type}

/-- A reported event, as `start` and `stop` see it. -/
def OwnFds.startEvent (own : OwnFds) (e : BatchEvent) : StartEvent :=
  if own.function e = some .processStop then .stopEventfd else .other

/-- A reported event, as the timers see it. -/
def OwnFds.loopEvent (own : OwnFds) (e : BatchEvent) : LoopEvent :=
  match own.function e with
  | some .processTimeouts => .timerfd .timeouts
  | some .processPeriodicTimeouts => .timerfd .periodicTimeouts
  | _ => .other

/-- One of the events is for the queued callbacks. -/
def OwnFds.callbacksPending (own : OwnFds) (events : List BatchEvent) : Bool :=
  events.any fun e => own.function e = some .processCallbacks

def LoopLocation.batchPoint : LoopLocation κ → BatchPoint
  | .outside | .entered | .testing | .waiting => .idle
  | .dispatching sentry events => .dispatching sentry events
  | .calling sentry events _ => .calling sentry events

def LoopLocation.phase (own : OwnFds) : LoopLocation κ → LoopPhase κ
  | .outside | .entered | .testing | .waiting => .waiting
  | .calling _ _ (.processCallbacks phase) => phase
  | .dispatching _ events | .calling _ events _ => .dispatching (own.callbacksPending events)

def LoopLocation.startPoint (own : OwnFds) : LoopLocation κ → StartPoint
  | .outside => .outside
  | .entered => .entered
  | .testing => .testing
  | .waiting => .waiting
  | .dispatching _ events => .dispatching (events.map own.startEvent)
  | .calling _ events .processStop => .readingStop (events.map own.startEvent)
  | .calling _ events _ => .calling (events.map own.startEvent)

def LoopLocation.loopPoint (own : OwnFds) : LoopLocation κ → LoopPoint
  | .outside | .entered | .testing | .waiting => .idle
  | .dispatching _ events => .dispatching (events.map own.loopEvent)
  | .calling _ events (.reading q) => .reading q (events.map own.loopEvent)
  | .calling _ events (.passing q) => .passing q (events.map own.loopEvent)
  | .calling _ events _ => .calling (events.map own.loopEvent)

namespace EventLoop

/-- The loop as the handlers see it. -/
def handlerView (c : EventLoop κ) : HandlerLoop (HandlerFunction κ) where
  members := c.handlers
  point := c.location.batchPoint
  calls := c.calls

/-- The loop as the queued callbacks see it. -/
def callbackView (c : EventLoop κ) : CallbackLoop κ where
  newCallbacks := c.newCallbacks
  callbacksEventfd := c.callbacksEventfd
  mutex := c.mutex
  phase := c.location.phase c.own
  entered := c.entered
  ran := c.ran

/-- The loop as `start` and `stop` see it. -/
def startStopView (c : EventLoop κ) : StartStop where
  keepRunning := c.keepRunning
  stopEventfd := c.stopEventfd
  point := c.location.startPoint c.own
  stops := c.stops
  starts := c.starts
  stopped := c.stopped
  batches := c.batches

/-- The loop as the timers see it. -/
def timerView (c : EventLoop κ) : TimerLoop κ where
  timeouts := c.timeouts
  periodicTimeouts := c.periodicTimeouts
  clock := c.clock
  point := c.location.loopPoint c.own
  armedBy := c.armedBy

/-- The loop after a step of `add_callback` or `process_callbacks`. -/
def withCallbacks (c : EventLoop κ) (v : CallbackLoop κ) : EventLoop κ :=
  { c with
    newCallbacks := v.newCallbacks
    callbacksEventfd := v.callbacksEventfd
    mutex := v.mutex
    location :=
      match c.location with
      | .calling sentry events (.processCallbacks _) =>
        .calling sentry events (.processCallbacks v.phase)
      | location => location
    entered := v.entered
    ran := v.ran }

/-- The loop after a step of `stop`. -/
def withStops (c : EventLoop κ) (v : StartStop) : EventLoop κ :=
  { c with
    keepRunning := v.keepRunning
    stopEventfd := v.stopEventfd
    stops := v.stops
    stopped := v.stopped }

/-- The loop after a step of the timers. -/
def withTimers (c : EventLoop κ) (v : TimerLoop κ) : EventLoop κ :=
  { c with
    timeouts := v.timeouts
    periodicTimeouts := v.periodicTimeouts
    clock := v.clock
    armedBy := v.armedBy }

end EventLoop

end Views

section Steps

variable {κ : Type}

/-- The steps of the thread of the loop, of other threads and of the clock. -/
inductive EventLoopStep (κ : Type) where
  /-- User code calls `add_handler`. -/
  | addHandler (fd : Int) (events : UInt32) (callback : κ) (address : ℕ) (failure : Option Errno)
  /-- User code calls `remove_handler`. -/
  | removeHandler (fd : Int)
  | openFd (fd : Int)
  | closeFd (fd : Int)
  /-- A step of `add_callback` or of `process_callbacks`. -/
  | callbacks (l : CallbackStep κ)
  /-- A step of `stop`. -/
  | stops (l : StartStopStep)
  /-- User code adds or removes timeouts, a pass goes on, or the clock moves. -/
  | timers (l : TimerLoopStep κ)
  /-- `start` is called. -/
  | start
  | setKeepRunning
  | testKeepRunning
  /-- `epoll_wait` reports the registrations of these descriptors as ready for these events. -/
  | epollWait (reports : List (Int × UInt32))
  /-- `epoll_wait` fails with `EINTR`. -/
  | interrupted
  /-- The handler of the next event is called. -/
  | dispatch
  /-- `process_stop` reads the eventfd, and returns. -/
  | readStopEventfd
  /-- The `read` of a timerfd returns, and its handler reads the clock. -/
  | readTimerfd
  /-- Another handler returns. -/
  | handlerReturns
  /-- The rest of the iteration of `start` behind a batch. -/
  | prune
  /-- User code throws, out of `start`. -/
  | throws

namespace EventLoop

/-- The thread of the loop is in code of the user. -/
def userCode (c : EventLoop κ) : Bool :=
  match c.location with
  | .outside | .calling _ _ .user | .calling _ _ (.processCallbacks (.running _ true)) => true
  | .calling _ _ (.passing q) =>
    match c.timerView.passPoint q with
    | .callback _ => true
    | _ => false
  | _ => false

/-- The thread of the loop is neither in `add_callback` nor in `stop`. -/
def free (c : EventLoop κ) : Bool := !c.mutex.byLoop && c.stops .loop = none

/-- A `read` of the descriptor of the function finds something. -/
def readable (c : EventLoop κ) : OwnFunction → Bool
  | .processCallbacks => 0 < c.callbacksEventfd
  | .processStop => 0 < c.stopEventfd
  | .processTimeouts => (c.timerView.timer .timeouts).unread
  | .processPeriodicTimeouts => (c.timerView.timer .periodicTimeouts).unread

/-- `epoll_wait` reports registrations, each once and as many as the buffer has room for, and those
of the loop itself only when they are readable. -/
def Reports (c : EventLoop κ) (reports : List (Int × UInt32)) : Prop :=
  reports ≠ [] ∧ (WaitOutcome.ready reports).Possible c.handlers.epoll ∧
    ∀ f ∈ OwnFunction.all, c.own.fd f ∈ reports.map Prod.fst → c.readable f = true

instance (c : EventLoop κ) (reports : List (Int × UInt32)) : Decidable (c.Reports reports) :=
  inferInstanceAs (Decidable (_ ∧ _ ∧ _))

/-- The descriptor is one of the loop's own. -/
def owns (c : EventLoop κ) (fd : Int) : Bool := OwnFunction.all.any fun f => c.own.fd f = fd

end EventLoop

/-- The step is one of `add_callback`, by any thread, or of `process_callbacks`. -/
def CallbackStep.mayRunIn (c : EventLoop κ) : CallbackStep κ → Bool
  | .enter adder _ => adder ≠ .loop || c.userCode && c.free
  | .push | .write | .leave => true
  | .epollWait _ | .processed | .endBatch => false
  | .read | .lock | .take | .unlock | .call | .callbackReturns =>
    match c.location with
    | .calling _ _ (.processCallbacks _) => c.free
    | _ => false

/-- The step is one of `stop`, by any thread. -/
def StartStopStep.mayRunIn (c : EventLoop κ) : StartStopStep → Bool
  | .stop s => s ≠ .loop || c.userCode && c.free
  | .clearKeepRunning _ | .writeStopEventfd _ => true
  | _ => false

/-- The step is one of the clock, of user code or of a pass that can arm its timerfd. -/
def TimerLoopStep.mayRunIn (c : EventLoop κ) : TimerLoopStep κ → Bool
  | .tick _ => true
  | .timeouts (.addTimeout _ _ _) | .timeouts (.removeTimeout _) | .timeouts .timeoutHandle
  | .periodicTimeouts (.addPeriodicTimeout _ _ _ _) | .periodicTimeouts (.removeTimeout _)
  | .periodicTimeouts .periodicTimeoutHandle => c.userCode && c.free
  | .timeouts (.finish o) | .periodicTimeouts (.finish _ _ o) => c.free && o.errno = none
  | .timeouts _ | .periodicTimeouts _ => c.free
  | _ => false

namespace EventLoop

/-- User code calls an operation on the handlers or on descriptors. -/
def handlersStep (c : EventLoop κ) (l : HandlerStep (HandlerFunction κ)) : Option (EventLoop κ) :=
  if c.userCode && c.free then
    (handlerStep c.handlerView l).map fun v => { c with handlers := v.members }
  else none

/-- The handler returns. -/
def handlerReturns (c : EventLoop κ) : Option (EventLoop κ) :=
  match c.location with
  | .calling sentry events .user | .calling sentry events (.processCallbacks (.running [] false)) =>
    some { c with location := .dispatching sentry events }
  | .calling sentry events (.passing q) =>
    if c.timerView.passPoint q = .outside then
      some { c with location := .dispatching sentry events }
    else none
  | _ => none

/-- User code throws. The sentries restore their flags. -/
def throws (c : EventLoop κ) : Option (EventLoop κ) :=
  match c.location with
  | .calling sentry _ _ =>
    if c.userCode then
      (c.timerView.callbackThrows).map fun v => { c.withTimers v with
        handlers := { c.handlers with processingHandlers := sentry }, location := .outside }
    else none
  | _ => none

/-- `start` behind the last event of a batch. -/
def prune (c : EventLoop κ) : Option (EventLoop κ) :=
  match c.location with
  | .dispatching sentry [] =>
    let (result, handlers) :=
      ({ c.handlers with processingHandlers := sentry } : Handlers (HandlerFunction κ)).prune
    match result with
    | .ok () => some { c with handlers := handlers, location := .testing }
    | .error _ => some { c with handlers := handlers, location := .outside }
  | _ => none

/-- A step of the thread of the loop in `start` and in the functions that it calls. -/
def startStep (c : EventLoop κ) (l : EventLoopStep κ) : Option (EventLoop κ) :=
  match l, c.location with
  | .start, .outside => some { c with
      location := .entered, starts := c.starts + 1, stopped := false, batches := 0 }
  | .setKeepRunning, .entered => some { c with keepRunning := true, location := .testing }
  | .testKeepRunning, .testing =>
    if c.keepRunning then some { c with location := .waiting }
    else some { c with location := .outside }
  | .epollWait reports, .waiting =>
    if c.Reports reports then
      let batch := reports.map fun report => Epoll.report c.handlers.epoll report.1 report.2
      some { c with
        handlers := { c.handlers with
          epollEvents := batch.map BatchEvent.event, processingHandlers := true }
        location := .dispatching c.handlers.processingHandlers batch
        batches := if c.stopped then c.batches + 1 else c.batches }
    else none
  | .interrupted, .waiting => some { c with
      handlers := { c.handlers with epollEvents := (batchOf c.handlers (.fails .EINTR)).1 }
      location := .testing }
  | .dispatch, .dispatching sentry (event :: events) =>
    match c.handlers.deref event.event with
    | some handler => some { c with
        location := .calling sentry events handler.callback.activity
        calls := c.calls ++ [⟨event, handler.fd, handler.events, handler.callback⟩] }
    | none => none
  | .readStopEventfd, .calling sentry events .processStop =>
    -- the eventfd is blocking
    if 0 < c.stopEventfd then
      some { c with stopEventfd := 0, location := .dispatching sentry events }
    else none
  | .readTimerfd, .calling sentry events (.reading q) =>
    -- the timerfds are blocking
    if (c.timerView.timer q).unread then
      (c.timerView.beginPass q).map fun v =>
        { c.withTimers v with location := .calling sentry events (.passing q) }
    else none
  | .handlerReturns, _ => c.handlerReturns
  | .prune, _ => c.prune
  | .throws, _ => c.throws
  | _, _ => none

end EventLoop

/-- A step of the loop, of another thread, or of the clock. -/
def eventLoopStep : Machine (EventLoop κ) (EventLoopStep κ) := fun c l =>
  match l with
  | .addHandler fd events callback address failure =>
    c.handlersStep (.addHandler fd events (.user callback) address failure)
  -- the descriptors of the loop are private to it
  | .removeHandler fd => if c.owns fd then none else c.handlersStep (.removeHandler fd)
  | .openFd fd => c.handlersStep (.openFd fd)
  | .closeFd fd => if c.owns fd then none else c.handlersStep (.closeFd fd)
  | .callbacks l =>
    if l.mayRunIn c then (callbackStep c.callbackView l).map c.withCallbacks else none
  | .stops l =>
    if l.mayRunIn c then (startStopStep c.startStopView l).map c.withStops else none
  | .timers l =>
    if l.mayRunIn c then (timerLoopStep c.timerView l).map c.withTimers else none
  | l => if c.free then c.startStep l else none

end Steps

section Properties

variable {κ : Type}

/-- The loop is, as each of its parts sees it, in a state that the machine of this part reaches. -/
structure Refines (clock : TimeType) (c : EventLoop κ) : Prop where
  handlers : handlerStep.Reachable {} c.handlerView
  callbacks : throwingCallbackStep.Reachable {} c.callbackView
  startStop : startStopStep.Reachable {} c.startStopView
  timers : throwingTimerLoopStep.Reachable { clock := clock } c.timerView

/-- The same for a loop in which nothing was thrown. -/
structure RefinesWithoutThrows (clock : TimeType) (c : EventLoop κ) : Prop where
  callbacks : callbackStep.Reachable {} c.callbackView
  timers : timerLoopStep.Reachable { clock := clock } c.timerView

/-- The loop's own functions stay registered, every event of a batch leads to the handler of its
descriptor, and a function of the loop is called for the events of its descriptor and no others. -/
structure ServesOwn (c : EventLoop κ) : Prop where
  registered : ∀ f, c.own.node f ∈ c.handlers.handlers ∧
    ⟨c.own.fd f, epollEvents eventRead, c.own.address f⟩ ∈ c.handlers.epoll.interest
  leads : ∀ e ∈ c.location.batchPoint.pending, ∃ n, c.handlers.deref e.event = some n ∧
    e.about = some n.fd ∧ ∀ f, n.callback = .own f ↔ e.about = some (c.own.fd f)
  called : ∀ call ∈ c.calls, ∀ f,
    call.callback = .own f ↔ call.event.about = some (c.own.fd f)

/-- The eventfds are read only when they are readable: neither does `process_stop` wait in its read,
nor does the read of `process_callbacks` fail. -/
structure EventfdsReadable (c : EventLoop κ) : Prop where
  stop : ∀ sentry events, c.location = .calling sentry events .processStop → 0 < c.stopEventfd
  callbacks : ∀ sentry events pending,
    c.location = .calling sentry events (.processCallbacks (.dispatching pending)) →
      0 < c.callbacksEventfd
  notFailed : ∀ sentry events,
    c.location ≠ .calling sentry events (.processCallbacks .readFailed)

/-- A `read` of a timerfd finds an unread expiration, or one that comes a nanosecond later. -/
def TimerfdsReadable (c : EventLoop κ) : Prop :=
  ∀ sentry events q, c.location = .calling sentry events (.reading q) →
    (c.timerView.timer q).ReadyBy (c.clock + 1)

/-- If user code adds a timeout, it arms no timerfd for a deadline after the clock value that it reads
while an event of that timerfd is reported and not dispatched. -/
def AddsForNoneDue (c : EventLoop κ) (l : EventLoopStep κ) : Prop :=
  ∀ k, l = .timers k → AddsForNoneReported c.timerView k

/-- A step with which the loop goes on while user code returns without further ado. Calls of
`add_callback` and `stop` that were begun are ended, and the clock moves. -/
def EventLoopStep.isOwn : EventLoopStep κ → Bool
  | .callbacks (.enter _ _) | .stops (.stop _) => false
  | .callbacks _ | .stops _ => true
  | .timers (.tick _) | .timers (.timeouts .iterate) | .timers (.timeouts .callbackReturns)
  | .timers (.timeouts (.finish _)) | .timers (.periodicTimeouts .iterate)
  | .timers (.periodicTimeouts .callbackReturns) | .timers (.periodicTimeouts (.finish _ _ _)) =>
    true
  | .setKeepRunning | .testKeepRunning | .epollWait _ | .dispatch | .readStopEventfd | .readTimerfd
  | .handlerReturns | .prune => true
  | _ => false

/-- By its own steps the loop gets out of the batch it is in, to the next test of `keep_running_` or
out of `start`, where it throws because a handler cannot be pruned. -/
def EventLoop.BatchEnds (c : EventLoop κ) : Prop :=
  ∃ ls t, (∀ l ∈ ls, l.isOwn = true) ∧ eventLoopStep.run c ls = some t ∧
    (t.location = .testing ∨ t.location = .outside)

/-- What the kernel may report: registrations, each once, and those of the loop itself only when they
are readable. -/
structure EventLoop.Ready (c : EventLoop κ) (reports : List (Int × UInt32)) : Prop where
  registered : ∀ report ∈ reports, c.handlers.epoll.registered report.1 = true
  once : (reports.map Prod.fst).Nodup
  own : ∀ f, c.own.fd f ∈ reports.map Prod.fst → c.readable f = true

/-- Whatever is ready is reported in one batch: the buffer of `epoll_wait` cuts nothing off. -/
def EventLoop.WaitTakesAll (c : EventLoop κ) : Prop :=
  ∀ reports, reports ≠ [] → c.Ready reports → ∃ t, eventLoopStep c (.epollWait reports) = some t ∧
    t.location.batchPoint.pending.map BatchEvent.about = reports.map fun report => some report.1

/-- A call of `stop` that began in the current call of `start` does not clear `keep_running_` before
`start` has set it. -/
def ClearsInTime (c : EventLoop κ) (l : EventLoopStep κ) : Prop :=
  ∀ k, l = .stops k → ClearsAfterSet c.startStopView k

/-- By its own steps the loop leaves `start`, with at most one batch behind the first call of `stop`
that returned. -/
def EventLoop.StartReturns (c : EventLoop κ) : Prop :=
  ∃ ls t, (∀ l ∈ ls, l.isOwn = true) ∧ eventLoopStep.run c ls = some t ∧ t.location = .outside ∧
    t.batches ≤ 1

/-- If the front entry of a queue is due, the clock has moved since its timerfd was armed, and is past
the deadline by what passed between the reading of the clock for that call and the arming. -/
def TimerLoop.OutwaitsArming (c : TimerLoop κ) (q : TimerQueue) : Prop :=
  ∀ deadline ∈ c.frontDeadline q, deadline ≤ c.clock →
    (c.armedBy q).armed < c.clock ∧ deadline + (c.armedBy q).delay ≤ c.clock

/-- What was due in a queue in `c` has been called or removed since. -/
def TimerLoop.AnswersDue (c t : TimerLoop κ) : TimerQueue → Prop
  | .timeouts => ∀ e ∈ c.timeouts.members.timeouts, e.timeout ≤ c.clock →
      (∃ now, .called now e ∈ eventsSince c.timeouts t.timeouts) ∨
        .removed e.handle ∈ eventsSince c.timeouts t.timeouts
  | .periodicTimeouts => ∀ e ∈ c.periodicTimeouts.members.periodicTimeouts, e.timeout ≤ c.clock →
      .called e ∈ c.periodicTimeouts.eventsUntil t.periodicTimeouts ∨
        .removed e.handle ∈ c.periodicTimeouts.eventsUntil t.periodicTimeouts

end Properties

end Linuxpp.Ioloop
