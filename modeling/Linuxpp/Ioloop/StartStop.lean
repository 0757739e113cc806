import Mathlib.Logic.Function.Basic
import Linuxpp.Foundations.Machine

/-!
# `start` and `stop`

`stop` clears `keep_running_` and writes to the stop eventfd. `start` sets the flag, and then tests
it before each wait in `epoll_wait`; an event of the eventfd is dispatched to `process_stop`, which
reads it. Any thread calls `stop`, as callbacks of the loop do. Each store, test, operation on the
eventfd and `epoll_wait` is one step.

`epoll_wait` reports events or is interrupted by a signal; it does not fail otherwise. The counter
of the eventfd is never full.
-/

namespace Linuxpp.Ioloop

/-- An event that `epoll_wait` reports to `start`. -/
inductive StartEvent where
  | stopEventfd
  | other
deriving DecidableEq, Repr

/-- Where the thread of the loop is with respect to `start`. -/
inductive StartPoint where
  | outside
  /-- `start` was entered, and `keep_running_` is still to be set. -/
  | entered
  /-- Before the test of `keep_running_`. -/
  | testing
  /-- In `epoll_wait`. -/
  | waiting
  /-- Before the handler of the next event. -/
  | dispatching (rest : List StartEvent)
  /-- In `process_stop`, before the read. -/
  | readingStop (rest : List StartEvent)
  /-- In another handler. -/
  | calling (rest : List StartEvent)
  /-- Before the removed handlers are pruned. -/
  | pruning
deriving DecidableEq, Repr

/-- A thread that calls `stop`. -/
inductive Stopper where
  /-- The thread of the loop, outside of `start` or from a callback. -/
  | loop
  | other (thread : ℕ)
deriving DecidableEq, Repr

/-- A call of `stop`: in which call of `start` it began, and whether it has cleared the flag. -/
structure StopCall where
  during : Option ℕ
  cleared : Bool := false
deriving DecidableEq, Repr

/-- The members of `ioloop` for `start` and `stop`, where the threads are, and what has happened:
how often `start` was called, whether a call of `stop` that began in the last one has returned, and
how many batches `epoll_wait` has reported since. -/
structure StartStop where
  keepRunning : Bool := true
  stopEventfd : ℕ := 0
  point : StartPoint := .outside
  stops : Stopper → Option StopCall := fun _ => none
  starts : ℕ := 0
  stopped : Bool := false
  batches : ℕ := 0

/-- The steps of `start` and of `stop`. -/
inductive StartStopStep where
  /-- `start` is called. -/
  | start
  | setKeepRunning
  | testKeepRunning
  /-- `epoll_wait` reports events. -/
  | epollWait (events : List StartEvent)
  /-- `epoll_wait` fails with `EINTR`. -/
  | interrupted
  | dispatch
  | readStopEventfd
  /-- A handler returns. -/
  | handlerReturns
  /-- All events of the batch are dispatched. -/
  | batchEnds
  | prune
  /-- An exception leaves `start`, from a handler or from the pruning. -/
  | throws
  /-- `stop` is called. -/
  | stop (s : Stopper)
  | clearKeepRunning (s : Stopper)
  /-- The write to the eventfd, with which `stop` returns. -/
  | writeStopEventfd (s : Stopper)
deriving DecidableEq, Repr

/-- The thread of the loop is in code of the user. -/
def StartPoint.userCode : StartPoint → Bool
  | .outside | .calling _ => true
  | _ => false

/-- The call of `start` that is in progress. -/
def StartStop.current (c : StartStop) : Option ℕ :=
  if c.point = .outside then none else some c.starts

/-- A step of `stop`. -/
def stopStep (c : StartStop) : StartStopStep → Option StartStop
  | .stop s =>
    if c.stops s = none ∧ (s = .loop → c.point.userCode = true) then
      some { c with stops := Function.update c.stops s (some { during := c.current }) }
    else none
  | .clearKeepRunning s =>
    match c.stops s with
    | some ⟨during, false⟩ => some { c with
        keepRunning := false, stops := Function.update c.stops s (some ⟨during, true⟩) }
    | _ => none
  | .writeStopEventfd s =>
    match c.stops s with
    | some ⟨during, true⟩ => some { c with
        stopEventfd := c.stopEventfd + 1
        stops := Function.update c.stops s none
        stopped := c.stopped || during = some c.starts }
    | _ => none
  | _ => none

/-- A step of the thread of the loop outside of `stop`. -/
def startStep (c : StartStop) (l : StartStopStep) : Option StartStop :=
  match l, c.point with
  | .start, .outside =>
    some { c with point := .entered, starts := c.starts + 1, stopped := false, batches := 0 }
  | .setKeepRunning, .entered => some { c with keepRunning := true, point := .testing }
  | .testKeepRunning, .testing =>
    if c.keepRunning then some { c with point := .waiting } else some { c with point := .outside }
  | .epollWait events, .waiting =>
    -- the eventfd is reported once, and only when it is readable
    if events ≠ [] ∧ events.count .stopEventfd ≤ 1 ∧
        (.stopEventfd ∈ events → 0 < c.stopEventfd) then
      some { c with
        point := .dispatching events
        batches := if c.stopped then c.batches + 1 else c.batches }
    else none
  | .interrupted, .waiting => some { c with point := .testing }
  | .dispatch, .dispatching (.stopEventfd :: rest) => some { c with point := .readingStop rest }
  | .dispatch, .dispatching (.other :: rest) => some { c with point := .calling rest }
  | .readStopEventfd, .readingStop rest =>
    -- the eventfd is blocking
    if 0 < c.stopEventfd then some { c with stopEventfd := 0, point := .dispatching rest }
    else none
  | .handlerReturns, .calling rest => some { c with point := .dispatching rest }
  | .batchEnds, .dispatching [] => some { c with point := .pruning }
  | .prune, .pruning => some { c with point := .testing }
  | .throws, .calling _ | .throws, .pruning => some { c with point := .outside }
  | _, _ => none

/-- The step belongs to `stop`. -/
def StartStopStep.isStop : StartStopStep → Bool
  | .stop _ | .clearKeepRunning _ | .writeStopEventfd _ => true
  | _ => false

/-- A step of either. The thread of the loop takes no other step while it is in `stop`. -/
def startStopStep : Machine StartStop StartStopStep := fun c l =>
  if l.isStop then stopStep c l else if c.stops .loop = none then startStep c l else none

/-- A step with which the thread of the loop goes on while its callbacks return. -/
def StartStopStep.isOwn : StartStopStep → Bool
  | .stop _ | .start | .throws => false
  | .clearKeepRunning s | .writeStopEventfd s => s = .loop
  | _ => true

/-- When a call of `stop` that began in this call of `start` has returned, the loop does not wait
without a notification, has taken at most one batch more, and `start` returns by itself. -/
structure HeedsStop (c : StartStop) : Prop where
  notified : c.stopped = true → c.point = .waiting → 0 < c.stopEventfd
  oneBatch : c.stopped = true → c.batches ≤ 1
  returns : c.stopped = true → ∃ ls t, (∀ l ∈ ls, l.isOwn = true) ∧
    startStopStep.run c ls = some t ∧ t.point = .outside

/-- No call of `stop` that began in this call of `start` clears `keep_running_` before `start` has
set it. -/
def ClearsAfterSet (c : StartStop) (l : StartStopStep) : Prop :=
  ∀ s call, l = .clearKeepRunning s → c.stops s = some call → call.during = some c.starts →
    c.point ≠ .entered

end Linuxpp.Ioloop
