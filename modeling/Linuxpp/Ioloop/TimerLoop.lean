import Linuxpp.Ioloop.PeriodicTimeouts

/-!
# The two timers of `ioloop` in its loop

`start` waits for events, and for an event of a timerfd it calls `process_timeouts` or
`process_periodic_timeouts`, which reads the timerfd and then makes a pass over its queue. Here both
queues run on one thread and against one clock, which moves between the steps and makes armed timers
expire. User code runs outside of the batches, in the handlers of other events, in queued callbacks,
and in the callbacks of either queue.

The timerfds are blocking: a `read` without an unread expiration waits, so it is no step then.
-/

namespace Linuxpp.Ioloop

/-- The two queues, each with its timerfd. -/
inductive TimerQueue where
  /-- `timeouts_` with `timeout_timerfd_`. -/
  | timeouts
  /-- `periodic_timeouts_` with `periodic_timeout_timerfd_`. -/
  | periodicTimeouts
deriving DecidableEq, Repr

/-- An event that `epoll_wait` reports. -/
inductive LoopEvent where
  | timerfd (q : TimerQueue)
  | other
deriving DecidableEq, Repr

/-- Where the thread of the loop is, and which events of the batch it has not dispatched yet. -/
inductive LoopPoint where
  /-- Outside of `start`, or at the head of its loop. -/
  | idle
  /-- Between two handlers. -/
  | dispatching (rest : List LoopEvent)
  /-- In the handler of another event, or in a queued callback. -/
  | calling (rest : List LoopEvent)
  /-- In the `read` of a timerfd. -/
  | reading (q : TimerQueue) (rest : List LoopEvent)
  /-- In the handler of a timerfd, behind its `read`. -/
  | passing (q : TimerQueue) (rest : List LoopEvent)
deriving DecidableEq, Repr

/-- The events that are reported and not dispatched. -/
def LoopPoint.rest : LoopPoint → List LoopEvent
  | .idle => []
  | .dispatching rest | .calling rest | .reading _ rest | .passing _ rest => rest

/-- The loop with both queues. -/
structure TimerLoop (κ : Type) where
  timeouts : TimeoutLoop κ := {}
  periodicTimeouts : PeriodicTimeoutLoop κ := {}
  clock : TimeType
  point : LoopPoint := .idle
  /-- The call that armed each timerfd last. -/
  armedBy : TimerQueue → SettimeOutcome := fun _ => { now := 0 }

namespace TimerLoop

variable {κ : Type}

/-- The timerfd of a queue. -/
def timer (c : TimerLoop κ) : TimerQueue → MonotonicTimerfd
  | .timeouts => c.timeouts.members.timeoutTimerfd
  | .periodicTimeouts => c.periodicTimeouts.members.periodicTimeoutTimerfd

/-- The deadline of the front entry of a queue, if it has one. -/
def frontDeadline (c : TimerLoop κ) : TimerQueue → Option TimeType
  | .timeouts => c.timeouts.members.timeouts.head?.map TimeoutCallback.timeout
  | .periodicTimeouts =>
    c.periodicTimeouts.members.periodicTimeouts.head?.map PeriodicTimeoutCallback.timeout

/-- Where the thread is with respect to the pass of a queue. -/
def passPoint (c : TimerLoop κ) : TimerQueue → PassPoint
  | .timeouts => c.timeouts.point
  | .periodicTimeouts => c.periodicTimeouts.point

/-- The handler of the timerfd of a queue has read it and not returned. -/
def passing (c : TimerLoop κ) (q : TimerQueue) : Bool :=
  match c.point with
  | .passing q' _ => q' = q
  | _ => false

/-- User code runs. -/
def userCode (c : TimerLoop κ) : Bool :=
  match c.point with
  | .idle | .calling _ => true
  | .passing q _ =>
    match c.passPoint q with
    | .callback _ => true
    | _ => false
  | .dispatching _ | .reading _ _ => false

/-- The clock has come to `now`. -/
def elapse (c : TimerLoop κ) (now : TimeType) : TimerLoop κ :=
  { c with
    timeouts := { c.timeouts with members := { c.timeouts.members with
      timeoutTimerfd := c.timeouts.members.timeoutTimerfd.elapse now } }
    periodicTimeouts := { c.periodicTimeouts with members := { c.periodicTimeouts.members with
      periodicTimeoutTimerfd := c.periodicTimeouts.members.periodicTimeoutTimerfd.elapse now } }
    clock := now }

end TimerLoop

section Steps

variable {κ : Type}

/-- What a step contributes to the call of `set_oneshot` that it may make. -/
def TimeoutStep.outcome : TimeoutStep κ → Option SettimeOutcome
  | .addTimeout _ _ o | .finish o => some o
  | _ => none

/-- The thread is where it takes the step, and the step reads the clock before it arms the timer. -/
def TimeoutStep.mayRun (c : TimerLoop κ) : TimeoutStep κ → Bool
  | .addTimeout _ _ o => c.userCode && o.madeAt c.clock
  | .removeTimeout _ | .timeoutHandle => c.userCode
  | .processTimeouts _ => false
  | .iterate | .callbackReturns => c.passing .timeouts
  | .finish o => c.passing .timeouts && o.madeAt c.clock

/-- The deadline for which a step calls `set_oneshot`, if it does. -/
def TimeoutLoop.arms (c : TimeoutLoop κ) : TimeoutStep κ → Option TimeType
  | .addTimeout timeout _ _ =>
    if !c.members.processingTimeouts && c.members.timeouts.head?.all fun front =>
        timeout < front.timeout then
      some timeout
    else none
  | .finish o =>
    match c.point with
    | .done p => (c.members.endPass p o).2.timeouts.head?.map TimeoutCallback.timeout
    | _ => none
  | _ => none

/-- What a step contributes to the call of `set_oneshot` that it may make. -/
def PeriodicTimeoutStep.outcome : PeriodicTimeoutStep κ → Option SettimeOutcome
  | .addPeriodicTimeout _ _ _ o | .finish _ _ o => some o
  | _ => none

/-- The thread is where it takes the step, and the step reads the clock, once or twice, before it
arms the timer. -/
def PeriodicTimeoutStep.mayRun (c : TimerLoop κ) : PeriodicTimeoutStep κ → Bool
  | .addPeriodicTimeout _ _ now o => c.userCode && now ≤ o.now && o.madeAt c.clock
  | .removeTimeout _ | .periodicTimeoutHandle => c.userCode
  | .processPeriodicTimeouts _ => false
  | .iterate | .callbackReturns => c.passing .periodicTimeouts
  | .finish now _ o => c.passing .periodicTimeouts && now ≤ o.now && o.madeAt c.clock

/-- The deadline for which a step calls `set_oneshot`, if it does. -/
def PeriodicTimeoutLoop.arms (c : PeriodicTimeoutLoop κ) : PeriodicTimeoutStep κ → Option TimeType
  | .addPeriodicTimeout period _ now _ =>
    if !c.members.processingPeriodicTimeouts && c.members.periodicTimeouts.head?.all fun front =>
        now + period < front.timeout then
      some (now + period)
    else none
  | .finish now order o =>
    match c.point with
    | .done p =>
      (c.members.endPass p now order o).2.periodicTimeouts.head?.map PeriodicTimeoutCallback.timeout
    | _ => none
  | _ => none

/-- The steps of the thread of the loop and of the clock. -/
inductive TimerLoopStep (κ : Type) where
  /-- The clock comes to `now`. -/
  | tick (now : TimeType)
  /-- User code or `process_timeouts` takes a step. -/
  | timeouts (l : TimeoutStep κ)
  /-- User code or `process_periodic_timeouts` takes a step. -/
  | periodicTimeouts (l : PeriodicTimeoutStep κ)
  /-- User code removes a pending periodic timeout, which is undefined: it may leave anything in the
  two vectors. -/
  | eraseForeign (handle : PeriodicTimeoutHandle)
      (timeouts pending : List (PeriodicTimeoutCallback κ))
  /-- `epoll_wait` reports the events. -/
  | epollWait (events : List LoopEvent)
  /-- The handler of the next event is called. -/
  | dispatch
  /-- The `read` of the timerfd returns, and its handler reads the clock. -/
  | read
  /-- The handler returns. -/
  | handlerReturns
  /-- The batch is over. -/
  | batchEnds

/-- What a step contributes to the call of `set_oneshot` that it may make. -/
def TimerLoopStep.outcome : TimerLoopStep κ → Option SettimeOutcome
  | .timeouts l => l.outcome
  | .periodicTimeouts l => l.outcome
  | _ => none

/-- If the step calls `timerfd_settime`, the call succeeds. -/
def TimerLoopStep.SettimeSucceeds (l : TimerLoopStep κ) : Prop :=
  ∀ o ∈ l.outcome, o.errno = none

instance (l : TimerLoopStep κ) : Decidable l.SettimeSucceeds :=
  inferInstanceAs (Decidable (∀ o ∈ l.outcome, o.errno = none))

/-- The deadline for which a step arms the timerfd of `q`, if it does. -/
def TimerLoop.arms (c : TimerLoop κ) (q : TimerQueue) : TimerLoopStep κ → Option TimeType
  | .timeouts l => if q = .timeouts then c.timeouts.arms l else none
  | .periodicTimeouts l => if q = .periodicTimeouts then c.periodicTimeouts.arms l else none
  | _ => none

/-- User code calls `add_timeout` or `add_periodic_timeout`. -/
def TimerLoopStep.isAdd : TimerLoopStep κ → Bool
  | .timeouts (.addTimeout _ _ _) | .periodicTimeouts (.addPeriodicTimeout _ _ _ _) => true
  | _ => false

/-- `epoll_wait` reports a timerfd once, and only when it has an unread expiration. -/
def TimerLoop.Reports (c : TimerLoop κ) (events : List LoopEvent) : Prop :=
  ∀ q ∈ [TimerQueue.timeouts, .periodicTimeouts],
    events.count (.timerfd q) ≤ 1 ∧ (.timerfd q ∈ events → (c.timer q).unread = true)

instance (c : TimerLoop κ) (events : List LoopEvent) : Decidable (c.Reports events) :=
  inferInstanceAs (Decidable (∀ _ ∈ _, _))

/-- `process_timeouts` or `process_periodic_timeouts` behind its `read`. -/
def TimerLoop.beginPass (c : TimerLoop κ) : TimerQueue → Option (TimerLoop κ)
  | .timeouts => (timeoutStep c.timeouts (.processTimeouts c.clock)).map fun t =>
    { c with timeouts := t }
  | .periodicTimeouts =>
    (periodicTimeoutStep c.periodicTimeouts (.processPeriodicTimeouts c.clock)).map fun t =>
      { c with periodicTimeouts := t }

/-- A step but for the record of how the timerfds were armed. -/
def timerLoopMove (c : TimerLoop κ) : TimerLoopStep κ → Option (TimerLoop κ)
  | .tick now => if c.clock ≤ now then some (c.elapse now) else none
  | .timeouts l =>
    if l.mayRun c then (timeoutStep c.timeouts l).map fun t => { c with timeouts := t } else none
  | .periodicTimeouts l =>
    if l.mayRun c then
      (periodicTimeoutStep c.periodicTimeouts l).map fun t => { c with periodicTimeouts := t }
    else none
  | .eraseForeign handle timeouts pending =>
    if c.userCode ∧ handle.id < c.periodicTimeouts.members.nextId ∧
        (c.periodicTimeouts.members.removeTimeout handle).isNone then
      some { c with periodicTimeouts := { c.periodicTimeouts with
        members := { c.periodicTimeouts.members with
          periodicTimeouts := timeouts, pendingPeriodicTimeoutAdditions := pending } } }
    else none
  | .epollWait events =>
    match c.point with
    | .idle => if c.Reports events then some { c with point := .dispatching events } else none
    | _ => none
  | .dispatch =>
    match c.point with
    | .dispatching (.timerfd q :: rest) => some { c with point := .reading q rest }
    | .dispatching (.other :: rest) => some { c with point := .calling rest }
    | _ => none
  | .read =>
    match c.point with
    | .reading q rest =>
      if (c.timer q).unread then
        (c.beginPass q).map fun t => { t with point := .passing q rest }
      else none
    | _ => none
  | .handlerReturns =>
    match c.point with
    | .calling rest => some { c with point := .dispatching rest }
    | .passing q rest =>
      if c.passPoint q = .outside then some { c with point := .dispatching rest } else none
    | _ => none
  | .batchEnds =>
    match c.point with
    | .dispatching [] => some { c with point := .idle }
    | _ => none

/-- A step of the thread of the loop or of the clock. -/
def timerLoopStep : Machine (TimerLoop κ) (TimerLoopStep κ) := fun c l =>
  (timerLoopMove c l).map fun t => { t with
    armedBy := fun q =>
      if (c.arms q l).isSome ∧ l.SettimeSucceeds then l.outcome.getD (c.armedBy q)
      else c.armedBy q }

end Steps

section Properties

variable {κ : Type}

/-- While no pass of the queue is in progress, its timerfd has an unread expiration, or is armed for
no later than one nanosecond after it was armed, or than the front deadline and what passed between
the reading of the clock and the arming, whichever comes later. -/
def TimerLoop.FrontCovered (c : TimerLoop κ) (q : TimerQueue) : Prop :=
  c.passPoint q = .outside → ∀ deadline ∈ c.frontDeadline q,
    (c.timer q).ReadyBy (max (deadline + (c.armedBy q).delay) ((c.armedBy q).armed + 1))

/-- A `read` of a timerfd finds an unread expiration, or the timerfd was armed for a time that has
come and expires one nanosecond after that. -/
def ReadsAtOnce (c : TimerLoop κ) : Prop :=
  ∀ q rest, c.point = .reading q rest → (c.timer q).ReadyBy (c.clock + 1)

/-- If the step is a call of `add_timeout` or `add_periodic_timeout`, it arms no timerfd for a
deadline after the clock value that it reads while an event of that timerfd is reported and not
dispatched. -/
def AddsForNoneReported (c : TimerLoop κ) (l : TimerLoopStep κ) : Prop :=
  l.isAdd = true → ∀ q, .timerfd q ∈ c.point.rest → ∀ deadline ∈ c.arms q l, ∀ o ∈ l.outcome,
    deadline ≤ o.now

end Properties

end Linuxpp.Ioloop
