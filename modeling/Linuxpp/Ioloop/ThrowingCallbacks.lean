import Linuxpp.Ioloop.Callbacks
import Linuxpp.Ioloop.TimeoutPasses
import Linuxpp.Ioloop.TimerLoop

/-!
# Callbacks that throw

An exception of a callback leaves `process_callbacks`, `process_timeouts` or
`process_periodic_timeouts`, and `start` with it. What stands behind the call is skipped. The
`bool_sentry` of a pass restores the flag, and the vector of the queued callbacks is destroyed with
those that were not called. `start` may be called again.

No work is to be lost or repeated by that: the other queued callbacks are run later, the stored
timeouts stay stored and have an armed timer, and a one-shot timeout is called once.
-/

namespace Linuxpp.Ioloop

variable {κ : Type}

/-- A queued callback throws, or a handler of the batch. User code runs until `start` is called
again. -/
def CallbackLoop.callbackThrows (c : CallbackLoop κ) : Option (CallbackLoop κ) :=
  if c.mutex.byLoop then none
  else
    match c.phase with
    | .dispatching _ | .running _ true => some { c with phase := .dispatching false }
    | _ => none

/-- The callback of a one-shot timeout throws. -/
def TimeoutLoop.callbackThrows (c : TimeoutLoop κ) : Option (TimeoutLoop κ) :=
  match c.point with
  | .callback p => some { c with
      members := { c.members with processingTimeouts := p.sentry }, point := .outside }
  | _ => none

/-- The callback of a periodic timeout throws. -/
def PeriodicTimeoutLoop.callbackThrows (c : PeriodicTimeoutLoop κ) :
    Option (PeriodicTimeoutLoop κ) :=
  match c.point with
  | .callback p => some { c with
      members := { c.members with processingPeriodicTimeouts := p.sentry }, point := .outside }
  | _ => none

/-- A handler of another event, a queued callback or the callback of a timeout throws. -/
def TimerLoop.callbackThrows (c : TimerLoop κ) : Option (TimerLoop κ) :=
  match c.point with
  | .calling _ => some { c with point := .idle }
  | .passing .timeouts _ =>
    c.timeouts.callbackThrows.map fun t => { c with timeouts := t, point := .idle }
  | .passing .periodicTimeouts _ =>
    c.periodicTimeouts.callbackThrows.map fun t => { c with periodicTimeouts := t, point := .idle }
  | _ => none

/-- The loops with callbacks that may throw; `none` is the label of an exception. -/
def throwingCallbackStep : Machine (CallbackLoop κ) (Option (CallbackStep κ)) :=
  callbackStep.interruptible CallbackLoop.callbackThrows

def throwingTimeoutStep : Machine (TimeoutLoop κ) (Option (TimeoutStep κ)) :=
  timeoutStep.interruptible TimeoutLoop.callbackThrows

def throwingPeriodicTimeoutStep :
    Machine (PeriodicTimeoutLoop κ) (Option (PeriodicTimeoutStep κ)) :=
  periodicTimeoutStep.interruptible PeriodicTimeoutLoop.callbackThrows

def throwingTimerLoopStep : Machine (TimerLoop κ) (Option (TimerLoopStep κ)) :=
  timerLoopStep.interruptible TimerLoop.callbackThrows

section Properties

/-- Every callback that was queued was run, was taken or is still queued, and a loop that waits while
nobody is in `add_callback` runs all of them. -/
structure CallbacksSurvive (c : CallbackLoop κ) : Prop where
  kept : c.entered = c.ran ++ c.phase.todo ++ c.newCallbacks ++ c.mutex.inFlight
  runs : c.phase = .waiting → c.mutex = .none → ∃ ls t, (∀ l ∈ ls, l.isAdd = false) ∧
    callbackStep.run c ls = some t ∧ t.ran = c.entered

/-- What throws is no queued callback, or the last one of those that were taken. -/
def ThrowsLast (c : CallbackLoop κ) (l : Option (CallbackStep κ)) : Prop :=
  l = none → c.phase.todo = []

/-- The queue to which the step adds a timeout, if it does. -/
def TimerLoopStep.addsTo : TimerLoopStep κ → Option TimerQueue
  | .timeouts (.addTimeout _ _ _) => some .timeouts
  | .periodicTimeouts (.addPeriodicTimeout _ _ _ _) => some .periodicTimeouts
  | _ => none

/-- User code runs, and the next timeout that it adds leaves the timer armed for the front. -/
def TimerLoop.RearmedByNextAdd (c : TimerLoop κ) (q : TimerQueue) : Prop :=
  c.userCode = true ∧ ∀ l t, l.addsTo = some q → l.SettimeSucceeds → timerLoopStep c l = some t →
    t.FrontCovered q

/-- An exception leaves all timeouts stored, the front of each queue has a timer that is armed for
it or is re-armed by the next addition, and no one-shot timeout was called twice. -/
structure TimeoutsSurvive (c : TimerLoop κ) : Prop where
  kept : ∀ t, c.callbackThrows = some t →
    t.timeouts.members.timeouts = c.timeouts.members.timeouts ∧
    t.timeouts.members.pendingTimeoutAdditions = c.timeouts.members.pendingTimeoutAdditions ∧
    t.periodicTimeouts.members.periodicTimeouts = c.periodicTimeouts.members.periodicTimeouts ∧
    t.periodicTimeouts.members.pendingPeriodicTimeoutAdditions =
      c.periodicTimeouts.members.pendingPeriodicTimeoutAdditions
  armed : ∀ q, c.FrontCovered q ∨ c.RearmedByNextAdd q
  once : ∀ handle, c.timeouts.history.countP (TimeoutEvent.isCallOf handle) ≤ 1

/-- What throws is not the callback of a timeout. -/
def ThrowsOutsidePasses (c : TimerLoop κ) (l : Option (TimerLoopStep κ)) : Prop :=
  l = none → ∀ q, c.passing q = false

/-- If the step calls `timerfd_settime`, the call succeeds, and it is not an erasure that is
undefined. -/
def Undisturbed (_ : TimerLoop κ) (l : Option (TimerLoopStep κ)) : Prop :=
  ∀ l' ∈ l, l'.SettimeSucceeds ∧
    ∀ handle timeouts pending, l' ≠ .eraseForeign handle timeouts pending

end Properties

end Linuxpp.Ioloop
