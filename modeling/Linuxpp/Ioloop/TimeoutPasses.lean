import Linuxpp.Foundations.Alarms
import Linuxpp.Foundations.DueWalk
import Linuxpp.Ioloop.Timeouts

/-!
# What runs and passes of the one-shot timeouts are for

A one-shot timeout is an alarm: `add_timeout` sets it, `remove_timeout` cancels it, and the call of
its callback fires it. The history of the loop is read as a trace of alarms, in which an entry that
is erased without having been called or removed shows as a drop. A pass is a walk over what is due.
-/

namespace Linuxpp.Ioloop

open DueWalk

variable {κ : Type}

namespace TimeoutEvent

/-- What an event does to the alarm named by its handle. -/
def alarm : TimeoutEvent κ → AlarmEvent TimeoutHandle TimeType
  | added e => .set e.handle e.timeout
  | removed handle => .cancel handle
  | called now e => .fire e.handle now

/-- The event is a call of the callback with the handle. -/
def isCallOf (handle : TimeoutHandle) : TimeoutEvent κ → Bool
  | called _ e => decide (e.handle = handle)
  | _ => false

/-- What an event is to the walk of a pass. -/
def walk : TimeoutEvent κ → WalkEvent (TimeoutCallback κ) TimeoutHandle
  | added e => .added e
  | removed handle => .removed handle
  | called _ e => .called e

end TimeoutEvent

open TimeoutEvent

/-- The position of the iterator of the pass, if there is one. -/
def PassPoint.reached : PassPoint → ℕ
  | .outside => 0
  | .loop p | .callback p | .done p => p.i

/-- The entries that are still to be called: the pending ones, and those that are not flagged and
that no pass has gone by. -/
def TimeoutLoop.awaiting (c : TimeoutLoop κ) : List (TimeoutCallback κ) :=
  c.members.pendingTimeoutAdditions ++
    (c.members.timeouts.drop c.point.reached).filter fun e => !e.remove

/-- If the step is an iteration of a pass, the entry it looks at was removed or is due. -/
def ReachesRemovedOrDue (c : TimeoutLoop κ) (l : TimeoutStep κ) : Prop :=
  l = .iterate → ∀ p e, c.point = .loop p → c.members.timeouts[p.i]? = some e →
    e.remove = true ∨ e.timeout ≤ p.now

/-- `process_timeouts`, called in `c₀`, reads the clock value `now` and returns in `c₁`; `body` are
the steps of its loop and of the callbacks. -/
structure IsPass (c₀ : TimeoutLoop κ) (now : TimeType) (body : List (TimeoutStep κ))
    (o : SettimeOutcome) (c₁ : TimeoutLoop κ) : Prop where
  run : timeoutStep.run c₀ (.processTimeouts now :: body ++ [.finish o]) = some c₁
  one : ∀ o', .finish o' ∉ body

/-- What happened between `c₀` and a later state. -/
def eventsSince (c₀ c₁ : TimeoutLoop κ) : List (TimeoutEvent κ) :=
  c₁.history.drop c₀.history.length

/-- After the pass, `timeouts_` holds exactly the entries of `c₀` with a deadline after `now` and
the entries added during the pass, less those that were removed during the pass. -/
structure KeepsUnexpired (c₀ : TimeoutLoop κ) (now : TimeType) (c₁ : TimeoutLoop κ) : Prop where
  nodup : c₁.members.timeouts.Nodup
  mem : ∀ e, e ∈ c₁.members.timeouts ↔
    ((e ∈ c₀.members.timeouts ∧ now < e.timeout) ∨ .added e ∈ eventsSince c₀ c₁) ∧
      .removed e.handle ∉ eventsSince c₀ c₁

/-- The pass called the callbacks of exactly the entries of `timeouts_` that were due and had not
been removed before their turn, each once and in the order of their deadlines, all with the clock
value that it had read. -/
structure CallsExactlyDueAt (c₀ : TimeoutLoop κ) (now : TimeType) (c₁ : TimeoutLoop κ) : Prop where
  exactly : CallsExactlyDue TimeoutCallback.handle TimeoutCallback.timeout c₀.members.timeouts now
    ((eventsSince c₀ c₁).map walk)
  clock : ∀ now' e, .called now' e ∈ eventsSince c₀ c₁ → now' = now

end Linuxpp.Ioloop
