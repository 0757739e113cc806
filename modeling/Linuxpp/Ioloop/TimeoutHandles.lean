import Linuxpp.Foundations.DeferredRemoval
import Linuxpp.Ioloop.ThrowingCallbacks

/-!
# What the handles of timeouts are for

A handle names the timeout that was just added, and `remove_timeout` with it cancels that timeout and
no other. The same is asked of both queues, in every state and whatever the callbacks do, which may
throw.
-/

namespace Linuxpp.Ioloop

variable {κ : Type}

/-- The vector `xs` with the pending additions `ps` becomes `xs'` with `ps'` by the removal of the
entry with the handle: it is not pending any more, and is erased from the vector or flagged there
when a pass is in progress. All other entries stay as they are and where they are. -/
structure RemovesEntry {ε ι : Type} [DecidableEq ι] (handle : ε → ι) (remove : ε → Bool) (k : ι)
    (inPass : Bool) (xs ps xs' ps' : List ε) : Prop where
  others : (xs'.filter fun e => handle e ≠ k) = xs.filter fun e => handle e ≠ k
  pendingOthers : (ps'.filter fun e => handle e ≠ k) = ps.filter fun e => handle e ≠ k
  gone : k ∉ ps'.map handle ∧ (inPass = false → k ∉ xs'.map handle)
  flagged : ∀ e ∈ xs', handle e = k → remove e = true
  absent : k ∉ xs.map handle → k ∉ ps.map handle → xs' = xs ∧ ps' = ps

/-- `remove_timeout(handle)`, called in `c`, removes the entry with the handle. Its callback is not
called any more, and nothing is left of it when a pass has returned. -/
structure RemovesTimeout (c : TimeoutLoop κ) (handle : TimeoutHandle) : Prop where
  entry : RemovesEntry TimeoutCallback.handle TimeoutCallback.remove handle
    c.members.processingTimeouts c.members.timeouts c.members.pendingTimeoutAdditions
    (c.members.removeTimeout handle).timeouts
    (c.members.removeTimeout handle).pendingTimeoutAdditions
  notCalled : ∀ ls t, throwingTimeoutStep.run c (some (.removeTimeout handle) :: ls) = some t →
    ∀ now e, .called now e ∈ t.history.drop c.history.length → e.handle ≠ handle
  erased : ∀ ls o t, throwingTimeoutStep.run c
      (some (.removeTimeout handle) :: ls ++ [some (.finish o)]) = some t →
    handle ∉ (t.members.timeouts ++ t.members.pendingTimeoutAdditions).map TimeoutCallback.handle

/-- The same of a periodic timeout, where `remove_timeout` also has to be defined. -/
structure RemovesPeriodicTimeout (c : PeriodicTimeoutLoop κ) (handle : PeriodicTimeoutHandle) :
    Prop where
  entry : ∃ s, c.members.removeTimeout handle = some s ∧
    RemovesEntry PeriodicTimeoutCallback.handle PeriodicTimeoutCallback.remove handle
      c.members.processingPeriodicTimeouts c.members.periodicTimeouts
      c.members.pendingPeriodicTimeoutAdditions s.periodicTimeouts
      s.pendingPeriodicTimeoutAdditions
  notCalled : ∀ ls t,
    throwingPeriodicTimeoutStep.run c (some (.removeTimeout handle) :: ls) = some t →
    ∀ e, .called e ∈ t.history.drop c.history.length → e.handle ≠ handle
  erased : ∀ ls now order o t, throwingPeriodicTimeoutStep.run c
      (some (.removeTimeout handle) :: ls ++ [some (.finish now order o)]) = some t →
    handle ∉ (t.members.periodicTimeouts ++ t.members.pendingPeriodicTimeoutAdditions).map
      PeriodicTimeoutCallback.handle

/-- The handle names the entry that `add_timeout`, called in `c`, adds to those that are stored. No
other entry has it, and `remove_timeout` with it cancels that entry in every later state. -/
structure NamesTimeout (c : TimeoutLoop κ) (timeout : TimeType) (callback : κ) (o : SettimeOutcome)
    (handle : TimeoutHandle) : Prop where
  inserted : ∃ e : TimeoutCallback κ, e.handle = handle ∧ e.timeout = timeout ∧
    e.callback = callback ∧ e.remove = false ∧
    ((c.members.addTimeout timeout callback o).2.timeouts ++
      (c.members.addTimeout timeout callback o).2.pendingTimeoutAdditions).Perm
        (e :: (c.members.timeouts ++ c.members.pendingTimeoutAdditions))
  distinct : ∀ e ∈ c.members.timeouts ++ c.members.pendingTimeoutAdditions, e.handle ≠ handle
  cancels : ∀ ls t,
    throwingTimeoutStep.run c (some (.addTimeout timeout callback o) :: ls) = some t →
    RemovesTimeout t handle

/-- The same of `add_periodic_timeout`. -/
structure NamesPeriodicTimeout (c : PeriodicTimeoutLoop κ) (period : Int) (callback : κ)
    (now : TimeType) (o : SettimeOutcome) (handle : PeriodicTimeoutHandle) : Prop where
  inserted : ∃ e : PeriodicTimeoutCallback κ, e.handle = handle ∧ e.period = period ∧
    e.timeout = now + period ∧ e.callback = callback ∧ e.remove = false ∧
    ((c.members.addPeriodicTimeout period callback now o).2.periodicTimeouts ++
      (c.members.addPeriodicTimeout period callback now o).2.pendingPeriodicTimeoutAdditions).Perm
        (e :: (c.members.periodicTimeouts ++ c.members.pendingPeriodicTimeoutAdditions))
  distinct : ∀ e ∈ c.members.periodicTimeouts ++ c.members.pendingPeriodicTimeoutAdditions,
    e.handle ≠ handle
  cancels : ∀ ls t, throwingPeriodicTimeoutStep.run c
      (some (.addPeriodicTimeout period callback now o) :: ls) = some t →
    RemovesPeriodicTimeout t handle

/-- What `add_timeout` returns, if it does not throw, names the timeout that it adds. -/
def ReturnsItsHandle (c : TimeoutLoop κ) (timeout : TimeType) (callback : κ) (o : SettimeOutcome) :
    Prop :=
  ∀ handle, (c.members.addTimeout timeout callback o).1 = .ok handle →
    NamesTimeout c timeout callback o handle

/-- What `add_periodic_timeout` returns, if it does not throw, is defined and names the timeout that
it adds. -/
def ReturnsItsPeriodicHandle (c : PeriodicTimeoutLoop κ) (period : Int) (callback : κ)
    (now : TimeType) (o : SettimeOutcome) : Prop :=
  ∀ r, (c.members.addPeriodicTimeout period callback now o).1 = .ok r →
    ∃ handle, r = some handle ∧ NamesPeriodicTimeout c period callback now o handle

end Linuxpp.Ioloop
