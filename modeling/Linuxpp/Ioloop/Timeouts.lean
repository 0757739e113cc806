import Linuxpp.Foundations.Machine
import Linuxpp.Foundations.SortedInsert
import Linuxpp.Ioloop.MonotonicTimerfd

/-!
# The one-shot timeouts of `ioloop`

`add_timeout`, `insert_timeout` and `remove_timeout` are functions on the members they use.
`process_timeouts` runs user code in the middle of its loop, so it is cut there: `beginPass` is the
code before the loop, `timeoutStep` one iteration at a time, and `endPass` the code after the loop.
Between two iterations the callback that was called may add and remove timeouts.

`κ` is the type of the callbacks, which the loop only stores and calls.
-/

namespace Linuxpp.Ioloop

open SortedInsert

/-- `ioloop::timeout_handle`. Handles are made by a counter that no run exhausts. -/
structure TimeoutHandle where
  id : ℕ
deriving DecidableEq, Repr

/-- `ioloop::timeout_callback`. -/
structure TimeoutCallback (κ : Type) where
  handle : TimeoutHandle
  timeout : TimeType
  callback : κ
  remove : Bool := false
deriving DecidableEq, Repr

/-- The members of `ioloop` for one-shot timeouts, and the counter of `timeout_handle`. -/
structure Timeouts (κ : Type) where
  timeouts : List (TimeoutCallback κ) := []
  processingTimeouts : Bool := false
  pendingTimeoutAdditions : List (TimeoutCallback κ) := []
  timeoutTimerfd : MonotonicTimerfd := {}
  nextId : ℕ := 0
deriving DecidableEq

namespace Timeouts

variable {κ : Type}

/-- The entry that `add_timeout` stores next, `timeout_handle {}` being its handle. -/
def newEntry (s : Timeouts κ) (timeout : TimeType) (callback : κ) : TimeoutCallback κ :=
  ⟨⟨s.nextId⟩, timeout, callback, false⟩

/-- `insert_timeout`. -/
def insertTimeout (s : Timeouts κ) (timeout : TimeType) (callback : κ) :
    TimeoutHandle × Timeouts κ :=
  let entry := s.newEntry timeout callback
  (entry.handle, { s with
    timeouts := insertLower TimeoutCallback.timeout s.timeouts entry, nextId := s.nextId + 1 })

/-- Arms the timer for `timeout`, then returns `handle` unless that threw. -/
def armThenReturn (s : Timeouts κ) (timeout : TimeType) (o : SettimeOutcome)
    (handle : TimeoutHandle) : Except Errno TimeoutHandle × Timeouts κ :=
  let (result, timer) := s.timeoutTimerfd.setOneshot timeout o
  (result.map fun _ => handle, { s with timeoutTimerfd := timer })

/-- `add_timeout`. -/
def addTimeout (s : Timeouts κ) (timeout : TimeType) (callback : κ) (o : SettimeOutcome) :
    Except Errno TimeoutHandle × Timeouts κ :=
  if s.processingTimeouts then
    let entry := s.newEntry timeout callback
    (.ok entry.handle, { s with
      pendingTimeoutAdditions := s.pendingTimeoutAdditions ++ [entry], nextId := s.nextId + 1 })
  else
    match s.timeouts with
    | [] =>
      let entry := s.newEntry timeout callback
      let s' := { s with timeouts := [entry], nextId := s.nextId + 1 }
      s'.armThenReturn timeout o entry.handle
    | front :: _ =>
      let currentEarliestTimeout := front.timeout
      let (handle, s') := s.insertTimeout timeout callback
      if currentEarliestTimeout > timeout then s'.armThenReturn timeout o handle
      else (.ok handle, s')

/-- Flags the first entry with the handle. -/
def flagRemoved (handle : TimeoutHandle) : List (TimeoutCallback κ) → List (TimeoutCallback κ)
  | [] => []
  | e :: es =>
    if e.handle = handle then { e with remove := true } :: es else e :: flagRemoved handle es

/-- `remove_timeout(timeout_handle)`. -/
def removeTimeout (s : Timeouts κ) (handle : TimeoutHandle) : Timeouts κ :=
  if s.timeouts.any fun e => e.handle = handle then
    if s.processingTimeouts then { s with timeouts := flagRemoved handle s.timeouts }
    else { s with timeouts := s.timeouts.eraseP fun e => e.handle = handle }
  else
    { s with pendingTimeoutAdditions :=
        s.pendingTimeoutAdditions.eraseP fun e => e.handle = handle }

end Timeouts

/-- A running `process_timeouts`: the clock value it read, the value that its `bool_sentry` will
restore, and its iterator. -/
structure Pass where
  now : TimeType
  sentry : Bool
  i : ℕ
deriving DecidableEq, Repr

/-- `process_timeouts` up to its loop. -/
def Timeouts.beginPass {κ : Type} (s : Timeouts κ) (now : TimeType) : Pass × Timeouts κ :=
  (⟨now, s.processingTimeouts, 0⟩,
    { s with timeoutTimerfd := s.timeoutTimerfd.read, processingTimeouts := true })

/-- `process_timeouts` after its loop: the entries before the iterator and the entries marked for
removal are erased, the pending additions are merged in, and the timer is armed for the front. -/
def Timeouts.endPass {κ : Type} (s : Timeouts κ) (p : Pass) (o : SettimeOutcome) :
    Except Errno Unit × Timeouts κ :=
  let unexpired := s.timeouts.drop p.i
  let kept := unexpired.filter fun e => !e.remove
  let merged := s.pendingTimeoutAdditions.foldl (insertLower TimeoutCallback.timeout) kept
  let s' := { s with
    timeouts := merged, pendingTimeoutAdditions := [], processingTimeouts := p.sentry }
  match merged with
  | [] => (.ok (), s')
  | front :: _ =>
    let (result, timer) := s'.timeoutTimerfd.setOneshot front.timeout o
    (result, { s' with timeoutTimerfd := timer })

/-- Where the thread of the loop is with respect to `process_timeouts`. -/
inductive PassPoint where
  /-- Outside of it. -/
  | outside
  /-- At the head of its loop. -/
  | loop (p : Pass)
  /-- In the callback of the entry before the iterator. -/
  | callback (p : Pass)
  /-- Behind its loop. -/
  | done (p : Pass)
deriving DecidableEq, Repr

/-- How much of a pass over `n` entries is left at a point of the thread. -/
def PassPoint.left (n : ℕ) : PassPoint → ℕ
  | .outside => 0
  | .loop p => 2 + 2 * (n - p.i)
  | .callback p => 3 + 2 * (n - p.i)
  | .done _ => 1

/-- What happened to one-shot timeouts, in order. -/
inductive TimeoutEvent (κ : Type) where
  /-- `add_timeout` stored the entry. -/
  | added (e : TimeoutCallback κ)
  /-- `remove_timeout` returned. -/
  | removed (handle : TimeoutHandle)
  /-- A pass that read the clock value `now` called the callback of the entry. -/
  | called (now : TimeType) (e : TimeoutCallback κ)
deriving DecidableEq, Repr

/-- The loop, where its thread is, and what has happened so far. -/
structure TimeoutLoop (κ : Type) where
  members : Timeouts κ := {}
  point : PassPoint := .outside
  history : List (TimeoutEvent κ) := []
deriving DecidableEq

/-- The steps of the thread of the loop. -/
inductive TimeoutStep (κ : Type) where
  /-- User code calls `add_timeout`, outside of a pass or in a callback. -/
  | addTimeout (timeout : TimeType) (callback : κ) (o : SettimeOutcome)
  /-- User code calls `remove_timeout`. -/
  | removeTimeout (handle : TimeoutHandle)
  /-- A `timeout_handle` is made by user code or by another loop. -/
  | timeoutHandle
  /-- `process_timeouts` is called and reads the clock value `now`. -/
  | processTimeouts (now : TimeType)
  /-- One iteration of the loop of `process_timeouts`, up to the call of the callback. -/
  | iterate
  /-- The callback returns. -/
  | callbackReturns
  /-- The rest of `process_timeouts`. -/
  | finish (o : SettimeOutcome)
deriving DecidableEq

/-- User code runs outside of a pass and in callbacks. -/
def PassPoint.userCode : PassPoint → Bool
  | .outside | .callback _ => true
  | .loop _ | .done _ => false

/-- One iteration of the loop of `process_timeouts`. -/
def iteration {κ : Type} (c : TimeoutLoop κ) (p : Pass) : TimeoutLoop κ :=
  match c.members.timeouts[p.i]? with
  | none => { c with point := .done p }
  | some e =>
    -- the iterator is advanced before the entry is looked at
    let p' := { p with i := p.i + 1 }
    if e.remove then { c with point := .loop p' }
    else if e.timeout ≤ p.now then
      { c with point := .callback p', history := c.history ++ [.called p.now e] }
    else { c with point := .done p' }

/-- A step of the thread of the loop. -/
def timeoutStep {κ : Type} : Machine (TimeoutLoop κ) (TimeoutStep κ) := fun c l =>
  match l with
  | .addTimeout timeout callback o =>
    if c.point.userCode then
      some { c with
        members := (c.members.addTimeout timeout callback o).2
        history := c.history ++ [.added (c.members.newEntry timeout callback)] }
    else none
  | .removeTimeout handle =>
    -- a handle that user code holds was made before
    if c.point.userCode ∧ handle.id < c.members.nextId then
      some { c with
        members := c.members.removeTimeout handle, history := c.history ++ [.removed handle] }
    else none
  | .timeoutHandle =>
    if c.point.userCode then
      some { c with members := { c.members with nextId := c.members.nextId + 1 } }
    else none
  | .processTimeouts now =>
    match c.point with
    | .outside =>
      let (p, members) := c.members.beginPass now
      some { c with members := members, point := .loop p }
    | _ => none
  | .iterate =>
    match c.point with
    | .loop p => some (iteration c p)
    | _ => none
  | .callbackReturns =>
    match c.point with
    | .callback p => some { c with point := .loop p }
    | _ => none
  | .finish o =>
    match c.point with
    | .done p => some { c with members := (c.members.endPass p o).2, point := .outside }
    | _ => none

end Linuxpp.Ioloop
