import Linuxpp.Foundations.DueWalk
import Linuxpp.Foundations.SortOrder
import Linuxpp.Ioloop.Timeouts

/-!
# The periodic timeouts of `ioloop`

`add_periodic_timeout` and `remove_timeout` are functions on the members they use.
`process_periodic_timeouts` is cut at its loop as `process_timeouts` is: between two iterations the
callback that was called may add and remove periodic timeouts.

Two expressions of the source are undefined in C++. The first periodic timeout is returned the
handle of the first pending one, of which there is none; only the handle is undefined then. The
removal of a pending entry erases from `periodic_timeouts_` with an iterator of another vector; no
step models it.
-/

namespace Linuxpp.Ioloop

open SortedInsert SortOrder DueWalk

/-- `ioloop::periodic_timeout_handle`. -/
structure PeriodicTimeoutHandle where
  id : ℕ
deriving DecidableEq, Repr

/-- `ioloop::periodic_timeout_callback`. -/
structure PeriodicTimeoutCallback (κ : Type) where
  handle : PeriodicTimeoutHandle
  period : Int
  timeout : TimeType
  callback : κ
  remove : Bool := false
  processed : Bool := false
deriving DecidableEq, Repr

/-- `periodic_timeout_callback::reset`. -/
def PeriodicTimeoutCallback.reset {κ : Type} (e : PeriodicTimeoutCallback κ) (now : TimeType) :
    PeriodicTimeoutCallback κ :=
  { e with timeout := now + e.period, processed := false }

/-- The members of `ioloop` for periodic timeouts, and the counter of `periodic_timeout_handle`. -/
structure PeriodicTimeouts (κ : Type) where
  periodicTimeouts : List (PeriodicTimeoutCallback κ) := []
  processingPeriodicTimeouts : Bool := false
  pendingPeriodicTimeoutAdditions : List (PeriodicTimeoutCallback κ) := []
  periodicTimeoutTimerfd : MonotonicTimerfd := {}
  nextId : ℕ := 0
deriving DecidableEq

namespace PeriodicTimeouts

variable {κ : Type}

/-- The entry that `add_periodic_timeout` stores next when it reads the clock value `now`. -/
def newEntry (s : PeriodicTimeouts κ) (period : Int) (callback : κ) (now : TimeType) :
    PeriodicTimeoutCallback κ :=
  { handle := ⟨s.nextId⟩, period := period, timeout := now + period, callback := callback }

/-- `insert_periodic_timeout`. -/
def insertPeriodicTimeout (s : PeriodicTimeouts κ) (period : Int) (callback : κ) (now : TimeType) :
    PeriodicTimeoutHandle × PeriodicTimeouts κ :=
  let entry := s.newEntry period callback now
  (entry.handle, { s with
    periodicTimeouts := insertLower PeriodicTimeoutCallback.timeout s.periodicTimeouts entry
    nextId := s.nextId + 1 })

/-- Arms the timer for the front of `periodic_timeouts_`, then returns `r` unless that threw. -/
def armFrontThenReturn {ρ : Type} (s : PeriodicTimeouts κ) (o : SettimeOutcome) (r : ρ) :
    Except Errno ρ × PeriodicTimeouts κ :=
  match s.periodicTimeouts with
  | [] => (.ok r, s)
  | front :: _ =>
    let (result, timer) := s.periodicTimeoutTimerfd.setOneshot front.timeout o
    (result.map fun _ => r, { s with periodicTimeoutTimerfd := timer })

/-- `add_periodic_timeout`. A result `none` is the undefined handle. -/
def addPeriodicTimeout (s : PeriodicTimeouts κ) (period : Int) (callback : κ) (now : TimeType)
    (o : SettimeOutcome) : Except Errno (Option PeriodicTimeoutHandle) × PeriodicTimeouts κ :=
  if s.processingPeriodicTimeouts then
    let entry := s.newEntry period callback now
    (.ok entry.handle, { s with
      pendingPeriodicTimeoutAdditions := s.pendingPeriodicTimeoutAdditions ++ [entry]
      nextId := s.nextId + 1 })
  else
    match s.periodicTimeouts with
    | [] =>
      let s' := { s with
        periodicTimeouts := [s.newEntry period callback now], nextId := s.nextId + 1 }
      s'.armFrontThenReturn o
        (s'.pendingPeriodicTimeoutAdditions.head?.map PeriodicTimeoutCallback.handle)
    | front :: _ =>
      let currentEarliestTimeout := front.timeout
      let (handle, s') := s.insertPeriodicTimeout period callback now
      if s'.periodicTimeouts.head?.any fun e => e.timeout < currentEarliestTimeout then
        s'.armFrontThenReturn o (some handle)
      else (.ok handle, s')

/-- `remove_timeout(periodic_timeout_handle)`. There is no result where it is undefined. -/
def removeTimeout (s : PeriodicTimeouts κ) (handle : PeriodicTimeoutHandle) :
    Option (PeriodicTimeouts κ) :=
  if s.periodicTimeouts.any fun e => e.handle = handle then
    if s.processingPeriodicTimeouts then
      some { s with periodicTimeouts := s.periodicTimeouts.replaceF fun e =>
        if e.handle = handle then some { e with remove := true } else none }
    else
      some { s with periodicTimeouts := s.periodicTimeouts.eraseP fun e => e.handle = handle }
  else if s.pendingPeriodicTimeoutAdditions.any fun e => e.handle = handle then none
  else some s

/-- `process_periodic_timeouts` up to its loop. -/
def beginPass (s : PeriodicTimeouts κ) (now : TimeType) : Pass × PeriodicTimeouts κ :=
  (⟨now, s.processingPeriodicTimeouts, 0⟩, { s with
    periodicTimeoutTimerfd := s.periodicTimeoutTimerfd.read, processingPeriodicTimeouts := true })

/-- The loop that resets the processed entries. It ends at the first one that was not processed. -/
def resetProcessed (now : TimeType) :
    List (PeriodicTimeoutCallback κ) → List (PeriodicTimeoutCallback κ)
  | [] => []
  | e :: es => if e.processed then e.reset now :: resetProcessed now es else e :: es

/-- The entries that `process_periodic_timeouts` sorts after its loop, when it reads `now`. -/
def rescheduled (s : PeriodicTimeouts κ) (now : TimeType) : List (PeriodicTimeoutCallback κ) :=
  resetProcessed now (s.periodicTimeouts.filter fun e => !e.remove)

/-- `process_periodic_timeouts` after its loop. `std::sort` is not stable: it puts the entries in
any `order` that is sorted. -/
def endPass (s : PeriodicTimeouts κ) (p : Pass) (now : TimeType) (order : List ℕ)
    (o : SettimeOutcome) : Except Errno Unit × PeriodicTimeouts κ :=
  let sorted := permute (s.rescheduled now) order
  let merged := s.pendingPeriodicTimeoutAdditions.foldl
    (insertLower PeriodicTimeoutCallback.timeout) sorted
  { s with
    periodicTimeouts := merged
    pendingPeriodicTimeoutAdditions := []
    processingPeriodicTimeouts := p.sentry }.armFrontThenReturn o ()

end PeriodicTimeouts

/-- What happens to periodic timeouts: entries are added, handles removed, callbacks called. -/
abbrev PeriodicTimeoutEvent (κ : Type) :=
  WalkEvent (PeriodicTimeoutCallback κ) PeriodicTimeoutHandle

/-- The loop, where its thread is with respect to `process_periodic_timeouts`, and what has happened
so far. -/
structure PeriodicTimeoutLoop (κ : Type) where
  members : PeriodicTimeouts κ := {}
  point : PassPoint := .outside
  history : List (PeriodicTimeoutEvent κ) := []
deriving DecidableEq

/-- The steps of the thread of the loop. -/
inductive PeriodicTimeoutStep (κ : Type) where
  /-- User code calls `add_periodic_timeout`, outside of a pass or in a callback. -/
  | addPeriodicTimeout (period : Int) (callback : κ) (now : TimeType) (o : SettimeOutcome)
  /-- User code calls `remove_timeout`. -/
  | removeTimeout (handle : PeriodicTimeoutHandle)
  /-- A `periodic_timeout_handle` is made by user code or by another loop. -/
  | periodicTimeoutHandle
  /-- `process_periodic_timeouts` is called and reads the clock value `now`. -/
  | processPeriodicTimeouts (now : TimeType)
  /-- One iteration of the loop of `process_periodic_timeouts`, up to the call of the callback. -/
  | iterate
  /-- The callback returns. -/
  | callbackReturns
  /-- The rest of `process_periodic_timeouts`, which reads the clock value `now`. -/
  | finish (now : TimeType) (order : List ℕ) (o : SettimeOutcome)
deriving DecidableEq

/-- One iteration of the loop of `process_periodic_timeouts`. -/
def periodicIteration {κ : Type} (c : PeriodicTimeoutLoop κ) (p : Pass) : PeriodicTimeoutLoop κ :=
  match c.members.periodicTimeouts[p.i]? with
  | none => { c with point := .done p }
  | some e =>
    let p' := { p with i := p.i + 1 }
    if e.remove then { c with point := .loop p' }
    else if e.timeout ≤ p.now then
      { members := { c.members with
          periodicTimeouts := c.members.periodicTimeouts.set p.i { e with processed := true } }
        point := .callback p'
        history := c.history ++ [.called e] }
    else { c with point := .done p }

/-- A step of the thread of the loop. -/
def periodicTimeoutStep {κ : Type} : Machine (PeriodicTimeoutLoop κ) (PeriodicTimeoutStep κ) :=
    fun c l =>
  match l with
  | .addPeriodicTimeout period callback now o =>
    if c.point.userCode then
      some { c with
        members := (c.members.addPeriodicTimeout period callback now o).2
        history := c.history ++ [.added (c.members.newEntry period callback now)] }
    else none
  | .removeTimeout handle =>
    -- a handle that user code holds was made before
    if c.point.userCode ∧ handle.id < c.members.nextId then
      (c.members.removeTimeout handle).map fun members =>
        { c with members := members, history := c.history ++ [.removed handle] }
    else none
  | .periodicTimeoutHandle =>
    if c.point.userCode then
      some { c with members := { c.members with nextId := c.members.nextId + 1 } }
    else none
  | .processPeriodicTimeouts now =>
    match c.point with
    | .outside =>
      let (p, members) := c.members.beginPass now
      some { c with members := members, point := .loop p }
    | _ => none
  | .iterate =>
    match c.point with
    | .loop p => some (periodicIteration c p)
    | _ => none
  | .callbackReturns =>
    match c.point with
    | .callback p => some { c with point := .loop p }
    | _ => none
  | .finish now order o =>
    match c.point with
    | .done p =>
      if IsSortOrder PeriodicTimeoutCallback.timeout (c.members.rescheduled now) order then
        some { c with members := (c.members.endPass p now order o).2, point := .outside }
      else none
    | _ => none

/-- `process_periodic_timeouts`, called in `c₀`, reads the clock values `now₁` and `now₂` and
returns in `c₁`; `body` are the steps of its loop and of the callbacks. -/
structure IsPeriodicPass {κ : Type} (c₀ : PeriodicTimeoutLoop κ) (now₁ : TimeType)
    (body : List (PeriodicTimeoutStep κ)) (now₂ : TimeType) (order : List ℕ) (o : SettimeOutcome)
    (c₁ : PeriodicTimeoutLoop κ) : Prop where
  run : periodicTimeoutStep.run c₀ (.processPeriodicTimeouts now₁ :: body ++
    [.finish now₂ order o]) = some c₁
  one : ∀ now order' o', .finish now order' o' ∉ body

/-- What happened between `c₀` and a later state. -/
def PeriodicTimeoutLoop.eventsUntil {κ : Type} (c₀ c₁ : PeriodicTimeoutLoop κ) :
    List (PeriodicTimeoutEvent κ) :=
  c₁.history.drop c₀.history.length

/-- The entry after a pass that called the entries `called` and then read the clock value `now`. -/
def PeriodicTimeoutCallback.nextTurn {κ : Type} (now : TimeType)
    (called : List (PeriodicTimeoutCallback κ)) (e : PeriodicTimeoutCallback κ) :
    PeriodicTimeoutCallback κ :=
  if e.handle ∈ called.map PeriodicTimeoutCallback.handle then
    { e with timeout := now + e.period }
  else e

/-- After the pass, `periodic_timeouts_` is sorted, no entry is flagged, and it holds exactly the
entries of `c₀` that were not removed, the called ones with their next deadlines, and the entries
added during the pass. -/
structure Reschedules {κ : Type} (c₀ : PeriodicTimeoutLoop κ) (now : TimeType)
    (c₁ : PeriodicTimeoutLoop κ) : Prop where
  sorted : SortedBy PeriodicTimeoutCallback.timeout c₁.members.periodicTimeouts
  unflagged : ∀ e ∈ c₁.members.periodicTimeouts, e.remove = false ∧ e.processed = false
  perm : c₁.members.periodicTimeouts.Perm
    ((c₀.members.periodicTimeouts.filter fun e => e.handle ∉ removals (c₀.eventsUntil c₁)).map
      (PeriodicTimeoutCallback.nextTurn now (calls (c₀.eventsUntil c₁))) ++
        additions (c₀.eventsUntil c₁))

end Linuxpp.Ioloop
