import Linuxpp.Foundations.Machine

/-!
# The queued callbacks of `ioloop`

Any number of threads call `add_callback`; its critical section is the push and the write to the
eventfd. The thread of the loop waits in `epoll_wait` and dispatches `process_callbacks` when the
eventfd is readable. One step is what one thread does between two points where others can interfere.
-/

namespace Linuxpp.Ioloop

/-- The largest value of the counter of an eventfd. -/
def maxEventfdCounter : ℕ := 0xfffffffffffffffe

/-- A callback, with the number of the call of `add_callback` that it belongs to. The calls are
numbered in the order in which they enter the critical section. -/
structure QueuedCallback (κ : Type) where
  call : ℕ
  callback : κ
deriving DecidableEq, Repr

/-- A thread that calls `add_callback`. -/
inductive Adder where
  /-- The thread of the loop, from a handler or a callback. -/
  | loop
  | other (thread : ℕ)
deriving DecidableEq, Repr

/-- How far a call of `add_callback` is, the mutex being held. -/
inductive AddStage where
  | entered
  | pushed
  | written
deriving DecidableEq, Repr

/-- Who holds `mutex_`. -/
inductive MutexHolder (κ : Type) where
  | none
  | adding (adder : Adder) (callback : QueuedCallback κ) (stage : AddStage)
  | processing
deriving DecidableEq, Repr

/-- Where the thread of the loop is. -/
inductive LoopPhase (κ : Type) where
  /-- In `epoll_wait`. -/
  | waiting
  /-- In a batch. `pending` says that the event of the callback eventfd is yet to be dispatched. -/
  | dispatching (pending : Bool)
  /-- In `process_callbacks`, the eventfd having been read. -/
  | afterRead
  /-- In `process_callbacks`, with the mutex. -/
  | locked
  /-- In `process_callbacks`, with the mutex and the callbacks it took. -/
  | taken (callbacks : List (QueuedCallback κ))
  /-- In `process_callbacks`, before or in the call of the next callback. -/
  | running (callbacks : List (QueuedCallback κ)) (inCallback : Bool)
  /-- The read of the eventfd failed with `EAGAIN`. -/
  | readFailed
deriving DecidableEq, Repr

/-- The members of `ioloop` for callbacks, the two parties, and what has happened: which calls of
`add_callback` entered the critical section, and which callbacks were run. -/
structure CallbackLoop (κ : Type) where
  newCallbacks : List (QueuedCallback κ) := []
  callbacksEventfd : ℕ := 0
  mutex : MutexHolder κ := .none
  phase : LoopPhase κ := .waiting
  entered : List (QueuedCallback κ) := []
  ran : List (QueuedCallback κ) := []
deriving DecidableEq

/-- The steps of `add_callback` and of the loop. -/
inductive CallbackStep (κ : Type) where
  | enter (adder : Adder) (callback : κ)
  | push
  | write
  | leave
  /-- `epoll_wait` returns, with or without an event of the callback eventfd. -/
  | epollWait (readable : Bool)
  | read
  | lock
  | take
  | unlock
  | call
  | callbackReturns
  /-- `process_callbacks` returns. -/
  | processed
  /-- The batch is over. -/
  | endBatch
deriving DecidableEq, Repr

/-- The thread of the loop is in code of the user, so that it may call `add_callback`. -/
def LoopPhase.userCode {κ : Type} : LoopPhase κ → Bool
  | .dispatching _ | .running _ true => true
  | _ => false

/-- Nobody holds the mutex. -/
def MutexHolder.isFree {κ : Type} : MutexHolder κ → Bool
  | .none => true
  | _ => false

/-- The thread of the loop is inside `add_callback`. -/
def MutexHolder.byLoop {κ : Type} : MutexHolder κ → Bool
  | .adding .loop _ _ => true
  | _ => false

/-- `write(std::nothrow)` on the eventfd: `EAGAIN` on a saturated counter is ignored. -/
def writeEventfd (counter : ℕ) : ℕ :=
  if counter < maxEventfdCounter then counter + 1 else counter

/-- A step of `add_callback`. -/
def addCallbackStep {κ : Type} (c : CallbackLoop κ) : CallbackStep κ → Option (CallbackLoop κ)
  | .enter adder callback =>
    if c.mutex.isFree ∧ (adder = .loop → c.phase.userCode = true) then
      let callback := ⟨c.entered.length, callback⟩
      some { c with
        mutex := .adding adder callback .entered, entered := c.entered ++ [callback] }
    else none
  | .push =>
    match c.mutex with
    | .adding adder callback .entered => some { c with
        newCallbacks := c.newCallbacks ++ [callback], mutex := .adding adder callback .pushed }
    | _ => none
  | .write =>
    match c.mutex with
    | .adding adder callback .pushed => some { c with
        callbacksEventfd := writeEventfd c.callbacksEventfd
        mutex := .adding adder callback .written }
    | _ => none
  | .leave =>
    match c.mutex with
    | .adding _ _ .written => some { c with mutex := .none }
    | _ => none
  | _ => none

/-- A step of the thread of the loop outside of `add_callback`. -/
def loopStep {κ : Type} (c : CallbackLoop κ) (l : CallbackStep κ) : Option (CallbackLoop κ) :=
  match l, c.phase with
  | .epollWait readable, .waiting =>
    if readable = true → 0 < c.callbacksEventfd then some { c with phase := .dispatching readable }
    else none
  | .read, .dispatching true =>
    if c.callbacksEventfd = 0 then some { c with phase := .readFailed }
    else some { c with callbacksEventfd := 0, phase := .afterRead }
  | .lock, .afterRead =>
    if c.mutex.isFree then some { c with mutex := .processing, phase := .locked } else none
  | .take, .locked =>
    some { c with newCallbacks := [], phase := .taken c.newCallbacks }
  | .unlock, .taken callbacks =>
    some { c with mutex := .none, phase := .running callbacks false }
  | .call, .running (callback :: callbacks) false =>
    some { c with phase := .running callbacks true, ran := c.ran ++ [callback] }
  | .callbackReturns, .running callbacks true =>
    some { c with phase := .running callbacks false }
  | .processed, .running [] false => some { c with phase := .dispatching false }
  | .endBatch, .dispatching false => some { c with phase := .waiting }
  | _, _ => none

/-- The step belongs to `add_callback`. -/
def CallbackStep.isAdd {κ : Type} : CallbackStep κ → Bool
  | .enter _ _ | .push | .write | .leave => true
  | _ => false

/-- A step of either. -/
def callbackStep {κ : Type} : Machine (CallbackLoop κ) (CallbackStep κ) :=
  fun c l =>
    if l.isAdd then addCallbackStep c l
    else if c.mutex.byLoop then none
    else loopStep c l

/-- The callbacks that `process_callbacks` took and has not called yet. -/
def LoopPhase.todo {κ : Type} : LoopPhase κ → List (QueuedCallback κ)
  | .taken callbacks | .running callbacks _ => callbacks
  | _ => []

/-- The callback of a call of `add_callback` that has not pushed it yet. -/
def MutexHolder.inFlight {κ : Type} : MutexHolder κ → List (QueuedCallback κ)
  | .adding _ callback .entered => [callback]
  | _ => []

end Linuxpp.Ioloop
