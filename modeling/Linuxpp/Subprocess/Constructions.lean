import Mathlib.Logic.Function.Basic
import Linuxpp.Foundations.Lock
import Linuxpp.Foundations.Machine

/-!
# Concurrent constructors of `popen`

Any number of threads call the constructor. They share `clone_mutex`, `signal_mutex` with its one
saved mask, and `child_stack`. One step is one statement of `popen::clone` of one thread, or is taken
by a child; every statement that can throw may do so. `clone` is called with `CLONE_VM` and
`CLONE_VFORK`, so the child runs in the memory of the parent, on `child_stack`, and the kernel does
not let the thread go on before the child has called `exec` or has exited.
-/

namespace Linuxpp.Subprocess

section SignalMasks

/-- `sigset_t`. The bit `n - 1` is that of the signal `n`. -/
abbrev Sigset := BitVec 64

/-- `sigfillset`. -/
def sigfillset : Sigset := BitVec.allOnes 64

/-- `SIGKILL` and `SIGSTOP`, and the two signals that glibc keeps for itself. -/
def unblockable : Sigset :=
  BitVec.twoPow 64 8 ||| BitVec.twoPow 64 18 ||| BitVec.twoPow 64 31 ||| BitVec.twoPow 64 32

/-- The mask of a thread. -/
structure SignalMask where
  sigset : Sigset
  blockable : sigset &&& unblockable = 0#64
deriving DecidableEq

/-- The mask with which these signals are blocked, as far as they can be. -/
def SignalMask.ofSigset (set : Sigset) : SignalMask :=
  ⟨set &&& ~~~unblockable, by rw [BitVec.and_assoc, BitVec.and_comm _ unblockable]; simp⟩

/-- The first argument of `pthread_sigmask`. -/
inductive SigmaskHow where
  | SIG_BLOCK
  | SIG_UNBLOCK
  | SIG_SETMASK
deriving DecidableEq, Repr

/-- `pthread_sigmask`. -/
def pthreadSigmask (how : SigmaskHow) (set : Sigset) (mask : SignalMask) : SignalMask :=
  match how with
  | .SIG_BLOCK => .ofSigset (mask.sigset ||| set)
  | .SIG_UNBLOCK => .ofSigset (mask.sigset &&& ~~~set)
  | .SIG_SETMASK => .ofSigset set

/-- A mask that was saved is put back as it was. -/
theorem SignalMask.ofSigset_sigset (mask : SignalMask) : ofSigset mask.sigset = mask := by
  have hsets : mask.sigset &&& ~~~unblockable = mask.sigset := by
    calc mask.sigset &&& ~~~unblockable
        = (mask.sigset &&& unblockable) ||| (mask.sigset &&& ~~~unblockable) := by
          rw [mask.blockable, BitVec.zero_or]
      _ = mask.sigset := by ext i hi; simp; grind
  cases mask
  simp only [ofSigset, hsets]

/-- `signal_mutex`. -/
structure SignalMutex where
  sigset : Sigset := sigfillset
  prevSigset : Sigset := 0#64
deriving DecidableEq

namespace SignalMutex

/-- `signal_mutex::lock`, which saves the mask of the thread. -/
def lock (mutex : SignalMutex) (mask : SignalMask) : SignalMask × SignalMutex :=
  (pthreadSigmask .SIG_BLOCK mutex.sigset mask, { mutex with prevSigset := mask.sigset })

/-- `signal_mutex::unlock`. The errors of `pthread_sigmask` are those of a `how` or of an address
that is not valid. -/
def unlock (mutex : SignalMutex) (mask : SignalMask) : SignalMask :=
  pthreadSigmask .SIG_SETMASK mutex.prevSigset mask

end SignalMutex
end SignalMasks

/-- How a call of the constructor ends. -/
inductive Outcome where
  | returned
  | threw
deriving DecidableEq, Repr

/-- What a thread does next in `popen::clone`. -/
inductive Stage where
  /-- It is not in the constructor. -/
  | outside
  /-- It makes the command line. -/
  | cmdline
  /-- It waits for `clone_mutex`. -/
  | cloneLock
  | signalLock
  /-- It looks whether there is a `child_stack`. -/
  | childStack
  | makeStack
  | openStdin
  | openStdout
  | openStderr
  | clone
  /-- It is suspended in `clone`, until this child has called `exec` or has exited. -/
  | suspended (pid : ℕ)
  /-- It loads `child_status`. -/
  | childStatus
  /-- It destroys `signal_lock`. -/
  | signalUnlock (outcome : Outcome)
  /-- It destroys `clone_lock`. -/
  | cloneUnlock (outcome : Outcome)
  | leave (outcome : Outcome)
deriving DecidableEq, Repr

/-- Where an exception that is thrown at this stage leads, the guards that there are being
destroyed. -/
def Stage.unwind : Stage → Option Stage
  | cmdline | cloneLock => some (leave .threw)
  | signalLock => some (cloneUnlock .threw)
  | makeStack | openStdin | openStdout | openStderr | clone => some (signalUnlock .threw)
  | outside | childStack | suspended _ | childStatus | signalUnlock _ | cloneUnlock _ | leave _ =>
    none

/-- A child that has not yet called `exec` or exited. -/
structure RunningChild where
  pid : ℕ
  parent : ℕ
  /-- The stack that it runs on, which `child_stack` owned when it was created. -/
  stack : Option ℕ
deriving DecidableEq, Repr

/-- A call of the constructor that has ended, and the masks of its thread before and after. -/
structure Construction where
  thread : ℕ
  outcome : Outcome
  before : SignalMask
  after : SignalMask
deriving DecidableEq

/-- The threads, what they share, and the children that they have created. Stacks and children are
numbered in the order in which they are made. -/
structure Constructors where
  stage : ℕ → Stage := fun _ => .outside
  mask : ℕ → SignalMask
  /-- The local variable `child_status`. -/
  childStatus : ℕ → ℕ := fun _ => 0
  cloneMutex : Option ℕ := none
  signalMutex : SignalMutex := {}
  childStack : Option ℕ := none
  stacksMade : ℕ := 0
  running : List RunningChild := []
  childrenMade : ℕ := 0
  /-- The mask with which the thread called the constructor. -/
  calledWith : ℕ → SignalMask := mask
  ended : List Construction := []

namespace Constructors

/-- The thread `t` goes on to `stage`. -/
def goTo (c : Constructors) (t : ℕ) (stage : Stage) : Constructors :=
  { c with stage := Function.update c.stage t stage }

/-- The thread `t` calls the constructor. -/
def call (c : Constructors) (t : ℕ) : Constructors :=
  { c with
    calledWith := Function.update c.calledWith t (c.mask t)
    childStatus := Function.update c.childStatus t 0 }.goTo t .cmdline

/-- `signal_mutex.lock()`, in the thread `t`. -/
def lockSignals (c : Constructors) (t : ℕ) : Constructors :=
  let (mask, signalMutex) := c.signalMutex.lock (c.mask t)
  { c with mask := Function.update c.mask t mask, signalMutex := signalMutex }.goTo t .childStack

/-- `signal_mutex.unlock()`, in the thread `t`. -/
def unlockSignals (c : Constructors) (t : ℕ) (outcome : Outcome) : Constructors :=
  { c with mask := Function.update c.mask t (c.signalMutex.unlock (c.mask t)) }.goTo t
    (.cloneUnlock outcome)

/-- `std::make_unique`, in the thread `t`. -/
def makeStack (c : Constructors) (t : ℕ) : Constructors :=
  { c with
    childStack := some c.stacksMade
    stacksMade := c.stacksMade + 1 }.goTo t .openStdin

/-- `::clone`, in the thread `t`. -/
def clone (c : Constructors) (t : ℕ) : Constructors :=
  { c with
    running := ⟨c.childrenMade, t, c.childStack⟩ :: c.running
    childrenMade := c.childrenMade + 1 }.goTo t (.suspended c.childrenMade)

/-- The thread `t` leaves the constructor. -/
def leave (c : Constructors) (t : ℕ) (outcome : Outcome) : Constructors :=
  let construction : Construction := ⟨t, outcome, c.calledWith t, c.mask t⟩
  { c with ended := c.ended ++ [construction] }.goTo t .outside

/-- The next statement of the thread `t`, if it can be executed. -/
def proceed (c : Constructors) (t : ℕ) : Option Constructors :=
  match c.stage t with
  | .outside => none
  | .cmdline => some (c.goTo t .cloneLock)
  | .cloneLock =>
    if c.cloneMutex = none then some ({ c with cloneMutex := some t }.goTo t .signalLock) else none
  | .signalLock => some (c.lockSignals t)
  | .childStack => some (c.goTo t (if c.childStack.isSome then .openStdin else .makeStack))
  | .makeStack => some (c.makeStack t)
  | .openStdin => some (c.goTo t .openStdout)
  | .openStdout => some (c.goTo t .openStderr)
  | .openStderr => some (c.goTo t .clone)
  | .clone => some (c.clone t)
  | .suspended pid =>
    if ∀ child ∈ c.running, child.pid ≠ pid then some (c.goTo t .childStatus) else none
  | .childStatus =>
    some (c.goTo t (.signalUnlock (if c.childStatus t ≠ 0 then .threw else .returned)))
  | .signalUnlock outcome => some (c.unlockSignals t outcome)
  | .cloneUnlock outcome => some ({ c with cloneMutex := none }.goTo t (.leave outcome))
  | .leave outcome => some (c.leave t outcome)

/-- A child has called `exec` or has exited, having stored `status` in the variable of its
parent. -/
def childEnds (c : Constructors) (child : RunningChild) (status : ℕ) : Constructors :=
  { c with
    running := c.running.erase child
    childStatus := Function.update c.childStatus child.parent status }

end Constructors

/-- The steps of the threads and of the children. -/
inductive ConstructorStep where
  /-- A thread that is not in the constructor calls `pthread_sigmask`. -/
  | sigmask (t : ℕ) (how : SigmaskHow) (set : Sigset)
  | call (t : ℕ)
  | proceed (t : ℕ)
  | throw (t : ℕ)
  | childEnds (child : RunningChild) (status : ℕ)

/-- Any number of threads that construct `popen` objects. -/
def constructing : Machine Constructors ConstructorStep
  | c, .sigmask t how set =>
    if c.stage t = .outside then
      some { c with mask := Function.update c.mask t (pthreadSigmask how set (c.mask t)) }
    else none
  | c, .call t => if c.stage t = .outside then some (c.call t) else none
  | c, .proceed t => c.proceed t
  | c, .throw t => (c.stage t).unwind.map (c.goTo t)
  | c, .childEnds child status =>
    if child ∈ c.running then some (c.childEnds child status) else none

/-- The constructors do not interfere. -/
structure Undisturbed (c : Constructors) : Prop where
  /-- At most one child runs. -/
  oneChild : c.running.length ≤ 1
  /-- It runs on a stack, which `child_stack` still owns. -/
  stackKept : ∀ child ∈ c.running, child.stack ≠ none ∧ c.childStack = child.stack
  /-- The constructor gives a thread back the mask that it came with. -/
  maskKept : ∀ call ∈ c.ended, call.after = call.before

end Linuxpp.Subprocess
