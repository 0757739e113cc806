import Linuxpp.Foundations.Machine
import Linuxpp.Subprocess.Popen

/-!
# The `popen` objects of a program

The objects live in a store, as the `unique_fd` objects do, together with the process and its
children. Nothing but these objects waits for a child, and a child that was not waited for keeps its
pid. What `waitid` and `kill` answer is given with the operation.
-/

namespace Linuxpp.Subprocess

/-- `linuxpp::invalid_pid`. -/
abbrev invalidPid : Int := -1

/-- `linuxpp::pid`. -/
abbrev Pid := IntDescriptor invalidPid

/-- What the members of `popen` throw. -/
inductive ChildError where
  | waitidFailed (errno : Errno)
  | killFailed (errno : Errno)
  | pidNotSet
  | siPidZero
deriving DecidableEq

/-- The text of the exception. -/
def ChildError.what : ChildError → String
  | waitidFailed _ => "waitid failed"
  | killFailed _ => "failed to send signal to child process"
  | pidNotSet => "child pid not set"
  | siPidZero => "siginfo_t::si_pid is equal to 0"

/-- The fields of `siginfo_t` that are read. -/
structure Siginfo where
  siPid : Int := 0
  siStatus : Int := 0
  siCode : Int := 0
deriving DecidableEq, Repr

def CLD_EXITED : Int := 1
def CLD_KILLED : Int := 2
def CLD_DUMPED : Int := 3

/-- `subprocess::status`. -/
structure Status where
  exitCodeRaw : Int := 0
  exited : Bool := false
  calledExit : Bool := false
  signaled : Bool := false
  dumped : Bool := false
deriving DecidableEq, Repr

/-- `status(siginfo)`. -/
def Status.ofSiginfo (siginfo : Siginfo) : Except ChildError Status :=
  if siginfo.siPid = 0 then .error .siPidZero
  else
    let dumped : Bool := siginfo.siCode = CLD_DUMPED
    .ok {
      exited := true
      exitCodeRaw := siginfo.siStatus
      calledExit := siginfo.siCode = CLD_EXITED
      dumped := dumped
      signaled := siginfo.siCode = CLD_KILLED || dumped }

/-- The outcomes of the system call `waitid`. -/
inductive WaitidOutcome where
  /-- The child is reaped. -/
  | exited (siStatus siCode : Int)
  /-- It returns at once, because of `WNOHANG`. -/
  | stillRunning
  | fails (errno : Errno)
deriving DecidableEq

/-- What the system call leaves in `siginfo`. -/
def WaitidOutcome.siginfo (id : Int) (siginfo : Siginfo) : WaitidOutcome → Except Errno Siginfo
  | .exited siStatus siCode => .ok ⟨id, siStatus, siCode⟩
  | .stillRunning => .ok siginfo
  | .fails errno => .error errno

/-- `subprocess::waitid`: whether a child was reaped, and `siginfo` after the call. -/
def waitid (id : Int) (siginfo : Siginfo) (o : WaitidOutcome) :
    Except ChildError (Bool × Siginfo) :=
  let siginfo := { siginfo with siPid := 0 }
  match o.siginfo id siginfo with
  | .error errno => .error (.waitidFailed errno)
  | .ok siginfo => .ok (siginfo.siPid ≠ 0, siginfo)

/-- The members of `popen`. -/
structure PopenObject where
  pid : Pid := {}
  stdin : UniqueFd := {}
  stdout : UniqueFd := {}
  stderr : UniqueFd := {}
  status : Status := {}
deriving DecidableEq, Repr

namespace PopenObject

/-- `operator bool` of the pid. -/
def hasPid (popen : PopenObject) : Bool := popen.pid.get ≠ invalidPid

/-- The object that the constructor makes. -/
def ofPopen (popen : Popen) : PopenObject where
  pid := ⟨popen.pid⟩
  stdin := popen.stdin
  stdout := popen.stdout
  stderr := popen.stderr

/-- `wait(options)`: what it returns, and the object after the call. -/
def wait (popen : PopenObject) (o : WaitidOutcome) : Except ChildError Status × PopenObject :=
  if ¬ popen.hasPid then (.ok popen.status, popen)
  else
    match Subprocess.waitid popen.pid.get {} o with
    | .error e => (.error e, popen)
    | .ok (true, siginfo) =>
      let popen := { popen with pid := popen.pid.release.2 }
      match Status.ofSiginfo siginfo with
      | .error e => (.error e, popen)
      | .ok status => (.ok status, { popen with status := status })
    | .ok (false, _) => (.ok popen.status, popen)

/-- `signal`; `failure` is the error with which `kill` fails. -/
def signal (popen : PopenObject) (failure : Option Errno) : Except ChildError Unit :=
  if ¬ popen.hasPid then .error .pidNotSet
  else
    match failure with
    | some errno => .error (.killFailed errno)
    | none => .ok ()

/-- The pid, unless it is invalid. -/
def pids (popen : PopenObject) : List Int := if popen.hasPid then [popen.pid.get] else []

/-- What the destructors of the streams close. -/
def closes (popen : PopenObject) : List Int :=
  popen.stderr.reset.2 ++ popen.stdout.reset.2 ++ popen.stdin.reset.2

end PopenObject

/-- `waitid` and `kill`. -/
inductive ChildCallKind where
  | waitid (options : UInt32)
  | kill (signal : Int)
deriving DecidableEq, Repr

/-- A system call for a pid; `unreaped` are the children of the process at that time. -/
structure ChildCall where
  kind : ChildCallKind
  pid : Int
  unreaped : List Int
deriving DecidableEq, Repr

def WNOHANG : UInt32 := 1
def WEXITED : UInt32 := 4

/-- The pids of the children that were not waited for. -/
def Process.pids (p : Process) : List Int := p.children.map Nat.cast

/-- The system call returns for a child, and before it has exited only if it may. -/
def WaitidOutcome.Possible (p : Process) (id : Int) (options : UInt32) : WaitidOutcome → Prop
  | .exited _ _ => 0 < id ∧ id ∈ p.pids
  | .stillRunning => id ∈ p.pids ∧ options &&& WNOHANG ≠ 0
  | .fails _ => True

instance (p : Process) (id : Int) (options : UInt32) :
    DecidablePred (WaitidOutcome.Possible p id options) := fun o =>
  match o with
  | .exited _ _ | .stillRunning => inferInstanceAs (Decidable (_ ∧ _))
  | .fails _ => isTrue trivial

/-- The objects, slot `o` being the object numbered `o`, and the process. `started` and `reaped`
record the children that constructors have started and that `wait` and `poll` have reaped;
`terminated` is set by `std::terminate`. -/
structure PopenObjects where
  objects : List (Option PopenObject) := []
  process : Process
  started : List Int := []
  reaped : List Int := []
  calls : List ChildCall := []
  terminated : Bool := false
deriving DecidableEq

namespace PopenObjects

/-- The live object numbered `o`. -/
def object? (s : PopenObjects) (o : ℕ) : Option PopenObject := s.objects[o]?.join

/-- The pids of the objects. -/
def holders (s : PopenObjects) : List (Option Pid) := s.objects.map (Option.map PopenObject.pid)

/-- The number of live objects that hold the pid. -/
def owners (s : PopenObjects) (pid : Int) : ℕ := s.holders.count (some ⟨pid⟩)

/-- A child is reaped when `waitid` returns for its exit. -/
def reap (s : PopenObjects) (id : Int) : WaitidOutcome → PopenObjects
  | .exited _ _ => { s with
      process := { s.process with children := s.process.children.erase id.toNat }
      reaped := s.reaped ++ [id] }
  | _ => s

/-- `wait` (`options` is `WEXITED`) and `poll` (with `WNOHANG`) of the object `o`. -/
def wait (s : PopenObjects) (o : ℕ) (options : UInt32) (outcome : WaitidOutcome) :
    Option (Except ChildError Status × PopenObjects) :=
  (s.object? o).bind fun popen =>
    let (result, popen') := popen.wait outcome
    let s' := { s with objects := s.objects.set o (some popen') }
    if ¬ popen.hasPid then some (result, s')
    else if outcome.Possible s.process popen.pid.get options then
      let call := ChildCall.mk (.waitid options) popen.pid.get s.process.pids
      some (result, { s'.reap popen.pid.get outcome with calls := s.calls ++ [call] })
    else none

/-- `signal` of the object `o`. -/
def signal (s : PopenObjects) (o : ℕ) (signal : Int) (failure : Option Errno) :
    Option (Except ChildError Unit × PopenObjects) :=
  (s.object? o).map fun popen =>
    let call := ChildCall.mk (.kill signal) popen.pid.get s.process.pids
    (popen.signal failure, if popen.hasPid then { s with calls := s.calls ++ [call] } else s)

/-- The constructor. When it throws because the child has not called `execve`, it has waited for
the child. -/
def construct (s : PopenObjects) (streams : Streams) (calls : SystemCalls) : PopenObjects :=
  match clone streams calls s.process with
  | (.ok popen, p) => { s with
      objects := s.objects ++ [some (.ofPopen popen)]
      process := p
      started := s.started ++ [(popen.pid : Int)] }
  | (.error (.executionFailed _), p) => { s with
      process := p
      calls := s.calls ++ calls.clone.toOption.toList.map fun pid =>
        ⟨.waitid WEXITED, pid, pid :: s.process.pids⟩ }
  | (.error _, p) => { s with process := p }

/-- No child that was not reaped has the pid of a new one. -/
def FreshPid (s : PopenObjects) (calls : SystemCalls) : Prop :=
  ∀ pid ∈ calls.clone.toOption, 0 < pid ∧ pid ∉ s.process.children

instance (s : PopenObjects) (calls : SystemCalls) : Decidable (s.FreshPid calls) :=
  inferInstanceAs (Decidable (∀ pid ∈ calls.clone.toOption, _))

end PopenObjects

/-- The operations on `popen` objects. A constructor that does not throw makes the next object. -/
inductive PopenOp where
  | construct (streams : Streams) (calls : SystemCalls)
  /-- `popen()`. -/
  | defaultConstruct
  /-- `popen(std::move(src))`. -/
  | moveConstruct (src : ℕ)
  /-- `dst = std::move(src)`. -/
  | moveAssign (dst src : ℕ)
  /-- `a.swap(b)`. -/
  | swap (a b : ℕ)
  | wait (o : ℕ) (outcome : WaitidOutcome)
  | poll (o : ℕ) (outcome : WaitidOutcome)
  | signal (o : ℕ) (signal : Int) (failure : Option Errno)
  /-- The destructor. -/
  | destroy (o : ℕ)

/-- What an operation does. -/
def PopenObjects.apply (s : PopenObjects) : PopenOp → Option PopenObjects
  | .construct streams calls =>
    if s.FreshPid calls then some (s.construct streams calls) else none
  | .defaultConstruct => some { s with objects := s.objects ++ [some {}] }
  | .moveConstruct src =>
    (s.object? src).map fun popen =>
      -- the members of the tuple blank their sources
      { s with objects := s.objects.set src (some {}) ++ [some popen] }
  | .moveAssign dst src =>
    (s.object? dst).bind fun _ => (s.object? src).map fun popen =>
      -- `status` checks for self-assignment; the others write `this` and then blank `other`
      let left : PopenObject := { status := if dst = src then popen.status else {} }
      { s with objects := (s.objects.set dst (some popen)).set src (some left) }
  | .swap a b =>
    (s.object? a).bind fun popen => (s.object? b).map fun popen' =>
      { s with objects := (s.objects.set a (some popen')).set b (some popen) }
  | .wait o outcome => (s.wait o WEXITED outcome).map Prod.snd
  | .poll o outcome => (s.wait o (WEXITED ||| WNOHANG) outcome).map Prod.snd
  | .signal o signal failure => (s.signal o signal failure).map Prod.snd
  | .destroy o =>
    (s.object? o).map fun popen =>
      if popen.hasPid then { s with terminated := true }
      else { s with
        objects := s.objects.set o none
        process := { s.process with
          table := popen.closes.foldl DescriptorTable.close s.process.table } }

/-- One operation of the program, unless it was terminated. -/
def popenStep : Machine PopenObjects PopenOp := fun s op =>
  if s.terminated then none else s.apply op

/-- Every child that a constructor has started is held by one object or was reaped, unless the
program was terminated. -/
def ChildrenKept (s : PopenObjects) : Prop :=
  s.terminated = true ∨ ∀ pid, pid ≠ invalidPid →
    s.owners pid ≤ 1 ∧ s.started.count pid = s.owners pid + s.reaped.count pid

/-- The operation is not a move assignment to an object that holds a pid. -/
def NotOntoChild (s : PopenObjects) (op : PopenOp) : Prop :=
  ∀ dst src popen, op = .moveAssign dst src → s.object? dst = some popen → popen.hasPid = false

/-- The operation leaves the object `o` where it is. -/
def LeavesAlone (o : ℕ) : PopenOp → Prop
  | .moveConstruct src => src ≠ o
  | .moveAssign dst src => dst ≠ o ∧ src ≠ o
  | .swap a b => a ≠ o ∧ b ≠ o
  | .destroy o' => o' ≠ o
  | _ => True

end Linuxpp.Subprocess
