import Linuxpp.Subprocess.StandardStreams

/-!
# The child of `popen`, call by call

The child and the constructor once more, with every system call that they make and the value that
the child stores in `child_status`, which the parent reads. What the calls of `close` do is a
parameter too: `closes n` is the error of the one that is the `n`-th of the child's calls.
-/

namespace Linuxpp.Subprocess

/-- The system calls of the constructor and of the child. -/
inductive SystemCall where
  /-- The `open` or `pipe2` of a stream. -/
  | openStream
  | clone
  | close (fd : Int)
  | dup2 (oldFd newFd : Int)
  | opendir
  | dirfd
  | readdir
  | closedir
  | getrlimit
  | pthreadSigmask
  | execve
deriving DecidableEq, Repr

/-- Calls that may fail without the child giving up. -/
def SystemCall.Tolerated : SystemCall → Prop
  | close _ | opendir | dirfd | readdir | closedir => True
  | _ => False

instance : DecidablePred SystemCall.Tolerated := fun call =>
  match call with
  | .close _ | .opendir | .dirfd | .readdir | .closedir => isTrue trivial
  | .openStream | .clone | .dup2 _ _ | .getrlimit | .pthreadSigmask | .execve => isFalse id

/-- A system call that was made, and the error with which it failed. -/
structure SystemCallEvent where
  call : SystemCall
  failure : Option Errno
deriving DecidableEq

/-- The error of a call that is not tolerated. -/
def SystemCallEvent.abandons (e : SystemCallEvent) : Option Errno :=
  if e.call.Tolerated then none else e.failure

/-- The child: its descriptors, the shared `child_status`, and the calls that it has made. -/
structure Child where
  table : FdTable
  childStatus : ℕ := 0
  trace : List SystemCallEvent := []

namespace Child

/-- A call is made. -/
def record (c : Child) (call : SystemCall) (failure : Option Errno) : Child :=
  { c with trace := c.trace ++ [⟨call, failure⟩] }

/-- `child_status.store(errno)`. -/
def store (c : Child) (errno : Errno) : Child := { c with childStatus := errno.value }

/-- `::dup2`: its error, if it fails. -/
def dup2 (oldFd newFd : Int) (failure : Option Errno) (c : Child) : Option Errno × Child :=
  match failure with
  | some errno => (some errno, c.record (.dup2 oldFd newFd) (some errno))
  | none =>
    match c.table.dup2 oldFd newFd with
    | none => (some .EBADF, c.record (.dup2 oldFd newFd) (some .EBADF))
    | some t => (none, { c with table := t }.record (.dup2 oldFd newFd) none)

/-- `popen_execve`: the exit code, or nothing if the program is executed. -/
def popenExecve (calls : SystemCalls) (c : Child) : Option ℕ × Child :=
  match calls.execve with
  | some errno => (some 1, (c.record .execve (some errno)).store errno)
  | none => (none, c.record .execve none)

section Closes

variable (closes : ℕ → Option Errno)

/-- `::close`, whose errors are ignored. -/
def close (fd : Int) (c : Child) : Child :=
  { c with table := c.table.close fd }.record (.close fd) (closes c.trace.length)

/-- `::closedir`, whose errors are ignored. -/
def closedir (dirfd : Int) (c : Child) : Child :=
  { c with table := c.table.close dirfd }.record .closedir (closes c.trace.length)

/-- `handle_child_stream`. -/
def handleChildStream (ownedFd otherFd newFd : Int) (failure : Option Errno) (c : Child) :
    Bool × Child :=
  let c := if otherFd ≠ ownedFd then c.close closes otherFd else c
  match c.dup2 ownedFd newFd failure with
  | (some errno, c) => (false, c.store errno)
  | (none, c) => (true, c.close closes ownedFd)

/-- A stream in `clone_handler`. -/
def setUpStream (stream : StreamDescriptors) (ownedFd otherFd newFd : Int)
    (failure : Option Errno) (c : Child) : Bool × Child :=
  if stream.toBool then c.handleChildStream closes ownedFd otherFd newFd failure else (true, c)

/-- An entry of the scan. -/
def closeEntry (dirfd : Int) (c : Child) : Option Int → Child
  | some fd => if fd ≠ 0 ∧ fd ≠ 1 ∧ fd ≠ 2 ∧ fd ≠ dirfd then c.close closes fd else c
  | none => c

/-- The calls of `readdir` for these entries, and what the scan returns. -/
def readEntries (dirfd : Int) : List (Option Int) → Option Errno → Child → ℕ × Child
  | [], some errno, c => (errno.value, c.record .readdir (some errno))
  | [], none, c => (0, c.record .readdir none)
  | name :: names, ending, c =>
    readEntries dirfd names ending (closeEntry closes dirfd (c.record .readdir none) name)

/-- `close_all_descriptors_via_proc`. -/
def closeAllDescriptorsViaProc (scan : ProcScan) (c : Child) : ℕ × Child :=
  match scan with
  | .opendirFails errno => (errno.value, c.record .opendir (some errno))
  | .dirfdFails errno =>
    let dirfd := c.table.lowestFree
    let c := { c with table := c.table.insert .procSelfFd }.record .opendir none
    (errno.value, (c.record .dirfd (some errno)).closedir closes dirfd)
  | .entries names ending =>
    let dirfd := c.table.lowestFree
    let c := { c with table := c.table.insert .procSelfFd }.record .opendir none
    let c := c.record .dirfd none
    -- the directory without entries
    if names = [] ∧ ending = none then
      (Errno.ENOENT.value, (c.record .readdir none).closedir closes dirfd)
    else
      let (status, c) := c.readEntries closes dirfd names ending
      (status, c.closedir closes dirfd)

/-- One pass of the loop that closes the descriptors by brute force. -/
def closeDescriptor (c : Child) (i : ℕ) : Child :=
  if i = 0 ∨ i = 1 ∨ i = 2 then c else c.close closes i

/-- The loop up to `static_cast<int>(rlim_cur)`. -/
def closeByForce (rlimCur : ℕ) (c : Child) : Child :=
  (List.range (Int.bmod rlimCur 0x100000000).toNat).foldl (closeDescriptor closes) c

/-- The part of `clone_handler` that closes the other descriptors; an exit code if it gives up. -/
def closeDescriptors (calls : SystemCalls) (c : Child) : Option ℕ × Child :=
  let (closeViaProc, c) := c.closeAllDescriptorsViaProc closes calls.scan
  if closeViaProc ≠ 0 then
    match calls.getrlimit with
    | .error errno => (some 6, (c.record .getrlimit (some errno)).store errno)
    | .ok rlimCur =>
      let c := c.record .getrlimit none
      (none, if rlimCur ≠ RLIM_INFINITY then c.closeByForce closes rlimCur else c)
  else (none, c)

/-- `clone_handler`: the exit code, or nothing if the program is executed. -/
def cloneHandler (policy : SubprocessDescriptor) (calls : SystemCalls) (c : Child) :
    Option ℕ × Child :=
  match c.setUpStream closes policy.stdin policy.stdin.readFd policy.stdin.writeFd 0
      calls.dup2Stdin with
  | (false, c) => (some 2, c)
  | (true, c) =>
    match c.setUpStream closes policy.stdout policy.stdout.writeFd policy.stdout.readFd 1
        calls.dup2Stdout with
    | (false, c) => (some 3, c)
    | (true, c) =>
      match c.setUpStream closes policy.stderr policy.stderr.writeFd policy.stderr.readFd 2
          calls.dup2Stderr with
      | (false, c) => (some 4, c)
      | (true, c) =>
        match c.closeDescriptors closes calls with
        | (some code, c) => (some code, c)
        | (none, c) =>
          match calls.pthreadSigmask with
          | some errno => (some 5, (c.record .pthreadSigmask (some errno)).store errno)
          | none => (c.record .pthreadSigmask none).popenExecve calls

end Closes
end Child

/-- The error that the exception carries. -/
def PopenError.errno : PopenError → Errno
  | pipe2Failed errno | openFailed _ errno | cloneFailed errno | executionFailed errno => errno

/-- The calls that open the streams, up to the first that fails. -/
def openTrace : List (Option Stream × Option Errno) → List SystemCallEvent
  | [] => []
  | (s, failure) :: rest =>
    if opensSome s then
      match failure with
      | some errno => [⟨.openStream, some errno⟩]
      | none => ⟨.openStream, none⟩ :: openTrace rest
    else openTrace rest

/-- What a call of the constructor comes to: its result, the process after it, and the system calls
that were made. -/
structure ConstructorRun where
  result : Except PopenError Popen
  process : Process
  trace : List SystemCallEvent

/-- The constructor, which goes by what the child has stored. -/
def construct (streams : Streams) (calls : SystemCalls) (closes : ℕ → Option Errno)
    (p : Process) : ConstructorRun :=
  let opening := openTrace (openCalls streams calls)
  match openStreams streams calls p with
  | (.error e, p) => ⟨.error e, p, opening⟩
  | (.ok descriptor, p) =>
    match calls.clone with
    | .error errno => ⟨.error (.cloneFailed errno), p, opening ++ [⟨.clone, some errno⟩]⟩
    | .ok pid =>
      let forked := { p with children := pid :: p.children }
      let child := (Child.cloneHandler closes descriptor calls { table := p.table }).2
      let trace := opening ++ ⟨.clone, none⟩ :: child.trace
      if h : 0 < child.childStatus then
        ⟨.error (.executionFailed ⟨child.childStatus, h⟩), forked.waitid pid calls.waitid, trace⟩
      else
        let (popen, p) := keepParentEnds descriptor pid forked
        ⟨.ok popen, p, trace⟩

/-- The error of a call that failed. -/
def failureOf {α : Type} : Except Errno α → Option Errno
  | .error errno => some errno
  | .ok _ => none

/-- The outcome that `calls` has for the `dup2` onto `newFd`. -/
def SystemCalls.dup2 (calls : SystemCalls) (newFd : Int) : Option Errno :=
  if newFd = 0 then calls.dup2Stdin else if newFd = 1 then calls.dup2Stdout else calls.dup2Stderr

/-- The error of `opendir`. -/
def ProcScan.opendirFailure : ProcScan → Option Errno
  | .opendirFails errno => some errno
  | _ => none

/-- The error of `dirfd`. -/
def ProcScan.dirfdFailure : ProcScan → Option Errno
  | .dirfdFails errno => some errno
  | _ => none

/-- The error of the last `readdir`. -/
def ProcScan.readdirFailure : ProcScan → Option Errno
  | .entries _ ending => ending
  | _ => none

/-- A call of the child has the outcome that it is given, `closed` if it closes something. A `dup2`
that is let succeed may still find its descriptor closed. -/
def SystemCalls.Give (calls : SystemCalls) (closed : Option Errno) (e : SystemCallEvent) : Prop :=
  match e.call with
  | .openStream | .clone => False
  | .close _ | .closedir => e.failure = closed
  | .dup2 _ newFd =>
    e.failure = calls.dup2 newFd ∨ calls.dup2 newFd = none ∧ e.failure = some .EBADF
  | .opendir => e.failure = calls.scan.opendirFailure
  | .dirfd => e.failure = calls.scan.dirfdFailure
  | .readdir => e.failure = none ∨ e.failure = calls.scan.readdirFailure
  | .getrlimit => e.failure = failureOf calls.getrlimit
  | .pthreadSigmask => e.failure = calls.pthreadSigmask
  | .execve => e.failure = calls.execve

/-- Every call that the child has made had the outcome that it was given. -/
def AsGiven (calls : SystemCalls) (closes : ℕ → Option Errno) (events : List SystemCallEvent) :
    Prop :=
  ∀ n e, events[n]? = some e → calls.Give (closes n) e

end Linuxpp.Subprocess
