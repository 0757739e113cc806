import Linuxpp.Subprocess.Streams

/-!
# The constructor of `popen`

The child is created without `CLONE_FILES`, so it works on a copy of the parent's descriptor table,
and with `CLONE_VM` and `CLONE_VFORK`, so the parent goes on with what the child stored in
`child_status` once the child has called `execve` or has exited.

The answers of the system calls are given by `SystemCalls`. `dup2` fails with `EBADF` by itself.
-/

namespace Linuxpp.Subprocess

/-- `RLIM_INFINITY`. -/
def RLIM_INFINITY : ℕ := 0xffffffffffffffff

/-- The outcomes of the scan of `/proc/self/fd`. -/
inductive ProcScan where
  | opendirFails (errno : Errno)
  | dirfdFails (errno : Errno)
  /-- `readdir` returns these entries, and then nothing or an error. An entry stands for what
  `strtoi` makes of its name. -/
  | entries (names : List (Option Int)) (ending : Option Errno)
deriving DecidableEq

/-- The answers of the system calls that the constructor and the child make. -/
structure SystemCalls where
  openStdin : Option Errno := none
  openStdout : Option Errno := none
  openStderr : Option Errno := none
  clone : Except Errno ℕ
  dup2Stdin : Option Errno := none
  dup2Stdout : Option Errno := none
  dup2Stderr : Option Errno := none
  scan : ProcScan
  getrlimit : Except Errno ℕ
  pthreadSigmask : Option Errno := none
  execve : Option Errno := none
  waitid : Option Errno := none

/-- The members `stdin`, `stdout` and `stderr` of `subprocess_descriptor`. -/
structure SubprocessDescriptor where
  stdin : StreamDescriptors := {}
  stdout : StreamDescriptors := {}
  stderr : StreamDescriptors := {}
deriving DecidableEq, Repr

/-- `handle_child_stream`. -/
def handleChildStream (ownedFd otherFd newFd : Int) (failure : Option Errno) (t : FdTable) :
    Except Errno FdTable :=
  let t := if otherFd ≠ ownedFd then t.close otherFd else t
  match failure with
  | some errno => .error errno
  | none =>
    match t.dup2 ownedFd newFd with
    | none => .error .EBADF
    | some t => .ok (t.close ownedFd)

/-- An entry of the scan. -/
def closeEntry (dirfd : Int) (t : FdTable) : Option Int → FdTable
  | some fd => if fd ≠ 0 ∧ fd ≠ 1 ∧ fd ≠ 2 ∧ fd ≠ dirfd then t.close fd else t
  | none => t

/-- `close_all_descriptors_via_proc`. The directory is closed on every way out. -/
def closeAllDescriptorsViaProc (t : FdTable) : ProcScan → Option Errno × FdTable
  | .opendirFails errno => (some errno, t)
  | .dirfdFails errno => (some errno, (t.insert .procSelfFd).close t.lowestFree)
  | .entries names ending =>
    let dirfd := t.lowestFree
    let t := t.insert .procSelfFd
    match names, ending with
    | [], some errno => (some errno, t.close dirfd)
    | [], none => (some .ENOENT, t.close dirfd)
    | names, ending => (ending, (names.foldl (closeEntry dirfd) t).close dirfd)

/-- One pass of the loop that closes the descriptors by brute force. -/
def closeDescriptor (t : FdTable) (i : ℕ) : FdTable :=
  if i = 0 ∨ i = 1 ∨ i = 2 then t else t.close i

/-- The loop up to `static_cast<int>(rlim_cur)`. -/
def closeByForce (t : FdTable) (rlimCur : ℕ) : FdTable :=
  (List.range (Int.bmod rlimCur 0x100000000).toNat).foldl closeDescriptor t

/-- A stream in `clone_handler`; the child exits with `code` when it cannot be set up. -/
def setUpStream (stream : StreamDescriptors) (ownedFd otherFd newFd : Int) (code : ℕ)
    (failure : Option Errno) (t : FdTable) : Except (ℕ × Errno) FdTable :=
  if stream.toBool then
    match handleChildStream ownedFd otherFd newFd failure t with
    | .ok t => .ok t
    | .error errno => .error (code, errno)
  else .ok t

/-- The part of `clone_handler` that closes the other descriptors. -/
def closeDescriptors (calls : SystemCalls) (t : FdTable) : Except (ℕ × Errno) FdTable :=
  match closeAllDescriptorsViaProc t calls.scan with
  | (none, t) => .ok t
  | (some _, t) =>
    match calls.getrlimit with
    | .error errno => .error (6, errno)
    | .ok rlimCur => .ok (if rlimCur ≠ RLIM_INFINITY then closeByForce t rlimCur else t)

/-- `clone_handler` up to the call of `exec`, which gets the resulting table. A child that gives up
exits with a code and leaves an error in `child_status`. -/
def cloneHandler (policy : SubprocessDescriptor) (calls : SystemCalls) (t : FdTable) :
    Except (ℕ × Errno) FdTable := do
  let t ← setUpStream policy.stdin policy.stdin.readFd policy.stdin.writeFd 0 2 calls.dup2Stdin t
  let t ←
    setUpStream policy.stdout policy.stdout.writeFd policy.stdout.readFd 1 3 calls.dup2Stdout t
  let t ←
    setUpStream policy.stderr policy.stderr.writeFd policy.stderr.readFd 2 4 calls.dup2Stderr t
  let t ← closeDescriptors calls t
  match calls.pthreadSigmask with
  | some errno => .error (5, errno)
  | none => .ok t

/-- `child_status` when the child has called `execve`, in `popen_execve`, or has exited. -/
def childStatus (policy : SubprocessDescriptor) (calls : SystemCalls) (t : FdTable) :
    Option Errno :=
  match cloneHandler policy calls t with
  | .error (_, errno) => some errno
  | .ok _ => calls.execve

/-- `handle_parent_stream`. -/
def handleParentStream (parentFd childFd : Int) (t : FdTable) : Int × FdTable :=
  (if parentFd ≠ childFd then parentFd else closedFd, t.close childFd)

/-- The members of `popen` that the constructor assigns. -/
structure Popen where
  pid : ℕ
  stdin : UniqueFd := {}
  stdout : UniqueFd := {}
  stderr : UniqueFd := {}
deriving DecidableEq, Repr

/-- `open` of a stream that may not be configured. -/
def openStream (s : Option Stream) (p : Process) (failure : Option Errno) :
    Except PopenError StreamDescriptors × Process :=
  match s with
  | none => (.ok {}, p)
  | some s => s.openFds p failure

/-- The part of `clone` that opens the streams. -/
def openStreams (streams : Streams) (calls : SystemCalls) (p : Process) :
    Except PopenError SubprocessDescriptor × Process :=
  match openStream streams.stdin p calls.openStdin with
  | (.error e, p) => (.error e, p)
  | (.ok stdin, p) =>
    match openStream streams.stdout p calls.openStdout with
    | (.error e, p) => (.error e, p)
    | (.ok stdout, p) =>
      match openStream streams.stderr p calls.openStderr with
      | (.error e, p) => (.error e, p)
      | (.ok stderr, p) => (.ok ⟨stdin, stdout, stderr⟩, p)

/-- `waitid` for a child of the process. -/
def Process.waitid (p : Process) (pid : ℕ) (failure : Option Errno) : Process :=
  match failure with
  | some _ => p
  | none => { p with children := p.children.erase pid }

/-- A stream at the end of `clone`: what its member of `popen` is reset to, and what is closed. -/
def keepParentEnd (stream : StreamDescriptors) (parentFd childFd : Int) (t : FdTable) :
    UniqueFd × FdTable :=
  let member : UniqueFd := {}
  if stream.toBool then
    let (fd, t) := handleParentStream parentFd childFd t
    let (member, closes) := member.reset fd
    (member, closes.foldl DescriptorTable.close t)
  else (member, t)

/-- The end of `clone`: what the parent keeps of the streams. -/
def keepParentEnds (policy : SubprocessDescriptor) (pid : ℕ) (p : Process) : Popen × Process :=
  let (stdin, table) :=
    keepParentEnd policy.stdin policy.stdin.writeFd policy.stdin.readFd p.table
  let (stdout, table) :=
    keepParentEnd policy.stdout policy.stdout.readFd policy.stdout.writeFd table
  let (stderr, table) :=
    keepParentEnd policy.stderr policy.stderr.readFd policy.stderr.writeFd table
  (⟨pid, stdin, stdout, stderr⟩, { p with table := table })

/-- `popen::clone`, and with it the constructor. -/
def clone (streams : Streams) (calls : SystemCalls) (p : Process) :
    Except PopenError Popen × Process :=
  match openStreams streams calls p with
  | (.error e, p) => (.error e, p)
  | (.ok descriptor, p) =>
    match calls.clone with
    | .error errno => (.error (.cloneFailed errno), p)
    | .ok pid =>
      let child := { p with children := pid :: p.children }
      match childStatus descriptor calls p.table with
      | some execStatus =>
        (.error (.executionFailed execStatus), child.waitid pid calls.waitid)
      | none =>
        let (popen, p) := keepParentEnds descriptor pid child
        (.ok popen, p)

end Linuxpp.Subprocess
