import Linuxpp.Subprocess.Popen

/-!
# What a configuration of streams means

The child's standard descriptors are to refer to its ends of the streams, the parent keeps the
opposite ends of pipes, and a constructor that throws leaves nothing behind. Each comes with the
condition on the descriptors under which `popen` achieves it.
-/

namespace Linuxpp.Subprocess

def SubprocessDescriptor.get (d : SubprocessDescriptor) : StdStream → StreamDescriptors
  | .stdin => d.stdin
  | .stdout => d.stdout
  | .stderr => d.stderr

/-- The descriptor of a stream that is meant for the child. -/
def SubprocessDescriptor.childFd (d : SubprocessDescriptor) : StdStream → Int
  | .stdin => d.stdin.readFd
  | .stdout => d.stdout.writeFd
  | .stderr => d.stderr.writeFd

/-- The descriptor of a stream that is meant for the parent. -/
def SubprocessDescriptor.otherFd (d : SubprocessDescriptor) : StdStream → Int
  | .stdin => d.stdin.writeFd
  | .stdout => d.stdout.readFd
  | .stderr => d.stderr.readFd

def Popen.get (popen : Popen) : StdStream → Int
  | .stdin => popen.stdin.get
  | .stdout => popen.stdout.get
  | .stderr => popen.stderr.get

/-- The descriptors of a stream. -/
def StreamDescriptors.Uses (d : StreamDescriptors) (fd : Int) : Prop :=
  fd = d.readFd ∨ fd = d.writeFd

instance (d : StreamDescriptors) (fd : Int) : Decidable (d.Uses fd) :=
  inferInstanceAs (Decidable (_ ∨ _))

/-- The stream is not over a descriptor that is closed. -/
def Stream.OverOpen (t : FdTable) : Stream → Prop
  | .fdStream readFd writeFd => t.get readFd ≠ none ∧ t.get writeFd ≠ none
  | _ => True

/-- The `fd_stream`s are over descriptors that are open. -/
def Streams.OverOpen (streams : Streams) (t : FdTable) : Prop :=
  ∀ s st, streams.get s = some st → st.OverOpen t

/-- The other end of the same pipe. -/
def OpenFile.opposite : OpenFile → Option OpenFile
  | .pipeRead id => some (.pipeWrite id)
  | .pipeWrite id => some (.pipeRead id)
  | _ => none

/-- The standard descriptors of a child with the table `t` are as configured; `before` and `opened`
are the tables of the parent before and after the streams were opened. -/
def Wired (streams : Streams) (before opened : FdTable) (d : SubprocessDescriptor) (t : FdTable) :
    Prop :=
  ∀ s : StdStream, t.get s.fileno =
    if (streams.get s).isSome then opened.get (d.childFd s) else before.get s.fileno

/-- What the `popen` object keeps of a pipe is the opposite of the end that the child gets. -/
def KeepsPipeEnds (streams : Streams) (calls : SystemCalls) (p : Process) (opened : FdTable)
    (d : SubprocessDescriptor) : Prop :=
  ∀ popen p', clone streams calls p = (.ok popen, p') →
    ∀ s, streams.get s = some .pipeStream → ∃ childEnd parentEnd,
      opened.get (d.childFd s) = some childEnd ∧ childEnd.opposite = some parentEnd ∧
      p'.table.get (popen.get s) = some parentEnd

/-- No stream's descriptor for the child is its own target, none of its descriptors is the target of
an earlier stream, and none is a standard descriptor that was open and is to be left alone. -/
structure StreamsUndisturbed (streams : Streams) (before : FdTable) (d : SubprocessDescriptor) :
    Prop where
  own : ∀ s, streams.get s ≠ none → d.childFd s ≠ s.fileno
  earlier : ∀ s s', streams.get s ≠ none → streams.get s' ≠ none → s.fileno < s'.fileno →
    ¬ (d.get s').Uses s.fileno
  unconfigured : ∀ s s', streams.get s = none → streams.get s' ≠ none →
    (d.get s').Uses s.fileno → before.get s.fileno = none

/-- The descriptor of a stream for the child is not a descriptor of an earlier stream. -/
def StreamsApart (streams : Streams) (d : SubprocessDescriptor) : Prop :=
  ∀ s s', streams.get s ≠ none → streams.get s' ≠ none → s.fileno < s'.fileno →
    ¬ (d.get s).Uses (d.childFd s')

/-- No system call of the child before `exec` fails for a reason of its own. -/
structure SystemCalls.ChildSucceeds (calls : SystemCalls) : Prop where
  dup2Stdin : calls.dup2Stdin = none
  dup2Stdout : calls.dup2Stdout = none
  dup2Stderr : calls.dup2Stderr = none
  getrlimit : ∃ rlimCur, calls.getrlimit = .ok rlimCur
  pthreadSigmask : calls.pthreadSigmask = none

/-- The entries that the scan of `/proc/self/fd` returns. -/
def ProcScan.names : ProcScan → List (Option Int)
  | entries names _ => names
  | _ => []

/-- The scan returns entries, and then nothing. -/
def ProcScan.Complete : ProcScan → Prop
  | entries names ending => names ≠ [] ∧ ending = none
  | _ => False

instance : DecidablePred ProcScan.Complete := fun scan =>
  match scan with
  | .entries _ _ => inferInstanceAs (Decidable (_ ∧ _))
  | .opendirFails _ | .dirfdFails _ => isFalse id

/-- The descriptor is open in the table that the child gets, is no standard one, and is not one of a
stream. -/
structure Foreign (d : SubprocessDescriptor) (t : FdTable) (fd : Int) : Prop where
  isOpen : t.get fd ≠ none
  notStd : fd ≠ 0 ∧ fd ≠ 1 ∧ fd ≠ 2
  notStream : ∀ s, (d.get s).toBool = true → ¬ (d.get s).Uses fd

/-- A scan that is complete has an entry for every descriptor that is open. -/
def ProcScan.ListsOpen (scan : ProcScan) (d : SubprocessDescriptor) (t : FdTable) : Prop :=
  scan.Complete → ∀ fd, Foreign d t fd → some fd ∈ scan.names

/-- No descriptor but the standard ones is open. -/
def OnlyStandardOpen (t : FdTable) : Prop := ∀ fd, t.get fd ≠ none → fd = 0 ∨ fd = 1 ∨ fd = 2

/-- What is foreign and has no entry in the scan is below `static_cast<int>(rlim_cur)`, which is
negative for `RLIM_INFINITY`. -/
def UnlistedBelowLimit (calls : SystemCalls) (d : SubprocessDescriptor) (t : FdTable) : Prop :=
  ∀ rlimCur, calls.getrlimit = .ok rlimCur → ∀ fd, Foreign d t fd →
    some fd ∉ calls.scan.names → fd < Int.bmod rlimCur 0x100000000

/-- The stream is configured, and its `open` makes new descriptors. -/
def opensSome (s : Option Stream) : Bool := s.any Stream.opens

/-- The streams in the order in which they are opened, each with the error of its system call. -/
def openCalls (streams : Streams) (calls : SystemCalls) : List (Option Stream × Option Errno) :=
  [(streams.stdin, calls.openStdin), (streams.stdout, calls.openStdout),
    (streams.stderr, calls.openStderr)]

/-- The first stream that would open something fails to, or there is none. -/
def NothingOpened : List (Option Stream × Option Errno) → Prop
  | [] => True
  | (s, failure) :: rest => if opensSome s then failure ≠ none else NothingOpened rest

end Linuxpp.Subprocess
