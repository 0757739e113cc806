import Linuxpp.Foundations.Custody
import Linuxpp.Foundations.References
import Linuxpp.Foundations.Slots
import Linuxpp.Subprocess.PopenObjects
import Linuxpp.Subprocess.StandardStreams

/-!
# A program and the children that it has executed

Besides what it does with `popen` objects, the program opens and closes descriptors of its own, and
uses what `stdin()`, `stdout()` and `stderr()` return. A child that has called `execve` goes its own
way. `pipe_fd` opens the ends of a pipe with `O_CLOEXEC`, and a copy that `dup2` makes is without it,
so that `execve` closes all the ends of pipes but the child's own.
-/

namespace Linuxpp.Subprocess

/-- An end of a pipe. -/
inductive PipeEnd where
  | read (id : ℕ)
  | write (id : ℕ)
deriving DecidableEq, Repr

/-- The pipe that it is an end of. -/
def PipeEnd.id : PipeEnd → ℕ
  | read id | write id => id

def PipeEnd.other : PipeEnd → PipeEnd
  | read id => write id
  | write id => read id

/-- The end of a pipe stream that is meant for the child. -/
def StdStream.childEnd (id : ℕ) : StdStream → PipeEnd
  | stdin => .read id
  | stdout | stderr => .write id

/-- What a descriptor for the end refers to. -/
def PipeEnd.file : PipeEnd → OpenFile
  | read id => .pipeRead id
  | write id => .pipeWrite id

def OpenFile.isPipeEnd : OpenFile → Bool
  | .pipeRead _ | .pipeWrite _ => true
  | _ => false

section Execve

/-- The descriptor is one that `clone_handler` has set up with `dup2`. -/
def SubprocessDescriptor.setsUp (d : SubprocessDescriptor) (fd : Int) : Bool :=
  (d.stdin.toBool && fd = 0) || (d.stdout.toBool && fd = 1) || (d.stderr.toBool && fd = 2)

/-- `execve`, after `clone_handler`. -/
def FdTable.execve (d : SubprocessDescriptor) (t : FdTable) : FdTable :=
  t.closeWhere fun fd file => file.isPipeEnd && !d.setsUp fd

/-- The table of the program that a constructor of `popen` executes, if it does. -/
def executedTable (streams : Streams) (calls : SystemCalls) (p : Process) : Option FdTable :=
  match openStreams streams calls p with
  | (.error _, _) => none
  | (.ok d, p) =>
    if calls.clone.toOption.isSome ∧ calls.execve = none then
      (cloneHandler d calls p.table).toOption.map (FdTable.execve d)
    else none

end Execve

/-- `stdin()`, `stdout()` and `stderr()`. -/
def PopenObject.stream (popen : PopenObject) : StdStream → UniqueFd
  | .stdin => popen.stdin
  | .stdout => popen.stdout
  | .stderr => popen.stderr

def PopenObject.withStream (popen : PopenObject) (s : StdStream) (u : UniqueFd) : PopenObject :=
  match s with
  | .stdin => { popen with stdin := u }
  | .stdout => { popen with stdout := u }
  | .stderr => { popen with stderr := u }

namespace PopenObjects

def withProcess (s : PopenObjects) (p : Process) : PopenObjects := { s with process := p }

/-- The descriptors are closed. -/
def closeAll (s : PopenObjects) (fds : List Int) : PopenObjects :=
  s.withProcess { s.process with table := fds.foldl DescriptorTable.close s.process.table }

/-- A stream of the object `o` is assigned to. -/
def setStream (s : PopenObjects) (o : ℕ) (popen : PopenObject) (stream : StdStream)
    (u : UniqueFd) : PopenObjects :=
  { s with objects := s.objects.set o (some (popen.withStream stream u)) }

end PopenObjects

/-- What the program does besides the operations on `popen` objects. -/
inductive ProgramOp where
  /-- `o.stdin().reset(fd)`, or the same with another stream. -/
  | reset (o : ℕ) (stream : StdStream) (fd : Int)
  /-- `o.stdin().release()`, or the same with another stream. -/
  | release (o : ℕ) (stream : StdStream)
  /-- `linuxpp::open`. -/
  | openPath (path : String) (failure : Option Errno)
  /-- `linuxpp::pipe_fd`. -/
  | openPipe (failure : Option Errno)
  /-- `::close`. -/
  | close (fd : Int)

/-- What such an operation does. -/
def PopenObjects.perform (s : PopenObjects) : ProgramOp → Option PopenObjects
  | .reset o stream fd =>
    (s.object? o).map fun popen =>
      let (u, closes) := (popen.stream stream).reset fd
      (s.setStream o popen stream u).closeAll closes
  | .release o stream =>
    (s.object? o).map fun popen => s.setStream o popen stream (popen.stream stream).release.2
  | .openPath path failure => some (s.withProcess (Subprocess.openPath path s.process failure).2)
  | .openPipe failure => some (s.withProcess (pipeFd s.process failure).2)
  | .close fd => some (s.closeAll [fd])

/-- A process that a constructor of `popen` has executed, or a descendant of it. -/
structure ChildProcess where
  /-- The number of the child, in the order in which they were started. -/
  origin : ℕ
  table : FdTable
deriving DecidableEq

/-- What a child does to its descriptors, or with them. -/
inductive ChildOp where
  | openFile (id : ℕ)
  | dup2 (source target : Int)
  | close (fd : Int)
  | fork
  | exit
deriving DecidableEq, Repr

/-- The program, and the processes of its children. -/
structure PopenSystem where
  program : PopenObjects
  children : List ChildProcess := []

namespace PopenSystem

/-- The child that an operation on `popen` objects executes. -/
def executed (c : PopenSystem) : PopenOp → List ChildProcess
  | .construct streams calls =>
    (executedTable streams calls c.program.process).toList.map fun table =>
      ⟨c.program.started.length, table⟩
  | _ => []

/-- A step of the process `i` among those of the children. -/
def childStep (c : PopenSystem) (i : ℕ) (op : ChildOp) : Option PopenSystem :=
  c.children[i]?.bind fun child =>
    let set := fun table => { c with children := c.children.set i { child with table := table } }
    match op with
    | .openFile id => some (set (child.table.insert (.file id)))
    | .dup2 source target => (child.table.dup2 source target).map set
    | .close fd => some (set (child.table.close fd))
    | .fork => some { c with children := c.children ++ [child] }
    | .exit => some { c with children := c.children.eraseIdx i }

end PopenSystem

/-- The steps of the program and of the processes of its children. -/
inductive SystemStep where
  | popen (op : PopenOp)
  | program (op : ProgramOp)
  | child (i : ℕ) (op : ChildOp)

/-- The program and its children, in any order of steps. -/
def systemStep : Machine PopenSystem SystemStep
  | c, .popen op =>
    (popenStep c.program op).map fun program => ⟨program, c.children ++ c.executed op⟩
  | c, .program op =>
    if c.program.terminated then none
    else (c.program.perform op).map fun program => { c with program := program }
  | c, .child i op => c.childStep i op

/-- Who can have a descriptor: the program, or a child with its descendants. -/
inductive Holder where
  | program
  | child (origin : ℕ)
deriving DecidableEq, Repr

namespace PopenSystem

/-- The holder has a descriptor for the end of the pipe. A program that was terminated has none. -/
def HeldBy (c : PopenSystem) : Holder → PipeEnd → Prop
  | .program, e => c.program.terminated = false ∧ c.program.process.table.Refers e.file
  | .child k, e => ∃ child ∈ c.children, child.origin = k ∧ child.table.Refers e.file

/-- The end is one of a pipe that was opened. -/
def Made (c : PopenSystem) (e : PipeEnd) : Prop := e.id < c.program.process.opened

/-- The program before it has constructed anything; what it was started with are files to it. -/
def init (table : FdTable) (opened : ℕ) : PopenSystem where
  program := { process := ⟨table, opened, []⟩ }

/-- Every end of every pipe has at most one holder. -/
def EndsHaveOneHolder (c : PopenSystem) : Prop :=
  ∀ e h h', c.HeldBy h e → c.HeldBy h' e → h = h'

/-- Nobody has a descriptor for the end: a read from the other end finds the end of the file, a
write to it fails with `EPIPE`. -/
def Closed (c : PopenSystem) (e : PipeEnd) : Prop := ∀ h, ¬ c.HeldBy h e

end PopenSystem

/-- The step is one by which the object `o` lets go of a stream: `reset`, or the destructor. -/
inductive LetsGo (o : ℕ) (stream : StdStream) : SystemStep → Prop
  | reset (fd : Int) : LetsGo o stream (.program (.reset o stream fd))
  | destroy : LetsGo o stream (.popen (.destroy o))

/-- No descriptor of the table is for a pipe. -/
def NoPipes (t : FdTable) : Prop := ∀ e : PipeEnd, ¬ t.Refers e.file

/-- The descriptors that the streams of the object have. -/
def PopenObject.fds (popen : PopenObject) : List Int :=
  [popen.stdin.get, popen.stdout.get, popen.stderr.get].filter (· ≠ closedFd)

namespace PopenObjects

/-- The number of streams of live objects that have the descriptor. -/
def fdOwners (s : PopenObjects) (fd : Int) : ℕ :=
  (s.objects.map fun popen => (popen.elim [] PopenObject.fds).count fd).sum

/-- Every stream of an object has a descriptor for itself, which is open. -/
structure StreamsOwn (s : PopenObjects) : Prop where
  one : ∀ fd, s.fdOwners fd ≤ 1
  isOpen : ∀ fd, 0 < s.fdOwners fd → s.process.table.get fd ≠ none

/-- The descriptor is open and no object has it. -/
structure Spare (s : PopenObjects) (fd : Int) : Prop where
  isOpen : s.process.table.get fd ≠ none
  unowned : s.fdOwners fd = 0

/-- The descriptors of the `fd_stream`s are the program's to give away, and each is given away
once. -/
structure GivesAway (s : PopenObjects) (streams : Streams) : Prop where
  spare : ∀ stream readFd writeFd, streams.get stream = some (.fdStream readFd writeFd) →
    s.Spare readFd ∧ s.Spare writeFd
  apart : ∀ stream stream' readFd writeFd readFd' writeFd', stream ≠ stream' →
    streams.get stream = some (.fdStream readFd writeFd) →
    streams.get stream' = some (.fdStream readFd' writeFd') →
    readFd ≠ readFd' ∧ readFd ≠ writeFd' ∧ writeFd ≠ readFd' ∧ writeFd ≠ writeFd'

end PopenObjects

/-- The program gives away and closes only descriptors that no object has. -/
def KeepsToItsOwn (c : PopenSystem) : SystemStep → Prop
  | .popen (.construct streams _) => c.program.GivesAway streams
  | .program (.reset _ _ fd) => fd = closedFd ∨ c.program.Spare fd
  | .program (.close fd) => c.program.fdOwners fd = 0
  | _ => True

/-- The step is not about the object `o`, or it only waits for its child or signals it. -/
def SystemStep.Spares (o : ℕ) : SystemStep → Prop
  | .popen op => LeavesAlone o op
  | .program (.reset o' _ _) | .program (.release o' _) => o' ≠ o
  | _ => True

end Linuxpp.Subprocess
