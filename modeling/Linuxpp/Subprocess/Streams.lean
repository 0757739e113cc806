import Linuxpp.Descriptor.UniqueFd
import Linuxpp.Foundations.DescriptorTable
import Linuxpp.Kernel.Errno

/-!
# Streams of a subprocess

The kinds of streams, and what their `open` does to the process that creates a subprocess.
-/

namespace Linuxpp.Subprocess

/-- What a descriptor refers to: a file, an end of a pipe, or the directory `/proc/self/fd`. Every
`open` and every `pipe2` makes new ones. -/
inductive OpenFile where
  | file (id : ℕ)
  | pipeRead (id : ℕ)
  | pipeWrite (id : ℕ)
  | procSelfFd
deriving DecidableEq, Repr

/-- The descriptor table of a process. -/
abbrev FdTable := DescriptorTable OpenFile

/-- The process that creates a subprocess: its descriptors, how many files and pipes it has opened,
and its children that were not waited for. -/
structure Process where
  table : FdTable
  opened : ℕ := 0
  children : List ℕ := []
deriving DecidableEq, Repr

/-- `stream_descriptors`. -/
structure StreamDescriptors where
  readFd : Int := closedFd
  writeFd : Int := closedFd
deriving DecidableEq, Repr

namespace StreamDescriptors

/-- The constructor for one descriptor. -/
def ofFd (fd : Int) : StreamDescriptors where
  readFd := fd
  writeFd := fd

/-- `operator bool`. -/
def toBool (d : StreamDescriptors) : Bool := d.readFd ≠ closedFd && d.writeFd ≠ closedFd

end StreamDescriptors

/-- The classes derived from `stream`. -/
inductive Stream where
  | pipeStream
  | pathStream (path : String)
  | nullStream
  | fdStream (readFd writeFd : Int)
deriving DecidableEq, Repr

/-- The standard streams. -/
inductive StdStream where
  | stdin
  | stdout
  | stderr
deriving DecidableEq, Repr

/-- `STDIN_FILENO`, `STDOUT_FILENO` and `STDERR_FILENO`. -/
def StdStream.fileno : StdStream → Int
  | stdin => 0
  | stdout => 1
  | stderr => 2

/-- `streams`; a stream that is not configured is a null pointer. -/
structure Streams where
  stdin : Option Stream := none
  stdout : Option Stream := none
  stderr : Option Stream := none
deriving DecidableEq, Repr

def Streams.get (s : Streams) : StdStream → Option Stream
  | .stdin => s.stdin
  | .stdout => s.stdout
  | .stderr => s.stderr

/-- What the constructor of `popen` throws. -/
inductive PopenError where
  | pipe2Failed (errno : Errno)
  | openFailed (path : String) (errno : Errno)
  | cloneFailed (errno : Errno)
  | executionFailed (execStatus : Errno)
deriving DecidableEq

/-- The text of the exception. -/
def PopenError.what : PopenError → String
  | pipe2Failed _ => "pipe2 failed"
  | openFailed path _ => path
  | cloneFailed _ => "clone failed"
  | executionFailed _ => "subprocess execution failed"

/-- `linuxpp::open`. `failure` is the error with which the system call fails. -/
def openPath (path : String) (p : Process) (failure : Option Errno) :
    Except PopenError StreamDescriptors × Process :=
  match failure with
  | some errno => (.error (.openFailed path errno), p)
  | none => (.ok (.ofFd p.table.lowestFree),
      { p with table := p.table.insert (.file p.opened), opened := p.opened + 1 })

/-- `pipe_fd`. -/
def pipeFd (p : Process) (failure : Option Errno) : Except PopenError StreamDescriptors × Process :=
  match failure with
  | some errno => (.error (.pipe2Failed errno), p)
  | none =>
    let table := p.table.insert (.pipeRead p.opened)
    (.ok ⟨p.table.lowestFree, table.lowestFree⟩,
      { p with table := table.insert (.pipeWrite p.opened), opened := p.opened + 1 })

/-- `open` of the stream. -/
def Stream.openFds (s : Stream) (p : Process) (failure : Option Errno) :
    Except PopenError StreamDescriptors × Process :=
  match s with
  | .pipeStream => pipeFd p failure
  | .pathStream path => openPath path p failure
  | .nullStream => openPath "/dev/null" p failure
  | .fdStream readFd writeFd => (.ok ⟨readFd, writeFd⟩, p)

/-- `open` makes new descriptors. -/
def Stream.opens : Stream → Bool
  | .fdStream _ _ => false
  | _ => true

end Linuxpp.Subprocess
