import Mathlib.Data.Nat.Notation

/-!
# Error numbers

A failing system call leaves a positive number in `errno`; zero stands for no error wherever the
library stores one.
-/

namespace Linuxpp

/-- A value that a failing system call leaves in `errno`. -/
structure Errno where
  value : ℕ
  pos : 0 < value
deriving DecidableEq

namespace Errno

def EPERM : Errno := ⟨1, Nat.one_pos⟩
def ENOENT : Errno := ⟨2, by decide⟩
def EINTR : Errno := ⟨4, by decide⟩
def EBADF : Errno := ⟨9, by decide⟩
def EAGAIN : Errno := ⟨11, by decide⟩
def EEXIST : Errno := ⟨17, by decide⟩
def EMFILE : Errno := ⟨24, by decide⟩
def ENODATA : Errno := ⟨61, by decide⟩

end Errno
end Linuxpp
