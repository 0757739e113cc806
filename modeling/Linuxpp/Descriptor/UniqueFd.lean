import Linuxpp.Foundations.Machine

/-!
# `int_descriptor` and `unique_fd<default_close>`

The objects live in a store, so that an operation of two objects sees the aliasing the C++ code
sees: a move assignment writes its target first and blanks its source second, whether or not they
are the same object.
-/

namespace Linuxpp

/-- `int_descriptor<Tag, T>`; the traits of the tag are the parameter. -/
structure IntDescriptor (invalidValue : Int) where
  descriptor : Int := invalidValue
deriving DecidableEq, Repr

namespace IntDescriptor

variable {invalidValue : Int}

def get (d : IntDescriptor invalidValue) : Int := d.descriptor

def reset (_ : IntDescriptor invalidValue) (descriptor : Int := invalidValue) :
    IntDescriptor invalidValue := ⟨descriptor⟩

/-- `release`: the old descriptor, and the object after the call. -/
def release (d : IntDescriptor invalidValue) : Int × IntDescriptor invalidValue :=
  (d.descriptor, ⟨invalidValue⟩)

end IntDescriptor

/-- `linuxpp::closed_fd`. -/
abbrev closedFd : Int := -1

/-- `linuxpp::file_descriptor`. -/
abbrev FileDescriptor := IntDescriptor closedFd

/-- `unique_fd<default_close>`; `default_close` has no state. -/
structure UniqueFd where
  fdMember : FileDescriptor := {}
deriving DecidableEq, Repr

namespace UniqueFd

def get (u : UniqueFd) : Int := u.fdMember.get

/-- `unique_fd(fd)`. -/
def ofFd (fd : Int) : UniqueFd := ⟨⟨fd⟩⟩

/-- `release`: the descriptor given back, and the object after the call. -/
def release (u : UniqueFd) : Int × UniqueFd :=
  let (fd, member) := u.fdMember.release
  (fd, ⟨member⟩)

/-- `reset(fd)`: the object after the call, and the descriptors passed to `::close`. -/
def reset (u : UniqueFd) (fd : Int := closedFd) : UniqueFd × List Int :=
  let oldFd := u.fdMember.get
  (⟨u.fdMember.reset fd⟩, if oldFd ≠ closedFd then [oldFd] else [])

end UniqueFd

/-- The `unique_fd` objects of a program: slot `o` of `objects` is the object numbered `o`, `none`
once it is destroyed. The other fields record, with repetitions and in order, the descriptors
handed to the objects, given back by `release` and passed to `::close`. -/
structure FdObjects where
  objects : List (Option UniqueFd) := []
  handed : List Int := []
  released : List Int := []
  closed : List Int := []
deriving DecidableEq, Repr

namespace FdObjects

/-- The live object numbered `o`. -/
def object? (s : FdObjects) (o : Nat) : Option UniqueFd := s.objects[o]?.join

/-- The number of live objects that own the descriptor `fd`. -/
def owners (s : FdObjects) (fd : Int) : Nat := s.objects.count (some (UniqueFd.ofFd fd))

/-- The descriptors a call hands over when it is given `fd`: `closed_fd` is none. -/
def descriptors (fd : Int) : List Int := if fd = closedFd then [] else [fd]

/-- A descriptor may be handed to an object when no live object owns it. -/
def Fresh (s : FdObjects) (fd : Int) : Prop := fd = closedFd ∨ s.owners fd = 0

instance (s : FdObjects) (fd : Int) : Decidable (s.Fresh fd) :=
  inferInstanceAs (Decidable (_ ∨ _))

end FdObjects

/-- The operations on `unique_fd` objects. A constructor makes the next object. -/
inductive FdOp where
  /-- `unique_fd()`. -/
  | construct
  /-- `unique_fd(fd)`. -/
  | constructFrom (fd : Int)
  /-- `unique_fd(std::move(src))`. -/
  | moveConstruct (src : Nat)
  /-- `dst = std::move(src)`. -/
  | moveAssign (dst src : Nat)
  /-- `o.reset(fd)`; `fd` is `closed_fd` when the argument is left out. -/
  | reset (o : Nat) (fd : Int)
  /-- `o.release()`. -/
  | release (o : Nat)
  /-- `a.swap(b)`. -/
  | swap (a b : Nat)
  /-- The destructor. -/
  | destroy (o : Nat)
deriving DecidableEq, Repr

open FdObjects in
/-- One operation of the program. -/
def fdStep : Machine FdObjects FdOp := fun s op =>
  match op with
  | .construct => some { s with objects := s.objects ++ [some {}] }
  | .constructFrom fd =>
    if s.Fresh fd then
      some { s with
        objects := s.objects ++ [some (UniqueFd.ofFd fd)], handed := s.handed ++ descriptors fd }
    else none
  | .moveConstruct src =>
    (s.object? src).map fun u =>
      -- the defaulted constructor moves the tuple, which moves the `file_descriptor`
      { s with objects := s.objects.set src (some {}) ++ [some u] }
  | .moveAssign dst src =>
    (s.object? dst).bind fun _ => (s.object? src).map fun u =>
      -- `int_descriptor::operator=(int_descriptor &&)` writes `this` and then blanks `other`
      { s with objects := (s.objects.set dst (some u)).set src (some {}) }
  | .reset o fd =>
    (s.object? o).bind fun u =>
      if s.Fresh fd then
        let (u', closes) := u.reset fd
        some { s with
          objects := s.objects.set o (some u'), handed := s.handed ++ descriptors fd
          closed := s.closed ++ closes }
      else none
  | .release o =>
    (s.object? o).map fun u =>
      let (fd, u') := u.release
      { s with objects := s.objects.set o (some u'), released := s.released ++ descriptors fd }
  | .swap a b =>
    (s.object? a).bind fun ua => (s.object? b).map fun ub =>
      { s with objects := (s.objects.set a (some ub)).set b (some ua) }
  | .destroy o =>
    (s.object? o).map fun u =>
      let (_, closes) := u.reset
      { s with objects := s.objects.set o none, closed := s.closed ++ closes }

/-- Every descriptor handed to the objects is in exactly one of three places. -/
structure OwnershipExact (s : FdObjects) : Prop where
  /-- No descriptor has two owners. -/
  owner : ∀ fd, fd ≠ closedFd → s.owners fd ≤ 1
  /-- Each time a descriptor was handed over is accounted for by its owner, by one `release` or by
  one `::close`. -/
  account : ∀ fd, fd ≠ closedFd →
    s.handed.count fd = s.owners fd + s.released.count fd + s.closed.count fd
  /-- Once all objects are destroyed, what was not released has been closed. -/
  closedAtEnd : (∀ o ∈ s.objects, o = none) → ∀ fd, fd ≠ closedFd →
    s.handed.count fd = s.released.count fd + s.closed.count fd

/-- The operation is not a move assignment to an object that owns a descriptor. -/
def NotOntoOwner (s : FdObjects) (op : FdOp) : Prop :=
  ∀ dst src u, op = .moveAssign dst src → s.object? dst = some u → u.get = closedFd

end Linuxpp
