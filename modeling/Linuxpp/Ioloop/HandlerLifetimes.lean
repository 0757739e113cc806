import Linuxpp.Ioloop.Handlers

/-!
# How long a handler stays registered

A registration ends with its own removal. The number of its descriptor may have had a handler
before, whose removal is over or was put off.
-/

namespace Linuxpp.Ioloop

variable {κ : Type}

/-- In every run from `c` without a removal of its own, the node stays in `handlers_`, and its
registration in the interest set for as long as its descriptor is not closed. -/
def StaysRegistered (c : HandlerLoop κ) (n : HandlerNode κ) : Prop :=
  ∀ ls t, .removeHandler n.fd ∉ ls → handlerStep.run c ls = some t →
    n ∈ t.members.handlers ∧
    (.closeFd n.fd ∉ ls → ⟨n.fd, epollEvents n.events, n.address⟩ ∈ t.members.epoll.interest)

/-- In every run from `c` without a removal of its own, the node is the one that every reported
event for its descriptor leads to, and its callback is called for those that are dispatched. -/
def ServesReported (c : HandlerLoop κ) (n : HandlerNode κ) : Prop :=
  ∀ ls t, .removeHandler n.fd ∉ ls → handlerStep.run c ls = some t →
    (∀ e ∈ t.point.pending, e.about = some n.fd → t.members.deref e.event = some n) ∧
    ∃ later, t.calls = c.calls ++ later ∧ ∀ call ∈ later, call.event.about = some n.fd →
      call = ⟨call.event, n.fd, n.events, n.callback⟩

/-- `remove_handler(fd)` was called in a reachable state and has returned, and no handler was
registered for `fd` since. -/
def RemovedBefore (fd : Int) (c : HandlerLoop κ) : Prop :=
  ∃ c₀ ls, handlerStep.Reachable {} c₀ ∧ handlerStep.run c₀ (.removeHandler fd :: ls) = some c ∧
    handlerStep.Along (NotAnew fd) c₀ (.removeHandler fd :: ls)

/-- The state after a call of `add_handler` that the kernel lets pass. -/
def HandlerLoop.added (c : HandlerLoop κ) (n : HandlerNode κ) : HandlerLoop κ :=
  { c with members := (c.members.addHandler n.fd n.events n.callback n.address none).2 }

/-- `add_handler` for the node succeeds when the kernel lets it pass, the node stays registered, and
it serves what is reported for its descriptor. -/
structure RegistersAnew (c : HandlerLoop κ) (n : HandlerNode κ) : Prop where
  succeeds : (c.members.addHandler n.fd n.events n.callback n.address none).1 = .ok ()
  stays : StaysRegistered (c.added n) n
  serves : ServesReported (c.added n) n

end Linuxpp.Ioloop
