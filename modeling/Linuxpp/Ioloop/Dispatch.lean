import Linuxpp.Ioloop.Handlers

/-!
# What an iteration of `start` dispatches

An iteration is for the events that its `epoll_wait` reports: it calls the handlers of the reported
descriptors in order, and tells each what was reported.
-/

namespace Linuxpp.Ioloop

variable {κ : Type}

/-- The reports of a wait, of which there are none when it fails. -/
def WaitOutcome.reports : WaitOutcome → List (Int × UInt32)
  | .ready reports => reports
  | .fails _ => []

/-- The events that the kernel reports for the descriptors. -/
def Epoll.reported (e : Epoll) (reports : List (Int × UInt32)) : List BatchEvent :=
  reports.map fun report => Epoll.report e report.1 report.2

/-- The call is for the reported event, and goes to the handler that `s` has for its descriptor. -/
def Handlers.CallFor (s : Handlers κ) (report : Int × UInt32) (call : HandlerCall κ) : Prop :=
  ∃ n ∈ s.handlers, n.fd = report.1 ∧
    call = ⟨Epoll.report s.epoll report.1 report.2, n.fd, n.events, n.callback⟩

/-- The iteration whose `epoll_wait` is called in `c` and has the outcome `o` calls the handlers of
the reported descriptors, in the order of the reports and once for each. At every point of it, the
events that are left of the reported ones are those that the loop is still to dispatch, unless a
handler throws, and each leads to the handler of its descriptor. -/
def DispatchesReported (c : HandlerLoop κ) (o : WaitOutcome) : Prop :=
  ∀ ls t, (∀ o', .epollWait o' ∉ ls) → handlerStep.run c (.epollWait o :: ls) = some t →
    ∃ done rest later, o.reports = done ++ rest ∧ t.calls = c.calls ++ later ∧
      List.Forall₂ c.members.CallFor done later ∧
      (.handlerThrows ∉ ls → t.point.pending = Epoll.reported c.members.epoll rest) ∧
      ∀ e ∈ t.point.pending, ∃ n, t.members.deref e.event = some n ∧ e.about = some n.fd

/-- The wait reports events or is interrupted, or there is no room in the buffer. -/
def WaitOutcome.LeavesNothingStale (e : Epoll) : WaitOutcome → Prop
  | .ready _ => True
  | .fails errno => errno = .EINTR ∨ e.sizeEvents = 0

/-- All bits of `event_enum`, and those that `epoll_events` makes of them. -/
def eventEnum : UInt32 := eventRead ||| eventWrite ||| eventError
def epollEnum : UInt32 := EPOLLIN ||| EPOLLOUT ||| EPOLLERR

/-- The inverse image of reported bits under `epoll_events`. -/
def ioloopEvents (reported : UInt32) : UInt32 :=
  (if reported &&& EPOLLIN ≠ 0 then eventRead else 0) |||
  (if reported &&& EPOLLOUT ≠ 0 then eventWrite else 0) |||
  (if reported &&& EPOLLERR ≠ 0 then eventError else 0)

/-- Every handler that was called for a reported event was told what was reported for its
descriptor. -/
def ToldReported (c : HandlerLoop κ) : Prop :=
  ∀ call ∈ c.calls, ∀ fd, call.event.about = some fd →
    call.fd = fd ∧ call.events = ioloopEvents call.event.event.events

/-- Handlers are registered for combinations of the bits of `event_enum`. -/
def RegistersEventEnum (_ : HandlerLoop κ) : HandlerStep κ → Prop
  | .addHandler _ events _ _ _ => events &&& eventEnum = events
  | _ => True

/-- If a reported event is dispatched, all that its handler is registered for was reported, and of
what the handlers can be registered for nothing else. -/
def ReportsRegistered (c : HandlerLoop κ) (l : HandlerStep κ) : Prop :=
  l = .dispatch → ∀ sentry event events n fd, c.point = .dispatching sentry (event :: events) →
    event.about = some fd → c.members.deref event.event = some n →
    epollEvents n.events = event.event.events &&& epollEnum

end Linuxpp.Ioloop
