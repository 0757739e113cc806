import Linuxpp.Foundations.Simulation
import Linuxpp.Ioloop.Proofs.OwnHandlersProofs

/-!
# Proofs: the steps of the whole loop

What a step of the loop can do is said once. The handlers see each of these as a step of their own
machine, and from it comes what all views rest on: the loop's own functions stay registered, and an
event that is reported for one of its descriptors leads to its function.
-/

namespace Linuxpp.Ioloop

variable {κ : Type} {c t : EventLoop κ}

/-- User code calls an operation on the handlers or on descriptors. -/
def EventLoopStep.onHandlers : EventLoopStep κ → Bool
  | .addHandler _ _ _ _ _ | .removeHandler _ | .openFd _ | .closeFd _ => true
  | _ => false

namespace EventLoop

/-- What a step of the loop can do. -/
inductive Moves (c : EventLoop κ) : EventLoopStep κ → EventLoop κ → Prop
  | handlers (l : EventLoopStep κ) (l' : HandlerStep (HandlerFunction κ))
      (members : Handlers (HandlerFunction κ)) (hon : l.onHandlers = true)
      (huser : c.userCode = true) (hfree : c.free = true)
      (hstep : handlerStep c.handlerView l' = some { c.handlerView with members := members })
      (hremove : ∀ fd, l' = .removeHandler fd ∨ l' = .closeFd fd → c.owns fd = false)
      (hadd : ∀ fd events callback address failure,
        l' = .addHandler fd events callback address failure → ∃ k, callback = .user k)
      (hwait : ∀ o, l' ≠ .epollWait o) : Moves c l { c with handlers := members }
  | callbacks (l : CallbackStep κ) (v : CallbackLoop κ) (hmay : l.mayRunIn c = true)
      (hstep : callbackStep c.callbackView l = some v) : Moves c (.callbacks l) (c.withCallbacks v)
  | stops (l : StartStopStep) (v : StartStop) (hmay : l.mayRunIn c = true)
      (hstep : startStopStep c.startStopView l = some v) : Moves c (.stops l) (c.withStops v)
  | timers (l : TimerLoopStep κ) (v : TimerLoop κ) (hmay : l.mayRunIn c = true)
      (hstep : timerLoopStep c.timerView l = some v) : Moves c (.timers l) (c.withTimers v)
  | start (hfree : c.free = true) (hloc : c.location = .outside) :
      Moves c .start { c with
        location := .entered, starts := c.starts + 1, stopped := false, batches := 0 }
  | set (hfree : c.free = true) (hloc : c.location = .entered) :
      Moves c .setKeepRunning { c with keepRunning := true, location := .testing }
  | goOn (hfree : c.free = true) (hloc : c.location = .testing) (hkeep : c.keepRunning = true) :
      Moves c .testKeepRunning { c with location := .waiting }
  | leave (hfree : c.free = true) (hloc : c.location = .testing) (hkeep : c.keepRunning = false) :
      Moves c .testKeepRunning { c with location := .outside }
  | report (reports : List (Int × UInt32)) (hfree : c.free = true) (hloc : c.location = .waiting)
      (hreports : c.Reports reports) :
      Moves c (.epollWait reports) { c with
        handlers := { c.handlers with
          epollEvents := (batchOf c.handlers (.ready reports)).1, processingHandlers := true }
        location := .dispatching c.handlers.processingHandlers
          (reports.map fun report => Epoll.report c.handlers.epoll report.1 report.2)
        batches := if c.stopped then c.batches + 1 else c.batches }
  | interrupted (hfree : c.free = true) (hloc : c.location = .waiting) :
      Moves c .interrupted { c with
        handlers := { c.handlers with epollEvents := (batchOf c.handlers (.fails .EINTR)).1 }
        location := .testing }
  | dispatch (sentry : Bool) (event : BatchEvent) (events : List BatchEvent)
      (n : HandlerNode (HandlerFunction κ)) (hfree : c.free = true)
      (hloc : c.location = .dispatching sentry (event :: events))
      (hderef : c.handlers.deref event.event = some n) :
      Moves c .dispatch { c with
        location := .calling sentry events n.callback.activity
        calls := c.calls ++ [⟨event, n.fd, n.events, n.callback⟩] }
  | readStop (sentry : Bool) (events : List BatchEvent) (hfree : c.free = true)
      (hloc : c.location = .calling sentry events .processStop) (hpos : 0 < c.stopEventfd) :
      Moves c .readStopEventfd { c with
        stopEventfd := 0, location := .dispatching sentry events }
  | readTimer (sentry : Bool) (events : List BatchEvent) (q : TimerQueue) (v : TimerLoop κ)
      (hfree : c.free = true) (hloc : c.location = .calling sentry events (.reading q))
      (hunread : (c.timerView.timer q).unread = true) (hbegin : c.timerView.beginPass q = some v) :
      Moves c .readTimerfd { c.withTimers v with location := .calling sentry events (.passing q) }
  | returns (sentry : Bool) (events : List BatchEvent) (activity : Activity κ)
      (hfree : c.free = true) (hloc : c.location = .calling sentry events activity)
      (hdone : activity = .user ∨ activity = .processCallbacks (.running [] false) ∨
        ∃ q, activity = .passing q ∧ c.timerView.passPoint q = .outside) :
      Moves c .handlerReturns { c with location := .dispatching sentry events }
  | pruned (sentry : Bool) (members : Handlers (HandlerFunction κ)) (location : LoopLocation κ)
      (hfree : c.free = true) (hloc : c.location = .dispatching sentry [])
      (hprune : members = ({ c.handlers with processingHandlers := sentry } :
        Handlers (HandlerFunction κ)).prune.2)
      (hnext : location = .testing ∨ location = .outside) :
      Moves c .prune { c with handlers := members, location := location }
  | throws (sentry : Bool) (events : List BatchEvent) (activity : Activity κ) (v : TimerLoop κ)
      (hfree : c.free = true) (hloc : c.location = .calling sentry events activity)
      (huser : c.userCode = true) (hthrows : c.timerView.callbackThrows = some v) :
      Moves c .throws { c.withTimers v with
        handlers := { c.handlers with processingHandlers := sentry }, location := .outside }

theorem moves_of_handlersStep {l : EventLoopStep κ} {l' : HandlerStep (HandlerFunction κ)}
    (hon : l.onHandlers = true) (h : c.handlersStep l' = some t)
    (hpoint : ∀ v, handlerStep c.handlerView l' = some v →
      v = { c.handlerView with members := v.members })
    (hremove : ∀ fd, l' = .removeHandler fd ∨ l' = .closeFd fd → c.owns fd = false)
    (hadd : ∀ fd events callback address failure,
      l' = .addHandler fd events callback address failure → ∃ k, callback = .user k)
    (hwait : ∀ o, l' ≠ .epollWait o) : Moves c l t := by
  obtain ⟨hmay, h⟩ := Option.ite_none_right_eq_some.mp h
  obtain ⟨huser, hfree⟩ := Bool.and_eq_true_iff.mp hmay
  obtain ⟨v, hv, rfl⟩ := Option.map_eq_some_iff.mp h
  have hstep := hpoint v hv ▸ hv
  exact .handlers l l' v.members hon huser hfree hstep hremove hadd hwait

theorem moves_of_startStep {l : EventLoopStep κ} (hfree : c.free = true)
    (h : c.startStep l = some t) : Moves c l t := by
  unfold startStep at h
  split at h
  case h_1 hloc => obtain rfl := Option.some.inj h; exact .start hfree hloc
  case h_2 hloc => obtain rfl := Option.some.inj h; exact .set hfree hloc
  case h_3 hloc =>
    split_ifs at h with hkeep
    · obtain rfl := Option.some.inj h
      exact .goOn hfree hloc hkeep
    · obtain rfl := Option.some.inj h
      exact .leave hfree hloc (Bool.eq_false_iff.mpr hkeep)
  case h_4 reports hloc =>
    obtain ⟨hreports, h⟩ := Option.ite_none_right_eq_some.mp h
    obtain rfl := Option.some.inj h
    exact .report reports hfree hloc hreports
  case h_5 hloc => obtain rfl := Option.some.inj h; exact .interrupted hfree hloc
  case h_6 sentry event events hloc =>
    split at h
    case h_1 n hderef =>
      obtain rfl := Option.some.inj h
      exact .dispatch sentry event events n hfree hloc hderef
    case h_2 => cases h
  case h_7 sentry events hloc =>
    obtain ⟨hpos, h⟩ := Option.ite_none_right_eq_some.mp h
    obtain rfl := Option.some.inj h
    exact .readStop sentry events hfree hloc hpos
  case h_8 sentry events q hloc =>
    obtain ⟨hunread, h⟩ := Option.ite_none_right_eq_some.mp h
    obtain ⟨v, hv, rfl⟩ := Option.map_eq_some_iff.mp h
    exact .readTimer sentry events q v hfree hloc hunread hv
  case h_9 =>
    unfold handlerReturns at h
    split at h
    case h_1 sentry events hloc =>
      obtain rfl := Option.some.inj h
      exact .returns sentry events _ hfree hloc (.inl rfl)
    case h_2 sentry events hloc =>
      obtain rfl := Option.some.inj h
      exact .returns sentry events _ hfree hloc (.inr (.inl rfl))
    case h_3 sentry events q hloc =>
      obtain ⟨hpass, h⟩ := Option.ite_none_right_eq_some.mp h
      obtain rfl := Option.some.inj h
      exact .returns sentry events _ hfree hloc (.inr (.inr ⟨q, rfl, hpass⟩))
    case h_4 => cases h
  case h_10 =>
    unfold prune at h
    split at h
    case h_1 sentry hloc =>
      simp only at h
      split at h <;> obtain rfl := Option.some.inj h
      · exact .pruned sentry _ _ hfree hloc rfl (.inl rfl)
      · exact .pruned sentry _ _ hfree hloc rfl (.inr rfl)
    case h_2 => cases h
  case h_11 =>
    unfold throws at h
    split at h
    case h_1 sentry events activity hloc =>
      obtain ⟨huser, h⟩ := Option.ite_none_right_eq_some.mp h
      obtain ⟨v, hv, rfl⟩ := Option.map_eq_some_iff.mp h
      exact .throws sentry events activity v hfree hloc huser hv
    case h_2 => cases h
  case h_12 => cases h

/-- Every step is one of these. -/
theorem moves_of_step {l : EventLoopStep κ} (h : eventLoopStep c l = some t) : Moves c l t := by
  cases l with
  | addHandler fd events callback address failure =>
    refine moves_of_handlersStep rfl h ?_ (by simp) ?_ (by simp)
    · intro v hv
      obtain ⟨-, rfl⟩ := handlerStep_addHandler.mp hv
      rfl
    · intro _ _ _ _ _ heq
      obtain ⟨-, -, rfl, -, -⟩ := HandlerStep.addHandler.inj heq
      exact ⟨callback, rfl⟩
  | removeHandler fd =>
    obtain ⟨howns, h⟩ := Option.ite_none_left_eq_some.mp h
    refine moves_of_handlersStep rfl h ?_ ?_ (by simp) (by simp)
    · intro v hv
      obtain ⟨-, rfl⟩ := handlerStep_removeHandler.mp hv
      rfl
    · intro fd' hfd
      rcases hfd with hfd | hfd
      · obtain rfl := HandlerStep.removeHandler.inj hfd
        exact Bool.eq_false_iff.mpr howns
      · cases hfd
  | openFd fd =>
    refine moves_of_handlersStep rfl h ?_ (by simp) (by simp) (by simp)
    intro v hv
    obtain ⟨-, rfl⟩ := handlerStep_openFd.mp hv
    rfl
  | closeFd fd =>
    obtain ⟨howns, h⟩ := Option.ite_none_left_eq_some.mp h
    refine moves_of_handlersStep rfl h ?_ ?_ (by simp) (by simp)
    · intro v hv
      obtain ⟨-, rfl⟩ := handlerStep_closeFd.mp hv
      rfl
    · intro fd' hfd
      rcases hfd with hfd | hfd
      · cases hfd
      · obtain rfl := HandlerStep.closeFd.inj hfd
        exact Bool.eq_false_iff.mpr howns
  | callbacks l =>
    obtain ⟨hmay, h⟩ := Option.ite_none_right_eq_some.mp h
    obtain ⟨v, hv, rfl⟩ := Option.map_eq_some_iff.mp h
    exact .callbacks l v hmay hv
  | stops l =>
    obtain ⟨hmay, h⟩ := Option.ite_none_right_eq_some.mp h
    obtain ⟨v, hv, rfl⟩ := Option.map_eq_some_iff.mp h
    exact .stops l v hmay hv
  | timers l =>
    obtain ⟨hmay, h⟩ := Option.ite_none_right_eq_some.mp h
    obtain ⟨v, hv, rfl⟩ := Option.map_eq_some_iff.mp h
    exact .timers l v hmay hv
  | _ =>
    obtain ⟨hfree, h⟩ := Option.ite_none_right_eq_some.mp h
    exact moves_of_startStep hfree h

theorem own_of_step {l : EventLoopStep κ} (h : eventLoopStep c l = some t) : t.own = c.own := by
  cases moves_of_step h <;> rfl

theorem not_owned {fd : Int} (h : c.owns fd = false) (f : OwnFunction) : c.own.fd f ≠ fd := by
  intro heq
  have howns : c.owns fd = true :=
    List.any_eq_true.mpr ⟨f, f.mem_all, decide_eq_true heq⟩
  rw [h] at howns
  cases howns

/-- A step of `process_callbacks` stays in the handler. -/
theorem batchPoint_withCallbacks (v : CallbackLoop κ) :
    (c.withCallbacks v).location.batchPoint = c.location.batchPoint := by
  unfold withCallbacks
  dsimp only
  split <;> rename_i hloc <;> try rfl
  rw [hloc]
  rfl

/-- The handlers see a step of the loop as steps of their own, or do not see it. -/
theorem handlerView_step {l : EventLoopStep κ} (h : eventLoopStep c l = some t) :
    ∃ ks, handlerStep.run c.handlerView ks = some t.handlerView ∧
      handlerStep.Along (LeavesOwn c.own) c.handlerView ks := by
  cases moves_of_step h with
  | handlers _ l' members hon huser hfree hstep hremove hadd hwait =>
    refine Machine.seen_as_one hstep ?_
    cases l' with
    | removeHandler fd => exact not_owned (hremove fd (.inl rfl))
    | closeFd fd => exact not_owned (hremove fd (.inr rfl))
    | addHandler fd events callback address failure =>
      obtain ⟨k, rfl⟩ := hadd fd events callback address failure rfl
      simp [LeavesOwn]
    | epollWait o => exact absurd rfl (hwait o)
    | _ => trivial
  | callbacks l v hmay hstep =>
    apply Machine.seen_as_none
    show HandlerLoop.mk _ _ _ = HandlerLoop.mk _ _ _
    rw [batchPoint_withCallbacks]
    rfl
  | report reports hfree hloc hreports =>
    refine Machine.seen_as_one (k := .epollWait (.ready reports)) ?_ trivial
    refine handlerStep_epollWait.mpr ⟨?_, hreports.2.1, rfl⟩
    show c.location.batchPoint = .idle
    rw [hloc]
    rfl
  | interrupted hfree hloc =>
    refine Machine.seen_as_one (k := .epollWait (.fails .EINTR)) ?_ rfl
    have hidle : c.location.batchPoint = .idle := by
      rw [hloc]
      rfl
    refine handlerStep_epollWait.mpr ⟨hidle, trivial, ?_⟩
    show HandlerLoop.mk _ c.location.batchPoint _ = HandlerLoop.mk _ _ _
    rw [hloc]
    rfl
  | dispatch sentry event events n hfree hloc hderef =>
    refine Machine.seen_as_one (k := .dispatch) ?_ trivial
    refine handlerStep_dispatch.mpr ⟨sentry, event, events, n, ?_, hderef, rfl⟩
    show c.location.batchPoint = _
    rw [hloc]
    rfl
  | readStop sentry events hfree hloc hpos =>
    refine Machine.seen_as_one (k := .handlerReturns) ?_ trivial
    refine handlerStep_handlerReturns.mpr ⟨sentry, events, ?_, rfl⟩
    show c.location.batchPoint = _
    rw [hloc]
    rfl
  | readTimer sentry events q v hfree hloc hunread hbegin =>
    apply Machine.seen_as_none
    show HandlerLoop.mk _ _ _ = HandlerLoop.mk _ c.location.batchPoint _
    rw [hloc]
    rfl
  | returns sentry events activity hfree hloc hdone =>
    refine Machine.seen_as_one (k := .handlerReturns) ?_ trivial
    refine handlerStep_handlerReturns.mpr ⟨sentry, events, ?_, rfl⟩
    show c.location.batchPoint = _
    rw [hloc]
    rfl
  | pruned sentry members location hfree hloc hprune hnext =>
    refine Machine.seen_as_one (k := .prune) ?_ trivial
    refine handlerStep_prune.mpr ⟨sentry, ?_, ?_⟩
    · show c.location.batchPoint = _
      rw [hloc]
      rfl
    · subst hprune
      rcases hnext with rfl | rfl <;> rfl
  | throws sentry events activity v hfree hloc huser hthrows =>
    refine Machine.seen_as_one (k := .handlerThrows) ?_ trivial
    refine handlerStep_handlerThrows.mpr ⟨sentry, events, ?_, rfl⟩
    show c.location.batchPoint = _
    rw [hloc]
    rfl
  | stops l v hmay hstep => exact Machine.seen_as_none rfl
  | timers l v hmay hstep => exact Machine.seen_as_none rfl
  | _ =>
    apply Machine.seen_as_none
    show HandlerLoop.mk _ _ _ = HandlerLoop.mk _ c.location.batchPoint _
    rw [‹c.location = _›]
    rfl

end EventLoop

/-- The function that reads the timerfd of a queue. -/
def TimerQueue.function : TimerQueue → OwnFunction
  | .timeouts => .processTimeouts
  | .periodicTimeouts => .processPeriodicTimeouts

/-- The function of the loop that an activity belongs to. -/
def Activity.function? : Activity κ → Option OwnFunction
  | .user => none
  | .processStop => some .processStop
  | .processCallbacks _ => some .processCallbacks
  | .reading q | .passing q => some q.function

theorem HandlerFunction.activity_function (f : HandlerFunction κ) :
    f.activity.function? = f.function? := by
  cases f with
  | own f => cases f <;> rfl
  | user k => rfl

/-- The functions of the loop are served, and no event behind the one whose handler runs is for the
same function of the loop. -/
structure Located (c : EventLoop κ) : Prop where
  serving : Serving c.own c.handlerView
  once : ∀ sentry events activity, c.location = .calling sentry events activity →
    ∀ f ∈ activity.function?, ∀ e ∈ events, c.own.function e ≠ some f

namespace Located

theorem of_dispatch (h : Located c) {sentry : Bool} {event : BatchEvent}
    {events : List BatchEvent} {n : HandlerNode (HandlerFunction κ)}
    (hloc : c.location = .dispatching sentry (event :: events))
    (hderef : c.handlers.deref event.event = some n) :
    n.callback.activity.function? = c.own.function event ∧
      ∀ f ∈ c.own.function event, ∀ e ∈ events, c.own.function e ≠ some f := by
  have hpending : c.handlerView.point.pending = event :: events := by
    show c.location.batchPoint.pending = _
    rw [hloc]
    rfl
  have hmem : event ∈ c.handlerView.point.pending := by
    rw [hpending]
    exact List.mem_cons_self
  refine ⟨n.callback.activity_function.trans (h.serving.deref hmem hderef), ?_⟩
  intro f hf e he hfe
  have honce := h.serving.once
  rw [hpending, List.map_cons, List.nodup_cons] at honce
  apply honce.1
  rw [OwnFds.function_eq_some.mp hf, ← OwnFds.function_eq_some.mp hfe]
  exact List.mem_map_of_mem he

theorem construct (own : OwnFds) (clock : TimeType) : Located (EventLoop.construct κ own clock) :=
  ⟨(construct_serving own clock).2, fun _ _ _ hloc => by cases hloc⟩

theorem step (h : Located c) {l : EventLoopStep κ} (hl : eventLoopStep c l = some t) :
    Located t where
  serving := by
    obtain ⟨ks, hks, halong⟩ := EventLoop.handlerView_step hl
    rw [EventLoop.own_of_step hl]
    exact Machine.run_invariant_along (fun _ _ _ hs hok hstep => Serving.step hs hok hstep) hks
      halong h.serving
  once := by
    intro sentry events activity hloc f hf
    rw [EventLoop.own_of_step hl]
    cases EventLoop.moves_of_step hl with
    | callbacks l v hmay hstep =>
      simp only [EventLoop.withCallbacks] at hloc
      split at hloc
      case h_1 sentry' events' phase hloc' =>
        obtain ⟨rfl, rfl, rfl⟩ := LoopLocation.calling.inj hloc
        exact h.once _ _ _ hloc' f hf
      case h_2 => exact h.once _ _ _ hloc f hf
    | dispatch sentry' event events' n hfree hloc' hderef =>
      obtain ⟨rfl, rfl, rfl⟩ := LoopLocation.calling.inj hloc
      obtain ⟨hfunction, honce⟩ := h.of_dispatch hloc' hderef
      exact honce f (hfunction ▸ hf)
    | readTimer sentry' events' q v hfree hloc' hunread hbegin =>
      obtain ⟨rfl, rfl, rfl⟩ := LoopLocation.calling.inj hloc
      exact h.once _ _ _ hloc' f hf
    | pruned sentry' members location hfree hloc' hprune hnext =>
      rcases hnext with rfl | rfl <;> cases hloc
    | handlers _ l' members hon huser hfree hstep hremove hadd hwait =>
      exact h.once _ _ _ hloc f hf
    | stops l v hmay hstep => exact h.once _ _ _ hloc f hf
    | timers l v hmay hstep => exact h.once _ _ _ hloc f hf
    | _ => cases hloc

end Located

end Linuxpp.Ioloop
