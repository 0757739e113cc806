import Linuxpp.Ioloop.Proofs.EventLoopGuaranteesProofs

/-!
# Proofs: the loop goes on

In a batch the thread of the loop can always take a step of its own, once the calls of `add_callback`
and `stop` that are in progress are ended. Each handler returns after finitely many of them: it is
left by the events of the batch, the queued callbacks and the entries of the queues, of which own
steps add none. So each batch ends.
-/

namespace Linuxpp.Ioloop

variable {κ : Type} {c t : EventLoop κ} {own : OwnFds} {clock : TimeType}
  {ls : List (EventLoopStep κ)}

section Going

/-- A phase of `process_callbacks` before it returns. -/
def LoopPhase.inside : LoopPhase κ → Bool
  | .dispatching pending => pending
  | .afterRead | .locked | .taken _ | .running _ _ => true
  | .waiting | .readFailed => false

/-- The invariant of the runs in which nothing is thrown and no later timeout is added behind the
report of a timerfd. -/
structure Going (c : EventLoop κ) : Prop where
  located : Located c
  due : DueReadable c
  timers : DueReady c.timerView
  handoff : Handoff c.callbackView
  passes : ∀ q, c.timerView.passPoint q ≠ .outside → ∃ sentry events,
    c.location = .calling sentry events (.passing q)
  inside : ∀ sentry events phase, c.location = .calling sentry events (.processCallbacks phase) →
    phase.inside = true

theorem timeoutStep_outside {v v' : TimeoutLoop κ} {l : TimeoutStep κ}
    (hne : ∀ now, l ≠ .processTimeouts now) (hl : timeoutStep v l = some v')
    (hout : v.point = .outside) : v'.point = .outside := by
  cases l with
  | addTimeout timeout callback o =>
    obtain ⟨-, rfl⟩ := timeoutStep_addTimeout.mp hl
    exact hout
  | removeTimeout handle =>
    obtain ⟨-, rfl⟩ := timeoutStep_removeTimeout.mp hl
    exact hout
  | timeoutHandle =>
    obtain ⟨-, rfl⟩ := timeoutStep_timeoutHandle.mp hl
    exact hout
  | processTimeouts now => exact absurd rfl (hne now)
  | iterate =>
    obtain ⟨p, hp, -⟩ := timeoutStep_iterate.mp hl
    rw [hout] at hp
    cases hp
  | callbackReturns =>
    obtain ⟨p, hp, -⟩ := timeoutStep_callbackReturns.mp hl
    rw [hout] at hp
    cases hp
  | finish o =>
    obtain ⟨p, hp, -⟩ := timeoutStep_finish.mp hl
    rw [hout] at hp
    cases hp

theorem periodicTimeoutStep_outside {v v' : PeriodicTimeoutLoop κ} {l : PeriodicTimeoutStep κ}
    (hne : ∀ now, l ≠ .processPeriodicTimeouts now) (hl : periodicTimeoutStep v l = some v')
    (hout : v.point = .outside) : v'.point = .outside := by
  cases l with
  | addPeriodicTimeout period callback now o =>
    obtain ⟨-, rfl⟩ := periodicTimeoutStep_addPeriodicTimeout.mp hl
    exact hout
  | removeTimeout handle =>
    obtain ⟨-, members, -, rfl⟩ := periodicTimeoutStep_removeTimeout.mp hl
    exact hout
  | periodicTimeoutHandle =>
    obtain ⟨-, rfl⟩ := periodicTimeoutStep_periodicTimeoutHandle.mp hl
    exact hout
  | processPeriodicTimeouts now => exact absurd rfl (hne now)
  | iterate =>
    obtain ⟨p, hp, -⟩ := periodicTimeoutStep_iterate.mp hl
    rw [hout] at hp
    cases hp
  | callbackReturns =>
    obtain ⟨p, hp, -⟩ := periodicTimeoutStep_callbackReturns.mp hl
    rw [hout] at hp
    cases hp
  | finish now order o =>
    obtain ⟨p, hp, -⟩ := periodicTimeoutStep_finish.mp hl
    rw [hout] at hp
    cases hp

/-- A step of the timers within the loop begins no pass. -/
theorem passPoint_of_mayRunIn {v : TimerLoop κ} {k : TimerLoopStep κ} (hmay : k.mayRunIn c = true)
    (hk : timerLoopStep c.timerView k = some v) {q : TimerQueue} (hin : v.passPoint q ≠ .outside) :
    c.timerView.passPoint q ≠ .outside := by
  obtain ⟨u, hu, rfl⟩ := Option.map_eq_some_iff.mp hk
  intro hout
  cases k with
  | tick now =>
    obtain ⟨-, rfl⟩ := timerLoopMove_tick.mp hu
    cases q <;> exact hin hout
  | timeouts l =>
    obtain ⟨hrun, s, hs, rfl⟩ := timerLoopMove_timeouts.mp hu
    cases q with
    | periodicTimeouts => exact hin hout
    | timeouts => exact hin (timeoutStep_outside (by rintro now rfl; cases hrun) hs hout)
  | periodicTimeouts l =>
    obtain ⟨hrun, s, hs, rfl⟩ := timerLoopMove_periodicTimeouts.mp hu
    cases q with
    | timeouts => exact hin hout
    | periodicTimeouts =>
      exact hin (periodicTimeoutStep_outside (by rintro now rfl; cases hrun) hs hout)
  | _ => cases hmay

/-- A pass begins where the timerfd was read. -/
theorem passPoint_of_beginPass {v v' : TimerLoop κ} {q q' : TimerQueue}
    (h : v.beginPass q = some v') (hin : v'.passPoint q' ≠ .outside) :
    q' = q ∨ v.passPoint q' ≠ .outside := by
  by_cases hq : q' = q
  · exact .inl hq
  · refine .inr ?_
    cases q <;> cases q' <;> first | exact absurd rfl hq | skip
    · obtain ⟨s, -, rfl⟩ := Option.map_eq_some_iff.mp h
      exact hin
    · obtain ⟨s, -, rfl⟩ := Option.map_eq_some_iff.mp h
      exact hin

/-- While another location is left, no pass is in progress. -/
theorem Going.no_pass (h : Going c) (hloc : ∀ sentry events q,
    c.location ≠ .calling sentry events (.passing q)) (q : TimerQueue) :
    c.timerView.passPoint q = .outside := by
  by_contra hin
  obtain ⟨sentry, events, hcalling⟩ := h.passes q hin
  exact hloc sentry events q hcalling

theorem Going.construct (own : OwnFds) (clock : TimeType) :
    Going (EventLoop.construct κ own clock) where
  located := Located.construct own clock
  due := .of_idle rfl
  timers := dueReady_init clock
  handoff := handoff_init
  passes q hin := by
    cases q <;> exact absurd rfl hin
  inside _ _ _ hloc := by cases hloc

/-- What the thread does while a pass is in progress. -/
theorem Going.activity_of_pass (h : Going c) {q : TimerQueue}
    (hin : c.timerView.passPoint q ≠ .outside) {sentry : Bool} {events : List BatchEvent}
    {activity : Activity κ} (hloc : c.location = .calling sentry events activity) :
    activity = .passing q := by
  obtain ⟨sentry', events', hcalling⟩ := h.passes q hin
  exact (LoopLocation.calling.inj (hloc.symm.trans hcalling)).2.2

theorem Going.passes_step (h : Going c) {l : EventLoopStep κ} (hl : eventLoopStep c l = some t)
    (hthrows : l ≠ .throws) (q : TimerQueue) (hin : t.timerView.passPoint q ≠ .outside) :
    ∃ sentry events, t.location = .calling sentry events (.passing q) := by
  have hcalling : c.timerView.passPoint q ≠ .outside → ∃ sentry events,
      c.location = .calling sentry events (.passing q) := h.passes q
  cases EventLoop.moves_of_step hl with
  | handlers _ l' members hon => exact hcalling (by cases q <;> exact hin)
  | stops l v hmay hstep => exact hcalling (by cases q <;> exact hin)
  | callbacks l v hmay hstep =>
    obtain ⟨sentry, events, hloc⟩ := hcalling (by cases q <;> exact hin)
    refine ⟨sentry, events, ?_⟩
    unfold EventLoop.withCallbacks
    rw [hloc]
  | timers l v hmay hstep =>
    exact hcalling (passPoint_of_mayRunIn hmay hstep (by cases q <;> exact hin))
  | readTimer sentry events q' v hfree hloc hunread hbegin =>
    have hin'' : v.passPoint q ≠ .outside := by cases q <;> exact hin
    rcases passPoint_of_beginPass hbegin hin'' with rfl | hin'
    · exact ⟨sentry, events, rfl⟩
    · cases h.activity_of_pass hin' hloc
  | returns sentry events activity hfree hloc hdone =>
    have hin' : c.timerView.passPoint q ≠ .outside := by cases q <;> exact hin
    obtain rfl := h.activity_of_pass hin' hloc
    rcases hdone with hdone | hdone | ⟨q', hdone, hout⟩
    · cases hdone
    · cases hdone
    · obtain rfl := Activity.passing.inj hdone
      exact absurd hout hin'
  | readStop sentry events hfree hloc hpos =>
    have hin' : c.timerView.passPoint q ≠ .outside := by cases q <;> exact hin
    cases h.activity_of_pass hin' hloc
  | throws => exact absurd rfl hthrows
  | _ =>
    -- the thread is in no handler
    have hin' : c.timerView.passPoint q ≠ .outside := by cases q <;> exact hin
    have hpoint : ∃ sentry events, c.location.batchPoint = .calling sentry events := by
      obtain ⟨sentry, events, hloc⟩ := hcalling hin'
      rw [hloc]
      exact ⟨sentry, events, rfl⟩
    rw [‹c.location = _›] at hpoint
    simp [LoopLocation.batchPoint] at hpoint

theorem Going.inside_step (h : Going c) {l : EventLoopStep κ} (hl : eventLoopStep c l = some t)
    {sentry : Bool} {events : List BatchEvent} {phase : LoopPhase κ}
    (hloc : t.location = .calling sentry events (.processCallbacks phase)) :
    phase.inside = true := by
  have hdue := h.due.step h.located hl
  cases EventLoop.moves_of_step hl with
  | handlers _ l' members hon => exact h.inside _ _ _ hloc
  | stops l v hmay hstep => exact h.inside _ _ _ hloc
  | timers l v hmay hstep => exact h.inside _ _ _ hloc
  | callbacks l v hmay hstep =>
    rcases callbacks_step_cases hmay hstep with ⟨-, hsame⟩ | ⟨hloop, sentry', events', -, hloc'⟩
    · exact h.inside _ _ _ (hsame.symm.trans hloc)
    · obtain ⟨-, -, hactivity⟩ := LoopLocation.calling.inj (hloc'.symm.trans hloc)
      obtain rfl := Activity.processCallbacks.inj hactivity
      obtain ⟨hdispatching, hwaiting, -⟩ := loopStep_inside hmay hloop
      cases hphase : v.phase with
      | dispatching pending => exact absurd hphase (hdispatching pending)
      | waiting => exact absurd hphase hwaiting
      | readFailed =>
        rw [hphase] at hloc
        exact absurd hloc (hdue.notFailed _ _)
      | _ => rfl
  | dispatch sentry' event events' n hfree hloc' hderef =>
    obtain ⟨-, -, hactivity⟩ := LoopLocation.calling.inj hloc
    cases hn : n.callback with
    | user k =>
      rw [hn] at hactivity
      cases hactivity
    | own f =>
      rw [hn] at hactivity
      cases f <;> cases hactivity
      rfl
  | pruned sentry' members location hfree hloc' hprune hnext =>
    rcases hnext with rfl | rfl <;> cases hloc
  | _ => cases hloc

theorem Going.step (h : Going c) {l : EventLoopStep κ} (hl : eventLoopStep c l = some t)
    (hthrows : l ≠ .throws) (hadds : AddsForNoneDue c l) : Going t where
  located := h.located.step hl
  due := h.due.step h.located hl
  timers := by
    have hrun : eventLoopStep.run c [l] = some t := (Machine.run_singleton _ _).trans hl
    obtain ⟨ks, hks, halong⟩ := timerView_of_run AddsForNoneReported hrun h.located
      (by simpa using hthrows.symm)
      addsForNoneReported_of_isMove ⟨fun k hk _ => hadds k hk, fun _ _ => trivial⟩
    exact Machine.run_invariant_along (fun _ _ _ h hok hl => h.step hl hok) hks halong h.timers
  handoff := by
    have hrun : eventLoopStep.run c [l] = some t := (Machine.run_singleton _ _).trans hl
    exact (callbackView_of_run hrun h.located (by simpa using hthrows.symm)).invariant
      (fun _ _ _ h hl => h.step hl) h.handoff
  passes := h.passes_step hl hthrows
  inside _ _ _ hloc := h.inside_step hl hloc

end Going

section Ranks

/-- How many steps of a call of `add_callback` are left. -/
def MutexHolder.left : MutexHolder κ → ℕ
  | .adding _ _ .entered => 3
  | .adding _ _ .pushed => 2
  | .adding _ _ .written => 1
  | .none | .processing => 0

/-- How many steps are left of `process_callbacks`, when so many callbacks are queued. -/
def LoopPhase.left (queued : ℕ) : LoopPhase κ → ℕ
  | .dispatching _ => 6 + 2 * queued
  | .afterRead => 5 + 2 * queued
  | .locked => 4 + 2 * queued
  | .taken callbacks => 3 + 2 * callbacks.length
  | .running callbacks inCallback => 1 + 2 * callbacks.length + if inCallback then 1 else 0
  | .waiting | .readFailed => 0

namespace EventLoop

/-- How many steps of the calls of `add_callback` and `stop` are left that hold the thread up. -/
def busy (c : EventLoop κ) : ℕ := c.mutex.left + StopCall.left (c.stops .loop)

def queued (c : EventLoop κ) : ℕ := c.newCallbacks.length + c.mutex.inFlight.length

def entries (c : EventLoop κ) : TimerQueue → ℕ
  | .timeouts => c.timeouts.members.timeouts.length
  | .periodicTimeouts => c.periodicTimeouts.members.periodicTimeouts.length

/-- How many steps of the handler are left. -/
def activityLeft (c : EventLoop κ) : Activity κ → ℕ
  | .user | .processStop => 1
  | .processCallbacks phase => phase.left c.queued
  | .reading q => 5 + 2 * c.entries q + if (c.timerView.timer q).unread then 0 else 1
  | .passing q => 1 + (c.timerView.passPoint q).left (c.entries q)

def left (c : EventLoop κ) : ℕ :=
  c.busy +
    match c.location with
    | .calling _ _ activity => c.activityLeft activity
    | _ => 0

theorem left_of_calling {sentry : Bool} {events : List BatchEvent} {activity : Activity κ}
    (hloc : c.location = .calling sentry events activity) :
    c.left = c.busy + c.activityLeft activity := by
  unfold left
  rw [hloc]

/-- What ends a call of `add_callback` or `stop` leaves the handler where it is. -/
theorem left_lt_of_busy (hloc : t.location = c.location) (hqueued : t.queued = c.queued)
    (htimeouts : t.timeouts = c.timeouts) (hperiodic : t.periodicTimeouts = c.periodicTimeouts)
    (hbusy : t.busy < c.busy) : t.left < c.left := by
  have hentries : ∀ q, t.entries q = c.entries q := by
    intro q
    cases q <;> simp [entries, htimeouts, hperiodic]
  have hactivity : ∀ activity, t.activityLeft activity = c.activityLeft activity := by
    intro activity
    cases activity with
    | processCallbacks phase => exact congrArg phase.left hqueued
    | reading q =>
      have htimer : t.timerView.timer q = c.timerView.timer q := by
        cases q <;> simp [timerView, TimerLoop.timer, htimeouts, hperiodic]
      simp only [activityLeft, htimer, hentries]
    | passing q =>
      have hpass : t.timerView.passPoint q = c.timerView.passPoint q := by
        cases q <;> simp [timerView, TimerLoop.passPoint, htimeouts, hperiodic]
      simp only [activityLeft, hpass, hentries]
    | _ => rfl
  unfold left
  rw [hloc]
  cases c.location with
  | calling sentry events activity =>
    simp only [hactivity]
    omega
  | _ => exact Nat.add_lt_add_right hbusy 0

theorem free_of_not_busy (h : c.busy = 0) :
    c.free = true ∧ (c.mutex = .none ∨ c.mutex = .processing) := by
  obtain ⟨hmutex, hstop⟩ := Nat.add_eq_zero_iff.mp h
  have hstops : c.stops .loop = none := by
    cases hs : c.stops .loop with
    | none => rfl
    | some call =>
      rw [hs] at hstop
      simp only [StopCall.left] at hstop
      split_ifs at hstop
  unfold free
  cases hm : c.mutex with
  | none => simp [MutexHolder.byLoop, hstops]
  | processing => simp [MutexHolder.byLoop, hstops]
  | adding adder callback stage =>
    rw [hm] at hmutex
    cases stage <;> cases hmutex

/-- A step of `add_callback` in the loop. -/
theorem step_of_add {l : CallbackStep κ} {v : CallbackLoop κ} (hadd : l.isAdd = true)
    (hmay : l.mayRunIn c = true) (hv : addCallbackStep c.callbackView l = some v) :
    eventLoopStep c (.callbacks l) = some (c.withCallbacks v) ∧
      (c.withCallbacks v).location = c.location := by
  have hstep : callbackStep c.callbackView l = some v := by
    unfold callbackStep
    rw [if_pos hadd]
    exact hv
  have heq : eventLoopStep c (.callbacks l) =
      (callbackStep c.callbackView l).map c.withCallbacks := if_pos hmay
  refine ⟨by rw [heq, hstep, Option.map_some], ?_⟩
  have hphase : v.phase = c.location.phase c.own := addCallbackStep_phase hv
  unfold withCallbacks
  dsimp only
  split <;> rename_i hloc
  · rw [hphase, hloc]
    rfl
  · rfl

/-- The call of `add_callback` that holds the mutex goes on. -/
theorem step_of_adding {adder : Adder} {callback : QueuedCallback κ} {stage : AddStage}
    (hm : c.mutex = .adding adder callback stage) :
    ∃ l t, l.isOwn = true ∧ eventLoopStep c l = some t ∧ t.location = c.location ∧
      t.left < c.left := by
  cases stage with
  | entered =>
    obtain ⟨hstep, hloc⟩ := step_of_add (l := .push) rfl rfl
      (addCallbackStep_push.mpr ⟨adder, callback, hm, rfl⟩)
    refine ⟨_, _, rfl, hstep, hloc, left_lt_of_busy hloc ?_ rfl rfl ?_⟩
    · simp [queued, withCallbacks, callbackView, hm, MutexHolder.inFlight]
    · simp [busy, withCallbacks, hm, MutexHolder.left]
  | pushed =>
    obtain ⟨hstep, hloc⟩ := step_of_add (l := .write) rfl rfl
      (addCallbackStep_write.mpr ⟨adder, callback, hm, rfl⟩)
    refine ⟨_, _, rfl, hstep, hloc, left_lt_of_busy hloc ?_ rfl rfl ?_⟩
    · simp [queued, withCallbacks, callbackView, hm, MutexHolder.inFlight]
    · simp [busy, withCallbacks, hm, MutexHolder.left]
  | written =>
    obtain ⟨hstep, hloc⟩ := step_of_add (l := .leave) rfl rfl
      (addCallbackStep_leave.mpr ⟨adder, callback, hm, rfl⟩)
    refine ⟨_, _, rfl, hstep, hloc, left_lt_of_busy hloc ?_ rfl rfl ?_⟩
    · simp [queued, withCallbacks, callbackView, hm, MutexHolder.inFlight]
    · simp [busy, withCallbacks, hm, MutexHolder.left]

/-- The call of `stop` that the thread of the loop is in goes on. -/
theorem step_of_stopping {call : StopCall} (hs : c.stops .loop = some call) :
    ∃ l t, l.isOwn = true ∧ eventLoopStep c l = some t ∧ t.location = c.location ∧
      t.left < c.left := by
  obtain ⟨during, cleared⟩ := call
  cases cleared with
  | false =>
    have hv := stopStep_clearKeepRunning (c := c.startStopView) (s := .loop) |>.mpr
      ⟨during, hs, rfl⟩
    have hstep : eventLoopStep c (.stops (.clearKeepRunning .loop)) =
        some (c.withStops _) := congrArg (Option.map c.withStops) hv
    refine ⟨_, _, rfl, hstep, rfl, left_lt_of_busy rfl rfl rfl rfl ?_⟩
    simp [busy, withStops, startStopView, hs, StopCall.left]
  | true =>
    have hv := stopStep_writeStopEventfd (c := c.startStopView) (s := .loop) |>.mpr
      ⟨during, hs, rfl⟩
    have hstep : eventLoopStep c (.stops (.writeStopEventfd .loop)) =
        some (c.withStops _) := congrArg (Option.map c.withStops) hv
    refine ⟨_, _, rfl, hstep, rfl, left_lt_of_busy rfl rfl rfl rfl ?_⟩
    simp [busy, withStops, hs, StopCall.left]

theorem busy_step (hbusy : c.busy ≠ 0) :
    ∃ l t, l.isOwn = true ∧ eventLoopStep c l = some t ∧ t.location = c.location ∧
      t.left < c.left := by
  cases hm : c.mutex with
  | adding adder callback stage => exact step_of_adding hm
  | _ =>
    cases hs : c.stops .loop with
    | some call => exact step_of_stopping hs
    | none => exact absurd (by simp [busy, hm, hs, MutexHolder.left, StopCall.left]) hbusy

theorem left_lt_of_calling {sentry : Bool} {events : List BatchEvent} {a a' : Activity κ}
    (hloc : c.location = .calling sentry events a) (hloc' : t.location = .calling sentry events a')
    (hbusy : t.busy = c.busy) (hlt : t.activityLeft a' < c.activityLeft a) : t.left < c.left := by
  rw [left_of_calling hloc, left_of_calling hloc', hbusy]
  exact Nat.add_lt_add_left hlt _

theorem left_lt_of_returned {sentry : Bool} {events : List BatchEvent} {a : Activity κ}
    (hloc : c.location = .calling sentry events a) (hloc' : t.location = .dispatching sentry events)
    (hbusy : t.busy = c.busy) (hpos : 0 < c.activityLeft a) : t.left < c.left := by
  have ht : t.left = t.busy := by
    unfold left
    rw [hloc']
    rfl
  rw [left_of_calling hloc, ht, hbusy]
  exact Nat.lt_add_of_pos_right hpos

end EventLoop

/-- The thread of the loop takes a step of its own in the handler of an event, or leaves it. -/
def GoesOn (sentry : Bool) (events : List BatchEvent) (c : EventLoop κ) : Prop :=
  ∃ l t, l.isOwn = true ∧ eventLoopStep c l = some t ∧
    (t.location = .dispatching sentry events ∨
      ∃ activity, t.location = .calling sentry events activity) ∧ t.left < c.left

variable {sentry : Bool} {events : List BatchEvent}

/-- The handler returns. -/
theorem goesOn_of_returns {activity : Activity κ} (hfree : c.free = true)
    (hloc : c.location = .calling sentry events activity)
    (hreturns : c.handlerReturns = some { c with location := .dispatching sentry events })
    (hpos : 0 < c.activityLeft activity) : GoesOn sentry events c := by
  have hstep : eventLoopStep c .handlerReturns = some { c with
      location := .dispatching sentry events } := (if_pos hfree).trans hreturns
  exact ⟨.handlerReturns, _, rfl, hstep, .inl rfl,
    EventLoop.left_lt_of_returned hloc rfl rfl hpos⟩

section InCallbacks

/-- A step of `process_callbacks` in the loop. -/
theorem goesOn_of_loopStep {phase : LoopPhase κ} {l : CallbackStep κ} {v : CallbackLoop κ}
    (hloc : c.location = .calling sentry events (.processCallbacks phase))
    (hown : (EventLoopStep.callbacks l).isOwn = true) (hmay : l.mayRunIn c = true)
    (hadd : l.isAdd = false) (hfree : c.free = true) (hv : loopStep c.callbackView l = some v)
    (hmutex : v.mutex.left = c.mutex.left)
    (hlt : v.phase.left (v.newCallbacks.length + v.mutex.inFlight.length) < phase.left c.queued) :
    GoesOn sentry events c := by
  have hv := callbackStep_of_loopStep hadd (not_byLoop hfree) hv
  have hstep : eventLoopStep c (.callbacks l) = some (c.withCallbacks v) := by
    have heq : eventLoopStep c (.callbacks l) =
        (callbackStep c.callbackView l).map c.withCallbacks := if_pos hmay
    rw [heq, hv, Option.map_some]
  have hloc' : (c.withCallbacks v).location =
      .calling sentry events (.processCallbacks v.phase) := by
    unfold EventLoop.withCallbacks
    rw [hloc]
  refine ⟨_, _, hown, hstep, .inr ⟨_, hloc'⟩, EventLoop.left_lt_of_calling hloc hloc' ?_ hlt⟩
  exact congrArg (· + _) hmutex

theorem Going.callbacks_go_on (h : Going c) (hbusy : c.busy = 0) {phase : LoopPhase κ}
    (hloc : c.location = .calling sentry events (.processCallbacks phase)) :
    GoesOn sentry events c := by
  obtain ⟨hfree, hmutex⟩ := EventLoop.free_of_not_busy hbusy
  have hp : c.callbackView.phase = phase := phase_eq hloc
  have hinside := h.inside _ _ _ hloc
  have hmay : CallbackStep.mayRunIn c (.read : CallbackStep κ) = true := by
    unfold CallbackStep.mayRunIn
    rw [hloc]
    exact hfree
  cases phase with
  | dispatching pending =>
    obtain rfl : pending = true := hinside
    have hpos : 0 < c.callbacksEventfd := h.due.callbacks (.inr ⟨_, _, _, hloc, rfl⟩)
    refine goesOn_of_loopStep hloc (l := .read) rfl hmay rfl hfree
      (loopStep_read.mpr ⟨hp, if_neg (Nat.pos_iff_ne_zero.mp hpos)⟩) rfl ?_
    show 5 + 2 * c.queued < 6 + 2 * c.queued
    omega
  | afterRead =>
    have hnone : c.mutex = .none := by
      refine hmutex.resolve_right fun hheld => ?_
      have hholds := h.handoff.exclusion.mpr hheld
      rw [hp] at hholds
      cases hholds
    refine goesOn_of_loopStep hloc (l := .lock) rfl hmay rfl hfree
      (loopStep_lock.mpr ⟨hp, hnone, rfl⟩) (by rw [hnone]; rfl) ?_
    show 4 + 2 * (c.newCallbacks.length + 0) < 5 + 2 * c.queued
    unfold EventLoop.queued
    omega
  | locked =>
    refine goesOn_of_loopStep hloc (l := .take) rfl hmay rfl hfree
      (loopStep_take.mpr ⟨hp, rfl⟩) rfl ?_
    show 3 + 2 * c.newCallbacks.length < 4 + 2 * c.queued
    unfold EventLoop.queued
    omega
  | taken callbacks =>
    refine goesOn_of_loopStep hloc (l := .unlock) rfl hmay rfl hfree
      (loopStep_unlock.mpr ⟨callbacks, hp, rfl⟩) ?_ ?_
    · rcases hmutex with hm | hm
      · rw [hm]
      · rw [hm]
        rfl
    · show 1 + 2 * callbacks.length + 0 < 3 + 2 * callbacks.length
      omega
  | running callbacks inCallback =>
    cases inCallback with
    | true =>
      refine goesOn_of_loopStep hloc (l := .callbackReturns) rfl hmay rfl hfree
        (loopStep_callbackReturns.mpr ⟨callbacks, hp, rfl⟩) rfl ?_
      show 1 + 2 * callbacks.length + 0 < 1 + 2 * callbacks.length + 1
      omega
    | false =>
      cases callbacks with
      | nil =>
        refine goesOn_of_returns hfree hloc ?_ Nat.zero_lt_one
        unfold EventLoop.handlerReturns
        rw [hloc]
      | cons callback callbacks =>
        refine goesOn_of_loopStep hloc (l := .call) rfl hmay rfl hfree
          (loopStep_call.mpr ⟨callback, callbacks, hp, rfl⟩) rfl ?_
        show 1 + 2 * callbacks.length + 1 < 1 + 2 * (callbacks.length + 1) + 0
        omega
  | waiting => cases hinside
  | readFailed => cases hinside

end InCallbacks

section InTimers

/-- A step of a pass or of the clock in the loop. -/
theorem goesOn_of_timers {activity : Activity κ} {l : TimerLoopStep κ} {u : TimerLoop κ}
    (hloc : c.location = .calling sentry events activity)
    (hown : (EventLoopStep.timers l).isOwn = true) (hmay : l.mayRunIn c = true)
    (hu : timerLoopMove c.timerView l = some u)
    (hlt : (c.withTimers u).activityLeft activity < c.activityLeft activity) :
    GoesOn sentry events c := by
  have hstep : eventLoopStep c (.timers l) =
      ((timerLoopMove c.timerView l).map _).map c.withTimers := if_pos hmay
  rw [hu] at hstep
  refine ⟨_, _, hown, hstep, .inr ⟨activity, hloc⟩, ?_⟩
  have hloc' : (c.withTimers u).location = .calling sentry events activity := hloc
  refine EventLoop.left_lt_of_calling hloc hloc' rfl ?_
  cases activity with
  | reading q => cases q <;> exact hlt
  | passing q => cases q <;> exact hlt
  | _ => exact hlt

theorem Going.reading_goes_on (h : Going c) (hbusy : c.busy = 0) {q : TimerQueue}
    (hloc : c.location = .calling sentry events (.reading q)) : GoesOn sentry events c := by
  obtain ⟨hfree, -⟩ := EventLoop.free_of_not_busy hbusy
  have hout : ∀ q', c.timerView.passPoint q' = .outside := h.no_pass fun _ _ _ hcalling => by
    rw [hloc] at hcalling
    cases hcalling
  have hbegin : ∃ v, c.timerView.beginPass q = some v ∧ ∃ p, v.passPoint q = .loop p ∧ p.i = 0 ∧
      (c.withTimers v).entries q = c.entries q := by
    cases q with
    | timeouts =>
      have hs : timeoutStep c.timeouts (.processTimeouts c.clock) = some _ :=
        timeoutStep_processTimeouts.mpr ⟨hout .timeouts, rfl⟩
      exact ⟨_, congrArg (Option.map _) hs, _, rfl, rfl, rfl⟩
    | periodicTimeouts =>
      have hs : periodicTimeoutStep c.periodicTimeouts (.processPeriodicTimeouts c.clock) = some _ :=
        periodicTimeoutStep_processPeriodicTimeouts.mpr ⟨hout .periodicTimeouts, rfl⟩
      exact ⟨_, congrArg (Option.map _) hs, _, rfl, rfl, rfl⟩
  by_cases hunread : (c.timerView.timer q).unread = true
  · obtain ⟨v, hv, p, hp, hi, hentries⟩ := hbegin
    have hstep : eventLoopStep c .readTimerfd =
        some { c.withTimers v with location := .calling sentry events (.passing q) } := by
      show (if c.free = true then c.startStep .readTimerfd else none) = _
      rw [if_pos hfree]
      simp only [EventLoop.startStep, hloc, hunread, if_true, hv, Option.map_some]
    refine ⟨_, _, rfl, hstep, .inr ⟨_, rfl⟩, EventLoop.left_lt_of_calling hloc rfl rfl ?_⟩
    have hleft : 1 + (PassPoint.loop p).left (c.entries q) <
        5 + 2 * c.entries q + if (c.timerView.timer q).unread then 0 else 1 := by
      simp only [PassPoint.left, hi, hunread, if_true]
      omega
    have hpass : ∀ v' : TimerLoop κ, v'.passPoint q = v.passPoint q →
        1 + (v'.passPoint q).left (c.entries q) <
          5 + 2 * c.entries q + if (c.timerView.timer q).unread then 0 else 1 := by
      intro v' heq
      rw [heq, hp]
      exact hleft
    show 1 + PassPoint.left ((c.withTimers v).entries q) _ < _
    rw [hentries]
    exact hpass _ (by cases q <;> rfl)
  · -- the timer expires within a nanosecond
    have hready := h.timers.readsAtOnce q _ (loopPoint_eq hloc)
    obtain ⟨expiry, hexpiry, hle⟩ := hready.resolve_left hunread
    have hexpires : ((c.timerView.timer q).elapse (c.clock + 1)).unread = true := by
      unfold MonotonicTimerfd.elapse
      rw [if_pos]
      rw [Option.mem_def.mp hexpiry]
      exact decide_eq_true hle
    refine goesOn_of_timers hloc (l := .tick (c.clock + 1)) rfl rfl
      (timerLoopMove_tick.mpr ⟨Int.le_add_one le_rfl, rfl⟩) ?_
    have hunread' : (c.timerView.timer q).unread = false := Bool.eq_false_iff.mpr hunread
    cases q with
    | timeouts =>
      show 5 + 2 * c.entries .timeouts +
        (if ((c.timerView.timer .timeouts).elapse (c.clock + 1)).unread then 0 else 1) < _
      simp only [EventLoop.activityLeft, hexpires, hunread', if_true, Bool.false_eq_true, if_false]
      omega
    | periodicTimeouts =>
      show 5 + 2 * c.entries .periodicTimeouts +
        (if ((c.timerView.timer .periodicTimeouts).elapse (c.clock + 1)).unread then 0 else 1) < _
      simp only [EventLoop.activityLeft, hexpires, hunread', if_true, Bool.false_eq_true, if_false]
      omega

/-- A pass over the one-shot timeouts goes on. -/
theorem timeouts_pass_goes_on (hbusy : c.busy = 0)
    (hloc : c.location = .calling sentry events (.passing .timeouts)) :
    GoesOn sentry events c := by
  obtain ⟨hfree, -⟩ := EventLoop.free_of_not_busy hbusy
  have hpassing : c.timerView.passing .timeouts = true := by
    unfold TimerLoop.passing
    rw [loopPoint_eq hloc]
    rfl
  have hmove : ∀ {l v}, l.mayRun c.timerView = true → timeoutStep c.timeouts l = some v →
      timerLoopMove c.timerView (.timeouts l) = some { c.timerView with timeouts := v } :=
    fun hrun hv => timerLoopMove_timeouts.mpr ⟨hrun, _, hv, rfl⟩
  cases hp : c.timeouts.point with
  | outside =>
    refine goesOn_of_returns hfree hloc ?_ (Nat.add_pos_left Nat.zero_lt_one _)
    have hout : c.timerView.passPoint .timeouts = .outside := hp
    simp only [EventLoop.handlerReturns, hloc, hout, if_true]
  | loop p =>
    refine goesOn_of_timers hloc (l := .timeouts .iterate) rfl hfree
      (hmove hpassing (timeoutStep_iterate.mpr ⟨p, hp, rfl⟩)) ?_
    show 1 + (iteration c.timeouts p).point.left (iteration c.timeouts p).members.timeouts.length <
      1 + c.timeouts.point.left c.timeouts.members.timeouts.length
    have hit := iterates c.timeouts p
    generalize iteration c.timeouts p = v at hit ⊢
    have hlt : ∀ e, c.timeouts.members.timeouts[p.i]? = some e →
        p.i < c.timeouts.members.timeouts.length := fun e he => (List.getElem?_eq_some_iff.mp he).1
    rw [hp]
    cases hit with
    | atEnd => simp only [PassPoint.left]; omega
    | skip e he =>
      have hi := hlt e he
      simp only [PassPoint.left]
      omega
    | call e he =>
      have hi := hlt e he
      simp only [PassPoint.left]
      omega
    | stop => simp only [PassPoint.left]; omega
  | callback p =>
    refine goesOn_of_timers hloc (l := .timeouts .callbackReturns) rfl hfree
      (hmove hpassing (timeoutStep_callbackReturns.mpr ⟨p, hp, rfl⟩)) ?_
    show 1 + (PassPoint.loop p).left c.timeouts.members.timeouts.length <
      1 + c.timeouts.point.left c.timeouts.members.timeouts.length
    rw [hp]
    simp only [PassPoint.left]
    omega
  | done p =>
    refine goesOn_of_timers hloc (l := .timeouts (.finish { now := c.clock })) rfl
      (by simp [TimerLoopStep.mayRunIn, hfree])
      (hmove (Bool.and_eq_true_iff.mpr ⟨hpassing, SettimeOutcome.madeAt_now _⟩)
        (timeoutStep_finish.mpr ⟨p, hp, rfl⟩)) ?_
    show 1 + 0 < 1 + c.timeouts.point.left c.timeouts.members.timeouts.length
    rw [hp]
    simp only [PassPoint.left]
    omega

/-- A pass over the periodic timeouts goes on. -/
theorem periodicTimeouts_pass_goes_on (hbusy : c.busy = 0)
    (hloc : c.location = .calling sentry events (.passing .periodicTimeouts)) :
    GoesOn sentry events c := by
  obtain ⟨hfree, -⟩ := EventLoop.free_of_not_busy hbusy
  have hpassing : c.timerView.passing .periodicTimeouts = true := by
    unfold TimerLoop.passing
    rw [loopPoint_eq hloc]
    rfl
  have hmove : ∀ {l v}, l.mayRun c.timerView = true →
      periodicTimeoutStep c.periodicTimeouts l = some v →
      timerLoopMove c.timerView (.periodicTimeouts l) =
        some { c.timerView with periodicTimeouts := v } :=
    fun hrun hv => timerLoopMove_periodicTimeouts.mpr ⟨hrun, _, hv, rfl⟩
  cases hp : c.periodicTimeouts.point with
  | outside =>
    refine goesOn_of_returns hfree hloc ?_ (Nat.add_pos_left Nat.zero_lt_one _)
    have hout : c.timerView.passPoint .periodicTimeouts = .outside := hp
    simp only [EventLoop.handlerReturns, hloc, hout, if_true]
  | loop p =>
    refine goesOn_of_timers hloc (l := .periodicTimeouts .iterate) rfl hfree
      (hmove hpassing (periodicTimeoutStep_iterate.mpr ⟨p, hp, rfl⟩)) ?_
    show 1 + (periodicIteration c.periodicTimeouts p).point.left
        (periodicIteration c.periodicTimeouts p).members.periodicTimeouts.length <
      1 + c.periodicTimeouts.point.left c.periodicTimeouts.members.periodicTimeouts.length
    have hit := periodicIterates c.periodicTimeouts p
    generalize periodicIteration c.periodicTimeouts p = v at hit ⊢
    have hlt : ∀ e, c.periodicTimeouts.members.periodicTimeouts[p.i]? = some e →
        p.i < c.periodicTimeouts.members.periodicTimeouts.length :=
      fun e he => (List.getElem?_eq_some_iff.mp he).1
    rw [hp]
    cases hit with
    | atEnd => simp only [PassPoint.left]; omega
    | skip e he =>
      have hi := hlt e he
      simp only [PassPoint.left]
      omega
    | call e he =>
      have hi := hlt e he
      simp only [PassPoint.left, List.length_set]
      omega
    | stop => simp only [PassPoint.left]; omega
  | callback p =>
    refine goesOn_of_timers hloc (l := .periodicTimeouts .callbackReturns) rfl hfree
      (hmove hpassing (periodicTimeoutStep_callbackReturns.mpr ⟨p, hp, rfl⟩)) ?_
    show 1 + (PassPoint.loop p).left c.periodicTimeouts.members.periodicTimeouts.length <
      1 + c.periodicTimeouts.point.left c.periodicTimeouts.members.periodicTimeouts.length
    rw [hp]
    simp only [PassPoint.left]
    omega
  | done p =>
    obtain ⟨order, horder⟩ := SortOrder.exists_isSortOrder PeriodicTimeoutCallback.timeout
      (c.periodicTimeouts.members.rescheduled c.clock)
    have hrun : (PeriodicTimeoutStep.finish (κ := κ) c.clock order { now := c.clock }).mayRun
        c.timerView = true := by
      refine Bool.and_eq_true_iff.mpr ⟨Bool.and_eq_true_iff.mpr ⟨hpassing, ?_⟩, ?_⟩
      · exact decide_eq_true le_rfl
      · exact SettimeOutcome.madeAt_now _
    refine goesOn_of_timers hloc (l := .periodicTimeouts (.finish c.clock order { now := c.clock }))
      rfl (by simp [TimerLoopStep.mayRunIn, hfree])
      (hmove hrun (periodicTimeoutStep_finish.mpr ⟨p, hp, horder, rfl⟩)) ?_
    show 1 + 0 < 1 + c.periodicTimeouts.point.left c.periodicTimeouts.members.periodicTimeouts.length
    rw [hp]
    simp only [PassPoint.left]
    omega

end InTimers

/-- **In the handler of an event the thread goes on.** -/
theorem Going.goes_on (h : Going c) {activity : Activity κ}
    (hloc : c.location = .calling sentry events activity) : GoesOn sentry events c := by
  by_cases hbusy : c.busy = 0
  · obtain ⟨hfree, -⟩ := EventLoop.free_of_not_busy hbusy
    cases activity with
    | user =>
      refine goesOn_of_returns hfree hloc ?_ Nat.zero_lt_one
      unfold EventLoop.handlerReturns
      rw [hloc]
    | processStop =>
      have hpos : 0 < c.stopEventfd := h.due.stop (.inr ⟨_, _, _, hloc, rfl⟩)
      have hstep : eventLoopStep c .readStopEventfd = some { c with
          stopEventfd := 0, location := .dispatching sentry events } := by
        show (if c.free = true then c.startStep .readStopEventfd else none) = _
        rw [if_pos hfree]
        simp only [EventLoop.startStep, hloc, hpos, if_true]
      exact ⟨_, _, rfl, hstep, .inl rfl,
        EventLoop.left_lt_of_returned hloc rfl rfl Nat.zero_lt_one⟩
    | processCallbacks phase => exact h.callbacks_go_on hbusy hloc
    | reading q => exact h.reading_goes_on hbusy hloc
    | passing q =>
      cases q with
      | timeouts => exact timeouts_pass_goes_on hbusy hloc
      | periodicTimeouts => exact periodicTimeouts_pass_goes_on hbusy hloc
  · obtain ⟨l, t, hown, hstep, hloc', hlt⟩ := EventLoop.busy_step hbusy
    exact ⟨l, t, hown, hstep, .inr ⟨activity, hloc'.trans hloc⟩, hlt⟩

end Ranks

section Batches

/-- Own steps add no timeouts. -/
theorem isAdd_of_isOwn {k : TimerLoopStep κ} (h : (EventLoopStep.timers k).isOwn = true) :
    k.isAdd = false := by
  cases k with
  | timeouts l => cases l <;> first | rfl | cases h
  | periodicTimeouts l => cases l <;> first | rfl | cases h
  | _ => rfl

theorem isOwn_spec {l : EventLoopStep κ} (h : l.isOwn = true) :
    l ≠ .throws ∧ AddsForNoneDue c l := by
  constructor
  · rintro rfl
    cases h
  · rintro k rfl hadd
    rw [isAdd_of_isOwn h] at hadd
    cases hadd

theorem Going.own_step (h : Going c) {l : EventLoopStep κ} (hown : l.isOwn = true)
    (hl : eventLoopStep c l = some t) : Going t :=
  have hspec := isOwn_spec (c := c) hown
  h.step hl hspec.1 hspec.2

/-- The calls of `add_callback` and `stop` that hold the thread up are ended. -/
theorem Going.gets_free (h : Going c) :
    ∃ ls t, (∀ l ∈ ls, l.isOwn = true) ∧ eventLoopStep.run c ls = some t ∧
      (Going t ∧ t.location = c.location) ∧ t.busy = 0 := by
  have hrank : ∀ s : EventLoop κ, Going s ∧ s.location = c.location → ¬ s.busy = 0 →
      ∃ l t, l.isOwn = true ∧ eventLoopStep s l = some t ∧
        (Going t ∧ t.location = c.location) ∧ t.left < s.left := by
    rintro s ⟨hs, hloc⟩ hbusy
    obtain ⟨l, t, hown, hstep, hloc', hlt⟩ := EventLoop.busy_step hbusy
    exact ⟨l, t, hown, hstep, ⟨hs.own_step hown hstep, hloc'.trans hloc⟩, hlt⟩
  exact Machine.exists_run_of_rank_of_invariant EventLoop.left hrank ⟨h, rfl⟩

/-- A handler returns. -/
theorem Going.handler_returns (h : Going c) {sentry : Bool} {events : List BatchEvent}
    {activity : Activity κ} (hloc : c.location = .calling sentry events activity) :
    ∃ ls t, (∀ l ∈ ls, l.isOwn = true) ∧ eventLoopStep.run c ls = some t ∧ Going t ∧
      t.location = .dispatching sentry events := by
  have hrank : ∀ s : EventLoop κ, Going s ∧ (s.location = .dispatching sentry events ∨
        ∃ activity, s.location = .calling sentry events activity) →
      ¬ s.location = .dispatching sentry events → ∃ l t, l.isOwn = true ∧
        eventLoopStep s l = some t ∧ (Going t ∧ (t.location = .dispatching sentry events ∨
          ∃ activity, t.location = .calling sentry events activity)) ∧ t.left < s.left := by
    rintro s ⟨hs, hin⟩ hnot
    obtain ⟨activity, hcalling⟩ := hin.resolve_left hnot
    obtain ⟨l, t, hown, hstep, hin', hlt⟩ := hs.goes_on hcalling
    exact ⟨l, t, hown, hstep, ⟨hs.own_step hown hstep, hin'⟩, hlt⟩
  obtain ⟨ls, t, hls, hrun, ht, hdone⟩ := Machine.exists_run_of_rank_of_invariant
    EventLoop.left hrank ⟨h, .inr ⟨activity, hloc⟩⟩
  exact ⟨ls, t, hls, hrun, ht.1, hdone⟩

/-- The handler of the next event is called. -/
theorem Going.dispatches (h : Going c) (hfree : c.free = true) {sentry : Bool}
    {event : BatchEvent} {events : List BatchEvent}
    (hloc : c.location = .dispatching sentry (event :: events)) :
    ∃ t activity, eventLoopStep c .dispatch = some t ∧
      t.location = .calling sentry events activity := by
  have hmem : event ∈ c.location.batchPoint.pending := by
    rw [hloc]
    exact List.mem_cons_self
  obtain ⟨n, hn, -⟩ := h.located.leads hmem
  have hstep : eventLoopStep c .dispatch = some { c with
      location := .calling sentry events n.callback.activity
      calls := c.calls ++ [⟨event, n.fd, n.events, n.callback⟩] } := by
    show (if c.free = true then c.startStep .dispatch else none) = _
    rw [if_pos hfree]
    simp only [EventLoop.startStep, hloc, hn]
  exact ⟨_, _, hstep, rfl⟩

/-- Behind the last event the list of the handlers is pruned. -/
theorem prunes (hfree : c.free = true) {sentry : Bool} (hloc : c.location = .dispatching sentry []) :
    ∃ t, eventLoopStep c .prune = some t ∧ (t.location = .testing ∨ t.location = .outside) := by
  have hstep : eventLoopStep c .prune = c.prune := if_pos hfree
  rw [hstep]
  unfold EventLoop.prune
  rw [hloc]
  dsimp only
  split
  · exact ⟨_, rfl, .inl rfl⟩
  · exact ⟨_, rfl, .inr rfl⟩

theorem EventLoop.BatchEnds.of_run {ls : List (EventLoopStep κ)} (h : t.BatchEnds)
    (hown : ∀ l ∈ ls, l.isOwn = true) (hrun : eventLoopStep.run c ls = some t) : c.BatchEnds := by
  obtain ⟨ks, u, hks, hrun', hu⟩ := h
  refine ⟨ls ++ ks, u, ?_, Machine.run_append_eq_some.mpr ⟨t, hrun, hrun'⟩, hu⟩
  exact fun l hl => (List.mem_append.mp hl).elim (hown l) (hks l)

theorem EventLoop.BatchEnds.of_step {l : EventLoopStep κ} (hown : l.isOwn = true)
    (hl : eventLoopStep c l = some t) (hend : t.location = .testing ∨ t.location = .outside) :
    c.BatchEnds :=
  ⟨[l], t, List.forall_mem_singleton.mpr hown, (Machine.run_singleton _ _).trans hl, hend⟩

/-- By induction on the events that are left. -/
theorem Going.rest_ends {sentry : Bool} {events : List BatchEvent} (h : Going c)
    (hloc : c.location = .dispatching sentry events) : c.BatchEnds := by
  induction events generalizing c with
  | nil =>
    obtain ⟨ls, s, hown, hrun, ⟨-, hsame⟩, hbusy⟩ := h.gets_free
    obtain ⟨t, hstep, hend⟩ := prunes (EventLoop.free_of_not_busy hbusy).1 (hsame.trans hloc)
    exact EventLoop.BatchEnds.of_run (.of_step rfl hstep hend) hown hrun
  | cons event events ih =>
    obtain ⟨ls, s, hown, hrun, ⟨hs, hsame⟩, hbusy⟩ := h.gets_free
    obtain ⟨t, activity, hstep, hcalling⟩ :=
      hs.dispatches (EventLoop.free_of_not_busy hbusy).1 (hsame.trans hloc)
    obtain ⟨ks, u, hown', hrun', hu, hloc'⟩ := (hs.own_step rfl hstep).handler_returns hcalling
    have hrest : s.BatchEnds := by
      have hrun := Machine.run_cons_eq_some.mpr ⟨t, hstep, hrun'⟩
      exact (ih hu hloc').of_run (List.forall_mem_cons.mpr ⟨rfl, hown'⟩) hrun
    exact hrest.of_run hown hrun

theorem Going.of_run (hrun : eventLoopStep.run (EventLoop.construct κ own clock) ls = some c)
    (hthrows : .throws ∉ ls)
    (hadds : eventLoopStep.Along AddsForNoneDue (EventLoop.construct κ own clock) ls) : Going c := by
  have halong : eventLoopStep.Along (fun s l => l ≠ .throws ∧ AddsForNoneDue s l)
      (EventLoop.construct κ own clock) ls :=
    Machine.Along.and (Machine.along_of_forall_mem fun _ l hl => by
      rintro rfl
      exact hthrows hl) hadds
  exact Machine.run_invariant_along (fun _ _ _ h hok hl => h.step hl hok.1 hok.2) hrun halong
    (Going.construct own clock)

/-- **Every batch ends.** Wherever the thread of the loop is, other than in `epoll_wait`, its own
steps lead to the next test of `keep_running_` or out of `start`: no handler of the loop waits, none
goes round for ever, and no call of `add_callback` or `stop` holds the thread up. -/
theorem every_batch_ends
    (hrun : eventLoopStep.run (EventLoop.construct κ own clock) ls = some c)
    (hthrows : .throws ∉ ls)
    (hadds : eventLoopStep.Along AddsForNoneDue (EventLoop.construct κ own clock) ls)
    (hloc : c.location ≠ .waiting) : c.BatchEnds := by
  have h := Going.of_run hrun hthrows hadds
  cases hin : c.location with
  | outside => exact ⟨[], c, by simp, rfl, .inr hin⟩
  | testing => exact ⟨[], c, by simp, rfl, .inl hin⟩
  | waiting => exact absurd hin hloc
  | entered =>
    obtain ⟨ks, t, hown, hrun', ⟨-, hsame⟩, hbusy⟩ := h.gets_free
    have hstep : eventLoopStep t .setKeepRunning =
        some { t with keepRunning := true, location := .testing } := by
      show (if t.free = true then t.startStep .setKeepRunning else none) = _
      rw [if_pos (EventLoop.free_of_not_busy hbusy).1]
      simp only [EventLoop.startStep, hsame.trans hin]
    exact EventLoop.BatchEnds.of_run (.of_step rfl hstep (.inl rfl)) hown hrun'
  | dispatching sentry events => exact h.rest_ends hin
  | calling sentry events activity =>
    obtain ⟨ks, t, hown, hrun', ht, hdispatching⟩ := h.handler_returns hin
    exact (ht.rest_ends hdispatching).of_run hown hrun'

theorem every_batch_ends_expired : ∃ c,
    eventLoopStep.run (EventLoop.construct ℕ firstFds 0) expireThenDispatch = some c ∧
      c.location = .calling false [] (.reading .timeouts) ∧ c.BatchEnds := by
  have hrun : eventLoopStep.run (EventLoop.construct ℕ firstFds 0) expireThenDispatch = some _ :=
    rfl
  have hthrows : .throws ∉ expireThenDispatch := by simp [expireThenDispatch]
  refine ⟨_, hrun, rfl, every_batch_ends hrun hthrows expireThenDispatch_adds fun hloc => ?_⟩
  cases hloc

end Batches

end Linuxpp.Ioloop
