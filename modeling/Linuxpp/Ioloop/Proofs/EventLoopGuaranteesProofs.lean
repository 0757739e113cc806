import Linuxpp.Ioloop.Proofs.EventLoopRefinementProofs

/-!
# Proofs: what the loop does with its own descriptors

The four functions of the loop are called for their descriptors and for nothing else, and what they
read is there to be read, so that the one thread of the loop waits in `epoll_wait` and nowhere else.
-/

namespace Linuxpp.Ioloop

variable {κ : Type} {c t : EventLoop κ} {own : OwnFds} {clock : TimeType}
  {ls : List (EventLoopStep κ)}

section OwnFunctions

theorem HandlerFunction.eq_own_iff {g : HandlerFunction κ} {f : OwnFunction} :
    g = .own f ↔ g.function? = some f := by
  cases g <;> simp [function?]

/-- A function of the loop is called for the events of its descriptor. -/
def CalledOwn (c : EventLoop κ) : Prop :=
  ∀ call ∈ c.calls, call.callback.function? = c.own.function call.event

theorem CalledOwn.step (h : CalledOwn c) (hc : Located c) {l : EventLoopStep κ}
    (hl : eventLoopStep c l = some t) : CalledOwn t := by
  cases EventLoop.moves_of_step hl with
  | dispatch sentry event events n hfree hloc hderef =>
    intro call hcall
    rcases List.mem_append.mp hcall with hcall | hcall
    · exact h call hcall
    · obtain rfl := List.mem_singleton.mp hcall
      exact n.callback.activity_function.symm.trans (hc.of_dispatch hloc hderef).1
  | _ => exact h

/-- An event of the batch leads to the handler of its descriptor. -/
theorem Located.leads (h : Located c) {e : BatchEvent}
    (he : e ∈ c.location.batchPoint.pending) : ∃ n, c.handlers.deref e.event = some n ∧
      e.about = some n.fd ∧ ∀ f, n.callback = .own f ↔ e.about = some (c.own.fd f) := by
  have hleading := (h.serving.kept .processStop).leading
  obtain ⟨fd, habout⟩ := h.serving.reported e he
  obtain ⟨n, hn, rfl, hptr⟩ := hleading.pending e he fd habout
  have hderef : c.handlers.deref e.event = some n := by
    obtain ⟨⟨events, ptr⟩, about⟩ := e
    obtain rfl : ptr = some n.address := hptr
    exact hleading.tables.deref_of_mem hn events
  refine ⟨n, hderef, habout, fun f => ?_⟩
  rw [HandlerFunction.eq_own_iff, h.serving.deref he hderef, OwnFds.function_eq_some]

/-- **The loop's own functions are served, and nothing else is taken for them.** In every run they
stay registered for their descriptors, every event of a batch leads to the handler of the descriptor
that it was reported for, and each of the four functions is called for the events of its own
descriptor and for no others, whatever other handlers user code adds and removes and whatever other
descriptors it closes. -/
theorem own_functions_served
    (hrun : eventLoopStep.run (EventLoop.construct κ own clock) ls = some c) : ServesOwn c := by
  have hstep : ∀ (s : EventLoop κ) l t, Located s ∧ CalledOwn s → eventLoopStep s l = some t →
      Located t ∧ CalledOwn t := fun _ _ _ h hl => ⟨h.1.step hl, h.2.step h.1 hl⟩
  obtain ⟨hlocated, hcalled⟩ := Machine.run_invariant hstep hrun
    ⟨Located.construct own clock, fun _ hcall => by cases hcall⟩
  refine ⟨fun f => ?_, fun e he => hlocated.leads he, fun call hcall f => ?_⟩
  · have hkept := hlocated.serving.kept f
    exact ⟨hkept.node, hkept.interest.resolve_left id⟩
  · rw [HandlerFunction.eq_own_iff, hcalled call hcall, OwnFds.function_eq_some]

theorem own_functions_served_oneTurn : ∃ c,
    eventLoopStep.run (EventLoop.construct ℕ firstFds 0) oneTurn = some c ∧
      c.calls.map HandlerCall.callback = [.own .processTimeouts, .own .processCallbacks] ∧
      ServesOwn c := by
  have hrun : eventLoopStep.run (EventLoop.construct ℕ firstFds 0) oneTurn = some _ := rfl
  exact ⟨_, hrun, rfl, own_functions_served hrun⟩

end OwnFunctions

section Reads

/-- The function whose descriptor the thread is about to read. -/
def Activity.toRead : Activity κ → Option OwnFunction
  | .processStop => some .processStop
  | .processCallbacks (.dispatching _) => some .processCallbacks
  | .reading q => some q.function
  | _ => none

/-- The descriptor of the function was reported in this batch, and is still to be read. -/
def EventLoop.ToRead (c : EventLoop κ) (f : OwnFunction) : Prop :=
  (∃ e ∈ c.location.batchPoint.pending, c.own.function e = some f) ∨
    ∃ sentry events activity, c.location = .calling sentry events activity ∧
      activity.toRead = some f

theorem Activity.function_of_toRead {a : Activity κ} {f : OwnFunction} (h : a.toRead = some f) :
    a.function? = some f := by
  cases a with
  | processCallbacks phase => cases phase <;> first | exact h | cases h
  | user => cases h
  | passing q => cases h
  | _ => exact h

/-- What is to be read is readable, for the two eventfds, and the read of the callback eventfd has
not failed. -/
structure DueReadable (c : EventLoop κ) : Prop where
  stop : c.ToRead .processStop → 0 < c.stopEventfd
  callbacks : c.ToRead .processCallbacks → 0 < c.callbacksEventfd
  notFailed : ∀ sentry events,
    c.location ≠ .calling sentry events (.processCallbacks .readFailed)

/-- A step that does not read an eventfd. -/
theorem DueReadable.of_fewer (h : DueReadable c) (hfewer : ∀ f, t.ToRead f → c.ToRead f)
    (hstop : 0 < c.stopEventfd → 0 < t.stopEventfd)
    (hcallbacks : 0 < c.callbacksEventfd → 0 < t.callbacksEventfd)
    (hfailed : ∀ sentry events,
      t.location ≠ .calling sentry events (.processCallbacks .readFailed)) : DueReadable t :=
  ⟨fun hread => hstop (h.stop (hfewer _ hread)),
    fun hread => hcallbacks (h.callbacks (hfewer _ hread)), hfailed⟩

/-- Where nothing of a batch is left, nothing is to be read. -/
theorem EventLoop.not_toRead {f : OwnFunction} (hidle : c.location.batchPoint = .idle) :
    ¬ c.ToRead f := by
  rintro (⟨e, he, -⟩ | ⟨sentry, events, activity, hloc, -⟩)
  · rw [hidle] at he
    cases he
  · rw [hloc] at hidle
    cases hidle

theorem DueReadable.of_idle (hidle : t.location.batchPoint = .idle) : DueReadable t := by
  refine ⟨fun h => absurd h (EventLoop.not_toRead hidle),
    fun h => absurd h (EventLoop.not_toRead hidle), fun sentry events hloc => ?_⟩
  rw [hloc] at hidle
  cases hidle

theorem EventLoop.toRead_dispatching {sentry : Bool} {events : List BatchEvent} {f : OwnFunction}
    (hloc : c.location = .dispatching sentry events) (h : c.ToRead f) :
    ∃ e ∈ events, c.own.function e = some f := by
  rcases h with ⟨e, he, hf⟩ | ⟨_, _, _, hcalling, -⟩
  · rw [hloc] at he
    exact ⟨e, he, hf⟩
  · rw [hloc] at hcalling
    cases hcalling

theorem EventLoop.toRead_behind {sentry : Bool} {events : List BatchEvent} {activity : Activity κ}
    {f : OwnFunction} (hloc : c.location = .calling sentry events activity)
    (h : ∃ e ∈ events, c.own.function e = some f) : c.ToRead f := by
  obtain ⟨e, he, hf⟩ := h
  refine .inl ⟨e, ?_, hf⟩
  rw [hloc]
  exact he

/-- A call of `add_callback` leaves the eventfd readable. -/
theorem addCallbackStep_eventfd {v v' : CallbackLoop κ} {l : CallbackStep κ}
    (h : addCallbackStep v l = some v') (hpos : 0 < v.callbacksEventfd) :
    0 < v'.callbacksEventfd := by
  cases l with
  | enter adder k =>
    obtain ⟨-, rfl⟩ := addCallbackStep_enter.mp h
    exact hpos
  | push =>
    obtain ⟨-, -, -, rfl⟩ := addCallbackStep_push.mp h
    exact hpos
  | write =>
    obtain ⟨-, -, -, rfl⟩ := addCallbackStep_write.mp h
    exact writeEventfd_pos _
  | leave =>
    obtain ⟨-, -, -, rfl⟩ := addCallbackStep_leave.mp h
    exact hpos
  | _ => cases h

/-- Inside of `process_callbacks` the eventfd is read once, and that fails only if it is not
readable. -/
theorem loopStep_inside {v v' : CallbackLoop κ} {l : CallbackStep κ} (hmay : l.mayRunIn c = true)
    (h : loopStep v l = some v') : (∀ pending, v'.phase ≠ .dispatching pending) ∧
      v'.phase ≠ .waiting ∧
      (v'.phase = .readFailed → v.phase = .dispatching true ∧ v.callbacksEventfd = 0) := by
  cases l with
  | read =>
    obtain ⟨hp, rfl⟩ := loopStep_read.mp h
    split_ifs with hzero
    · exact ⟨nofun, nofun, fun _ => ⟨hp, hzero⟩⟩
    · exact ⟨nofun, nofun, nofun⟩
  | lock =>
    obtain ⟨-, -, rfl⟩ := loopStep_lock.mp h
    exact ⟨nofun, nofun, nofun⟩
  | take =>
    obtain ⟨-, rfl⟩ := loopStep_take.mp h
    exact ⟨nofun, nofun, nofun⟩
  | unlock =>
    obtain ⟨-, -, rfl⟩ := loopStep_unlock.mp h
    exact ⟨nofun, nofun, nofun⟩
  | call =>
    obtain ⟨-, -, -, rfl⟩ := loopStep_call.mp h
    exact ⟨nofun, nofun, nofun⟩
  | callbackReturns =>
    obtain ⟨-, -, rfl⟩ := loopStep_callbackReturns.mp h
    exact ⟨nofun, nofun, nofun⟩
  | epollWait readable => cases hmay
  | processed => cases hmay
  | endBatch => cases hmay
  | _ => cases h

/-- A step that the queued callbacks take is one of `add_callback`, which does not move the thread,
or one inside of `process_callbacks`. -/
theorem callbacks_step_cases {l : CallbackStep κ} {v : CallbackLoop κ} (hmay : l.mayRunIn c = true)
    (hstep : callbackStep c.callbackView l = some v) :
    (addCallbackStep c.callbackView l = some v ∧ (c.withCallbacks v).location = c.location) ∨
      loopStep c.callbackView l = some v ∧ ∃ sentry events,
        c.location = .calling sentry events (.processCallbacks c.callbackView.phase) ∧
        (c.withCallbacks v).location = .calling sentry events (.processCallbacks v.phase) := by
  unfold callbackStep at hstep
  split_ifs at hstep with hadd hby
  · refine .inl ⟨hstep, ?_⟩
    have hphase : v.phase = c.location.phase c.own := addCallbackStep_phase hstep
    unfold EventLoop.withCallbacks
    dsimp only
    split <;> rename_i hloc
    · rw [hphase, hloc]
      rfl
    · rfl
  · refine .inr ⟨hstep, ?_⟩
    have hinside : ∃ sentry events phase, c.location = .calling sentry events
        (.processCallbacks phase) := by
      cases l <;> simp only [CallbackStep.isAdd, not_true_eq_false, CallbackStep.mayRunIn,
        Bool.false_eq_true] at hadd hmay
      all_goals
        split at hmay
        case h_1 hloc => exact ⟨_, _, _, hloc⟩
        case h_2 => cases hmay
    obtain ⟨sentry, events, phase, hloc⟩ := hinside
    refine ⟨sentry, events, ?_, ?_⟩
    · rw [phase_eq hloc]
      exact hloc
    · unfold EventLoop.withCallbacks
      rw [hloc]

/-- What a step of `add_callback` or `process_callbacks` leaves to be read. -/
theorem DueReadable.callbacks_step (h : DueReadable c) (hc : Located c) {l : CallbackStep κ}
    {v : CallbackLoop κ} (hmay : l.mayRunIn c = true)
    (hstep : callbackStep c.callbackView l = some v) : DueReadable (c.withCallbacks v) := by
  rcases callbacks_step_cases hmay hstep with ⟨hadd, hloc⟩ | ⟨hloop, sentry, events, hloc, hloc'⟩
  · refine h.of_fewer ?_ id (addCallbackStep_eventfd hadd) ?_
    · intro f hread
      unfold EventLoop.ToRead at hread
      rwa [hloc] at hread
    · rw [hloc]
      exact h.notFailed
  · obtain ⟨hphase, -, hfailed⟩ := loopStep_inside hmay hloop
    have hread : ∀ f, (c.withCallbacks v).ToRead f → ∃ e ∈ events, c.own.function e = some f := by
      rintro f (⟨e, he, hf⟩ | ⟨_, _, activity, hcalling, hread⟩)
      · rw [hloc'] at he
        exact ⟨e, he, hf⟩
      · rw [hloc'] at hcalling
        obtain ⟨-, -, rfl⟩ := LoopLocation.calling.inj hcalling
        cases hp : v.phase with
        | dispatching pending => exact absurd hp (hphase pending)
        | _ =>
          rw [hp] at hread
          cases hread
    refine ⟨fun hstop => ?_, fun hcallbacks => ?_, fun sentry' events' hcalling => ?_⟩
    · exact h.stop (EventLoop.toRead_behind hloc (hread _ hstop))
    · obtain ⟨e, he, hf⟩ := hread _ hcallbacks
      exact absurd hf (hc.once _ _ _ hloc _ rfl e he)
    · rw [hloc'] at hcalling
      obtain ⟨-, -, hactivity⟩ := LoopLocation.calling.inj hcalling
      obtain ⟨hp, hzero⟩ := hfailed (Activity.processCallbacks.inj hactivity)
      have hpos : 0 < c.callbacksEventfd := by
        refine h.callbacks (.inr ⟨sentry, events, _, hloc, ?_⟩)
        rw [hp]
        rfl
      exact absurd hzero (Nat.pos_iff_ne_zero.mp hpos)

/-- A step of `stop` does not read the stop eventfd. -/
theorem stopEventfd_mono {l : StartStopStep} {v : StartStop} (hmay : l.mayRunIn c = true)
    (hstep : startStopStep c.startStopView l = some v) : c.stopEventfd ≤ v.stopEventfd := by
  unfold startStopStep at hstep
  rw [isStop_of_mayRunIn hmay, if_pos rfl] at hstep
  cases l with
  | stop s =>
    obtain ⟨-, rfl⟩ := stopStep_stop.mp hstep
    exact le_rfl
  | clearKeepRunning s =>
    obtain ⟨-, -, rfl⟩ := stopStep_clearKeepRunning.mp hstep
    exact le_rfl
  | writeStopEventfd s =>
    obtain ⟨-, -, rfl⟩ := stopStep_writeStopEventfd.mp hstep
    exact Nat.le_succ _
  | _ => cases hmay

theorem DueReadable.step (h : DueReadable c) (hc : Located c) {l : EventLoopStep κ}
    (hl : eventLoopStep c l = some t) : DueReadable t := by
  cases EventLoop.moves_of_step hl with
  | callbacks l v hmay hstep => exact h.callbacks_step hc hmay hstep
  | handlers _ l' members hon huser hfree hstep hremove hadd hwait =>
    exact h.of_fewer (fun _ => id) id id h.notFailed
  | timers l v hmay hstep => exact h.of_fewer (fun _ => id) id id h.notFailed
  | stops l v hmay hstep =>
    refine h.of_fewer (fun _ => id) (fun hpos => ?_) id h.notFailed
    exact Nat.lt_of_lt_of_le hpos (stopEventfd_mono hmay hstep)
  | report reports hfree hloc hreports =>
    refine ⟨fun hread => ?_, fun hread => ?_, nofun⟩
    · obtain ⟨e, he, hf⟩ := EventLoop.toRead_dispatching rfl hread
      exact of_decide_eq_true (readable_of_reported hreports he hf)
    · obtain ⟨e, he, hf⟩ := EventLoop.toRead_dispatching rfl hread
      exact of_decide_eq_true (readable_of_reported hreports he hf)
  | dispatch sentry event events n hfree hloc hderef =>
    have hfunction := (hc.of_dispatch hloc hderef).1
    refine h.of_fewer ?_ id id ?_
    · rintro f (⟨e, he, hf⟩ | ⟨_, _, activity, hcalling, hread⟩)
      · refine .inl ⟨e, ?_, hf⟩
        rw [hloc]
        exact List.mem_cons_of_mem event he
      · obtain ⟨rfl, rfl, rfl⟩ := LoopLocation.calling.inj hcalling
        refine .inl ⟨event, ?_, ?_⟩
        · rw [hloc]
          exact List.mem_cons_self
        · rw [← hfunction]
          exact Activity.function_of_toRead hread
    · intro _ _ hcalling
      obtain ⟨-, -, hactivity⟩ := LoopLocation.calling.inj hcalling
      cases hn : n.callback with
      | user k =>
        rw [hn] at hactivity
        cases hactivity
      | own f =>
        rw [hn] at hactivity
        cases f <;> cases hactivity
  | readStop sentry events hfree hloc hpos =>
    refine ⟨fun hread => ?_, fun hread => ?_, nofun⟩
    · obtain ⟨e, he, hf⟩ := EventLoop.toRead_dispatching rfl hread
      exact absurd hf (hc.once _ _ _ hloc _ rfl e he)
    · have hbehind := EventLoop.toRead_dispatching rfl hread
      exact h.callbacks (EventLoop.toRead_behind hloc hbehind)
  | returns sentry events activity hfree hloc hdone =>
    refine h.of_fewer (fun f hread => ?_) id id nofun
    have hbehind := EventLoop.toRead_dispatching rfl hread
    exact EventLoop.toRead_behind hloc hbehind
  | readTimer sentry events q v hfree hloc hunread hbegin =>
    refine h.of_fewer ?_ id id nofun
    rintro f (⟨e, he, hf⟩ | ⟨_, _, activity, hcalling, hread⟩)
    · refine .inl ⟨e, ?_, hf⟩
      rw [hloc]
      exact he
    · obtain ⟨-, -, rfl⟩ := LoopLocation.calling.inj hcalling
      cases hread
  | pruned sentry members location hfree hloc hprune hnext =>
    rcases hnext with rfl | rfl <;> exact .of_idle rfl
  | _ => exact .of_idle rfl

theorem dueReadable_of_run
    (hrun : eventLoopStep.run (EventLoop.construct κ own clock) ls = some c) : DueReadable c := by
  have hstep : ∀ (s : EventLoop κ) l t, Located s ∧ DueReadable s → eventLoopStep s l = some t →
      Located t ∧ DueReadable t := fun _ _ _ h hl => ⟨h.1.step hl, h.2.step h.1 hl⟩
  exact (Machine.run_invariant hstep hrun ⟨Located.construct own clock, .of_idle rfl⟩).2

theorem DueReadable.eventfdsReadable (h : DueReadable c) : EventfdsReadable c where
  stop sentry events hloc := h.stop (.inr ⟨sentry, events, _, hloc, rfl⟩)
  callbacks sentry events _ hloc := h.callbacks (.inr ⟨sentry, events, _, hloc, rfl⟩)
  notFailed := h.notFailed

/-- A step that moves the thread adds no timeout. -/
theorem addsForNoneReported_of_isMove (v : TimerLoop κ) (k : TimerLoopStep κ)
    (hmove : k.isMove = true) : AddsForNoneReported v k := by
  intro hadd
  cases k <;> first | cases hadd | cases hmove

/-- The timers of a loop whose additions are for no reported timerfd. -/
theorem dueReady_of_run (hrun : eventLoopStep.run (EventLoop.construct κ own clock) ls = some c)
    (hthrows : .throws ∉ ls)
    (hadds : eventLoopStep.Along AddsForNoneDue (EventLoop.construct κ own clock) ls) :
    DueReady c.timerView := by
  obtain ⟨ks, hks, halong⟩ := timerView_of_run AddsForNoneReported hrun
    (Located.construct own clock) hthrows
    addsForNoneReported_of_isMove (hadds.mono fun _ _ h k hk _ => h k hk)
  exact Machine.run_invariant_along (fun _ _ _ h hok hl => h.step hl hok) hks halong
    (dueReady_init clock)

/-- **The thread of the loop waits in `epoll_wait` and in no read.** Whenever `process_stop` or
`process_callbacks` is about to read its eventfd, it is readable, whatever the other handlers of the
batch, other threads and exceptions did since it was reported. As long as nothing is thrown and no
later timeout is added behind the report of a timerfd, the same is true of the timerfds, up to a
nanosecond. -/
theorem reads_find_what_was_reported
    (hrun : eventLoopStep.run (EventLoop.construct κ own clock) ls = some c) :
    EventfdsReadable c ∧ (.throws ∉ ls →
      eventLoopStep.Along AddsForNoneDue (EventLoop.construct κ own clock) ls →
        TimerfdsReadable c) := by
  refine ⟨(dueReadable_of_run hrun).eventfdsReadable, fun hthrows hadds sentry events q hloc => ?_⟩
  exact (dueReady_of_run hrun hthrows hadds).readsAtOnce q _ (loopPoint_eq hloc)

/-- A timeout expires before `start`, and its handler is called. -/
def expireThenDispatch : List (EventLoopStep ℕ) :=
  [.timers (.timeouts (.addTimeout 7 20 { now := 0 })), .timers (.tick 8), .start, .setKeepRunning,
    .testKeepRunning, .epollWait [(5, 1)], .dispatch]

theorem expireThenDispatch_adds :
    eventLoopStep.Along AddsForNoneDue (EventLoop.construct ℕ firstFds 0) expireThenDispatch := by
  refine ⟨?_, fun t _ => ?_⟩
  · rintro k ⟨⟩ _ q hq
    cases hq
  · refine Machine.along_of_forall_mem fun s l hl => ?_
    rintro k rfl hadd
    have hnone : ∀ k, .timers k ∈ expireThenDispatch.tail → k.isAdd = false := by
      simp [expireThenDispatch, TimerLoopStep.isAdd]
    rw [hnone k hl] at hadd
    cases hadd

theorem reads_find_what_was_reported_expired : ∃ c,
    eventLoopStep.run (EventLoop.construct ℕ firstFds 0) expireThenDispatch = some c ∧
      c.location = .calling false [] (.reading .timeouts) ∧ EventfdsReadable c ∧
      TimerfdsReadable c := by
  have hrun : eventLoopStep.run (EventLoop.construct ℕ firstFds 0) expireThenDispatch = some _ :=
    rfl
  obtain ⟨hevent, htimer⟩ := reads_find_what_was_reported hrun
  exact ⟨_, hrun, rfl, hevent, htimer (by simp [expireThenDispatch]) expireThenDispatch_adds⟩

end Reads

end Linuxpp.Ioloop
