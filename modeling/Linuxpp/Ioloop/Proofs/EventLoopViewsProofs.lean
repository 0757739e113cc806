import Linuxpp.Ioloop.Proofs.EventLoopProofs
import Linuxpp.Ioloop.Proofs.StartStopProofs
import Linuxpp.Ioloop.Proofs.ThrowingCallbacksProofs
import Linuxpp.Ioloop.Proofs.TimerLoopProofs

/-!
# Proofs: the views of the whole loop

Each step of the loop is, as the queued callbacks, `start` and `stop`, and the timers see it, a run
of their own machine, mostly of one step or of none. It rests on the loop's own functions being
served: an event of the batch is seen as the event that its handler is for.
-/

namespace Linuxpp.Ioloop

variable {κ : Type} {c t : EventLoop κ} {location : LoopLocation κ}

/-- An event for one of the loop's own functions is seen once in a batch. -/
theorem count_seen_le_one {ε : Type} [DecidableEq ε] {own : OwnFds} {see : BatchEvent → ε} {e' : ε}
    {f : OwnFunction} (hsee : ∀ e, see e = e' ↔ own.function e = some f) {events : List BatchEvent}
    (hnodup : (events.map BatchEvent.about).Nodup) : (events.map see).count e' ≤ 1 := by
  have hcount : (events.map see).count e' =
      (events.map BatchEvent.about).count (some (own.fd f)) := by
    unfold List.count
    rw [List.countP_map, List.countP_map]
    refine List.countP_congr fun e _ => ?_
    simpa using (hsee e).trans OwnFds.function_eq_some
  rw [hcount]
  exact List.nodup_iff_count_le_one.mp hnodup _

/-- A reported event for one of the loop's own functions finds its descriptor readable. -/
theorem readable_of_reported {reports : List (Int × UInt32)} (hreports : c.Reports reports)
    {e : BatchEvent} (he : e ∈ reports.map fun report =>
      Epoll.report c.handlers.epoll report.1 report.2) {f : OwnFunction}
    (hf : c.own.function e = some f) : c.readable f = true := by
  obtain ⟨report, hreport, rfl⟩ := List.mem_map.mp he
  have habout := OwnFds.function_eq_some.mp hf
  exact hreports.2.2 f f.mem_all (Option.some.inj habout ▸ List.mem_map_of_mem hreport)

section CallbackView

/-- The step, as the queued callbacks see it, takes no other exception than that of the loop. -/
def SeenThrow (c : EventLoop κ) (l : EventLoopStep κ) (v : CallbackLoop κ)
    (k : Option (CallbackStep κ)) : Prop :=
  k = none → l = .throws ∧ v = c.callbackView

theorem addCallbackStep_phase {v v' : CallbackLoop κ} {l : CallbackStep κ}
    (h : addCallbackStep v l = some v') : v'.phase = v.phase := by
  cases l with
  | enter adder k =>
    obtain ⟨-, rfl⟩ := addCallbackStep_enter.mp h
    rfl
  | push =>
    obtain ⟨-, -, -, rfl⟩ := addCallbackStep_push.mp h
    rfl
  | write =>
    obtain ⟨-, -, -, rfl⟩ := addCallbackStep_write.mp h
    rfl
  | leave =>
    obtain ⟨-, -, -, rfl⟩ := addCallbackStep_leave.mp h
    rfl
  | _ => cases h

theorem not_byLoop (h : c.free = true) : c.mutex.byLoop = false := by
  have h := (Bool.and_eq_true_iff.mp h).1
  rwa [Bool.not_eq_true'] at h

theorem not_stopping (h : c.free = true) : c.stops .loop = none :=
  of_decide_eq_true (Bool.and_eq_true_iff.mp h).2

theorem callbackStep_of_loopStep {v v' : CallbackLoop κ} {l : CallbackStep κ}
    (hadd : l.isAdd = false) (hfree : v.mutex.byLoop = false) (h : loopStep v l = some v') :
    callbackStep v l = some v' := by
  unfold callbackStep
  rw [hadd, if_neg Bool.false_ne_true, hfree, if_neg Bool.false_ne_true]
  exact h

/-- Where user code runs, the queued callbacks see user code. -/
theorem userCode_phase {sentry : Bool} {events : List BatchEvent} {activity : Activity κ}
    (hloc : c.location = .calling sentry events activity) (huser : c.userCode = true) :
    c.callbackView.phase.userCode = true := by
  show (c.location.phase c.own).userCode = true
  unfold EventLoop.userCode at huser
  rw [hloc] at huser ⊢
  cases activity with
  | processCallbacks phase =>
    cases phase with
    | running callbacks inCallback =>
      cases inCallback with
      | false => cases huser
      | true => rfl
    | _ => cases huser
  | processStop => cases huser
  | reading q => cases huser
  | _ => rfl

/-- A step of `add_callback` or `process_callbacks` leaves the other parts of the loop where they
are. -/
theorem callbackView_withCallbacks {l : CallbackStep κ} {v : CallbackLoop κ}
    (hmay : l.mayRunIn c = true) (hstep : callbackStep c.callbackView l = some v) :
    (c.withCallbacks v).callbackView = v := by
  suffices hphase : (c.withCallbacks v).location.phase c.own = v.phase by
    show CallbackLoop.mk _ _ _ ((c.withCallbacks v).location.phase c.own) _ _ = v
    rw [hphase]
    rfl
  unfold EventLoop.withCallbacks
  dsimp only
  split
  case h_1 => rfl
  case h_2 location hnot =>
    -- only `process_callbacks` changes the phase
    have hadd : addCallbackStep c.callbackView l = some v := by
      unfold callbackStep at hstep
      split_ifs at hstep with hadd hby
      · exact hstep
      · exfalso
        cases l <;> simp only [CallbackStep.isAdd, not_true_eq_false, reduceCtorEq,
          CallbackStep.mayRunIn] at hadd hmay
    exact (addCallbackStep_phase hadd).symm

theorem phase_eq (hloc : c.location = location) :
    c.callbackView.phase = location.phase c.own := by
  rw [← hloc]
  rfl

/-- A step that leaves the members for callbacks and the phase alone. -/
theorem callbackView_kept {l : EventLoopStep κ} (hcallbacks : t.callbackView =
      { c.callbackView with phase := t.location.phase t.own })
    (hphase : t.location.phase t.own = c.location.phase c.own) :
    ∃ ks, throwingCallbackStep.run c.callbackView ks = some t.callbackView ∧
      throwingCallbackStep.Along (SeenThrow c l) c.callbackView ks := by
  apply Machine.seen_as_none
  rw [hcallbacks, hphase]
  rfl

/-- A step that the loop takes for the callbacks. -/
theorem callbackView_goes {l : EventLoopStep κ} {k : CallbackStep κ} (hadd : k.isAdd = false)
    (hfree : c.free = true) (hk : loopStep c.callbackView k = some t.callbackView) :
    ∃ ks, throwingCallbackStep.run c.callbackView ks = some t.callbackView ∧
      throwingCallbackStep.Along (SeenThrow c l) c.callbackView ks :=
  Machine.seen_as_one (k := some k) (callbackStep_of_loopStep hadd (not_byLoop hfree) hk) nofun

/-- The queued callbacks see a step of the loop as steps of their own, or do not see it. -/
theorem callbackView_step (h : Located c) {l : EventLoopStep κ} (hl : eventLoopStep c l = some t) :
    ∃ ks, throwingCallbackStep.run c.callbackView ks = some t.callbackView ∧
      throwingCallbackStep.Along (SeenThrow c l) c.callbackView ks := by
  cases EventLoop.moves_of_step hl with
  | callbacks l v hmay hstep =>
    refine Machine.seen_as_one (k := some l) ?_ nofun
    rw [callbackView_withCallbacks hmay hstep]
    exact hstep
  | report reports hfree hloc hreports =>
    refine callbackView_goes (k := .epollWait _) rfl hfree
      (loopStep_epollWait.mpr ⟨phase_eq hloc, ?_, rfl⟩)
    intro hpending
    obtain ⟨e, he, hfunction⟩ := List.any_eq_true.mp hpending
    have hready := readable_of_reported hreports he (of_decide_eq_true hfunction)
    exact of_decide_eq_true hready
  | dispatch sentry event events n hfree hloc hderef =>
    refine callbackView_kept rfl ?_
    obtain ⟨hfunction, -⟩ := h.of_dispatch hloc hderef
    show (LoopLocation.calling sentry events n.callback.activity).phase c.own = _
    rw [hloc]
    cases hn : n.callback with
    | user k =>
      rw [hn] at hfunction
      simp [HandlerFunction.activity, LoopLocation.phase, OwnFds.callbacksPending, ← hfunction,
        Activity.function?]
    | own f =>
      rw [hn] at hfunction
      cases f <;> simp [HandlerFunction.activity, LoopLocation.phase, OwnFds.callbacksPending,
        ← hfunction, Activity.function?, TimerQueue.function]
  | returns sentry events activity hfree hloc hdone =>
    rcases hdone with rfl | rfl | ⟨q, rfl, -⟩
    · refine callbackView_kept rfl ?_
      rw [hloc]
      rfl
    · refine callbackView_goes (k := .processed) rfl hfree
        (loopStep_processed.mpr ⟨phase_eq hloc, ?_⟩)
      have hnone : c.own.callbacksPending events = false := by
        rw [← Bool.not_eq_true]
        intro hpending
        obtain ⟨e, he, hfunction⟩ := List.any_eq_true.mp hpending
        exact h.once _ _ _ hloc _ rfl e he (of_decide_eq_true hfunction)
      show _ = CallbackLoop.mk _ _ _ (.dispatching (c.own.callbacksPending events)) _ _
      rw [hnone]
      rfl
    · refine callbackView_kept rfl ?_
      rw [hloc]
      rfl
  | pruned sentry members location hfree hloc hprune hnext =>
    refine callbackView_goes (k := .endBatch) rfl hfree
      (loopStep_endBatch.mpr ⟨phase_eq hloc, ?_⟩)
    rcases hnext with rfl | rfl <;> rfl
  | throws sentry events activity v hfree hloc huser hthrows =>
    have hout : c.callbackView.callbackThrows =
        some { c.callbackView with phase := .dispatching false } :=
      CallbackLoop.callbackThrows_eq_some_iff.mpr
        ⟨⟨not_byLoop hfree, userCode_phase hloc huser⟩, rfl⟩
    refine ⟨[none, some .endBatch], Machine.run_cons_eq_some.mpr ⟨_, hout, ?_⟩,
      fun _ => ⟨rfl, rfl⟩, fun _ _ => ⟨nofun, fun _ _ => trivial⟩⟩
    rw [Machine.run_singleton]
    exact callbackStep_of_loopStep rfl (not_byLoop hfree) (loopStep_endBatch.mpr ⟨rfl, rfl⟩)
  | handlers _ l' members hon huser hfree hstep hremove hadd hwait => exact callbackView_kept rfl rfl
  | stops l v hmay hstep => exact callbackView_kept rfl rfl
  | timers l v hmay hstep => exact callbackView_kept rfl rfl
  | _ =>
    refine callbackView_kept rfl ?_
    rw [‹c.location = _›]
    rfl

end CallbackView

section StartStopView

/-- A step of `stop` leaves the location and the counts alone. -/
theorem stopStep_keeps {v v' : StartStop} {l : StartStopStep} (h : stopStep v l = some v') :
    v'.point = v.point ∧ v'.starts = v.starts ∧ v'.batches = v.batches := by
  cases l with
  | stop s =>
    obtain ⟨-, rfl⟩ := stopStep_stop.mp h
    exact ⟨rfl, rfl, rfl⟩
  | clearKeepRunning s =>
    obtain ⟨-, -, rfl⟩ := stopStep_clearKeepRunning.mp h
    exact ⟨rfl, rfl, rfl⟩
  | writeStopEventfd s =>
    obtain ⟨-, -, rfl⟩ := stopStep_writeStopEventfd.mp h
    exact ⟨rfl, rfl, rfl⟩
  | _ => cases h

/-- The step, as `start` and `stop` see it, is one of `stop` only where that is the step of the
loop. -/
def SeenStop (c : EventLoop κ) (l : EventLoopStep κ) (v : StartStop) (k : StartStopStep) : Prop :=
  k.isStop = true → l = .stops k ∧ v = c.startStopView

theorem point_eq (hloc : c.location = location) :
    c.startStopView.point = location.startPoint c.own := by
  rw [← hloc]
  rfl

theorem isStop_of_mayRunIn {l : StartStopStep} (h : l.mayRunIn c = true) : l.isStop = true := by
  cases l <;> first | rfl | cases h

/-- A step that leaves the members for `stop` and the location in `start` alone. -/
theorem startStopView_kept {l : EventLoopStep κ} (hstops : t.startStopView =
      { c.startStopView with point := t.location.startPoint t.own })
    (hpoint : t.location.startPoint t.own = c.location.startPoint c.own) :
    ∃ ks, startStopStep.run c.startStopView ks = some t.startStopView ∧
      startStopStep.Along (SeenStop c l) c.startStopView ks := by
  apply Machine.seen_as_none
  rw [hstops, hpoint]
  rfl

/-- A step that the loop takes in `start`. -/
theorem startStopView_goes {l : EventLoopStep κ} {k : StartStopStep} (hstop : k.isStop = false)
    (hfree : c.free = true) (hk : startStep c.startStopView k = some t.startStopView) :
    ∃ ks, startStopStep.run c.startStopView ks = some t.startStopView ∧
      startStopStep.Along (SeenStop c l) c.startStopView ks := by
  refine Machine.seen_as_one (startStopStep_of_startStep (not_stopping hfree) hstop hk) ?_
  intro h
  rw [hstop] at h
  cases h

theorem startEvent_eq {own : OwnFds} {e : BatchEvent} :
    own.startEvent e = .stopEventfd ↔ own.function e = some .processStop := by
  unfold OwnFds.startEvent
  split_ifs with hf <;> simp [hf]

/-- `start` and `stop` see a step of the loop as steps of their own, or do not see it. -/
theorem startStopView_step (h : Located c) {l : EventLoopStep κ} (hl : eventLoopStep c l = some t) :
    ∃ ks, startStopStep.run c.startStopView ks = some t.startStopView ∧
      startStopStep.Along (SeenStop c l) c.startStopView ks := by
  have ht := h.step hl
  cases EventLoop.moves_of_step hl with
  | stops l v hmay hstep =>
    refine Machine.seen_as_one (k := l) ?_ fun _ => ⟨rfl, rfl⟩
    have hstop : stopStep c.startStopView l = some v := by
      unfold startStopStep at hstep
      rwa [isStop_of_mayRunIn hmay, if_pos rfl] at hstep
    obtain ⟨hpoint, hstarts, hbatches⟩ := stopStep_keeps hstop
    rw [hstep]
    show some v = some (StartStop.mk _ _ c.startStopView.point _ c.startStopView.starts _
      c.startStopView.batches)
    rw [← hpoint, ← hstarts, ← hbatches]
    rfl
  | start hfree hloc =>
    refine startStopView_goes (k := .start) rfl hfree ?_
    unfold startStep
    rw [point_eq hloc]
    rfl
  | set hfree hloc =>
    refine startStopView_goes (k := .setKeepRunning) rfl hfree ?_
    unfold startStep
    rw [point_eq hloc]
    rfl
  | goOn hfree hloc hkeep =>
    refine startStopView_goes (k := .testKeepRunning) rfl hfree ?_
    unfold startStep
    rw [point_eq hloc]
    exact if_pos hkeep
  | leave hfree hloc hkeep =>
    refine startStopView_goes (k := .testKeepRunning) rfl hfree ?_
    unfold startStep
    rw [point_eq hloc]
    exact if_neg (Bool.eq_false_iff.mp hkeep)
  | report reports hfree hloc hreports =>
    refine startStopView_goes (k := .epollWait ((reports.map fun report =>
      Epoll.report c.handlers.epoll report.1 report.2).map c.own.startEvent)) rfl hfree ?_
    unfold startStep
    rw [point_eq hloc]
    refine if_pos ⟨?_, count_seen_le_one (fun _ => startEvent_eq) ht.serving.once, ?_⟩
    · simpa using hreports.1
    · intro hmem
      obtain ⟨e, he, hevent⟩ := List.mem_map.mp hmem
      have hready := readable_of_reported hreports he (startEvent_eq.mp hevent)
      exact of_decide_eq_true hready
  | interrupted hfree hloc =>
    refine startStopView_goes (k := .interrupted) rfl hfree ?_
    unfold startStep
    rw [point_eq hloc]
    rfl
  | dispatch sentry event events n hfree hloc hderef =>
    refine startStopView_goes (k := .dispatch) rfl hfree ?_
    obtain ⟨hfunction, -⟩ := h.of_dispatch hloc hderef
    have hp := point_eq hloc
    simp only [LoopLocation.startPoint, List.map_cons, OwnFds.startEvent, ← hfunction] at hp
    show _ = some (StartStop.mk _ _
      ((LoopLocation.calling sentry events n.callback.activity).startPoint c.own) _ _ _ _)
    cases hn : n.callback with
    | user k =>
      rw [hn] at hp
      simp only [HandlerFunction.activity, Activity.function?, reduceCtorEq, if_false] at hp
      unfold startStep
      rw [hp]
      rfl
    | own f =>
      rw [hn] at hp
      cases f with
      | processStop =>
        simp only [HandlerFunction.activity, Activity.function?, if_true] at hp
        unfold startStep
        rw [hp]
        rfl
      | _ =>
        simp only [HandlerFunction.activity, Activity.function?, TimerQueue.function,
          Option.some.injEq, reduceCtorEq, if_false] at hp
        unfold startStep
        rw [hp]
        rfl
  | readStop sentry events hfree hloc hpos =>
    refine startStopView_goes (k := .readStopEventfd) rfl hfree ?_
    unfold startStep
    rw [point_eq hloc]
    exact if_pos hpos
  | returns sentry events activity hfree hloc hdone =>
    refine startStopView_goes (k := .handlerReturns) rfl hfree ?_
    have hp : c.startStopView.point = .calling (events.map c.own.startEvent) := by
      rw [point_eq hloc]
      rcases hdone with rfl | rfl | ⟨q, rfl, -⟩ <;> rfl
    unfold startStep
    rw [hp]
    rfl
  | pruned sentry members location hfree hloc hprune hnext =>
    have hends : startStep c.startStopView .batchEnds =
        some { c.startStopView with point := .pruning } := by
      unfold startStep
      rw [point_eq hloc]
      rfl
    have hown := not_stopping hfree
    rcases hnext with rfl | rfl
    · refine Machine.seen_as_two (startStopStep_of_startStep hown rfl hends)
        (startStopStep_of_startStep (l := .prune) hown rfl ?_) nofun nofun
      rfl
    · refine Machine.seen_as_two (startStopStep_of_startStep hown rfl hends)
        (startStopStep_of_startStep (l := .throws) hown rfl ?_) nofun nofun
      rfl
  | throws sentry events activity v hfree hloc huser hthrows =>
    refine startStopView_goes (k := .throws) rfl hfree ?_
    have hp : c.startStopView.point = .calling (events.map c.own.startEvent) := by
      rw [point_eq hloc]
      unfold EventLoop.userCode at huser
      rw [hloc] at huser
      cases activity with
      | processStop => cases huser
      | _ => rfl
    unfold startStep
    rw [hp]
    rfl
  | handlers _ l' members hon huser hfree hstep hremove hadd hwait =>
    exact startStopView_kept rfl rfl
  | timers l v hmay hstep => exact startStopView_kept rfl rfl
  | callbacks l v hmay hstep =>
    refine startStopView_kept rfl ?_
    show (c.withCallbacks v).location.startPoint c.own = _
    unfold EventLoop.withCallbacks
    dsimp only
    split <;> rename_i hloc
    · rw [hloc]
      rfl
    · rfl
  | readTimer sentry events q v hfree hloc hunread hbegin =>
    refine startStopView_kept rfl ?_
    rw [hloc]
    rfl

end StartStopView

section TimerView

/-- The step moves the thread of the loop. -/
def TimerLoopStep.isMove : TimerLoopStep κ → Bool
  | .epollWait _ | .dispatch | .read | .handlerReturns | .batchEnds => true
  | _ => false

/-- The step, as the timers see it, is an exception only where the loop throws, and is the step of
the loop where it does not only move the thread. -/
def SeenTimer (c : EventLoop κ) (l : EventLoopStep κ) (v : TimerLoop κ)
    (k : Option (TimerLoopStep κ)) : Prop :=
  v = c.timerView ∧ (k = none → l = .throws) ∧
    ∀ k' ∈ k, k'.isMove = true ∨ l = .timers k' ∧ k'.mayRunIn c = true

theorem loopPoint_eq (hloc : c.location = location) :
    c.timerView.point = location.loopPoint c.own := by
  rw [← hloc]
  rfl

/-- A step that leaves the timers and the location with respect to them alone. -/
theorem timerView_kept {l : EventLoopStep κ} (htimers : t.timerView =
      { c.timerView with point := t.location.loopPoint t.own })
    (hpoint : t.location.loopPoint t.own = c.location.loopPoint c.own) :
    ∃ ks, throwingTimerLoopStep.run c.timerView ks = some t.timerView ∧
      throwingTimerLoopStep.Along (SeenTimer c l) c.timerView ks := by
  apply Machine.seen_as_none
  rw [htimers, hpoint]
  rfl

theorem timerLoopStep_of_move {v v' : TimerLoop κ} {k : TimerLoopStep κ}
    (hmove : k.isMove = true) (hkeep : v'.armedBy = v.armedBy)
    (hk : timerLoopMove v k = some v') : timerLoopStep v k = some v' := by
  have harms : ∀ q, v.arms q k = none := by
    intro q
    cases k <;> first | rfl | cases hmove
  unfold timerLoopStep
  rw [hk]
  refine congrArg some ?_
  simp only [harms, Option.isSome_none, Bool.false_eq_true, false_and, if_false]
  rw [← hkeep]

/-- A step that moves the loop. -/
theorem timerView_goes {l : EventLoopStep κ} {k : TimerLoopStep κ} (hmove : k.isMove = true)
    (hkeep : t.armedBy = c.armedBy) (hk : timerLoopMove c.timerView k = some t.timerView) :
    ∃ ks, throwingTimerLoopStep.run c.timerView ks = some t.timerView ∧
      throwingTimerLoopStep.Along (SeenTimer c l) c.timerView ks := by
  refine Machine.seen_as_one (k := some k) (timerLoopStep_of_move hmove hkeep hk) ⟨rfl, nofun, ?_⟩
  rintro k' ⟨⟩
  exact .inl hmove

/-- A step of user code, of a pass or of the clock does not move the loop. -/
theorem timerLoopStep_keeps_point {v v' : TimerLoop κ} {k : TimerLoopStep κ}
    (hmay : k.mayRunIn c = true) (hk : timerLoopStep v k = some v') : v'.point = v.point := by
  obtain ⟨u, hu, rfl⟩ := Option.map_eq_some_iff.mp hk
  show u.point = v.point
  cases k with
  | tick now =>
    obtain ⟨-, rfl⟩ := timerLoopMove_tick.mp hu
    rfl
  | timeouts l =>
    obtain ⟨-, s, -, rfl⟩ := timerLoopMove_timeouts.mp hu
    rfl
  | periodicTimeouts l =>
    obtain ⟨-, s, -, rfl⟩ := timerLoopMove_periodicTimeouts.mp hu
    rfl
  | _ => cases hmay

/-- The events of a batch, as the timers see them. -/
theorem loopEvent_eq {e : BatchEvent} {q : TimerQueue} :
    c.own.loopEvent e = .timerfd q ↔ c.own.function e = some q.function := by
  unfold OwnFds.loopEvent
  cases hf : c.own.function e with
  | none => cases q <;> simp
  | some f => cases f <;> cases q <;> simp [TimerQueue.function]

theorem reports_loopEvents {reports : List (Int × UInt32)} (hreports : c.Reports reports)
    (hnodup : ((reports.map fun report =>
      Epoll.report c.handlers.epoll report.1 report.2).map BatchEvent.about).Nodup) :
    c.timerView.Reports ((reports.map fun report =>
      Epoll.report c.handlers.epoll report.1 report.2).map c.own.loopEvent) := by
  intro q _
  refine ⟨count_seen_le_one (fun _ => loopEvent_eq) hnodup, ?_⟩
  intro hmem
  obtain ⟨e, he, hevent⟩ := List.mem_map.mp hmem
  have hready := readable_of_reported hreports he (loopEvent_eq.mp hevent)
  cases q <;> exact hready

/-- Where user code throws, the timers see an exception of user code. -/
theorem point_of_callbackThrows {v v' : TimerLoop κ} (h : v.callbackThrows = some v') :
    v'.point = .idle ∧ v'.clock = v.clock ∧ v'.armedBy = v.armedBy := by
  cases throws_of_callbackThrows h <;> exact ⟨rfl, rfl, rfl⟩

theorem beginPass_keeps {v v' : TimerLoop κ} {q : TimerQueue} (h : v.beginPass q = some v') :
    v'.armedBy = v.armedBy := by
  cases q with
  | timeouts =>
    obtain ⟨s, -, rfl⟩ := Option.map_eq_some_iff.mp h
    rfl
  | periodicTimeouts =>
    obtain ⟨s, -, rfl⟩ := Option.map_eq_some_iff.mp h
    rfl

/-- The timers see a step of the loop as steps of their own, or do not see it. -/
theorem timerView_step (h : Located c) {l : EventLoopStep κ} (hl : eventLoopStep c l = some t) :
    ∃ ks, throwingTimerLoopStep.run c.timerView ks = some t.timerView ∧
      throwingTimerLoopStep.Along (SeenTimer c l) c.timerView ks := by
  have ht := h.step hl
  cases EventLoop.moves_of_step hl with
  | timers l v hmay hstep =>
    refine Machine.seen_as_one (k := some l) ?_ ⟨rfl, nofun, ?_⟩
    · show timerLoopStep c.timerView l = some (TimerLoop.mk _ _ _ c.timerView.point _)
      rw [hstep, ← timerLoopStep_keeps_point hmay hstep]
      rfl
    · rintro k' ⟨⟩
      exact .inr ⟨rfl, hmay⟩
  | report reports hfree hloc hreports =>
    refine timerView_goes (k := .epollWait ((reports.map fun report =>
      Epoll.report c.handlers.epoll report.1 report.2).map c.own.loopEvent)) rfl rfl ?_
    exact timerLoopMove_epollWait.mpr
      ⟨loopPoint_eq hloc, reports_loopEvents hreports ht.serving.once, rfl⟩
  | dispatch sentry event events n hfree hloc hderef =>
    refine timerView_goes (k := .dispatch) rfl rfl ?_
    obtain ⟨hfunction, -⟩ := h.of_dispatch hloc hderef
    have hp := loopPoint_eq hloc
    simp only [LoopLocation.loopPoint, List.map_cons, OwnFds.loopEvent, ← hfunction] at hp
    show _ = some (TimerLoop.mk _ _ _
      ((LoopLocation.calling sentry events n.callback.activity).loopPoint c.own) _)
    cases hn : n.callback with
    | user k =>
      rw [hn] at hp
      simp only [HandlerFunction.activity, Activity.function?] at hp
      simp only [timerLoopMove, hp]
      rfl
    | own f =>
      rw [hn] at hp
      cases f <;>
        (simp only [HandlerFunction.activity, Activity.function?, TimerQueue.function] at hp
         simp only [timerLoopMove, hp]
         rfl)
  | readStop sentry events hfree hloc hpos =>
    refine timerView_goes (k := .handlerReturns) rfl rfl ?_
    simp only [timerLoopMove, loopPoint_eq hloc]
    rfl
  | readTimer sentry events q v hfree hloc hunread hbegin =>
    refine timerView_goes (k := .read) rfl (beginPass_keeps hbegin) ?_
    simp only [timerLoopMove, loopPoint_eq hloc, LoopLocation.loopPoint, hunread, if_true, hbegin]
    rfl
  | returns sentry events activity hfree hloc hdone =>
    refine timerView_goes (k := .handlerReturns) rfl rfl ?_
    rcases hdone with rfl | rfl | ⟨q, rfl, hpass⟩
    · simp only [timerLoopMove, loopPoint_eq hloc]
      rfl
    · simp only [timerLoopMove, loopPoint_eq hloc]
      rfl
    · simp only [timerLoopMove, loopPoint_eq hloc, LoopLocation.loopPoint, hpass, if_true]
      rfl
  | pruned sentry members location hfree hloc hprune hnext =>
    refine timerView_goes (k := .batchEnds) rfl rfl ?_
    simp only [timerLoopMove, loopPoint_eq hloc]
    rcases hnext with rfl | rfl <;> rfl
  | throws sentry events activity v hfree hloc huser hthrows =>
    refine Machine.seen_as_one (k := none) ?_ ⟨rfl, fun _ => rfl, nofun⟩
    obtain ⟨hidle, -, -⟩ := point_of_callbackThrows hthrows
    show c.timerView.callbackThrows = some (TimerLoop.mk _ _ _ .idle _)
    rw [hthrows, ← hidle]
    rfl
  | callbacks l v hmay hstep =>
    refine timerView_kept rfl ?_
    show (c.withCallbacks v).location.loopPoint c.own = _
    unfold EventLoop.withCallbacks
    dsimp only
    split <;> rename_i hloc
    · rw [hloc]
      rfl
    · rfl
  | handlers _ l' members hon huser hfree hstep hremove hadd hwait => exact timerView_kept rfl rfl
  | stops l v hmay hstep => exact timerView_kept rfl rfl
  | _ =>
    refine timerView_kept rfl ?_
    rw [‹c.location = _›]
    rfl

end TimerView

end Linuxpp.Ioloop
