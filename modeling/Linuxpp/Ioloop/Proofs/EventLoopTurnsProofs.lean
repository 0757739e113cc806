import Linuxpp.Ioloop.Proofs.EventLoopGuaranteesProofs

/-!
# Proofs: what one turn of the loop gets done

A turn begins when `epoll_wait` returns and ends when the handlers are pruned. What was ready when it
began is done when it ends, however the handlers of the batch, other threads and the clock interfere.
-/

namespace Linuxpp.Ioloop

variable {κ : Type} {c t : EventLoop κ} {own : OwnFds} {clock : TimeType}
  {ls ks : List (EventLoopStep κ)}

/-- A turn is cut where it ends. -/
theorem cut_at_prune (hrun : eventLoopStep.run c ks = some t) (hends : .prune ∈ ks) :
    ∃ before after s s', ks = before ++ .prune :: after ∧ eventLoopStep.run c before = some s ∧
      eventLoopStep.run s' after = some t ∧ eventLoopStep s .prune = some s' ∧
      (s'.location = .testing ∨ s'.location = .outside) := by
  obtain ⟨before, after, rfl⟩ := List.append_of_mem hends
  obtain ⟨s, hbefore, hrun⟩ := Machine.run_append_eq_some.mp hrun
  obtain ⟨s', hprune, hafter⟩ := Machine.run_cons_eq_some.mp hrun
  refine ⟨before, after, s, s', rfl, hbefore, hafter, hprune, ?_⟩
  cases EventLoop.moves_of_step hprune with
  | pruned sentry members location hfree hloc hmembers hnext => exact hnext
  | handlers _ l' members hon => cases hon

/-- The state in which a turn begins. -/
theorem begin_turn {reports : List (Int × UInt32)}
    (hstep : eventLoopStep c (.epollWait reports) = some t) :
    c.location = .waiting ∧ c.Reports reports ∧
      t.location = .dispatching c.handlers.processingHandlers
        (reports.map fun report => Epoll.report c.handlers.epoll report.1 report.2) ∧
      t.callbackView = { c.callbackView with
        phase := .dispatching (c.own.callbacksPending
          (reports.map fun report => Epoll.report c.handlers.epoll report.1 report.2)) } ∧
      t.timeouts = c.timeouts ∧ t.periodicTimeouts = c.periodicTimeouts ∧ t.clock = c.clock := by
  cases EventLoop.moves_of_step hstep with
  | report reports hfree hloc hreports => exact ⟨hloc, hreports, rfl, rfl, rfl, rfl, rfl⟩
  | handlers _ l' members hon => cases hon

section Queued

variable {v v' : CallbackLoop κ}

/-- `process_callbacks` is still to take the queued callbacks in this batch. -/
def LoopPhase.takes : LoopPhase κ → Bool
  | .dispatching pending => pending
  | .afterRead | .locked => true
  | _ => false

/-- All of these callbacks were run or taken, or are about to be taken. -/
def Served (queued : List (QueuedCallback κ)) (v : CallbackLoop κ) : Prop :=
  queued <+: v.ran ++ v.phase.todo ∨
    v.phase.takes = true ∧ queued <+: v.ran ++ v.phase.todo ++ v.newCallbacks

/-- A call of `add_callback` only appends to what is queued. -/
theorem addCallbackStep_appends {l : CallbackStep κ} (h : addCallbackStep v l = some v') :
    v'.ran = v.ran ∧ v.newCallbacks <+: v'.newCallbacks := by
  cases l with
  | enter adder k =>
    obtain ⟨-, rfl⟩ := addCallbackStep_enter.mp h
    exact ⟨rfl, List.prefix_rfl⟩
  | push =>
    obtain ⟨-, callback, -, rfl⟩ := addCallbackStep_push.mp h
    exact ⟨rfl, List.prefix_append _ _⟩
  | write =>
    obtain ⟨-, -, -, rfl⟩ := addCallbackStep_write.mp h
    exact ⟨rfl, List.prefix_rfl⟩
  | leave =>
    obtain ⟨-, -, -, rfl⟩ := addCallbackStep_leave.mp h
    exact ⟨rfl, List.prefix_rfl⟩
  | _ => cases h

/-- What is run or taken stays so, and what is queued is taken as a whole. -/
theorem loopStep_takes {l : CallbackStep κ} (hv : Handoff v) (h : loopStep v l = some v') :
    v.ran ++ v.phase.todo <+: v'.ran ++ v'.phase.todo ∧ v.ran <+: v'.ran ∧
      (v.phase.takes = true →
        v'.phase.takes = true ∧ v'.newCallbacks = v.newCallbacks ∧
            v'.ran ++ v'.phase.todo = v.ran ++ v.phase.todo ∨
          v'.ran ++ v'.phase.todo = v.ran ++ v.phase.todo ++ v.newCallbacks) := by
  cases l with
  | epollWait readable =>
    obtain ⟨hp, -, rfl⟩ := loopStep_epollWait.mp h
    rw [hp]
    exact ⟨List.prefix_rfl, List.prefix_rfl, nofun⟩
  | read =>
    obtain ⟨hp, rfl⟩ := loopStep_read.mp h
    rw [if_neg (Nat.pos_iff_ne_zero.mp (hv.pending hp)), hp]
    exact ⟨List.prefix_rfl, List.prefix_rfl, fun _ => .inl ⟨rfl, rfl, rfl⟩⟩
  | lock =>
    obtain ⟨hp, -, rfl⟩ := loopStep_lock.mp h
    rw [hp]
    exact ⟨List.prefix_rfl, List.prefix_rfl, fun _ => .inl ⟨rfl, rfl, rfl⟩⟩
  | take =>
    obtain ⟨hp, rfl⟩ := loopStep_take.mp h
    rw [hp]
    refine ⟨?_, List.prefix_rfl, fun _ => .inr ?_⟩
    · show v.ran ++ [] <+: v.ran ++ v.newCallbacks
      rw [List.append_nil]
      exact List.prefix_append _ _
    · show v.ran ++ v.newCallbacks = v.ran ++ [] ++ v.newCallbacks
      rw [List.append_nil]
  | unlock =>
    obtain ⟨callbacks, hp, rfl⟩ := loopStep_unlock.mp h
    rw [hp]
    exact ⟨List.prefix_rfl, List.prefix_rfl, nofun⟩
  | call =>
    obtain ⟨callback, callbacks, hp, rfl⟩ := loopStep_call.mp h
    rw [hp]
    refine ⟨?_, List.prefix_append _ _, nofun⟩
    show v.ran ++ callback :: callbacks <+: v.ran ++ [callback] ++ callbacks
    rw [List.append_assoc, List.singleton_append]
  | callbackReturns =>
    obtain ⟨callbacks, hp, rfl⟩ := loopStep_callbackReturns.mp h
    rw [hp]
    exact ⟨List.prefix_rfl, List.prefix_rfl, nofun⟩
  | processed =>
    obtain ⟨hp, rfl⟩ := loopStep_processed.mp h
    rw [hp]
    exact ⟨List.prefix_rfl, List.prefix_rfl, nofun⟩
  | endBatch =>
    obtain ⟨hp, rfl⟩ := loopStep_endBatch.mp h
    rw [hp]
    exact ⟨List.prefix_rfl, List.prefix_rfl, nofun⟩
  | _ => cases h

theorem Served.step {queued : List (QueuedCallback κ)} (h : Served queued v) (hv : Handoff v)
    {l : CallbackStep κ} (hl : callbackStep v l = some v') : Served queued v' := by
  unfold callbackStep at hl
  split_ifs at hl
  · have hphase := addCallbackStep_phase hl
    obtain ⟨hran, hnew⟩ := addCallbackStep_appends hl
    unfold Served
    rw [hphase, hran]
    refine h.imp_right fun ⟨htakes, hprefix⟩ => ⟨htakes, hprefix.trans ?_⟩
    exact (List.prefix_append_right_inj _).mpr hnew
  · obtain ⟨hkeep, -, htake⟩ := loopStep_takes hv hl
    rcases h with h | ⟨htakes, hprefix⟩
    · exact .inl (h.trans hkeep)
    · rcases htake htakes with ⟨htakes', hnew, heq⟩ | heq
      · refine .inr ⟨htakes', ?_⟩
        rw [heq, hnew]
        exact hprefix
      · refine .inl ?_
        rw [heq]
        exact hprefix

theorem ran_mono (hv : Handoff v) {l : CallbackStep κ} (hl : callbackStep v l = some v') :
    v.ran <+: v'.ran := by
  unfold callbackStep at hl
  split_ifs at hl
  · rw [(addCallbackStep_appends hl).1]
  · exact (loopStep_takes hv hl).2.1

/-- While nothing is throwing, what was run stays run, and what is served stays served. -/
theorem served_of_reachable {queued : List (QueuedCallback κ)} (hv : Handoff v)
    (hserved : Served queued v) (hreach : callbackStep.Reachable v v') : Served queued v' := by
  have hstep : ∀ (s : CallbackLoop κ) l t, Handoff s ∧ Served queued s →
      callbackStep s l = some t → Handoff t ∧ Served queued t :=
    fun _ _ _ h hl => ⟨h.1.step hl, h.2.step h.1 hl⟩
  exact (hreach.invariant hstep ⟨hv, hserved⟩).2

theorem ran_of_reachable {queued : List (QueuedCallback κ)} (hv : Handoff v)
    (hran : queued <+: v.ran) (hreach : callbackStep.Reachable v v') : queued <+: v'.ran := by
  have hstep : ∀ (s : CallbackLoop κ) l t, Handoff s ∧ queued <+: s.ran →
      callbackStep s l = some t → Handoff t ∧ queued <+: t.ran :=
    fun _ _ _ h hl => ⟨h.1.step hl, h.2.trans (ran_mono h.1 hl)⟩
  exact (hreach.invariant hstep ⟨hv, hran⟩).2

/-- While the loop waits and nobody is inside `add_callback`, everything was run, or is queued behind
a readable eventfd. -/
theorem Handoff.queued_of_waiting (h : Handoff c.callbackView) (hloc : c.location = .waiting)
    (hmutex : c.mutex = .none) : c.entered = c.ran ++ c.newCallbacks ∧
      (c.newCallbacks = [] ∨ 0 < c.callbacksEventfd) := by
  have hphase : c.callbackView.phase = .waiting := phase_eq hloc
  have hfree : c.callbackView.mutex = .none := hmutex
  constructor
  · have horder := h.order
    rw [hphase, hfree] at horder
    have hlast : c.entered = c.ran ++ [] ++ c.newCallbacks ++ [] := horder
    rwa [List.append_nil, List.append_nil] at hlast
  · refine h.readable ?_ ?_
    · rw [hfree]
      rfl
    · rw [hphase]
      rfl

/-- A turn that begins with the event of a readable callback eventfd serves what is queued. -/
theorem served_of_begin (h : Handoff c.callbackView) (hmutex : c.mutex = .none)
    {reports : List (Int × UInt32)} (hreported : c.readable .processCallbacks = true →
      c.own.fd .processCallbacks ∈ reports.map Prod.fst)
    (hwait : eventLoopStep c (.epollWait reports) = some t) : Served c.entered t.callbackView := by
  obtain ⟨hloc, -, -, hview, -⟩ := begin_turn hwait
  obtain ⟨horder, hready⟩ := h.queued_of_waiting hloc hmutex
  rw [hview, horder]
  rcases hready with hnone | hpos
  · refine .inl ?_
    rw [hnone]
    exact List.prefix_rfl
  · refine .inr ⟨?_, ?_⟩
    · obtain ⟨report, hreport, hfd⟩ := List.mem_map.mp (hreported (decide_eq_true hpos))
      refine List.any_eq_true.mpr ⟨_, List.mem_map_of_mem hreport, decide_eq_true ?_⟩
      rw [OwnFds.function_eq_some, ← hfd]
      rfl
    · show _ <+: c.ran ++ [] ++ c.newCallbacks
      rw [List.append_nil]

theorem handoff_of_run (hrun : eventLoopStep.run c ks = some t) (hc : Located c)
    (hthrows : .throws ∉ ks) (h : Handoff c.callbackView) : Handoff t.callbackView :=
  (callbackView_of_run hrun hc hthrows).invariant (fun _ _ _ h hl => h.step hl) h

/-- **No queued callback waits for more than one turn.** Let nothing be thrown. Let the loop wait in
`epoll_wait` while nobody is inside `add_callback`, and let the wait report the callback eventfd if it
is readable. Then everything that was ever queued has been run when the turn is over, whatever else
the batch, other threads and the clock do in between. -/
theorem queued_callbacks_run_within_a_turn
    (hrun : eventLoopStep.run (EventLoop.construct κ own clock) ls = some c)
    (hmutex : c.mutex = .none) {reports : List (Int × UInt32)}
    (hreported : c.readable .processCallbacks = true →
      own.fd .processCallbacks ∈ reports.map Prod.fst)
    (hturn : eventLoopStep.run c (.epollWait reports :: ks) = some t)
    (hthrows : .throws ∉ ls ++ ks) (hends : .prune ∈ ks) : c.entered <+: t.ran := by
  obtain ⟨hthrows, hthrows'⟩ := not_or.mp fun h => hthrows (List.mem_append.mpr h)
  have hown : own = c.own := (own_of_run hrun).symm
  have hlocated := located_of_run hrun
  have hc := handoff_of_run hrun (Located.construct own clock) hthrows handoff_init
  obtain ⟨u, hwait, hturn⟩ := Machine.run_cons_eq_some.mp hturn
  have hulocated := hlocated.step hwait
  have hserved := served_of_begin hc hmutex (hown ▸ hreported) hwait
  have hu := handoff_of_run ((Machine.run_singleton _ _).trans hwait) hlocated (by simp) hc
  obtain ⟨before, after, s, s', rfl, hbefore, hafter, hprune, hnext⟩ := cut_at_prune hturn hends
  have hthrows : .throws ∉ before ++ [.prune] := by
    rintro h
    rcases List.mem_append.mp h with h | h
    · exact hthrows' (List.mem_append_left _ h)
    · cases List.mem_singleton.mp h
  have hruns : eventLoopStep.run u (before ++ [.prune]) = some s' :=
    Machine.run_append_eq_some.mpr ⟨s, hbefore, (Machine.run_singleton _ _).trans hprune⟩
  have hs' := handoff_of_run hruns hulocated hthrows hu
  have hdone : c.entered <+: s'.ran := by
    have hphase : s'.callbackView.phase = .waiting := by
      rcases hnext with hnext | hnext <;> exact phase_eq hnext
    rcases served_of_reachable hu hserved (callbackView_of_run hruns hulocated hthrows) with
      hprefix | ⟨htakes, -⟩
    · rw [hphase] at hprefix
      have hprefix : c.entered <+: s'.ran ++ [] := hprefix
      rwa [List.append_nil] at hprefix
    · rw [hphase] at htakes
      cases htakes
  have hslocated := Machine.run_invariant (fun _ _ _ h hl => Located.step h hl) hruns hulocated
  exact ran_of_reachable hs' hdone (callbackView_of_run hafter hslocated fun h =>
    hthrows' (List.mem_append_right _ (List.mem_cons_of_mem _ h)))

/-- Another thread queues a callback before `start`. -/
def queueThenStart : List (EventLoopStep ℕ) :=
  [.callbacks (.enter (.other 1) 10), .callbacks .push, .callbacks .write, .callbacks .leave, .start,
    .setKeepRunning, .testKeepRunning]

/-- A turn with the event of the callback eventfd. -/
def runQueued : List (EventLoopStep ℕ) :=
  [.dispatch, .callbacks .read, .callbacks .lock, .callbacks .take, .callbacks .unlock,
    .callbacks .call, .callbacks .callbackReturns, .handlerReturns, .prune]

theorem queued_callbacks_run_within_a_turn_ten : ∃ c t,
    eventLoopStep.run (EventLoop.construct ℕ firstFds 0) queueThenStart = some c ∧
      c.entered = [⟨0, 10⟩] ∧ c.ran = [] ∧
      eventLoopStep.run c (.epollWait [(3, 1)] :: runQueued) = some t ∧ c.entered <+: t.ran := by
  have hrun : eventLoopStep.run (EventLoop.construct ℕ firstFds 0) queueThenStart = some _ := rfl
  have hboth : eventLoopStep.run (EventLoop.construct ℕ firstFds 0)
      (queueThenStart ++ .epollWait [(3, 1)] :: runQueued) = some _ := rfl
  obtain ⟨c, hc, hturn⟩ := Machine.run_append_eq_some.mp hboth
  obtain rfl := Option.some.inj (hrun.symm.trans hc)
  refine ⟨_, _, hrun, rfl, rfl, hturn,
    queued_callbacks_run_within_a_turn hrun rfl (fun _ => by decide) hturn ?_ ?_⟩
  · simp [queueThenStart, runQueued]
  · simp [runQueued]

end Queued

end Linuxpp.Ioloop
