import Linuxpp.Ioloop.Proofs.EventLoopViewsProofs

/-!
# Proofs: the whole loop and its parts

A run of the loop is, through each view, a run of a machine of its own. So what was proved of the
queued callbacks, of `start` and `stop`, of the timers and of the handlers holds of the loop, where
they share one thread.
-/

namespace Linuxpp.Ioloop

variable {κ : Type} {c t : EventLoop κ} {own : OwnFds} {clock : TimeType}
  {ls : List (EventLoopStep κ)}

theorem located_of_run (hrun : eventLoopStep.run (EventLoop.construct κ own clock) ls = some c) :
    Located c :=
  Machine.run_invariant (fun _ _ _ h hl => Located.step h hl) hrun (Located.construct own clock)

theorem own_of_run (hrun : eventLoopStep.run c ls = some t) : t.own = c.own := by
  have hstep : ∀ (s : EventLoop κ) l u, s.own = c.own → eventLoopStep s l = some u →
      u.own = c.own := fun _ _ _ h hl => (EventLoop.own_of_step hl).trans h
  exact Machine.run_invariant hstep hrun rfl

/-- Behind a run, a view has run its own machine, under the guard that the steps are seen to meet. -/
theorem seen_of_run {τ β : Type} {m : Machine τ β} {view : EventLoop κ → τ}
    {ok : EventLoop κ → EventLoopStep κ → Prop} (ok' : τ → β → Prop)
    (hstep : ∀ s l t, Located s → ok s l → eventLoopStep s l = some t →
      ∃ ks, m.run (view s) ks = some (view t) ∧ m.Along ok' (view s) ks)
    (hrun : eventLoopStep.run c ls = some t) (hok : eventLoopStep.Along ok c ls)
    (hc : Located c) :
    ∃ ks, m.run (view c) ks = some (view t) ∧ m.Along ok' (view c) ks := by
  have hsim : Machine.SimulatedBy eventLoopStep m view Located ok ok' := hstep
  exact hsim.run (fun _ _ _ h _ hl => h.step hl) hrun hok hc

/-- A view that sees every step reaches its state by its own machine. -/
theorem reached_of_run {τ β : Type} (m : Machine τ β) (view : EventLoop κ → τ)
    (hstep : ∀ s l t, Located s → eventLoopStep s l = some t → m.Reachable (view s) (view t))
    (hrun : eventLoopStep.run c ls = some t) (hc : Located c) :
    m.Reachable (view c) (view t) := by
  have htrue : eventLoopStep.Along (fun _ _ => True) c ls :=
    Machine.along_of_forall_mem fun _ _ _ => trivial
  obtain ⟨ks, hks, -⟩ := seen_of_run (fun _ _ => True) (fun s l t h _ hl => by
    obtain ⟨ks, hks⟩ := hstep s l t h hl
    exact ⟨ks, hks, Machine.along_of_forall_mem fun _ _ _ => trivial⟩) hrun htrue hc
  exact ⟨ks, hks⟩

/-- No step of the run throws. -/
theorem along_ne_throws (h : .throws ∉ ls) : eventLoopStep.Along (fun _ l => l ≠ .throws) c ls :=
  Machine.along_of_forall_mem fun _ _ hl heq => h (heq ▸ hl)

/-- The queued callbacks of a loop in which nothing is thrown. -/
theorem callbackView_of_run (hrun : eventLoopStep.run c ls = some t) (hc : Located c)
    (hthrows : .throws ∉ ls) : callbackStep.Reachable c.callbackView t.callbackView := by
  obtain ⟨ks, hks, hsome⟩ := seen_of_run (fun _ k => ∃ l, k = some l ∧ True)
    (fun s l t h hl hstep => by
      obtain ⟨ks, hks, hseen⟩ := callbackView_step h hstep
      refine ⟨ks, hks, hseen.mono fun v k hk => ?_⟩
      cases k with
      | none => exact absurd (hk rfl).1 hl
      | some k => exact ⟨k, rfl, trivial⟩)
    hrun (along_ne_throws hthrows) hc
  obtain ⟨ls', hls', -⟩ := Machine.run_of_uninterrupted hks hsome
  exact ⟨ls', hls'⟩

/-- The timers of a loop in which nothing is thrown. The steps of user code and of passes are the
steps of the loop. -/
theorem timerView_of_run (ok : TimerLoop κ → TimerLoopStep κ → Prop)
    (hrun : eventLoopStep.run c ls = some t) (hc : Located c) (hthrows : .throws ∉ ls)
    (hmove : ∀ v k, k.isMove = true → ok v k)
    (hok : eventLoopStep.Along (fun s l => ∀ k, l = .timers k → k.mayRunIn s = true →
      ok s.timerView k) c ls) :
    ∃ ks, timerLoopStep.run c.timerView ks = some t.timerView ∧
      timerLoopStep.Along ok c.timerView ks := by
  obtain ⟨ks, hks, hsome⟩ := seen_of_run (fun v k => ∃ l, k = some l ∧ ok v l)
    (fun s l t h hl hstep => by
      obtain ⟨ks, hks, hseen⟩ := timerView_step h hstep
      refine ⟨ks, hks, hseen.mono fun v k hk => ?_⟩
      obtain ⟨rfl, hnone, hk⟩ := hk
      cases k with
      | none => exact absurd (hnone rfl) hl.1
      | some k =>
        refine ⟨k, rfl, ?_⟩
        rcases hk k rfl with hk | ⟨rfl, hmay⟩
        · exact hmove _ k hk
        · exact hl.2 k rfl hmay)
    hrun ((along_ne_throws hthrows).and hok) hc
  exact Machine.run_of_uninterrupted hks hsome

/-- **The whole loop refines the machines of its parts.** In every run of the loop, of other threads
and of the clock from the constructor on, each of the four views is at the end of a run of its own
machine. When nothing is thrown, the queued callbacks and the timers are at the end of a run without
exceptions. -/
theorem event_loop_refines_its_parts
    (hrun : eventLoopStep.run (EventLoop.construct κ own clock) ls = some c) :
    Refines clock c ∧ (.throws ∉ ls → RefinesWithoutThrows clock c) := by
  have hlocated : Located (EventLoop.construct κ own clock) := .construct own clock
  refine ⟨⟨?_, ?_, ?_, ?_⟩, fun hthrows => ⟨?_, ?_⟩⟩
  · obtain ⟨ks, hks⟩ := reached_of_run handlerStep EventLoop.handlerView
      (fun _ _ _ _ hl => (EventLoop.handlerView_step hl).imp fun _ hks => hks.1) hrun hlocated
    exact (construct_serving own clock).1.run hks
  · exact reached_of_run throwingCallbackStep EventLoop.callbackView
      (fun _ _ _ h hl => (callbackView_step h hl).imp fun _ hks => hks.1) hrun hlocated
  · exact reached_of_run startStopStep EventLoop.startStopView
      (fun _ _ _ h hl => (startStopView_step h hl).imp fun _ hks => hks.1) hrun hlocated
  · exact reached_of_run throwingTimerLoopStep EventLoop.timerView
      (fun _ _ _ h hl => (timerView_step h hl).imp fun _ hks => hks.1) hrun hlocated
  · exact callbackView_of_run hrun hlocated hthrows
  · obtain ⟨ks, hks, -⟩ := timerView_of_run (fun _ _ => True) hrun hlocated hthrows
      (fun _ _ _ => trivial) (Machine.along_of_forall_mem fun _ _ _ _ _ _ => trivial)
    exact ⟨ks, hks⟩

/-- The descriptors of a loop that is constructed when 0, 1 and 2 are open. -/
def firstFds : OwnFds where
  fd
    | .processCallbacks => 3
    | .processStop => 4
    | .processTimeouts => 5
    | .processPeriodicTimeouts => 6
  address
    | .processCallbacks => 0
    | .processStop => 1
    | .processTimeouts => 2
    | .processPeriodicTimeouts => 3
  fd_injective := by
    intro f g h
    cases f <;> cases g <;> first | rfl | cases h
  address_injective := by
    intro f g h
    cases f <;> cases g <;> first | rfl | cases h

/-- A callback is queued by another thread and a timeout added before `start`. Both events are in
one batch. -/
def oneTurn : List (EventLoopStep ℕ) :=
  [.callbacks (.enter (.other 1) 10), .callbacks .push, .callbacks .write, .callbacks .leave,
    .timers (.timeouts (.addTimeout 7 20 { now := 0 })), .timers (.tick 8), .start, .setKeepRunning,
    .testKeepRunning, .epollWait [(5, 1), (3, 1)], .dispatch, .readTimerfd,
    .timers (.timeouts .iterate), .timers (.timeouts .callbackReturns), .timers (.timeouts .iterate),
    .timers (.timeouts (.finish { now := 8 })), .handlerReturns, .dispatch, .callbacks .read,
    .callbacks .lock, .callbacks .take, .callbacks .unlock, .callbacks .call,
    .callbacks .callbackReturns, .handlerReturns, .prune]

theorem event_loop_refines_its_parts_oneTurn : ∃ c,
    eventLoopStep.run (EventLoop.construct ℕ firstFds 0) oneTurn = some c ∧
      c.ran = [⟨0, 10⟩] ∧ RefinesWithoutThrows 0 c := by
  have hrun : eventLoopStep.run (EventLoop.construct ℕ firstFds 0) oneTurn = some _ := rfl
  have hthrows : .throws ∉ oneTurn := by simp [oneTurn]
  exact ⟨_, hrun, rfl, (event_loop_refines_its_parts hrun).2 hthrows⟩

end Linuxpp.Ioloop
