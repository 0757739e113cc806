import Linuxpp.Ioloop.Proofs.EventLoopProgressProofs
import Linuxpp.Ioloop.Proofs.EventLoopTurnsProofs
import Linuxpp.Ioloop.Proofs.EventLoopWaitsProofs

/-!
# Proofs: `start` returns

When a call of `stop` has returned, `keep_running_` is cleared and stays so. If the loop waits, the
stop eventfd is readable and the wait reports it. The batch ends, and behind it the flag is tested.
-/

namespace Linuxpp.Ioloop

variable {κ : Type} {c t : EventLoop κ} {own : OwnFds} {clock : TimeType}
  {ls : List (EventLoopStep κ)}

/-- The stop request is heeded at every step that clears the flag in time. -/
theorem heeding_step (hc : Located c) (h : Heeding c.startStopView) {l : EventLoopStep κ}
    (hl : eventLoopStep c l = some t) (hok : ClearsInTime c l) : Heeding t.startStopView := by
  obtain ⟨ks, hks, hseen⟩ := startStopView_step hc hl
  refine Machine.run_invariant_along (fun _ _ _ h hok hl => h.step hl hok) hks
    (hseen.mono fun v k hk s call hclear => ?_) h
  subst hclear
  obtain ⟨heq, rfl⟩ := hk rfl
  exact hok _ heq s call rfl

theorem heeding_of_run (hrun : eventLoopStep.run (EventLoop.construct κ own clock) ls = some c)
    (hok : eventLoopStep.Along ClearsInTime (EventLoop.construct κ own clock) ls) :
    Heeding c.startStopView := by
  have hstep : ∀ (s : EventLoop κ) l t, Located s ∧ Heeding s.startStopView → ClearsInTime s l →
      eventLoopStep s l = some t → Located t ∧ Heeding t.startStopView :=
    fun _ _ _ h hok hl => ⟨h.1.step hl, heeding_step h.1 h.2 hl hok⟩
  exact (Machine.run_invariant_along hstep hrun hok
    ⟨Located.construct own clock, heeding_init⟩).2

/-- A call of `stop` has returned, and nothing holds the loop up. -/
structure Stopping (c : EventLoop κ) : Prop where
  going : Going c
  heeding : Heeding c.startStopView
  room : handlerStep.Reachable {} c.handlerView
  calls : c.CallsFromUserCode
  stopped : c.stopped = true

/-- Own steps do not begin a new call of `start`. -/
theorem stopped_of_own_step {l : EventLoopStep κ} (hown : l.isOwn = true)
    (hl : eventLoopStep c l = some t) (hst : c.stopped = true) : t.stopped = true := by
  cases EventLoop.moves_of_step hl with
  | start hfree hloc => cases hown
  | stops l v hmay hstep =>
    have hne : l ≠ .start := by
      rintro rfl
      cases hmay
    exact stopped_step hstep hne hst
  | handlers _ l' members hon => exact hst
  | _ => exact hst

theorem Stopping.step (h : Stopping c) {l : EventLoopStep κ} (hown : l.isOwn = true)
    (hl : eventLoopStep c l = some t) : Stopping t where
  going := h.going.own_step hown hl
  heeding := by
    refine heeding_step h.going.located h.heeding hl fun k _ s call _ _ _ => ?_
    exact (h.heeding.stopped h.stopped).2
  room := by
    obtain ⟨ks, hks, -⟩ := EventLoop.handlerView_step hl
    exact h.room.run hks
  calls := h.calls.step hl
  stopped := stopped_of_own_step hown hl h.stopped

theorem Stopping.run (h : Stopping c) (hown : ∀ l ∈ ls, l.isOwn = true)
    (hrun : eventLoopStep.run c ls = some t) : Stopping t :=
  Machine.run_invariant_along (fun _ _ _ h hok hl => h.step hok hl) hrun
    (Machine.along_of_forall_mem fun _ => hown) h

theorem EventLoop.StartReturns.of_run (h : t.StartReturns) (hown : ∀ l ∈ ls, l.isOwn = true)
    (hrun : eventLoopStep.run c ls = some t) : c.StartReturns := by
  obtain ⟨ks, u, hks, hrun', hu⟩ := h
  refine ⟨ls ++ ks, u, ?_, Machine.run_append_eq_some.mpr ⟨t, hrun, hrun'⟩, hu⟩
  exact fun l hl => (List.mem_append.mp hl).elim (hown l) (hks l)

/-- Before the test of the flag, or outside. -/
theorem Stopping.leaves (h : Stopping c) (hloc : c.location = .testing ∨ c.location = .outside) :
    c.StartReturns := by
  have hbatches : c.batches ≤ 1 := h.heeding.batches
  rcases hloc with hloc | hloc
  · have hkeep : c.keepRunning = false := (h.heeding.stopped h.stopped).1
    have huser : c.userCode = false := by
      unfold EventLoop.userCode
      rw [hloc]
    have hstep : eventLoopStep c .testKeepRunning = c.startStep .testKeepRunning :=
      if_pos (h.calls.free huser)
    unfold EventLoop.startStep at hstep
    rw [hloc] at hstep
    have hleaves := hstep.trans (if_neg (Bool.eq_false_iff.mp hkeep))
    exact ⟨[.testKeepRunning], _, List.forall_mem_singleton.mpr rfl,
      (Machine.run_singleton _ _).trans hleaves, rfl, hbatches⟩
  · exact ⟨[], c, by simp, rfl, hloc, hbatches⟩

theorem Stopping.of_batch (h : Stopping c) (hends : c.BatchEnds) : c.StartReturns := by
  obtain ⟨ks, t, hown, hrun, hloc⟩ := hends
  exact ((h.run hown hrun).leaves hloc).of_run hown hrun

/-- The wait reports the stop eventfd. -/
theorem Stopping.wakes (h : Stopping c) (hloc : c.location = .waiting) :
    ∃ reports t events, eventLoopStep c (.epollWait reports) = some t ∧
      t.location = .dispatching c.handlers.processingHandlers events := by
  have hpos : 0 < c.stopEventfd := by
    have hpoint : c.startStopView.point = .waiting := point_eq hloc
    exact (h.heeding.waiting h.stopped hpoint).1
  have huser : c.userCode = false := by
    unfold EventLoop.userCode
    rw [hloc]
  have hready : c.Ready [(c.own.fd .processStop, EPOLLIN)] := by
    refine ⟨?_, List.nodup_singleton _, fun f hf => ?_⟩
    · have hinterest := (h.going.located.serving.kept .processStop).interest.resolve_left id
      rw [List.forall_mem_singleton]
      exact Epoll.registered_iff.mpr (List.mem_map_of_mem hinterest)
    · obtain rfl := c.own.fd_injective (List.mem_singleton.mp hf)
      exact decide_eq_true hpos
  obtain ⟨t, hstep, hdispatching⟩ :=
    waits_for (h.calls.free huser) hloc (hasRoom_of_reachable h.room) (List.cons_ne_nil _ _) hready
  exact ⟨_, t, _, hstep, hdispatching⟩

theorem Stopping.returns (h : Stopping c) : c.StartReturns := by
  cases hloc : c.location with
  | waiting =>
    obtain ⟨reports, t, events, hstep, hdispatching⟩ := h.wakes hloc
    have ht := h.step rfl hstep
    have hreturns := ht.of_batch (ht.going.rest_ends hdispatching)
    exact hreturns.of_run (List.forall_mem_singleton.mpr rfl)
      ((Machine.run_singleton _ _).trans hstep)
  | entered =>
    have hpoint : c.startStopView.point = .entered := point_eq hloc
    exact absurd hpoint (h.heeding.stopped h.stopped).2
  | testing => exact h.leaves (.inl hloc)
  | outside => exact h.leaves (.inr hloc)
  | dispatching sentry events => exact h.of_batch (h.going.rest_ends hloc)
  | calling sentry events activity =>
    obtain ⟨ks, t, hown, hrun, hgoing, hdispatching⟩ := h.going.handler_returns hloc
    have ht := h.run hown hrun
    exact (ht.of_batch (hgoing.rest_ends hdispatching)).of_run hown hrun

/-- **`stop` ends the whole loop.** In every run in which nothing is thrown, no later timeout is
added behind the report of a timerfd, and no call of `stop` clears the flag before `start` has set
it: when a call of `stop` that began in the current call of `start` has returned, the loop leaves
`start` by its own steps, from whatever handler, pass or callback its thread is in, and takes at most
one batch more. -/
theorem start_returns_after_stop
    (hrun : eventLoopStep.run (EventLoop.construct κ own clock) ls = some c)
    (hthrows : .throws ∉ ls)
    (hadds : eventLoopStep.Along AddsForNoneDue (EventLoop.construct κ own clock) ls)
    (hclears : eventLoopStep.Along ClearsInTime (EventLoop.construct κ own clock) ls)
    (hstopped : c.stopped = true) : c.StartReturns :=
  Stopping.returns ⟨Going.of_run hrun hthrows hadds, heeding_of_run hrun hclears,
    handlerView_reachable hrun, callsFromUserCode_of_run hrun, hstopped⟩

/-- The loop runs a queued callback. -/
def intoCallback : List (EventLoopStep ℕ) :=
  queueThenStart ++ [.epollWait [(3, 1)], .dispatch, .callbacks .read, .callbacks .lock,
    .callbacks .take, .callbacks .unlock, .callbacks .call]

/-- Another thread calls `stop`. -/
def stopFromOutside : List (EventLoopStep ℕ) :=
  [.stops (.stop (.other 1)), .stops (.clearKeepRunning (.other 1)),
    .stops (.writeStopEventfd (.other 1))]

theorem LoopLocation.calling_ne_entered (sentry : Bool) (events : List BatchEvent)
    (activity : Activity κ) : LoopLocation.calling sentry events activity ≠ .entered := nofun

theorem stopFromOutside_clears {s : EventLoop ℕ} (hloc : s.location ≠ .entered) :
    eventLoopStep.Along ClearsInTime s stopFromOutside := by
  have hpoint : s.startStopView.point ≠ .entered := by
    show s.location.startPoint s.own ≠ .entered
    cases hs : s.location with
    | entered => exact absurd hs hloc
    | calling sentry events activity => cases activity <;> nofun
    | _ => nofun
  refine ⟨fun k hk _ _ hclear => ?_, fun t ht => ⟨fun k hk _ _ _ _ _ => ?_, fun _ _ =>
    ⟨fun k hk _ _ hclear => ?_, fun _ _ => trivial⟩⟩⟩
  · subst hclear
    cases hk
  · cases EventLoop.moves_of_step ht with
    | stops l v hmay hstep => exact hpoint
    | handlers _ l' members hon => cases hon
  · subst hclear
    cases hk

theorem start_returns_after_stop_inCallback : ∃ c,
    eventLoopStep.run (EventLoop.construct ℕ firstFds 0) (intoCallback ++ stopFromOutside) =
        some c ∧
      c.location = .calling false [] (.processCallbacks (.running [] true)) ∧ c.StartReturns := by
  have hrun : eventLoopStep.run (EventLoop.construct ℕ firstFds 0)
      (intoCallback ++ stopFromOutside) = some _ := rfl
  have hinto : eventLoopStep.run (EventLoop.construct ℕ firstFds 0) intoCallback = some _ := rfl
  refine ⟨_, hrun, rfl, start_returns_after_stop hrun ?_ ?_ ?_ rfl⟩
  · simp [intoCallback, queueThenStart, stopFromOutside]
  · refine Machine.along_of_forall_mem fun s l hl k hk => ?_
    subst hk
    simp [intoCallback, queueThenStart, stopFromOutside] at hl
  · refine Machine.along_append (Machine.along_of_forall_mem fun s l hl k hk => ?_) hinto
      (stopFromOutside_clears (LoopLocation.calling_ne_entered _ _ _))
    subst hk
    simp [intoCallback, queueThenStart] at hl

end Linuxpp.Ioloop
