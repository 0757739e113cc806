import Linuxpp.Ioloop.Proofs.EventLoopGuaranteesProofs

/-!
# Proofs: what a wait reports

The buffer of `epoll_wait` has room for every registration, also where user code closes descriptors
that are registered. So everything that is ready is reported at once. And the thread that waits is in
neither `add_callback` nor `stop`: it calls them from user code only.
-/

namespace Linuxpp

section Room

variable {e : Epoll} {fd : Int}

/-- The counter of `epoll` is not behind the interest set. -/
structure Epoll.HasRoom (e : Epoll) : Prop where
  fds : (e.interest.map Registration.fd).Nodup
  room : e.interest.length ≤ e.sizeEvents

theorem Epoll.registered_iff : e.registered fd = true ↔ fd ∈ e.interest.map Registration.fd := by
  simp [registered]

theorem Epoll.HasRoom.filter (h : e.HasRoom) :
    ((e.interest.filter fun r => r.fd ≠ fd).map Registration.fd).Nodup :=
  h.fds.sublist (List.filter_sublist.map _)

theorem Epoll.HasRoom.del (h : e.HasRoom) (fd : Int) : (e.del fd).2.HasRoom := by
  by_cases hopen : fd ∈ e.openFds
  · cases hreg : e.registered fd with
    | true =>
      obtain ⟨r, hr, rfl⟩ := List.mem_map.mp (registered_iff.mp hreg)
      rw [Ioloop.Handlers.del_of_registered hopen hreg]
      refine ⟨h.filter, ?_⟩
      have hlen := Keyed.length_filter_of_mem h.fds hr
      show (e.interest.filter fun r' => r'.fd ≠ r.fd).length ≤ e.sizeEvents - 1
      rw [hlen]
      exact Nat.sub_le_sub_right h.room 1
    | false =>
      rw [Ioloop.Handlers.del_of_not_registered hopen hreg]
      exact h
  · rw [Ioloop.Handlers.del_of_not_mem hopen]
    exact h

theorem Epoll.HasRoom.closeFd (h : e.HasRoom) (fd : Int) : (e.closeFd fd).HasRoom :=
  ⟨h.filter, Nat.le_trans (List.length_filter_le _ _) h.room⟩

end Room

namespace Ioloop

variable {κ : Type}

section Tables

variable {m : Handlers κ} {h h' : HandlerLoop κ}

theorem hasRoom_keptByRemovals :
    Handlers.KeptByRemovals fun s : Handlers κ => s.epoll.HasRoom :=
  ⟨fun _ fd hroom => hroom.del fd, fun _ _ hroom => hroom⟩

theorem hasRoom_addHandler (hbacked : m.Backed) (hroom : m.epoll.HasRoom) (fd : Int)
    (events : UInt32) (callback : κ) (address : ℕ) (failure : Option Errno) :
    (m.addHandler fd events callback address failure).2.epoll.HasRoom := by
  rcases Handlers.addHandler_cases m fd events callback address failure with
    heq | ⟨hh, -, -, heq⟩
  · rw [heq]
    exact hroom
  · rw [heq]
    have hfd : fd ∉ m.epoll.interest.map Registration.fd := by
      intro hmem
      obtain ⟨r, hr, rfl⟩ := List.mem_map.mp hmem
      obtain ⟨n, hn, rfl⟩ := hbacked.node r hr
      exact Handlers.not_handled_iff.mp hh (List.mem_map_of_mem hn)
    refine ⟨?_, ?_⟩
    · show ((m.epoll.interest ++ [Registration.mk fd _ address]).map Registration.fd).Nodup
      rw [List.map_append]
      exact hroom.fds.append (List.nodup_singleton _) (List.disjoint_singleton.mpr hfd)
    · show (m.epoll.interest ++ [Registration.mk fd _ address]).length ≤ m.epoll.sizeEvents + 1
      rw [List.length_append, List.length_singleton]
      exact Nat.add_le_add_right hroom.room 1

theorem hasRoom_step {l : HandlerStep κ} (hleading : Leading h) (hroom : h.members.epoll.HasRoom)
    (hstep : handlerStep h l = some h') : h'.members.epoll.HasRoom := by
  have hmembers := membersStep_of_step hstep
  generalize h'.members = m at hmembers ⊢
  cases hmembers with
  | addHandler fd events callback address failure =>
    exact hasRoom_addHandler hleading.tables hroom fd events callback address failure
  | removeHandler fd => exact hasRoom_keptByRemovals.removeHandler hroom fd
  | openFd fd => exact ⟨hroom.fds, hroom.room⟩
  | closeFd fd => exact hroom.closeFd fd
  | prune sentry => exact hasRoom_keptByRemovals.prune hroom
  | kept l events processing => exact hroom

theorem hasRoom_of_reachable (hreach : handlerStep.Reachable {} h) : h.members.epoll.HasRoom := by
  have hstep : ∀ (s : HandlerLoop κ) l t, Leading s ∧ s.members.epoll.HasRoom →
      handlerStep s l = some t → Leading t ∧ t.members.epoll.HasRoom :=
    fun _ _ _ hs hl => ⟨hs.1.step hl, hasRoom_step hs.1 hs.2 hl⟩
  exact (hreach.invariant hstep ⟨leading_init, List.nodup_nil, Nat.le_refl 0⟩).2

end Tables

variable {c t : EventLoop κ} {own : OwnFds} {clock : TimeType} {ls : List (EventLoopStep κ)}

section Occupied

/-- The thread of the loop is in `add_callback` or in `stop` only where user code runs. -/
def EventLoop.CallsFromUserCode (c : EventLoop κ) : Prop := c.free = false → c.userCode = true

theorem userCode_withCallbacks {v : CallbackLoop κ} (hloc : (c.withCallbacks v).location = c.location) :
    (c.withCallbacks v).userCode = c.userCode := by
  unfold EventLoop.userCode
  rw [hloc]
  rfl

/-- Only `enter` puts the thread of the loop into `add_callback`. -/
theorem byLoop_of_addCallbackStep {v v' : CallbackLoop κ} {l : CallbackStep κ}
    (h : addCallbackStep v l = some v') (hby : v'.mutex.byLoop = true) :
    v.mutex.byLoop = true ∨ ∃ k, l = .enter .loop k := by
  cases l with
  | enter adder k =>
    obtain ⟨-, rfl⟩ := addCallbackStep_enter.mp h
    cases adder with
    | loop => exact .inr ⟨k, rfl⟩
    | other thread => cases hby
  | push =>
    obtain ⟨adder, callback, hm, rfl⟩ := addCallbackStep_push.mp h
    rw [hm]
    cases adder with
    | loop => exact .inl rfl
    | other thread => cases hby
  | write =>
    obtain ⟨adder, callback, hm, rfl⟩ := addCallbackStep_write.mp h
    rw [hm]
    cases adder with
    | loop => exact .inl rfl
    | other thread => cases hby
  | leave =>
    obtain ⟨adder, callback, hm, rfl⟩ := addCallbackStep_leave.mp h
    cases hby
  | _ => cases h

theorem byLoop_of_loopStep {v v' : CallbackLoop κ} {l : CallbackStep κ} (h : loopStep v l = some v')
    (hby : v'.mutex.byLoop = true) : v.mutex.byLoop = true := by
  cases l with
  | epollWait readable =>
    obtain ⟨-, -, rfl⟩ := loopStep_epollWait.mp h
    exact hby
  | read =>
    obtain ⟨-, rfl⟩ := loopStep_read.mp h
    split_ifs at hby with hzero
    · exact hby
    · exact hby
  | lock =>
    obtain ⟨-, -, rfl⟩ := loopStep_lock.mp h
    cases hby
  | take =>
    obtain ⟨-, rfl⟩ := loopStep_take.mp h
    exact hby
  | unlock =>
    obtain ⟨callbacks, -, rfl⟩ := loopStep_unlock.mp h
    cases hby
  | call =>
    obtain ⟨callback, callbacks, -, rfl⟩ := loopStep_call.mp h
    exact hby
  | callbackReturns =>
    obtain ⟨callbacks, -, rfl⟩ := loopStep_callbackReturns.mp h
    exact hby
  | processed =>
    obtain ⟨-, rfl⟩ := loopStep_processed.mp h
    exact hby
  | endBatch =>
    obtain ⟨-, rfl⟩ := loopStep_endBatch.mp h
    exact hby
  | _ => cases h

theorem free_of_loopStep {v v' : CallbackLoop κ} {l : CallbackStep κ} (hmay : l.mayRunIn c = true)
    (h : loopStep v l = some v') : c.free = true := by
  cases l with
  | enter adder k => cases h
  | push => cases h
  | write => cases h
  | leave => cases h
  | epollWait readable => cases hmay
  | processed => cases hmay
  | endBatch => cases hmay
  | _ =>
    simp only [CallbackStep.mayRunIn] at hmay
    split at hmay
    · exact hmay
    · cases hmay

theorem EventLoop.not_free_iff :
    c.free = false ↔ c.mutex.byLoop = true ∨ c.stops .loop ≠ none := by
  unfold free
  cases c.mutex.byLoop <;> simp

theorem EventLoop.CallsFromUserCode.callbacks_step (h : c.CallsFromUserCode) {l : CallbackStep κ}
    {v : CallbackLoop κ} (hmay : l.mayRunIn c = true)
    (hstep : callbackStep c.callbackView l = some v) : (c.withCallbacks v).CallsFromUserCode := by
  intro hbusy
  have hcases : v.mutex.byLoop = true ∨ c.stops .loop ≠ none := not_free_iff.mp hbusy
  rcases callbacks_step_cases hmay hstep with ⟨hadd, hloc⟩ | ⟨hloop, sentry, events, hloc, -⟩
  · rw [userCode_withCallbacks hloc]
    rcases hcases with hby | hstops
    · rcases byLoop_of_addCallbackStep hadd hby with hby | ⟨k, rfl⟩
      · exact h (not_free_iff.mpr (.inl hby))
      · have huser : c.userCode = true ∧ c.free = true := by
          simpa [CallbackStep.mayRunIn] using hmay
        exact huser.1
    · exact h (not_free_iff.mpr (.inr hstops))
  · -- inside of `process_callbacks` the thread is in neither
    have hfree : c.free = false := by
      rcases hcases with hby | hstops
      · exact not_free_iff.mpr (.inl (byLoop_of_loopStep hloop hby))
      · exact not_free_iff.mpr (.inr hstops)
    rw [free_of_loopStep hmay hloop] at hfree
    cases hfree

theorem free_of_timerStep {l : TimerLoopStep κ} (hmay : l.mayRunIn c = true) :
    c.free = true ∨ ∃ now, l = .tick now := by
  unfold TimerLoopStep.mayRunIn at hmay
  split at hmay <;> first | exact .inr ⟨_, rfl⟩ | left
  all_goals first | exact hmay | exact (Bool.and_eq_true_iff.mp hmay).2 |
    exact (Bool.and_eq_true_iff.mp hmay).1 | cases hmay

/-- Only `stop` puts the thread of the loop into `stop`. -/
theorem stops_of_stopStep {v v' : StartStop} {l : StartStopStep} (h : stopStep v l = some v')
    (hl : l ≠ .stop .loop) (hin : v'.stops .loop ≠ none) : v.stops .loop ≠ none := by
  have hkept : ∀ (s : Stopper) call, s ≠ .loop → Function.update v.stops s call .loop ≠ none →
      v.stops .loop ≠ none := fun s call hs hne => by
    rwa [Function.update_of_ne (Ne.symm hs)] at hne
  cases l with
  | stop s =>
    obtain ⟨-, rfl⟩ := stopStep_stop.mp h
    exact hkept s _ (fun hs => hl (congrArg _ hs)) hin
  | clearKeepRunning s =>
    obtain ⟨during, hs, rfl⟩ := stopStep_clearKeepRunning.mp h
    by_cases hloop : s = .loop
    · rw [← hloop, hs]
      exact Option.some_ne_none _
    · exact hkept s _ hloop hin
  | writeStopEventfd s =>
    obtain ⟨during, hs, rfl⟩ := stopStep_writeStopEventfd.mp h
    by_cases hloop : s = .loop
    · rw [← hloop, hs]
      exact Option.some_ne_none _
    · exact hkept s _ hloop hin
  | _ => cases h

theorem EventLoop.CallsFromUserCode.step (h : c.CallsFromUserCode) {l : EventLoopStep κ}
    (hl : eventLoopStep c l = some t) : t.CallsFromUserCode := by
  intro hbusy
  have hfree : c.free = true → c.free = false → t.userCode = true := fun htrue hfalse => by
    rw [htrue] at hfalse
    cases hfalse
  cases EventLoop.moves_of_step hl with
  | callbacks l v hmay hstep => exact h.callbacks_step hmay hstep hbusy
  | stops l v hmay hstep =>
    have hstop : stopStep c.startStopView l = some v := by
      unfold startStopStep at hstep
      rwa [isStop_of_mayRunIn hmay, if_pos rfl] at hstep
    show c.userCode = true
    by_cases hloop : l = .stop .loop
    · subst hloop
      have huser : c.userCode = true ∧ c.free = true := by
        simpa [StartStopStep.mayRunIn] using hmay
      exact huser.1
    · refine h (EventLoop.not_free_iff.mpr ?_)
      exact (EventLoop.not_free_iff.mp hbusy).imp_right (stops_of_stopStep hstop hloop)
  | timers l v hmay hstep =>
    rcases free_of_timerStep hmay with htrue | ⟨now, rfl⟩
    · exact hfree htrue hbusy
    · obtain ⟨u, hu, rfl⟩ := Option.map_eq_some_iff.mp hstep
      obtain ⟨-, rfl⟩ := timerLoopMove_tick.mp hu
      exact h hbusy
  | handlers _ l' members hon huser hfree' => exact hfree hfree' hbusy
  | _ => exact hfree ‹c.free = true› hbusy

theorem callsFromUserCode_of_run
    (hrun : eventLoopStep.run (EventLoop.construct κ own clock) ls = some c) :
    c.CallsFromUserCode :=
  Machine.run_invariant (fun _ _ _ h hl => EventLoop.CallsFromUserCode.step h hl) hrun
    fun hbusy => by cases hbusy

/-- Where no user code runs, the thread of the loop is free to go on. -/
theorem EventLoop.CallsFromUserCode.free (h : c.CallsFromUserCode) (huser : c.userCode = false) :
    c.free = true := by
  by_contra hbusy
  rw [h (Bool.eq_false_iff.mpr hbusy)] at huser
  cases huser

end Occupied

section Waits

theorem handlerView_reachable
    (hrun : eventLoopStep.run (EventLoop.construct κ own clock) ls = some c) :
    handlerStep.Reachable {} c.handlerView := by
  obtain ⟨ks, hks⟩ := reached_of_run handlerStep EventLoop.handlerView
    (fun _ _ _ _ hl => (EventLoop.handlerView_step hl).imp fun _ hks => hks.1) hrun
    (Located.construct own clock)
  exact (construct_serving own clock).1.run hks

/-- Distinct registrations are not more than the buffer has room for. -/
theorem EventLoop.Ready.length_le (hroom : c.handlers.epoll.HasRoom)
    {reports : List (Int × UInt32)} (hready : c.Ready reports) :
    reports.length ≤ c.handlers.epoll.sizeEvents := by
  have hsub : reports.map Prod.fst ⊆ c.handlers.epoll.interest.map Registration.fd := by
    intro fd hfd
    obtain ⟨report, hreport, rfl⟩ := List.mem_map.mp hfd
    exact Epoll.registered_iff.mp (hready.registered report hreport)
  have hle := (hready.once.subperm hsub).length_le
  rw [List.length_map, List.length_map] at hle
  exact Nat.le_trans hle hroom.room

theorem waits_for (hfree : c.free = true) (hloc : c.location = .waiting)
    (hroom : c.handlers.epoll.HasRoom) {reports : List (Int × UInt32)} (hne : reports ≠ [])
    (hready : c.Ready reports) : ∃ t, eventLoopStep c (.epollWait reports) = some t ∧
      t.location = .dispatching c.handlers.processingHandlers
        (reports.map fun report => Epoll.report c.handlers.epoll report.1 report.2) := by
  have hreports : c.Reports reports :=
    ⟨hne, ⟨hready.registered, hready.once, hready.length_le hroom⟩, fun f _ => hready.own f⟩
  have hstep : eventLoopStep c (.epollWait reports) = c.startStep (.epollWait reports) :=
    if_pos hfree
  unfold EventLoop.startStep at hstep
  rw [hloc] at hstep
  exact ⟨_, hstep.trans (if_pos hreports), rfl⟩

/-- **No wait leaves out what is ready.** In every run the buffer of `epoll_wait` has room for every
registration, however user code adds and removes handlers and closes descriptors under them. So
wherever the loop waits, everything that is ready is dispatched in the batch that begins. -/
theorem wait_takes_all
    (hrun : eventLoopStep.run (EventLoop.construct κ own clock) ls = some c) :
    c.handlers.epoll.interest.length ≤ c.handlers.epoll.sizeEvents ∧
      (c.location = .waiting → c.WaitTakesAll) := by
  have hroom : c.handlers.epoll.HasRoom := hasRoom_of_reachable (handlerView_reachable hrun)
  refine ⟨hroom.room, fun hloc reports hne hready => ?_⟩
  have huser : c.userCode = false := by
    unfold EventLoop.userCode
    rw [hloc]
  have hfree := (callsFromUserCode_of_run hrun).free huser
  obtain ⟨t, hstep, hdispatching⟩ := waits_for hfree hloc hroom hne hready
  refine ⟨t, hstep, ?_⟩
  rw [hdispatching]
  show (reports.map _).map BatchEvent.about = _
  rw [List.map_map]
  rfl

/-- User code registers descriptor 7, closes it while it is registered, and starts the loop. -/
def closeThenStart : List (EventLoopStep ℕ) :=
  [.openFd 7, .addHandler 7 eventRead 20 4 none, .closeFd 7, .start, .setKeepRunning,
    .testKeepRunning]

theorem wait_takes_all_closeThenStart : ∃ c,
    eventLoopStep.run (EventLoop.construct ℕ firstFds 0) closeThenStart = some c ∧
      c.handlers.epoll.interest.length = 4 ∧ c.handlers.epoll.sizeEvents = 5 ∧
      c.WaitTakesAll := by
  have hrun : eventLoopStep.run (EventLoop.construct ℕ firstFds 0) closeThenStart = some _ := rfl
  exact ⟨_, hrun, rfl, rfl, (wait_takes_all hrun).2 rfl⟩

end Waits

end Ioloop

end Linuxpp
