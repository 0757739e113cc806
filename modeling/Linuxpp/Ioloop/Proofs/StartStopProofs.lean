import Linuxpp.Ioloop.StartStop

/-!
# Proofs: `start` and `stop`

A call of `stop` that began in the current call of `start` and has cleared the flag keeps it cleared
until `start` returns, since only the first step of `start` sets it. A run in which that step comes
before the clearing therefore leads out of `start`.
-/

namespace Linuxpp.Ioloop

variable {c t : StartStop} {s : Stopper}

section Inversion

attribute [local simp] stopStep

theorem stopStep_stop : stopStep c (.stop s) = some t ↔
    (c.stops s = none ∧ (s = .loop → c.point.userCode = true)) ∧
      { c with stops := Function.update c.stops s (some { during := c.current }) } = t := by
  simp

theorem stopStep_clearKeepRunning : stopStep c (.clearKeepRunning s) = some t ↔
    ∃ during, c.stops s = some ⟨during, false⟩ ∧
      { c with
        keepRunning := false
        stops := Function.update c.stops s (some ⟨during, true⟩) } = t := by
  cases hs : c.stops s with
  | none => simp [hs]
  | some call =>
    obtain ⟨during, cleared⟩ := call
    cases cleared <;> simp [hs]

theorem stopStep_writeStopEventfd : stopStep c (.writeStopEventfd s) = some t ↔
    ∃ during, c.stops s = some ⟨during, true⟩ ∧
      { c with
        stopEventfd := c.stopEventfd + 1
        stops := Function.update c.stops s none
        stopped := c.stopped || during = some c.starts } = t := by
  cases hs : c.stops s with
  | none => simp [hs]
  | some call =>
    obtain ⟨during, cleared⟩ := call
    cases cleared <;> simp [hs]

/-- The events of the batch that are still to be handled. -/
def StartPoint.due : StartPoint → List StartEvent
  | .dispatching rest | .calling rest => rest
  | .readingStop rest => .stopEventfd :: rest
  | _ => []

/-- The ways in which the thread of the loop goes on. -/
inductive Proceeds (c : StartStop) : StartStopStep → StartStop → Prop
  | start (hp : c.point = .outside) :
      Proceeds c .start { c with
        point := .entered, starts := c.starts + 1, stopped := false, batches := 0 }
  | set (hp : c.point = .entered) :
      Proceeds c .setKeepRunning { c with keepRunning := true, point := .testing }
  | wait (hp : c.point = .testing) (hkeep : c.keepRunning = true) :
      Proceeds c .testKeepRunning { c with point := .waiting }
  | report (events : List StartEvent) (hp : c.point = .waiting)
      (honce : events.count .stopEventfd ≤ 1) (hready : .stopEventfd ∈ events → 0 < c.stopEventfd) :
      Proceeds c (.epollWait events) { c with
        point := .dispatching events
        batches := if c.stopped then c.batches + 1 else c.batches }
  | read (rest : List StartEvent) (hp : c.point = .readingStop rest) :
      Proceeds c .readStopEventfd { c with stopEventfd := 0, point := .dispatching rest }
  /-- The other steps move the thread, and neither to the store nor to `epoll_wait`. -/
  | move (l : StartStopStep) (point : StartPoint) (hl : l ≠ .start) (hset : point ≠ .entered)
      (hwait : point ≠ .waiting) (hdue : point.due.Sublist c.point.due) :
      Proceeds c l { c with point := point }

theorem proceeds_of_startStep {l : StartStopStep} (h : startStep c l = some t) :
    Proceeds c l t := by
  unfold startStep at h
  split at h
  case h_1 hp => obtain rfl := Option.some.inj h; exact .start hp
  case h_2 hp => obtain rfl := Option.some.inj h; exact .set hp
  case h_3 hp =>
    split_ifs at h with hkeep
    · obtain rfl := Option.some.inj h
      exact .wait hp hkeep
    · obtain rfl := Option.some.inj h
      exact .move _ _ (by simp) (by simp) (by simp) (List.nil_sublist _)
  case h_4 events hp =>
    obtain ⟨hevents, h⟩ := Option.ite_none_right_eq_some.mp h
    obtain rfl := Option.some.inj h
    exact .report events hp hevents.2.1 hevents.2.2
  case h_8 rest hp =>
    split_ifs at h
    obtain rfl := Option.some.inj h
    exact .read rest hp
  case h_14 => cases h
  all_goals
    rename_i hp
    obtain rfl := Option.some.inj h
    refine .move _ _ (by simp) (by simp) (by simp) ?_
    simp [StartPoint.due, hp]

end Inversion

section Heeding

/-- The flag is cleared, and `start` does not set it any more. -/
def Halting (c : StartStop) : Prop := c.keepRunning = false ∧ c.point ≠ .entered

/-- The calls of `stop` that began in the current call of `start` and have cleared the flag hold it
cleared. -/
structure HeldCleared (c : StartStop) : Prop where
  begun : ∀ s call, c.stops s = some call → ∀ n ∈ call.during, n ≤ c.starts
  cleared : ∀ s call, c.stops s = some call → call.cleared = true →
    call.during = some c.starts → Halting c
  stopped : c.stopped = true → Halting c

theorem HeldCleared.of_eq (h : HeldCleared c) (hkeep : t.keepRunning = c.keepRunning)
    (hset : t.point ≠ .entered) (hstops : t.stops = c.stops) (hstarts : t.starts = c.starts)
    (hstopped : t.stopped = c.stopped) : HeldCleared t := by
  have hhalt : Halting c → Halting t := fun hhalt => ⟨hkeep.trans hhalt.1, hset⟩
  refine ⟨?_, ?_, fun hst => hhalt (h.stopped (hstopped ▸ hst))⟩
  · rw [hstops, hstarts]
    exact h.begun
  · rw [hstops, hstarts]
    exact fun s call hs hcleared hduring => hhalt (h.cleared s call hs hcleared hduring)

/-- The calls of `stop` after one of them took a step. -/
theorem of_update_eq_some {stops : Stopper → Option StopCall} {s s' : Stopper}
    {call' : Option StopCall} {call : StopCall}
    (h : Function.update stops s call' s' = some call) :
    call' = some call ∨ stops s' = some call := by
  by_cases hs : s' = s
  · subst hs
    rw [Function.update_self] at h
    exact .inl h
  · rw [Function.update_of_ne hs] at h
    exact .inr h

theorem HeldCleared.stopStep (h : HeldCleared c) {l : StartStopStep} (hl : stopStep c l = some t)
    (hok : ClearsAfterSet c l) : HeldCleared t := by
  cases l with
  | stop s =>
    obtain ⟨-, rfl⟩ := stopStep_stop.mp hl
    refine ⟨fun s' call hs n hn => ?_, fun s' call hs hcleared hduring => ?_, h.stopped⟩
    · rcases of_update_eq_some hs with hnew | hold
      · obtain rfl := Option.some.inj hnew
        have hcurrent : c.current = some n := hn
        unfold StartStop.current at hcurrent
        split_ifs at hcurrent
        exact Nat.le_of_eq (Option.some.inj hcurrent).symm
      · exact h.begun s' call hold n hn
    · rcases of_update_eq_some hs with hnew | hold
      · obtain rfl := Option.some.inj hnew
        cases hcleared
      · exact h.cleared s' call hold hcleared hduring
  | clearKeepRunning s =>
    obtain ⟨during, hs, rfl⟩ := stopStep_clearKeepRunning.mp hl
    refine ⟨fun s' call hs' n hn => ?_, fun s' call hs' hcleared hduring => ⟨rfl, ?_⟩,
      fun hst => ⟨rfl, (h.stopped hst).2⟩⟩
    · rcases of_update_eq_some hs' with hnew | hold
      · obtain rfl := Option.some.inj hnew
        exact h.begun s _ hs n hn
      · exact h.begun s' call hold n hn
    · rcases of_update_eq_some hs' with hnew | hold
      · obtain rfl := Option.some.inj hnew
        exact hok s _ rfl hs hduring
      · exact (h.cleared s' call hold hcleared hduring).2
  | writeStopEventfd s =>
    obtain ⟨during, hs, rfl⟩ := stopStep_writeStopEventfd.mp hl
    have hold : ∀ s' call, Function.update c.stops s none s' = some call → c.stops s' = some call :=
      fun s' call hs' => (of_update_eq_some hs').resolve_left (by simp)
    refine ⟨fun s' call hs' => h.begun s' call (hold s' call hs'),
      fun s' call hs' => h.cleared s' call (hold s' call hs'), fun hst => ?_⟩
    rcases Bool.or_eq_true_iff.mp hst with hst | hnew
    · exact h.stopped hst
    · exact h.cleared s _ hs rfl (of_decide_eq_true hnew)
  | _ => cases hl

/-- The invariant of the runs in which no call of `stop` clears the flag too early. -/
structure Heeding (c : StartStop) : Prop extends HeldCleared c where
  once : c.point.due.count .stopEventfd ≤ 1
  ready : .stopEventfd ∈ c.point.due → 0 < c.stopEventfd
  waiting : c.stopped = true → c.point = .waiting → 0 < c.stopEventfd ∧ c.batches = 0
  batches : c.batches ≤ 1
  none : c.stopped = false → c.batches = 0

theorem heeding_init : Heeding {} where
  begun := by simp
  cleared := by simp
  stopped := by simp
  once := by simp [StartPoint.due]
  ready := by simp [StartPoint.due]
  waiting := by simp
  batches := Nat.zero_le 1
  none := fun _ => rfl

theorem Heeding.stopStep (h : Heeding c) {l : StartStopStep} (hl : stopStep c l = some t)
    (hok : ClearsAfterSet c l) : Heeding t := by
  have hheld := h.toHeldCleared.stopStep hl hok
  cases l with
  | stop s =>
    obtain ⟨-, rfl⟩ := stopStep_stop.mp hl
    exact ⟨hheld, h.once, h.ready, h.waiting, h.batches, h.none⟩
  | clearKeepRunning s =>
    obtain ⟨during, -, rfl⟩ := stopStep_clearKeepRunning.mp hl
    exact ⟨hheld, h.once, h.ready, h.waiting, h.batches, h.none⟩
  | writeStopEventfd s =>
    obtain ⟨during, -, rfl⟩ := stopStep_writeStopEventfd.mp hl
    have hpos : 0 < c.stopEventfd + 1 := Nat.succ_pos _
    refine ⟨hheld, h.once, fun _ => hpos, fun _ hp => ⟨hpos, ?_⟩, h.batches,
      fun hnot => h.none (Bool.or_eq_false_iff.mp hnot).1⟩
    -- if this is the first call that returns, no batch was counted yet
    cases hst : c.stopped with
    | true => exact (h.waiting hst hp).2
    | false => exact h.none hst
  | _ => cases hl

theorem Heeding.proceeds (h : Heeding c) {l : StartStopStep} (hl : Proceeds c l t) :
    Heeding t := by
  cases hl with
  | start hp =>
    refine ⟨⟨fun s call hs n hn => Nat.le_succ_of_le (h.begun s call hs n hn),
      fun s call hs _ hduring => ?_, by simp⟩, by simp [StartPoint.due], by simp [StartPoint.due],
      by simp, Nat.zero_le 1, fun _ => rfl⟩
    exact absurd (h.begun s call hs _ hduring) (Nat.not_succ_le_self _)
  | set hp =>
    have hnot : ¬ Halting c := fun hhalt => hhalt.2 hp
    exact ⟨⟨h.begun, fun s call hs hcleared hduring =>
      absurd (h.cleared s call hs hcleared hduring) hnot, fun hst => absurd (h.stopped hst) hnot⟩,
      by simp [StartPoint.due], by simp [StartPoint.due], by simp, h.batches, h.none⟩
  | wait hp hkeep =>
    have hnot : ¬ Halting c := fun hhalt => absurd hkeep (by simp [hhalt.1])
    exact ⟨h.toHeldCleared.of_eq rfl (by simp) rfl rfl rfl, by simp [StartPoint.due],
      by simp [StartPoint.due], fun hst => absurd (h.stopped hst) hnot, h.batches, h.none⟩
  | report events hp honce hready =>
    refine ⟨h.toHeldCleared.of_eq rfl (by simp) rfl rfl rfl, honce, hready, by simp, ?_, ?_⟩
    · cases hst : c.stopped with
      | true => simp [(h.waiting hst hp).2]
      | false => simpa using h.batches
    · intro hnot
      have hnot : c.stopped = false := hnot
      simpa [hnot] using h.none hnot
  | read rest hp =>
    have honce := h.once
    rw [hp] at honce
    have hcount : rest.count .stopEventfd = 0 := by
      simpa [StartPoint.due] using honce
    exact ⟨h.toHeldCleared.of_eq rfl (by simp) rfl rfl rfl, hcount ▸ Nat.zero_le 1,
      fun hin => absurd hin (List.count_eq_zero.mp hcount), by simp, h.batches, h.none⟩
  | move l point hne hset hwait hdue =>
    exact ⟨h.toHeldCleared.of_eq rfl hset rfl rfl rfl, Nat.le_trans (hdue.count_le _) h.once,
      fun hin => h.ready (hdue.subset hin), fun _ hp => absurd hp hwait, h.batches, h.none⟩

theorem Heeding.step (h : Heeding c) {l : StartStopStep} (hl : startStopStep c l = some t)
    (hok : ClearsAfterSet c l) : Heeding t := by
  unfold startStopStep at hl
  split_ifs at hl
  · exact h.stopStep hl hok
  · exact h.proceeds (proceeds_of_startStep hl)

end Heeding

section Returns

/-- How much of `start` is left at a point of the thread once the flag is cleared. -/
def StartPoint.left : StartPoint → ℕ
  | .outside => 0
  | .testing => 1
  | .pruning => 2
  | .dispatching rest => 3 + 2 * rest.length
  | .readingStop rest | .calling rest => 4 + 2 * rest.length
  | .waiting => 6
  | .entered => 7

/-- How much is left of a call of `stop`. -/
def StopCall.left : Option StopCall → ℕ
  | none => 0
  | some call => if call.cleared then 1 else 2

/-- How much the thread of the loop has to do before `start` returns. -/
def StartStop.left (c : StartStop) : ℕ := c.point.left + StopCall.left (c.stops .loop)

theorem startStopStep_of_startStep {l : StartStopStep} (hown : c.stops .loop = none)
    (hstop : l.isStop = false) (hl : startStep c l = some t) : startStopStep c l = some t := by
  unfold startStopStep
  rw [hstop, if_neg Bool.false_ne_true, if_pos hown, hl]

theorem Heeding.exists_own_step (h : Heeding c) (hst : c.stopped = true)
    (hp : c.point ≠ .outside) :
    ∃ l t, l.isOwn = true ∧ startStopStep c l = some t ∧ t.left < c.left := by
  obtain ⟨hkeep, hset⟩ := h.stopped hst
  cases hown : c.stops .loop with
  | some call =>
    obtain ⟨during, cleared⟩ := call
    cases cleared with
    | false =>
      refine ⟨.clearKeepRunning .loop, _, rfl,
        stopStep_clearKeepRunning.mpr ⟨during, hown, rfl⟩, ?_⟩
      simp [StartStop.left, StopCall.left, hown]
    | true =>
      refine ⟨.writeStopEventfd .loop, _, rfl,
        stopStep_writeStopEventfd.mpr ⟨during, hown, rfl⟩, ?_⟩
      simp [StartStop.left, StopCall.left, hown]
  | none =>
    -- the thread is not in `stop`, and goes on with `start`
    have hstep : ∀ l t, l.isOwn = true → l.isStop = false → startStep c l = some t →
        t.stops = c.stops → t.point.left < c.point.left →
        ∃ l t, l.isOwn = true ∧ startStopStep c l = some t ∧ t.left < c.left := by
      intro l t hl hstop hstep hstops hlt
      refine ⟨l, t, hl, startStopStep_of_startStep hown hstop hstep, ?_⟩
      unfold StartStop.left
      rw [hstops]
      exact Nat.add_lt_add_right hlt _
    cases hpoint : c.point with
    | outside => exact absurd hpoint hp
    | entered => exact absurd hpoint hset
    | testing =>
      exact hstep .testKeepRunning { c with point := .outside } rfl rfl
        (by simp [startStep, hpoint, hkeep]) rfl (by simp [hpoint, StartPoint.left])
    | waiting =>
      have hpos := (h.waiting hst hpoint).1
      exact hstep (.epollWait [.stopEventfd])
        { c with point := .dispatching [.stopEventfd], batches := c.batches + 1 } rfl rfl
        (by simp [startStep, hpoint, hpos, hst]) rfl (by simp [hpoint, StartPoint.left])
    | dispatching rest =>
      rcases rest with _ | ⟨_ | _, rest⟩
      · exact hstep .batchEnds { c with point := .pruning } rfl rfl (by simp [startStep, hpoint])
          rfl (by simp [hpoint, StartPoint.left])
      · exact hstep .dispatch { c with point := .readingStop rest } rfl rfl
          (by simp [startStep, hpoint]) rfl (by simp [hpoint, StartPoint.left]; omega)
      · exact hstep .dispatch { c with point := .calling rest } rfl rfl
          (by simp [startStep, hpoint]) rfl (by simp [hpoint, StartPoint.left]; omega)
    | readingStop rest =>
      have hpos := h.ready (by simp [hpoint, StartPoint.due])
      exact hstep .readStopEventfd { c with stopEventfd := 0, point := .dispatching rest } rfl rfl
        (by simp [startStep, hpoint, hpos]) rfl (by simp [hpoint, StartPoint.left])
    | calling rest =>
      exact hstep .handlerReturns { c with point := .dispatching rest } rfl rfl
        (by simp [startStep, hpoint]) rfl (by simp [hpoint, StartPoint.left])
    | pruning =>
      exact hstep .prune { c with point := .testing } rfl rfl (by simp [startStep, hpoint]) rfl
        (by simp [hpoint, StartPoint.left])

/-- Only `start` forgets that a call of `stop` has returned. -/
theorem stopped_step {l : StartStopStep} (hl : startStopStep c l = some t) (hne : l ≠ .start)
    (hst : c.stopped = true) : t.stopped = true := by
  unfold startStopStep at hl
  split_ifs at hl
  · cases l with
    | stop s =>
      obtain ⟨-, rfl⟩ := stopStep_stop.mp hl
      exact hst
    | clearKeepRunning s =>
      obtain ⟨during, -, rfl⟩ := stopStep_clearKeepRunning.mp hl
      exact hst
    | writeStopEventfd s =>
      obtain ⟨during, -, rfl⟩ := stopStep_writeStopEventfd.mp hl
      simp [hst]
    | _ => cases hl
  · cases proceeds_of_startStep hl with
    | start => exact absurd rfl hne
    | _ => exact hst

/-- When a call of `stop` has returned, `start` returns too. -/
theorem Heeding.returns (h : Heeding c) (hst : c.stopped = true) :
    ∃ ls t, (∀ l ∈ ls, l.isOwn = true) ∧ startStopStep.run c ls = some t ∧ t.point = .outside := by
  have hrank : ∀ c : StartStop, ¬ (Heeding c ∧ c.stopped = true → c.point = .outside) →
      ∃ l t, l.isOwn = true ∧ startStopStep c l = some t ∧ t.left < c.left := by
    intro c hnot
    rw [Classical.not_imp] at hnot
    exact hnot.1.1.exists_own_step hnot.1.2 hnot.2
  obtain ⟨ls, t, hls, hrun, hdone⟩ := Machine.exists_run_of_rank StartStop.left hrank c
  have hstep : ∀ c l t, Heeding c ∧ c.stopped = true → l.isOwn = true →
      startStopStep c l = some t → Heeding t ∧ t.stopped = true := by
    rintro c l t ⟨h, hst⟩ hown hl
    refine ⟨h.step hl fun _ _ _ _ _ => (h.stopped hst).2, stopped_step hl ?_ hst⟩
    rintro rfl
    cases hown
  have ht := Machine.run_invariant_along hstep hrun (Machine.along_of_forall_mem fun _ => hls)
    ⟨h, hst⟩
  exact ⟨ls, t, hls, hrun, hdone ht⟩

theorem Heeding.heedsStop (h : Heeding c) : HeedsStop c where
  notified := fun hst hp => (h.waiting hst hp).1
  oneBatch := fun _ => h.batches
  returns := h.returns

end Returns

section Lost

/-- The thread of the loop is in `stop` only where user code runs. -/
theorem loop_stops_in_userCode (hc : startStopStep.Reachable {} c) (hown : c.stops .loop ≠ none) :
    c.point.userCode = true := by
  have hstep : ∀ (c : StartStop) l t, (c.stops .loop ≠ none → c.point.userCode = true) →
      startStopStep c l = some t → t.stops .loop ≠ none → t.point.userCode = true := by
    intro c l t h hl hown
    unfold startStopStep at hl
    split_ifs at hl with hstop hnone
    · -- a call that goes on is that of the loop, or the call of the loop stays as it is
      have hother : ∀ (s : Stopper) call, s ≠ .loop →
          Function.update c.stops s call .loop ≠ none → c.point.userCode = true :=
        fun s call hs hown => h (by rwa [Function.update_of_ne (Ne.symm hs)] at hown)
      cases l with
      | stop s =>
        obtain ⟨⟨-, huser⟩, rfl⟩ := stopStep_stop.mp hl
        by_cases hs : s = .loop
        · exact huser hs
        · exact hother s _ hs hown
      | clearKeepRunning s =>
        obtain ⟨during, hcall, rfl⟩ := stopStep_clearKeepRunning.mp hl
        by_cases hs : s = .loop
        · exact h (by simp [← hs, hcall])
        · exact hother s _ hs hown
      | writeStopEventfd s =>
        obtain ⟨during, hcall, rfl⟩ := stopStep_writeStopEventfd.mp hl
        by_cases hs : s = .loop
        · exact h (by simp [← hs, hcall])
        · exact hother s _ hs hown
      | _ => cases hl
    · have hsame : t.stops = c.stops := by
        cases proceeds_of_startStep hl <;> rfl
      exact absurd (hsame ▸ hnone) hown
  exact hc.invariant hstep (by simp) hown

/-- `start` sets the flag that was cleared too early, and `process_stop` reads the notification. -/
def overwrite (s : Stopper) : List StartStopStep :=
  [.setKeepRunning, .testKeepRunning, .writeStopEventfd s, .epollWait [.stopEventfd], .dispatch,
    .readStopEventfd, .batchEnds, .prune, .testKeepRunning]

/-- A call of `stop` that clears the flag too early may be lost. -/
theorem lost_of_not_clearsAfterSet (hc : startStopStep.Reachable {} c) {l : StartStopStep}
    (hl : startStopStep c l = some t) (hnot : ¬ ClearsAfterSet c l) :
    ∃ ls u, startStopStep.run c (l :: ls) = some u ∧ ¬ HeedsStop u := by
  unfold ClearsAfterSet at hnot
  push Not at hnot
  obtain ⟨s, call, rfl, hs, hduring, hp⟩ := hnot
  obtain ⟨during, hs', rfl⟩ := stopStep_clearKeepRunning.mp hl
  obtain rfl := Option.some.inj (hs.symm.trans hs')
  have hown : c.stops .loop = none := by
    by_contra hown
    have huser := loop_stops_in_userCode hc hown
    simp [hp, StartPoint.userCode] at huser
  have hne : Stopper.loop ≠ s := by
    rintro rfl
    simp [hown] at hs
  refine ⟨overwrite s, { c with
    keepRunning := true
    stopEventfd := 0
    point := .waiting
    stops := Function.update c.stops s none
    stopped := true
    batches := c.batches + 1 }, ?_, fun h => absurd (h.notified rfl rfl) (Nat.lt_irrefl 0)⟩
  refine Machine.run_cons_eq_some.mpr ⟨_, hl, ?_⟩
  have hduring : during = some c.starts := hduring
  simp [overwrite, Machine.run, startStopStep, StartStopStep.isStop, startStep, stopStep, hp, hown,
    hne, hduring]

end Lost

/-- A stop request is heeded in every run in which no call of `stop` clears the flag before the call
of `start` in which it began has set it. Behind any run, a call that does so may be lost. -/
theorem stop_request_heeded_of_clearsAfterSet (ls : List StartStopStep) :
    (startStopStep.Along ClearsAfterSet {} ls → startStopStep.Throughout HeedsStop {} ls) ∧
    ∀ c, startStopStep.run {} ls = some c → ∀ l t, startStopStep c l = some t →
      ¬ ClearsAfterSet c l → ∃ ls' u, startStopStep.run c (l :: ls') = some u ∧ ¬ HeedsStop u := by
  constructor
  · intro hok
    have hstep : ∀ (c : StartStop) l t, Heeding c → ClearsAfterSet c l →
        startStopStep c l = some t → Heeding t := fun c l t h hok hl => h.step hl hok
    exact Machine.throughout_of_along hstep (fun c h => h.heedsStop) hok heeding_init
  · intro c hrun l t hl hnot
    exact lost_of_not_clearsAfterSet ⟨ls, hrun⟩ hl hnot

/-- Another thread calls `stop` while the loop waits. -/
def stopWhileWaiting : List StartStopStep :=
  [.start, .setKeepRunning, .testKeepRunning, .stop (.other 1), .clearKeepRunning (.other 1),
    .writeStopEventfd (.other 1)]

/-- Another thread calls `stop` as soon as `start` is entered. -/
def stopOnEntry : List StartStopStep := [.start, .stop (.other 1)]

theorem stop_request_heeded_while_waiting :
    startStopStep.Throughout HeedsStop {} stopWhileWaiting ∧
    ∃ c, startStopStep.run {} stopOnEntry = some c ∧
      ∃ ls u, startStopStep.run c (.clearKeepRunning (.other 1) :: ls) = some u ∧
        ¬ HeedsStop u := by
  constructor
  · refine (stop_request_heeded_of_clearsAfterSet stopWhileWaiting).1 ?_
    -- the flag is cleared in the fifth step
    refine ⟨nofun, fun c hc => ⟨nofun, fun c' hc' => ⟨nofun, fun c'' hc'' => ⟨nofun,
      fun d hd => ⟨?_, fun _ _ => ⟨nofun, fun _ _ => trivial⟩⟩⟩⟩⟩⟩
    obtain rfl := Option.some.inj hc
    obtain rfl := Option.some.inj hc'
    obtain rfl := Option.some.inj hc''
    obtain rfl := Option.some.inj hd
    intro s call _ _ _ hp
    cases hp
  · refine ⟨_, rfl, (stop_request_heeded_of_clearsAfterSet stopOnEntry).2 _ rfl _ _ rfl ?_⟩
    intro hok
    exact hok (.other 1) ⟨some 1, false⟩ rfl rfl rfl rfl

/-- `start` sets the flag that `stop` cleared, the notification of `stop` is read, and the loop
waits. -/
theorem stop_on_entry_not_heeded :
    ∃ c, startStopStep.run {} (stopOnEntry ++ .clearKeepRunning (.other 1) ::
        overwrite (.other 1)) = some c ∧
      c.stopped = true ∧ c.keepRunning = true ∧ c.point = .waiting ∧ c.stopEventfd = 0 ∧
      ¬ HeedsStop c := by
  refine ⟨_, rfl, rfl, rfl, rfl, rfl, fun h => ?_⟩
  have hpos := h.notified rfl rfl
  exact absurd hpos (Nat.lt_irrefl 0)

end Linuxpp.Ioloop
