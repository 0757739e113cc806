import Mathlib.Order.MinMax
import Linuxpp.Ioloop.Proofs.TimerLoopProofs

/-!
# Proofs: what the timerfds of the loop guarantee

A stored timeout has a timerfd that is armed for it or has an unread expiration, whenever no pass
over its queue is in progress. The handler of a timerfd finds an unread expiration as long as the
timerfd is not armed for a later time while its event is reported and not dispatched.
-/

namespace Linuxpp.Ioloop

variable {κ : Type} {c t : TimerLoop κ} {l : TimerLoopStep κ} {q : TimerQueue}

/-- A front that is covered stays so, and one that changes is covered by the step. -/
theorem FrontCovered.step (h : c.FrontCovered q) (hg : TimersGood c)
    (hl : timerLoopStep c l = some t) (hok : l.SettimeSucceeds) : t.FrontCovered q := by
  obtain ⟨s, hs, rfl⟩ := Option.map_eq_some_iff.mp hl
  have hstep := loopStep_of_move hg hs q
  intro hout deadline' hd
  let o := if (c.arms q l).isSome ∧ l.SettimeSucceeds then l.outcome.getD (c.armedBy q)
    else c.armedBy q
  show (s.timer q).ReadyBy (max (deadline' + o.delay) (o.armed + 1))
  cases hstep with
  | queue hstep hclock hnow hdue =>
    cases hstep with
    | kept harms htimer hfront =>
      obtain ⟨hout', deadline, hd', hle⟩ := hfront hout deadline' hd
      have hready := h hout' deadline hd'
      have htimer : s.timer q = c.timer q := htimer
      have ho : o = c.armedBy q := if_neg (by simp [harms])
      rw [htimer, ho]
      exact hready.mono (max_le_max_right _ (Int.add_le_add_right hle _))
    | armed deadline o' harms ho' htimer hfront =>
      have htimer : s.timer q = ((c.timer q).setOneshot deadline o').2 := htimer
      obtain rfl : deadline = deadline' := Option.some.inj ((hfront hout).symm.trans hd)
      have ho : o = o' := by simp [o, harms, hok, ho']
      rw [htimer, ho]
      exact MonotonicTimerfd.readyBy_setOneshot (hok o' ho') deadline
  | elapsed harms hle hview =>
    have hpoint : s.passPoint q = c.passPoint q := congrArg QueueView.point hview
    have htimer : s.timer q = (c.timer q).elapse s.clock := congrArg QueueView.timer hview
    have hfront : s.frontDeadline q = c.frontDeadline q := congrArg QueueView.front hview
    have hready := h (hpoint.symm.trans hout) deadline' (hfront ▸ hd)
    have ho : o = c.armedBy q := if_neg (by simp [harms])
    rw [htimer, ho]
    exact hready.elapse _
  | begun rest harms hin => exact absurd hout hin

theorem timersGood_init (now : TimeType) : TimersGood ({ clock := now } : TimerLoop κ) :=
  ⟨good_init, rfl, rfl, List.Pairwise.nil⟩

theorem TimersGood.step (hg : TimersGood c) (hl : timerLoopStep c l = some t) : TimersGood t := by
  obtain ⟨s, hs, rfl⟩ := Option.map_eq_some_iff.mp hl
  have hgood := hg.move hs
  exact ⟨hgood.timeouts, hgood.periodicTimeouts⟩

/-- **A stored timeout always has an armed timer.** In every run in which `timerfd_settime`
succeeds, while no pass over a queue is in progress and the queue has a front entry, its timerfd has
an unread expiration or is armed: for no later than one nanosecond after it was armed, or than the
front deadline and what passed between the reading of the clock for that call and the arming. -/
theorem stored_timeout_has_armed_timer {now : TimeType} {ls : List (TimerLoopStep κ)}
    (hrun : timerLoopStep.run { clock := now } ls = some c) (hok : ∀ l ∈ ls, l.SettimeSucceeds)
    (q : TimerQueue) : c.FrontCovered q := by
  have hstep : ∀ (s : TimerLoop κ) l t, TimersGood s ∧ s.FrontCovered q → l.SettimeSucceeds →
      timerLoopStep s l = some t → TimersGood t ∧ t.FrontCovered q :=
    fun _ _ _ h hok hl => ⟨h.1.step hl, FrontCovered.step h.2 h.1 hl hok⟩
  have halong : timerLoopStep.Along (fun _ l => l.SettimeSucceeds) ({ clock := now }) ls :=
    Machine.along_of_forall_mem fun _ => hok
  have hinit : ({ clock := now } : TimerLoop κ).FrontCovered q := by
    intro _ deadline hd
    cases q <;> simp [TimerLoop.frontDeadline] at hd
  exact (Machine.run_invariant_along hstep hrun halong ⟨timersGood_init now, hinit⟩).2

/-- A timeout for 20 and one for 10 are added, and the second is removed. -/
def addTwoRemoveFront : List (TimerLoopStep Unit) :=
  [.timeouts (.addTimeout 20 () { now := 0 }), .tick 1, .timeouts (.addTimeout 10 () { now := 1 }),
    .timeouts (.removeTimeout ⟨1⟩)]

theorem stored_timeout_has_armed_timer_twenty : ∃ c : TimerLoop Unit,
    timerLoopStep.run { clock := 0 } addTwoRemoveFront = some c ∧
    c.frontDeadline .timeouts = some 20 ∧ c.FrontCovered .timeouts :=
  ⟨_, rfl, rfl, stored_timeout_has_armed_timer
    (show timerLoopStep.run { clock := 0 } addTwoRemoveFront = some _ from rfl) (by decide)
    .timeouts⟩

/-- A timeout for 10 is added. The clock is read at 0, and the timer is armed at 5. -/
def addThenArm : List (TimerLoopStep Unit) :=
  [.tick 5, .timeouts (.addTimeout 10 () { now := 0, armed := 5 })]

/-- The timer expires at 15, five nanoseconds behind the deadline. -/
theorem timer_expires_behind_deadline : ∃ c : TimerLoop Unit,
    timerLoopStep.run { clock := 0 } addThenArm = some c ∧
    (∀ l ∈ addThenArm, l.SettimeSucceeds) ∧ c.passPoint .timeouts = .outside ∧
    c.frontDeadline .timeouts = some 10 ∧ (c.armedBy .timeouts).armed = 5 ∧
    c.timer .timeouts = { expiry := some 15, unread := false } ∧
    ¬ (c.timer .timeouts).ReadyBy (max 10 (5 + 1)) := by
  refine ⟨_, rfl, by decide, rfl, rfl, rfl, rfl, ?_⟩
  rintro (hunread | ⟨expiry, hexpiry, hle⟩)
  · cases hunread
  · obtain rfl : 15 = expiry := Option.some.inj hexpiry
    exact absurd hle (by decide)

/-- The timerfds that are still to be read have an unread expiration, or expire right away. -/
structure DueReady (c : TimerLoop κ) : Prop where
  good : TimersGood c
  once : ∀ q, c.point.batch.count (.timerfd q) ≤ 1
  ready : ∀ q, .timerfd q ∈ c.point.due → (c.timer q).ReadyBy (c.clock + 1)

theorem dueReady_init (now : TimeType) : DueReady ({ clock := now } : TimerLoop κ) where
  good := timersGood_init now
  once := by simp [LoopPoint.batch, LoopPoint.rest]
  ready := by simp [LoopPoint.due, LoopPoint.rest]

theorem DueReady.readsAtOnce (h : DueReady c) : ReadsAtOnce c := by
  intro q rest hp
  refine h.ready q ?_
  rw [hp]
  exact List.mem_cons_self

/-- While the handler of a timerfd runs behind its `read`, its event is not in the rest of the
batch. -/
theorem DueReady.not_due_of_passing (h : DueReady c) (hpass : c.passing q = true) :
    .timerfd q ∉ c.point.due := by
  intro hdue
  have honce := h.once q
  unfold TimerLoop.passing at hpass
  cases hp : c.point with
  | passing q' rest =>
    rw [hp] at hpass honce hdue
    obtain rfl : q' = q := of_decide_eq_true hpass
    have hpos := List.count_pos_iff.mpr hdue
    simp only [LoopPoint.batch, LoopPoint.due, LoopPoint.rest, List.count_cons_self] at honce hpos
    omega
  | _ => simp [hp] at hpass

/-- A timerfd that is ready and still to be read stays ready, if the step adds no later timeout for
it. -/
theorem DueReady.ready_of_loopStep (h : DueReady c) (hstep : LoopStep c l q t)
    (hok : AddsForNoneReported c l) (hdue : .timerfd q ∈ c.point.due)
    (hdue' : .timerfd q ∈ t.point.due) : (t.timer q).ReadyBy (t.clock + 1) := by
  have hready := h.ready q hdue
  cases hstep with
  | queue hstep hclock hnow hby =>
    rw [hclock]
    cases hstep with
    | kept harms htimer hfront =>
      have htimer : t.timer q = c.timer q := htimer
      rwa [htimer]
    | armed deadline o harms ho htimer hfront =>
      have htimer : t.timer q = ((c.timer q).setOneshot deadline o).2 := htimer
      obtain ⟨hsame, hby⟩ := hby deadline harms
      have hadd := hby.resolve_right fun hpass => h.not_due_of_passing hpass hdue
      have hpast : deadline ≤ o.now := hok hadd q (hsame ▸ hdue) deadline harms o ho
      rw [htimer]
      cases he : o.errno with
      | none =>
        rw [← (SettimeOutcome.madeAt_iff.mp (hnow o ho)).2]
        exact MonotonicTimerfd.readyBy_setOneshot_of_past he hpast
      | some e => rwa [MonotonicTimerfd.setOneshot_of_error he]
  | elapsed harms hle hview =>
    have htimer : t.timer q = (c.timer q).elapse t.clock := congrArg QueueView.timer hview
    rw [htimer]
    exact (hready.elapse _).mono (Int.add_le_add_right hle 1)
  | begun rest harms hin hp hp' =>
    -- the event was reported once, and the handler has read the timerfd for it
    have honce := h.once q
    rw [hp'] at hdue'
    rw [hp] at honce
    have hpos := List.count_pos_iff.mpr hdue'
    simp only [LoopPoint.batch, LoopPoint.due, LoopPoint.rest, List.count_cons_self] at honce hpos
    omega

theorem DueReady.step (h : DueReady c) (hl : timerLoopStep c l = some t)
    (hok : AddsForNoneReported c l) : DueReady t := by
  have hgood := h.good.step hl
  obtain ⟨s, hs, rfl⟩ := Option.map_eq_some_iff.mp hl
  cases dueStep_of_move hs with
  | fewer hnone =>
    refine ⟨hgood, fun q => (hnone.batch.count_le _).trans (h.once q), fun q hq => ?_⟩
    have hready := h.ready_of_loopStep (loopStep_of_move h.good hs q) hok (hnone.due.subset hq) hq
    cases q <;> exact hready
  | reported events hpoint htimer hreports =>
    have hmem : ∀ q, q ∈ [TimerQueue.timeouts, .periodicTimeouts] := by
      intro q
      cases q <;> decide
    refine ⟨hgood, fun q => ?_, fun q hq => Or.inl ?_⟩
    · show s.point.batch.count _ ≤ 1
      rw [hpoint]
      exact (hreports q (hmem q)).1
    · have hq : .timerfd q ∈ s.point.due := hq
      rw [hpoint] at hq
      show (s.timer q).unread = true
      rw [htimer q]
      exact (hreports q (hmem q)).2 hq

/-- **The handlers of the timerfds read at once as long as no later timeout is added behind the
report.** In every run in which no addition arms a timerfd for a deadline after the clock value that
it reads while an event of that timerfd is reported and not dispatched, every `read` finds an unread
expiration, or one that comes a nanosecond after a deadline that had passed. -/
theorem timerfds_read_at_once (now : TimeType) (ls : List (TimerLoopStep κ))
    (hok : timerLoopStep.Along AddsForNoneReported { clock := now } ls) :
    timerLoopStep.Throughout ReadsAtOnce { clock := now } ls :=
  Machine.throughout_of_along (fun _ _ _ h hok hl => h.step hl hok) (fun _ h => h.readsAtOnce) hok
    (dueReady_init now)

/-- A timeout expires, its event is reported and its handler called. -/
def expireAndDispatch : List (TimerLoopStep Unit) :=
  [.timeouts (.addTimeout 10 () { now := 0 }), .tick 10, .epollWait [.timerfd .timeouts], .dispatch]

theorem timerfds_read_at_once_ten :
    timerLoopStep.Throughout ReadsAtOnce ({ clock := 0 } : TimerLoop Unit) expireAndDispatch := by
  refine timerfds_read_at_once 0 expireAndDispatch ⟨?_, fun t _ => ?_⟩
  · intro _ q hq
    exact absurd hq List.not_mem_nil
  · refine Machine.along_of_forall_mem fun s l hl hadd => ?_
    have hnone : ∀ l ∈ expireAndDispatch.tail, l.isAdd = false := by simp [expireAndDispatch,
      TimerLoopStep.isAdd]
    exact absurd (hnone l hl) (by simp [hadd])

/-- A timeout expires, and its event is reported behind another one. The handler of the other event
removes the timeout and adds one for a later time. -/
def replaceReported : List (TimerLoopStep Unit) :=
  [.timeouts (.addTimeout 10 () { now := 0 }), .tick 10, .epollWait [.other, .timerfd .timeouts],
    .dispatch, .timeouts (.removeTimeout ⟨0⟩), .timeouts (.addTimeout 1000 () { now := 10 }),
    .handlerReturns, .dispatch]

/-- The `read` of `process_timeouts` waits from 10 to 1000. -/
theorem timerfd_read_waits : ∃ c : TimerLoop Unit,
    timerLoopStep.run { clock := 0 } replaceReported = some c ∧ c.point = .reading .timeouts [] ∧
    c.clock = 10 ∧ c.timer .timeouts = { expiry := some 1000, unread := false } ∧
    ¬ ReadsAtOnce c ∧ timerLoopStep c .read = none := by
  refine ⟨_, rfl, rfl, rfl, rfl, fun h => ?_, rfl⟩
  rcases h .timeouts [] rfl with hunread | ⟨expiry, he, hle⟩
  · exact absurd hunread (by decide)
  · obtain rfl : 1000 = expiry := Option.some.inj he
    exact absurd hle (by decide)

end Linuxpp.Ioloop
