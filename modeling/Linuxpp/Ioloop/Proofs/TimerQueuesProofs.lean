import Linuxpp.Ioloop.Proofs.PeriodicTimeoutsProofs
import Linuxpp.Ioloop.Proofs.TimeoutsProofs
import Linuxpp.Ioloop.TimerLoop

/-!
# Proofs: what a step of a queue does to its timerfd

The loop sees of a queue where its pass is, its timerfd and its front deadline. A step of the queue
either leaves the timerfd as it is and the front no earlier, or arms the timerfd for the front.
-/

namespace Linuxpp

@[simp] theorem SettimeOutcome.madeAt_now (clock : TimeType) :
    SettimeOutcome.madeAt { now := clock } clock = true := by
  simp [madeAt]

theorem SettimeOutcome.madeAt_iff {o : SettimeOutcome} {clock : TimeType} :
    o.madeAt clock = true ↔ o.now ≤ o.armed ∧ o.armed = clock := by
  unfold madeAt
  rw [Bool.and_eq_true, decide_eq_true_eq, decide_eq_true_eq]

namespace MonotonicTimerfd

variable {t : MonotonicTimerfd} {o : SettimeOutcome}

/-- A positive delay does not disarm the timer. -/
theorem oneshotSpec_ne_zero {time : Int} (h : 0 < time) : oneshotSpec time ≠ ⟨0, 0⟩ := by
  intro heq
  obtain ⟨hsec, hnsec⟩ := Itimerspec.mk.inj heq
  rw [if_neg h.ne', hsec] at hnsec
  omega

theorem oneshotSpec_total {time : Int} (h : 0 < time) :
    (oneshotSpec time).tvSec * 1000000000 + (oneshotSpec time).tvNsec = time := by
  simp only [oneshotSpec, if_neg h.ne']
  omega

theorem setOneshotDelay_of_ok (ho : o.errno = none) {time : Int} (h : 0 < time) :
    (t.setOneshotDelay time o).2 = { expiry := some (o.armed + time), unread := false } := by
  simp only [setOneshotDelay, ho, settime, if_neg (oneshotSpec_ne_zero h), Int.add_assoc,
    oneshotSpec_total h]

/-- When a timer expires that is armed at `armed` for the time from `now` to `deadline`. -/
theorem add_delay {now armed deadline : Int} :
    armed + (deadline - now) = deadline + (armed - now) := by
  omega

theorem armed_lt_iff {now armed deadline : Int} :
    armed < deadline + (armed - now) ↔ now < deadline := by
  omega

/-- `set_oneshot` arms the timer for the deadline, and that later by what has passed since the clock
was read; or for one nanosecond later if the deadline has come. -/
theorem setOneshot_of_ok (ho : o.errno = none) (deadline : TimeType) :
    (t.setOneshot deadline o).2 =
      { expiry := some (max (deadline + o.delay) (o.armed + 1)), unread := false } := by
  unfold setOneshot SettimeOutcome.delay
  split_ifs with hlater
  · have hle : o.armed + 1 ≤ deadline + (o.armed - o.now) :=
      Int.add_one_le_of_lt (armed_lt_iff.mpr hlater)
    rw [setOneshotDelay_of_ok ho (Int.sub_pos_of_lt hlater), max_eq_left hle, add_delay]
  · have hle : deadline + (o.armed - o.now) ≤ o.armed + 1 :=
      (not_lt.mp fun hlt => hlater (armed_lt_iff.mp hlt)).trans (Int.le_add_one le_rfl)
    rw [setOneshotDelay_of_ok ho Int.one_pos, max_eq_right hle]

theorem setOneshot_of_error {e : Errno} (ho : o.errno = some e) (deadline : TimeType) :
    (t.setOneshot deadline o).2 = t := by
  unfold setOneshot setOneshotDelay
  split_ifs <;> simp only [ho]

theorem ReadyBy.mono {limit limit' : TimeType} (h : t.ReadyBy limit) (hle : limit ≤ limit') :
    t.ReadyBy limit' :=
  h.imp_right fun ⟨expiry, he, hlimit⟩ => ⟨expiry, he, hlimit.trans hle⟩

theorem ReadyBy.elapse {limit : TimeType} (h : t.ReadyBy limit) (now : TimeType) :
    (t.elapse now).ReadyBy limit := by
  unfold MonotonicTimerfd.elapse
  split_ifs
  · exact Or.inl rfl
  · exact h

theorem readyBy_setOneshot (ho : o.errno = none) (deadline : TimeType) :
    (t.setOneshot deadline o).2.ReadyBy (max (deadline + o.delay) (o.armed + 1)) := by
  rw [setOneshot_of_ok ho]
  exact Or.inr ⟨_, rfl, le_rfl⟩

/-- A deadline that had come when the clock was read is armed to expire right away. -/
theorem readyBy_setOneshot_of_past (ho : o.errno = none) {deadline : TimeType}
    (hpast : deadline ≤ o.now) : (t.setOneshot deadline o).2.ReadyBy (o.armed + 1) := by
  refine (readyBy_setOneshot ho deadline).mono (max_le ?_ le_rfl)
  have hle : deadline + o.delay ≤ o.armed := not_lt.mp fun hlt =>
    not_lt.mpr hpast (armed_lt_iff.mp hlt)
  exact hle.trans (Int.le_add_one le_rfl)

end MonotonicTimerfd

namespace Ioloop

open SortedInsert SortOrder

variable {κ : Type}

/-- What the loop sees of a queue: where its pass is, its timerfd and its front deadline. -/
structure QueueView where
  point : PassPoint
  timer : MonotonicTimerfd
  front : Option TimeType

/-- A step of a queue, other than the beginning of its pass, as the loop sees it. -/
inductive QueueStep (v : QueueView) (arms : Option TimeType) (outcome : Option SettimeOutcome)
    (v' : QueueView) : Prop
  | kept (harms : arms = none) (htimer : v'.timer = v.timer) (hfront : v'.point = .outside →
      ∀ deadline' ∈ v'.front, v.point = .outside ∧ ∃ deadline ∈ v.front, deadline ≤ deadline')
  | armed (deadline : TimeType) (o : SettimeOutcome) (harms : arms = some deadline)
      (ho : outcome = some o) (htimer : v'.timer = (v.timer.setOneshot deadline o).2)
      (hfront : v'.point = .outside → v'.front = some deadline)

section Timeouts

/-- `timeouts_` as the loop sees it. -/
def TimeoutLoop.view (c : TimeoutLoop κ) : QueueView where
  point := c.point
  timer := c.members.timeoutTimerfd
  front := c.members.timeouts.head?.map TimeoutCallback.timeout

variable {c t : TimeoutLoop κ}

/-- A timeout before all others becomes the front, and the timer is armed for it. -/
theorem Timeouts.addTimeout_early {s : Timeouts κ} (hproc : s.processingTimeouts = false)
    {timeout : TimeType} (hearly : ∀ front ∈ s.timeouts.head?, timeout < front.timeout)
    (callback : κ) (o : SettimeOutcome) : (s.addTimeout timeout callback o).2 =
      { s with
        timeouts := s.newEntry timeout callback :: s.timeouts
        timeoutTimerfd := (s.timeoutTimerfd.setOneshot timeout o).2
        nextId := s.nextId + 1 } := by
  obtain ⟨timeouts, processing, pending, timer, nextId⟩ := s
  obtain rfl : processing = false := hproc
  cases timeouts with
  | nil => rfl
  | cons front rest =>
    have hlt : timeout < front.timeout := hearly front rfl
    have hfront : insertLower TimeoutCallback.timeout (front :: rest)
        (newEntry ⟨front :: rest, false, pending, timer, nextId⟩ timeout callback) =
        newEntry ⟨front :: rest, false, pending, timer, nextId⟩ timeout callback :: front :: rest :=
      insertLower_cons_of_le hlt.le rest
    simp only [addTimeout, insertTimeout, armThenReturn, hfront, gt_iff_lt, hlt, if_true,
      Bool.false_eq_true, if_false]

/-- A timeout that is not before all others leaves the timer and the front deadline as they are. -/
theorem Timeouts.addTimeout_late {s : Timeouts κ} (hproc : s.processingTimeouts = false)
    {front : TimeoutCallback κ} (hfront : s.timeouts.head? = some front) {timeout : TimeType}
    (hlate : front.timeout ≤ timeout) (callback : κ) (o : SettimeOutcome) :
    (s.addTimeout timeout callback o).2.timeoutTimerfd = s.timeoutTimerfd ∧
    (s.addTimeout timeout callback o).2.timeouts.head?.map TimeoutCallback.timeout =
      some front.timeout := by
  obtain ⟨timeouts, processing, pending, timer, nextId⟩ := s
  obtain rfl : processing = false := hproc
  cases timeouts with
  | nil => simp at hfront
  | cons front' rest =>
    obtain rfl : front' = front := Option.some.inj hfront
    simp only [addTimeout, insertTimeout, gt_iff_lt, not_lt.mpr hlate, if_false, Bool.false_eq_true,
      true_and]
    exact head?_map_insertLower_cons hlate rest

theorem Timeouts.endPass_timer (s : Timeouts κ) (p : Pass) (o : SettimeOutcome) :
    (s.endPass p o).2.timeoutTimerfd =
      match (s.endPass p o).2.timeouts.head?.map TimeoutCallback.timeout with
      | none => s.timeoutTimerfd
      | some deadline => (s.timeoutTimerfd.setOneshot deadline o).2 := by
  cases hm : s.merged p with
  | nil =>
    unfold merged at hm
    simp only [endPass, hm]
    rfl
  | cons front rest =>
    unfold merged at hm
    simp only [endPass, hm]
    rfl

theorem TimeoutLoop.arms_addTimeout_of_processing (hproc : c.members.processingTimeouts = true)
    (timeout : TimeType) (callback : κ) (o : SettimeOutcome) :
    c.arms (.addTimeout timeout callback o) = none := by
  simp [arms, hproc]

theorem TimeoutLoop.arms_addTimeout (hproc : c.members.processingTimeouts = false)
    (timeout : TimeType) (callback : κ) (o : SettimeOutcome) :
    c.arms (.addTimeout timeout callback o) =
      if ∀ front ∈ c.members.timeouts.head?, timeout < front.timeout then some timeout
      else none := by
  cases hfront : c.members.timeouts.head? <;> simp [arms, hproc, hfront]

/-- Adding a timeout arms the timer exactly if the timeout is before all others. -/
theorem addTimeout_view (hpoint : AtPoint c.members c.point) (huser : c.point.userCode = true)
    (timeout : TimeType) (callback : κ) (o : SettimeOutcome) (history : List (TimeoutEvent κ)) :
    QueueStep c.view (c.arms (.addTimeout timeout callback o)) (some o)
      (TimeoutLoop.view { c with
        members := (c.members.addTimeout timeout callback o).2, history := history }) := by
  rcases PassPoint.userCode_iff.mp huser with hp | ⟨p, hp⟩
  · rw [hp] at hpoint
    rw [TimeoutLoop.arms_addTimeout hpoint.1]
    by_cases hearly : ∀ front ∈ c.members.timeouts.head?, timeout < front.timeout
    · have hadd := Timeouts.addTimeout_early hpoint.1 hearly callback o
      refine .armed timeout o (if_pos hearly) rfl ?_ fun _ => ?_
      · rw [hadd]
        rfl
      · rw [hadd]
        rfl
    · rw [if_neg hearly]
      push Not at hearly
      obtain ⟨front, hfront, hlate⟩ := hearly
      obtain ⟨htimer, hsame⟩ := Timeouts.addTimeout_late hpoint.1 hfront hlate callback o
      refine .kept rfl htimer fun _ deadline' hd => ⟨hp, front.timeout, ?_, ?_⟩
      · exact Option.mem_map_of_mem TimeoutCallback.timeout hfront
      · exact (Option.some.inj (hsame.symm.trans hd)).le
  · rw [hp] at hpoint
    rw [TimeoutLoop.arms_addTimeout_of_processing hpoint.1]
    refine .kept rfl ?_ fun hout => ?_
    · simp [TimeoutLoop.view, Timeouts.addTimeout, hpoint.1]
    · exact absurd (hp.symm.trans hout) (by simp)

theorem timeoutStep_view (hg : Good c) {l : TimeoutStep κ} (hl : timeoutStep c l = some t)
    (hne : ∀ now, l ≠ .processTimeouts now) : QueueStep c.view (c.arms l) l.outcome t.view := by
  cases l with
  | addTimeout timeout callback o =>
    obtain ⟨huser, rfl⟩ := timeoutStep_addTimeout.mp hl
    exact addTimeout_view hg.point huser timeout callback o _
  | removeTimeout handle =>
    obtain ⟨-, rfl⟩ := timeoutStep_removeTimeout.mp hl
    have hremove := Timeouts.removeTimeout_members hg.distinct handle
    refine .kept rfl ?_ fun hout deadline' hd => ⟨hout, ?_⟩
    · rw [hremove]
      rfl
    · have hpoint := hg.point
      have hp : c.point = .outside := hout
      rw [hp] at hpoint
      rw [hremove, hpoint.1] at hd
      exact hg.sorted.front_le_of_subset (List.filter_subset_self _) deadline' hd
  | timeoutHandle =>
    obtain ⟨-, rfl⟩ := timeoutStep_timeoutHandle.mp hl
    exact .kept rfl rfl fun hout deadline hd => ⟨hout, deadline, hd, le_rfl⟩
  | processTimeouts now => exact absurd rfl (hne now)
  | iterate =>
    obtain ⟨p, hp, rfl⟩ := timeoutStep_iterate.mp hl
    have hit := iterates c p
    generalize iteration c p = t at hit ⊢
    cases hit <;> exact .kept rfl rfl fun hout => by simp [TimeoutLoop.view] at hout
  | callbackReturns =>
    obtain ⟨p, hp, rfl⟩ := timeoutStep_callbackReturns.mp hl
    exact .kept rfl rfl fun hout => by simp [TimeoutLoop.view] at hout
  | finish o =>
    obtain ⟨p, hp, rfl⟩ := timeoutStep_finish.mp hl
    have htimer := c.members.endPass_timer p o
    have harms : c.arms (.finish o) =
        (c.members.endPass p o).2.timeouts.head?.map TimeoutCallback.timeout := by
      simp only [TimeoutLoop.arms, hp]
    cases hfront : (c.members.endPass p o).2.timeouts.head?.map TimeoutCallback.timeout with
    | none =>
      rw [hfront] at htimer harms
      exact .kept harms htimer fun _ deadline' hd => absurd (hfront.symm.trans hd) (by simp)
    | some deadline =>
      rw [hfront] at htimer harms
      exact .armed deadline o harms rfl htimer fun _ => hfront

end Timeouts

section PeriodicTimeouts

/-- `periodic_timeouts_` as the loop sees it. -/
def PeriodicTimeoutLoop.view (c : PeriodicTimeoutLoop κ) : QueueView where
  point := c.point
  timer := c.members.periodicTimeoutTimerfd
  front := c.members.periodicTimeouts.head?.map PeriodicTimeoutCallback.timeout

/-- The members at a point of the thread. Nothing is said of the vectors during a pass. -/
def PeriodicAtPoint (s : PeriodicTimeouts κ) : PassPoint → Prop
  | .outside => s.processingPeriodicTimeouts = false ∧ s.pendingPeriodicTimeoutAdditions = [] ∧
      SortedBy PeriodicTimeoutCallback.timeout s.periodicTimeouts
  | .loop p | .callback p | .done p => s.processingPeriodicTimeouts = true ∧ p.sentry = false

variable {c t : PeriodicTimeoutLoop κ}

/-- `remove_timeout` changes `periodic_timeouts_` only, and outside of a pass it only erases. -/
theorem PeriodicTimeouts.removeTimeout_sublist {s s' : PeriodicTimeouts κ}
    {handle : PeriodicTimeoutHandle} (h : s.removeTimeout handle = some s') :
    ∃ timeouts, s' = { s with periodicTimeouts := timeouts } ∧
      (s.processingPeriodicTimeouts = false → timeouts.Sublist s.periodicTimeouts) := by
  unfold removeTimeout at h
  split_ifs at h with hany hproc
  · exact ⟨_, (Option.some.inj h).symm, fun hnot => by simp [hproc] at hnot⟩
  · exact ⟨_, (Option.some.inj h).symm, fun _ => List.eraseP_sublist⟩
  · exact ⟨_, (Option.some.inj h).symm, fun _ => List.Sublist.refl _⟩

theorem PeriodicAtPoint.step (h : PeriodicAtPoint c.members c.point) {l : PeriodicTimeoutStep κ}
    (hl : periodicTimeoutStep c l = some t) : PeriodicAtPoint t.members t.point := by
  cases l with
  | addPeriodicTimeout period callback now o =>
    obtain ⟨huser, rfl⟩ := periodicTimeoutStep_addPeriodicTimeout.mp hl
    obtain ⟨timer, hadd⟩ := c.members.addPeriodicTimeout_members period callback now o
    rcases PassPoint.userCode_iff.mp huser with hp | ⟨p, hp⟩
    · simp only [hp] at h ⊢
      obtain ⟨hproc, hpend, hsorted⟩ := h
      rw [hadd, hproc]
      exact ⟨rfl, hpend, hsorted.insertLower _⟩
    · simp only [hp] at h ⊢
      rw [hadd]
      exact h
  | removeTimeout handle =>
    obtain ⟨⟨huser, -⟩, members, hremove, rfl⟩ := periodicTimeoutStep_removeTimeout.mp hl
    obtain ⟨timeouts, rfl, hsub⟩ := PeriodicTimeouts.removeTimeout_sublist hremove
    rcases PassPoint.userCode_iff.mp huser with hp | ⟨p, hp⟩
    · simp only [hp] at h ⊢
      obtain ⟨hproc, hpend, hsorted⟩ := h
      exact ⟨hproc, hpend, hsorted.sublist (hsub hproc)⟩
    · simp only [hp] at h ⊢
      exact h
  | periodicTimeoutHandle =>
    obtain ⟨-, rfl⟩ := periodicTimeoutStep_periodicTimeoutHandle.mp hl
    simp only
    cases hp : c.point <;> rw [hp] at h <;> exact h
  | processPeriodicTimeouts now =>
    obtain ⟨hp, rfl⟩ := periodicTimeoutStep_processPeriodicTimeouts.mp hl
    rw [hp] at h
    exact ⟨rfl, h.1⟩
  | iterate =>
    obtain ⟨p, hp, rfl⟩ := periodicTimeoutStep_iterate.mp hl
    rw [hp] at h
    have hit := periodicIterates c p
    generalize periodicIteration c p = t at hit ⊢
    cases hit <;> exact h
  | callbackReturns =>
    obtain ⟨p, hp, rfl⟩ := periodicTimeoutStep_callbackReturns.mp hl
    rw [hp] at h
    exact h
  | finish now order o =>
    obtain ⟨p, hp, horder, rfl⟩ := periodicTimeoutStep_finish.mp hl
    obtain ⟨timer, hend⟩ := c.members.endPass_members p now order o
    rw [hp] at h
    rw [hend]
    exact ⟨h.2, rfl, PeriodicTimeouts.sortedBy_merged horder⟩

/-- A timeout before all others becomes the front, and the timer is armed for it. -/
theorem PeriodicTimeouts.addPeriodicTimeout_early {s : PeriodicTimeouts κ}
    (hproc : s.processingPeriodicTimeouts = false) {period : Int} {now : TimeType}
    (hearly : ∀ front ∈ s.periodicTimeouts.head?, now + period < front.timeout) (callback : κ)
    (o : SettimeOutcome) : (s.addPeriodicTimeout period callback now o).2 =
      { s with
        periodicTimeouts := s.newEntry period callback now :: s.periodicTimeouts
        periodicTimeoutTimerfd := (s.periodicTimeoutTimerfd.setOneshot (now + period) o).2
        nextId := s.nextId + 1 } := by
  obtain ⟨timeouts, processing, pending, timer, nextId⟩ := s
  obtain rfl : processing = false := hproc
  cases timeouts with
  | nil => rfl
  | cons front rest =>
    have hlt : now + period < front.timeout := hearly front rfl
    have hfront : insertLower PeriodicTimeoutCallback.timeout (front :: rest)
        (newEntry ⟨front :: rest, false, pending, timer, nextId⟩ period callback now) =
        newEntry ⟨front :: rest, false, pending, timer, nextId⟩ period callback now ::
          front :: rest :=
      insertLower_cons_of_le hlt.le rest
    have hentry : (newEntry ⟨front :: rest, false, pending, timer, nextId⟩ period callback
        now).timeout < front.timeout := hlt
    simp only [addPeriodicTimeout, insertPeriodicTimeout, hfront, List.head?_cons, Option.any_some,
      hentry, decide_true, if_true, Bool.false_eq_true, if_false, armFrontThenReturn]
    rfl

/-- A timeout that is not before all others leaves the timer and the front deadline as they are. -/
theorem PeriodicTimeouts.addPeriodicTimeout_late {s : PeriodicTimeouts κ}
    (hproc : s.processingPeriodicTimeouts = false) {front : PeriodicTimeoutCallback κ}
    (hfront : s.periodicTimeouts.head? = some front) {period : Int} {now : TimeType}
    (hlate : front.timeout ≤ now + period) (callback : κ) (o : SettimeOutcome) :
    (s.addPeriodicTimeout period callback now o).2.periodicTimeoutTimerfd =
      s.periodicTimeoutTimerfd ∧
    (s.addPeriodicTimeout period callback now o).2.periodicTimeouts.head?.map
      PeriodicTimeoutCallback.timeout = some front.timeout := by
  obtain ⟨timeouts, processing, pending, timer, nextId⟩ := s
  obtain rfl : processing = false := hproc
  cases timeouts with
  | nil => simp at hfront
  | cons front' rest =>
    obtain rfl : front' = front := Option.some.inj hfront
    have hsame : (insertLower PeriodicTimeoutCallback.timeout (front' :: rest)
        (newEntry ⟨front' :: rest, false, pending, timer, nextId⟩ period callback now)).head?.map
        PeriodicTimeoutCallback.timeout = some front'.timeout :=
      head?_map_insertLower_cons hlate rest
    have hnot : (insertLower PeriodicTimeoutCallback.timeout (front' :: rest)
        (newEntry ⟨front' :: rest, false, pending, timer, nextId⟩ period callback now)).head?.any
        (fun e => e.timeout < front'.timeout) = false :=
      (head?_any_lt_insertLower_cons front' _ rest).trans (decide_eq_false (not_lt.mpr hlate))
    simp only [addPeriodicTimeout, insertPeriodicTimeout, hnot, Bool.false_eq_true, if_false,
      true_and]
    exact hsame

theorem PeriodicTimeouts.armFrontThenReturn_timer {ρ : Type} (s : PeriodicTimeouts κ)
    (o : SettimeOutcome) (r : ρ) : (s.armFrontThenReturn o r).2.periodicTimeoutTimerfd =
      match s.periodicTimeouts.head?.map PeriodicTimeoutCallback.timeout with
      | none => s.periodicTimeoutTimerfd
      | some deadline => (s.periodicTimeoutTimerfd.setOneshot deadline o).2 := by
  unfold armFrontThenReturn
  cases s.periodicTimeouts <;> rfl

theorem PeriodicTimeoutLoop.arms_addPeriodicTimeout_of_processing
    (hproc : c.members.processingPeriodicTimeouts = true) (period : Int) (callback : κ)
    (now : TimeType) (o : SettimeOutcome) :
    c.arms (.addPeriodicTimeout period callback now o) = none := by
  simp [arms, hproc]

theorem PeriodicTimeoutLoop.arms_addPeriodicTimeout
    (hproc : c.members.processingPeriodicTimeouts = false) (period : Int) (callback : κ)
    (now : TimeType) (o : SettimeOutcome) :
    c.arms (.addPeriodicTimeout period callback now o) =
      if ∀ front ∈ c.members.periodicTimeouts.head?, now + period < front.timeout then
        some (now + period)
      else none := by
  cases hfront : c.members.periodicTimeouts.head? <;> simp [arms, hproc, hfront]

/-- Adding a timeout arms the timer exactly if its deadline is before all others. -/
theorem addPeriodicTimeout_view (hpoint : PeriodicAtPoint c.members c.point)
    (huser : c.point.userCode = true) (period : Int) (callback : κ) (now : TimeType)
    (o : SettimeOutcome) (history : List (PeriodicTimeoutEvent κ)) :
    QueueStep c.view (c.arms (.addPeriodicTimeout period callback now o)) (some o)
      (PeriodicTimeoutLoop.view { c with
        members := (c.members.addPeriodicTimeout period callback now o).2
        history := history }) := by
  rcases PassPoint.userCode_iff.mp huser with hp | ⟨p, hp⟩
  · rw [hp] at hpoint
    rw [PeriodicTimeoutLoop.arms_addPeriodicTimeout hpoint.1]
    by_cases hearly : ∀ front ∈ c.members.periodicTimeouts.head?, now + period < front.timeout
    · have hadd := PeriodicTimeouts.addPeriodicTimeout_early hpoint.1 hearly callback o
      refine .armed (now + period) o (if_pos hearly) rfl ?_ fun _ => ?_
      · rw [hadd]
        rfl
      · rw [hadd]
        rfl
    · rw [if_neg hearly]
      push Not at hearly
      obtain ⟨front, hfront, hlate⟩ := hearly
      obtain ⟨htimer, hsame⟩ :=
        PeriodicTimeouts.addPeriodicTimeout_late hpoint.1 hfront hlate callback o
      refine .kept rfl htimer fun _ deadline' hd => ⟨hp, front.timeout, ?_, ?_⟩
      · exact Option.mem_map_of_mem PeriodicTimeoutCallback.timeout hfront
      · exact (Option.some.inj (hsame.symm.trans hd)).le
  · rw [hp] at hpoint
    rw [PeriodicTimeoutLoop.arms_addPeriodicTimeout_of_processing hpoint.1]
    refine .kept rfl ?_ fun hout => ?_
    · simp [PeriodicTimeoutLoop.view, PeriodicTimeouts.addPeriodicTimeout, hpoint.1]
    · exact absurd (hp.symm.trans hout) (by simp)

theorem periodicTimeoutStep_view (hpoint : PeriodicAtPoint c.members c.point)
    {l : PeriodicTimeoutStep κ} (hl : periodicTimeoutStep c l = some t)
    (hne : ∀ now, l ≠ .processPeriodicTimeouts now) :
    QueueStep c.view (c.arms l) l.outcome t.view := by
  cases l with
  | addPeriodicTimeout period callback now o =>
    obtain ⟨huser, rfl⟩ := periodicTimeoutStep_addPeriodicTimeout.mp hl
    exact addPeriodicTimeout_view hpoint huser period callback now o _
  | removeTimeout handle =>
    obtain ⟨-, members, hremove, rfl⟩ := periodicTimeoutStep_removeTimeout.mp hl
    obtain ⟨timeouts, rfl, hsub⟩ := PeriodicTimeouts.removeTimeout_sublist hremove
    refine .kept rfl rfl fun hout deadline' hd => ⟨hout, ?_⟩
    have hp : c.point = .outside := hout
    rw [hp] at hpoint
    exact hpoint.2.2.front_le_of_subset (hsub hpoint.1).subset deadline' hd
  | periodicTimeoutHandle =>
    obtain ⟨-, rfl⟩ := periodicTimeoutStep_periodicTimeoutHandle.mp hl
    exact .kept rfl rfl fun hout deadline hd => ⟨hout, deadline, hd, le_rfl⟩
  | processPeriodicTimeouts now => exact absurd rfl (hne now)
  | iterate =>
    obtain ⟨p, hp, rfl⟩ := periodicTimeoutStep_iterate.mp hl
    have hit := periodicIterates c p
    generalize periodicIteration c p = t at hit ⊢
    cases hit <;> exact .kept rfl rfl fun hout => by simp [PeriodicTimeoutLoop.view] at hout
  | callbackReturns =>
    obtain ⟨p, hp, rfl⟩ := periodicTimeoutStep_callbackReturns.mp hl
    exact .kept rfl rfl fun hout => by simp [PeriodicTimeoutLoop.view] at hout
  | finish now order o =>
    obtain ⟨p, hp, -, rfl⟩ := periodicTimeoutStep_finish.mp hl
    obtain ⟨timer, hend⟩ := c.members.endPass_members p now order o
    have htimer := PeriodicTimeouts.armFrontThenReturn_timer
      { c.members with
        periodicTimeouts := c.members.merged now order
        pendingPeriodicTimeoutAdditions := []
        processingPeriodicTimeouts := p.sentry } o ()
    have hmerged : (c.members.endPass p now order o).2.periodicTimeouts =
        c.members.merged now order := by rw [hend]
    have harms : c.arms (.finish now order o) =
        (c.members.merged now order).head?.map PeriodicTimeoutCallback.timeout := by
      simp only [PeriodicTimeoutLoop.arms, hp, hmerged]
    cases hfront : (c.members.merged now order).head?.map PeriodicTimeoutCallback.timeout with
    | none =>
      rw [hfront] at htimer harms
      refine .kept harms htimer fun _ deadline' hd => ?_
      simp only [PeriodicTimeoutLoop.view, hmerged, hfront] at hd
      exact absurd hd (by simp)
    | some deadline =>
      rw [hfront] at htimer harms
      refine .armed deadline o harms rfl htimer fun _ => ?_
      simp only [PeriodicTimeoutLoop.view, hmerged, hfront]

end PeriodicTimeouts

end Ioloop
end Linuxpp
