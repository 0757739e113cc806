import Linuxpp.Ioloop.Proofs.TimerQueuesProofs

/-!
# Proofs: what a step of the loop does to its queues

Every step of the loop is, for each queue, a step of that queue, the passage of time, or the
beginning of its pass. The events whose timerfds are still to be read are those that `epoll_wait`
reported last, or part of those that were still to be read before.
-/

namespace Linuxpp.Ioloop

open SortedInsert

variable {κ : Type}

/-- A queue as the loop sees it. -/
def TimerLoop.view (c : TimerLoop κ) (q : TimerQueue) : QueueView where
  point := c.passPoint q
  timer := c.timer q
  front := c.frontDeadline q

/-- The events of the batch whose timerfds are still to be read. -/
def LoopPoint.due : LoopPoint → List LoopEvent
  | .reading q rest => .timerfd q :: rest
  | point => point.rest

/-- The events of the batch whose handlers have not returned. -/
def LoopPoint.batch : LoopPoint → List LoopEvent
  | .reading q rest | .passing q rest => .timerfd q :: rest
  | point => point.rest

/-- Between the two points no event is reported. -/
structure NoneAnew (point point' : LoopPoint) : Prop where
  due : point'.due.Sublist point.due
  batch : point'.batch.Sublist point.batch

/-- What both queues satisfy at any time. -/
structure TimersGood (c : TimerLoop κ) : Prop where
  timeouts : Good c.timeouts
  periodicTimeouts : PeriodicAtPoint c.periodicTimeouts.members c.periodicTimeouts.point

/-- A step of the loop, as far as one queue is concerned. -/
inductive LoopStep (c : TimerLoop κ) (l : TimerLoopStep κ) (q : TimerQueue) (t : TimerLoop κ) :
    Prop
  | queue (hstep : QueueStep (c.view q) (c.arms q l) l.outcome (t.view q))
      (hclock : t.clock = c.clock) (hnow : ∀ o ∈ l.outcome, o.madeAt c.clock = true)
      (hdue : ∀ deadline ∈ c.arms q l, c.point.due = c.point.rest ∧
        (l.isAdd = true ∨ c.passing q = true))
  | elapsed (harms : c.arms q l = none) (hle : c.clock ≤ t.clock)
      (hview : t.view q = { c.view q with timer := (c.timer q).elapse t.clock })
  | begun (rest : List LoopEvent) (harms : c.arms q l = none) (hout : t.passPoint q ≠ .outside)
      (hpoint : c.point = .reading q rest) (hpoint' : t.point = .passing q rest)

/-- A step of the loop, as far as the events are concerned whose timerfds are still to be read. -/
inductive DueStep (c t : TimerLoop κ) : Prop
  | fewer (hnone : NoneAnew c.point t.point)
  | reported (events : List LoopEvent) (hpoint : t.point = .dispatching events)
      (htimer : ∀ q, t.timer q = c.timer q) (hreports : c.Reports events)

section Moves

variable {c t : TimerLoop κ} {q : TimerQueue}

theorem NoneAnew.of_eq {point point' : LoopPoint} (hdue : point'.due = point.due)
    (hbatch : point'.batch = point.batch) : NoneAnew point point' :=
  ⟨hdue ▸ List.Sublist.refl _, hbatch ▸ List.Sublist.refl _⟩

theorem QueueStep.refl (v : QueueView) (outcome : Option SettimeOutcome) :
    QueueStep v none outcome v :=
  .kept rfl rfl fun hout deadline hd => ⟨hout, deadline, hd, le_rfl⟩

/-- A step that leaves the queue and the clock as they are. -/
theorem LoopStep.unseen {l : TimerLoopStep κ} (harms : c.arms q l = none) (ho : l.outcome = none)
    (hview : t.view q = c.view q) (hclock : t.clock = c.clock) : LoopStep c l q t := by
  refine .queue ?_ hclock (by simp [ho]) (by simp [harms])
  rw [harms, hview]
  exact QueueStep.refl _ _

theorem userCode_due (h : c.userCode = true) : c.point.due = c.point.rest := by
  unfold TimerLoop.userCode at h
  cases hp : c.point <;> simp_all [LoopPoint.due]

theorem passing_due (h : c.passing q = true) : c.point.due = c.point.rest := by
  unfold TimerLoop.passing at h
  cases hp : c.point <;> simp_all [LoopPoint.due]

theorem TimeoutStep.mayRun_spec {l : TimeoutStep κ} (h : l.mayRun c = true) :
    (∀ now, l ≠ .processTimeouts now) ∧ (∀ o ∈ l.outcome, o.madeAt c.clock = true) ∧
      ∀ deadline ∈ c.timeouts.arms l, c.point.due = c.point.rest ∧
        (TimerLoopStep.isAdd (.timeouts l) = true ∨ c.passing .timeouts = true) := by
  cases l <;> simp only [mayRun, Bool.and_eq_true, Bool.false_eq_true] at h
  case addTimeout =>
    exact ⟨by simp, by simpa [outcome] using h.2, fun _ _ => ⟨userCode_due h.1, Or.inl rfl⟩⟩
  case finish =>
    exact ⟨by simp, by simpa [outcome] using h.2, fun _ _ => ⟨passing_due h.1, Or.inr h.1⟩⟩
  all_goals exact ⟨by simp, by simp [outcome], by simp [TimeoutLoop.arms]⟩

theorem PeriodicTimeoutStep.mayRun_spec {l : PeriodicTimeoutStep κ} (h : l.mayRun c = true) :
    (∀ now, l ≠ .processPeriodicTimeouts now) ∧ (∀ o ∈ l.outcome, o.madeAt c.clock = true) ∧
      ∀ deadline ∈ c.periodicTimeouts.arms l, c.point.due = c.point.rest ∧
        (TimerLoopStep.isAdd (.periodicTimeouts l) = true ∨
          c.passing .periodicTimeouts = true) := by
  cases l <;> simp only [mayRun, Bool.and_eq_true, decide_eq_true_eq, Bool.false_eq_true] at h
  case addPeriodicTimeout =>
    exact ⟨by simp, by simpa [outcome] using h.2, fun _ _ => ⟨userCode_due h.1.1, Or.inl rfl⟩⟩
  case finish =>
    exact ⟨by simp, by simpa [outcome] using h.2, fun _ _ => ⟨passing_due h.1.1, Or.inr h.1.1⟩⟩
  all_goals exact ⟨by simp, by simp [outcome], by simp [PeriodicTimeoutLoop.arms]⟩

/-- An erasure is undefined only if an entry is pending. -/
theorem PeriodicTimeouts.pending_of_removeTimeout {s : PeriodicTimeouts κ}
    {handle : PeriodicTimeoutHandle} (h : s.removeTimeout handle = none) :
    s.pendingPeriodicTimeoutAdditions ≠ [] := by
  intro hnil
  unfold removeTimeout at h
  rw [hnil, List.any_nil] at h
  split_ifs at h with _ _ hfalse
  exact hfalse

section Inversion

attribute [local simp] timerLoopMove

theorem timerLoopMove_tick {now : TimeType} :
    timerLoopMove c (.tick now) = some t ↔ c.clock ≤ now ∧ c.elapse now = t := by
  simp

theorem timerLoopMove_timeouts {l : TimeoutStep κ} :
    timerLoopMove c (.timeouts l) = some t ↔ l.mayRun c = true ∧
      ∃ s, timeoutStep c.timeouts l = some s ∧ { c with timeouts := s } = t := by
  simp

theorem timerLoopMove_periodicTimeouts {l : PeriodicTimeoutStep κ} :
    timerLoopMove c (.periodicTimeouts l) = some t ↔ l.mayRun c = true ∧
      ∃ s, periodicTimeoutStep c.periodicTimeouts l = some s ∧
        { c with periodicTimeouts := s } = t := by
  simp

theorem timerLoopMove_eraseForeign {handle : PeriodicTimeoutHandle}
    {timeouts pending : List (PeriodicTimeoutCallback κ)} :
    timerLoopMove c (.eraseForeign handle timeouts pending) = some t ↔
      (c.userCode = true ∧ handle.id < c.periodicTimeouts.members.nextId ∧
        c.periodicTimeouts.members.removeTimeout handle = none) ∧
      { c with periodicTimeouts := { c.periodicTimeouts with
        members := { c.periodicTimeouts.members with
          periodicTimeouts := timeouts, pendingPeriodicTimeoutAdditions := pending } } } = t := by
  simp

theorem timerLoopMove_epollWait {events : List LoopEvent} :
    timerLoopMove c (.epollWait events) = some t ↔ c.point = .idle ∧ c.Reports events ∧
      { c with point := .dispatching events } = t := by
  cases hp : c.point <;> simp [hp]

/-- Dispatching and returning move the thread, and report no event anew. -/
theorem timerLoopMove_dispatch (h : timerLoopMove c .dispatch = some t) :
    ∃ point, { c with point := point } = t ∧ NoneAnew c.point point := by
  cases hp : c.point with
  | dispatching rest =>
    rcases rest with _ | ⟨q | _, rest⟩
    · simp [hp] at h
    · exact ⟨.reading q rest, by simpa [hp] using h, .of_eq rfl rfl⟩
    · exact ⟨.calling rest, by simpa [hp] using h,
        List.sublist_cons_self _ _, List.sublist_cons_self _ _⟩
  | _ => simp [hp] at h

theorem timerLoopMove_handlerReturns (h : timerLoopMove c .handlerReturns = some t) :
    ∃ point, { c with point := point } = t ∧ NoneAnew c.point point := by
  cases hp : c.point with
  | calling rest =>
    exact ⟨.dispatching rest, by simpa [hp] using h, .of_eq rfl rfl⟩
  | passing q rest =>
    have hback : c.passPoint q = .outside ∧ { c with point := .dispatching rest } = t := by
      simpa [hp] using h
    exact ⟨.dispatching rest, hback.2, List.Sublist.refl _, List.sublist_cons_self _ _⟩
  | _ => simp [hp] at h

theorem timerLoopMove_batchEnds (h : timerLoopMove c .batchEnds = some t) :
    ∃ point, { c with point := point } = t ∧ NoneAnew c.point point := by
  cases hp : c.point with
  | dispatching rest =>
    rcases rest with _ | ⟨e, rest⟩
    · exact ⟨.idle, by simpa [hp] using h, .of_eq rfl rfl⟩
    · simp [hp] at h
  | _ => simp [hp] at h

theorem timerLoopMove_read (h : timerLoopMove c .read = some t) : ∃ q rest s,
    c.point = .reading q rest ∧ (c.timer q).unread = true ∧ c.beginPass q = some s ∧
      { s with point := .passing q rest } = t := by
  cases hp : c.point with
  | reading q rest =>
    have hread : (c.timer q).unread = true ∧ ∃ s, c.beginPass q = some s ∧
        { s with point := .passing q rest } = t := by
      simpa [hp] using h
    obtain ⟨hunread, s, hs, rfl⟩ := hread
    exact ⟨q, rest, s, rfl, hunread, hs, rfl⟩
  | _ => simp [hp] at h

end Inversion

theorem loopStep_of_move (hg : TimersGood c) {l : TimerLoopStep κ} (hl : timerLoopMove c l = some t)
    (q : TimerQueue) : LoopStep c l q t := by
  cases l with
  | tick now =>
    obtain ⟨hle, rfl⟩ := timerLoopMove_tick.mp hl
    cases q <;> exact .elapsed rfl hle rfl
  | timeouts l =>
    obtain ⟨hmay, s, hs, rfl⟩ := timerLoopMove_timeouts.mp hl
    obtain ⟨hne, hnow, hdue⟩ := TimeoutStep.mayRun_spec hmay
    cases q with
    | timeouts => exact .queue (timeoutStep_view hg.timeouts hs hne) rfl hnow hdue
    | periodicTimeouts => exact .queue (QueueStep.refl _ _) rfl hnow (by simp [TimerLoop.arms])
  | periodicTimeouts l =>
    obtain ⟨hmay, s, hs, rfl⟩ := timerLoopMove_periodicTimeouts.mp hl
    obtain ⟨hne, hnow, hdue⟩ := PeriodicTimeoutStep.mayRun_spec hmay
    cases q with
    | timeouts => exact .queue (QueueStep.refl _ _) rfl hnow (by simp [TimerLoop.arms])
    | periodicTimeouts =>
      exact .queue (periodicTimeoutStep_view hg.periodicTimeouts hs hne) rfl hnow hdue
  | eraseForeign handle timeouts pending =>
    obtain ⟨hguard, rfl⟩ := timerLoopMove_eraseForeign.mp hl
    cases q with
    | timeouts => exact .unseen rfl rfl rfl rfl
    | periodicTimeouts =>
      refine .queue (.kept rfl rfl fun hout => ?_) rfl (by simp [TimerLoopStep.outcome])
        (by simp [TimerLoop.arms])
      -- an entry is pending, so a pass is in progress
      have hpend := PeriodicTimeouts.pending_of_removeTimeout hguard.2.2
      have hpoint := hg.periodicTimeouts
      have hp : c.periodicTimeouts.point = .outside := hout
      rw [hp] at hpoint
      exact absurd hpoint.2.1 hpend
  | epollWait events =>
    obtain ⟨-, -, rfl⟩ := timerLoopMove_epollWait.mp hl
    cases q <;> exact .unseen rfl rfl rfl rfl
  | dispatch =>
    obtain ⟨point, rfl, -⟩ := timerLoopMove_dispatch hl
    cases q <;> exact .unseen rfl rfl rfl rfl
  | handlerReturns =>
    obtain ⟨point, rfl, -⟩ := timerLoopMove_handlerReturns hl
    cases q <;> exact .unseen rfl rfl rfl rfl
  | batchEnds =>
    obtain ⟨point, rfl, -⟩ := timerLoopMove_batchEnds hl
    cases q <;> exact .unseen rfl rfl rfl rfl
  | read =>
    obtain ⟨q', rest, s, hp, -, hs, rfl⟩ := timerLoopMove_read hl
    cases q' with
    | timeouts =>
      obtain ⟨u, hu, rfl⟩ := Option.map_eq_some_iff.mp hs
      obtain ⟨-, rfl⟩ := timeoutStep_processTimeouts.mp hu
      cases q with
      | timeouts => exact .begun rest rfl (by simp [TimerLoop.passPoint]) hp rfl
      | periodicTimeouts => exact .unseen rfl rfl rfl rfl
    | periodicTimeouts =>
      obtain ⟨u, hu, rfl⟩ := Option.map_eq_some_iff.mp hs
      obtain ⟨-, rfl⟩ := periodicTimeoutStep_processPeriodicTimeouts.mp hu
      cases q with
      | timeouts => exact .unseen rfl rfl rfl rfl
      | periodicTimeouts => exact .begun rest rfl (by simp [TimerLoop.passPoint]) hp rfl

theorem dueStep_of_move {l : TimerLoopStep κ} (hl : timerLoopMove c l = some t) : DueStep c t := by
  cases l with
  | tick now =>
    obtain ⟨-, rfl⟩ := timerLoopMove_tick.mp hl
    exact .fewer (.of_eq rfl rfl)
  | timeouts l =>
    obtain ⟨-, s, -, rfl⟩ := timerLoopMove_timeouts.mp hl
    exact .fewer (.of_eq rfl rfl)
  | periodicTimeouts l =>
    obtain ⟨-, s, -, rfl⟩ := timerLoopMove_periodicTimeouts.mp hl
    exact .fewer (.of_eq rfl rfl)
  | eraseForeign handle timeouts pending =>
    obtain ⟨-, rfl⟩ := timerLoopMove_eraseForeign.mp hl
    exact .fewer (.of_eq rfl rfl)
  | epollWait events =>
    obtain ⟨-, hreports, rfl⟩ := timerLoopMove_epollWait.mp hl
    exact .reported events rfl (fun q => by cases q <;> rfl) hreports
  | dispatch =>
    obtain ⟨point, rfl, hnone⟩ := timerLoopMove_dispatch hl
    exact .fewer hnone
  | handlerReturns =>
    obtain ⟨point, rfl, hnone⟩ := timerLoopMove_handlerReturns hl
    exact .fewer hnone
  | batchEnds =>
    obtain ⟨point, rfl, hnone⟩ := timerLoopMove_batchEnds hl
    exact .fewer hnone
  | read =>
    obtain ⟨q, rest, s, hp, -, -, rfl⟩ := timerLoopMove_read hl
    have hnone : NoneAnew (.reading q rest) (.passing q rest) :=
      ⟨List.sublist_cons_self _ _, List.Sublist.refl _⟩
    exact .fewer (hp ▸ hnone)

theorem TimersGood.elapse (hg : TimersGood c) (now : TimeType) : TimersGood (c.elapse now) := by
  have htimeouts := hg.timeouts
  have hpoint := hg.timeouts.point
  have hperiodic := hg.periodicTimeouts
  constructor
  · refine { htimeouts with point := ?_ }
    show AtPoint (c.elapse now).timeouts.members c.timeouts.point
    cases hp : c.timeouts.point <;> rw [hp] at hpoint <;> exact hpoint
  · show PeriodicAtPoint (c.elapse now).periodicTimeouts.members c.periodicTimeouts.point
    cases hp : c.periodicTimeouts.point <;> rw [hp] at hperiodic <;> exact hperiodic

/-- What a step does to the two queues, whatever the thread of the loop does besides. -/
inductive MembersMove (c : TimerLoop κ) : TimerLoopStep κ → TimerLoop κ → Prop
  | tick (m : TimerLoopStep κ) (now : TimeType) : MembersMove c m (c.elapse now)
  | timeouts (m : TimerLoopStep κ) (l : TimeoutStep κ) (s : TimeoutLoop κ) (point : LoopPoint)
      (hread : ∀ now, l = .processTimeouts now → (c.timer .timeouts).unread = true)
      (hs : timeoutStep c.timeouts l = some s) :
      MembersMove c m { c with timeouts := s, point := point }
  | periodicTimeouts (m : TimerLoopStep κ) (l : PeriodicTimeoutStep κ)
      (s : PeriodicTimeoutLoop κ) (point : LoopPoint)
      (hread : ∀ now, l = .processPeriodicTimeouts now →
        (c.timer .periodicTimeouts).unread = true)
      (hs : periodicTimeoutStep c.periodicTimeouts l = some s) :
      MembersMove c m { c with periodicTimeouts := s, point := point }
  | eraseForeign (handle : PeriodicTimeoutHandle)
      (timeouts pending : List (PeriodicTimeoutCallback κ))
      (hforeign : c.periodicTimeouts.members.removeTimeout handle = none) :
      MembersMove c (.eraseForeign handle timeouts pending)
        { c with periodicTimeouts := { c.periodicTimeouts with
          members := { c.periodicTimeouts.members with
            periodicTimeouts := timeouts, pendingPeriodicTimeoutAdditions := pending } } }
  | point (m : TimerLoopStep κ) (point : LoopPoint) : MembersMove c m { c with point := point }

theorem membersMove_of_move {l : TimerLoopStep κ} (hl : timerLoopMove c l = some t) :
    MembersMove c l t := by
  cases l with
  | tick now =>
    obtain ⟨-, rfl⟩ := timerLoopMove_tick.mp hl
    exact .tick _ now
  | timeouts l =>
    obtain ⟨hmay, s, hs, rfl⟩ := timerLoopMove_timeouts.mp hl
    exact .timeouts _ l s c.point
      (fun now heq => absurd heq ((TimeoutStep.mayRun_spec hmay).1 now)) hs
  | periodicTimeouts l =>
    obtain ⟨hmay, s, hs, rfl⟩ := timerLoopMove_periodicTimeouts.mp hl
    exact .periodicTimeouts _ l s c.point
      (fun now heq => absurd heq ((PeriodicTimeoutStep.mayRun_spec hmay).1 now)) hs
  | eraseForeign handle timeouts pending =>
    obtain ⟨hguard, rfl⟩ := timerLoopMove_eraseForeign.mp hl
    exact .eraseForeign handle timeouts pending hguard.2.2
  | epollWait events =>
    obtain ⟨-, -, rfl⟩ := timerLoopMove_epollWait.mp hl
    exact .point _ _
  | dispatch =>
    obtain ⟨point, rfl, -⟩ := timerLoopMove_dispatch hl
    exact .point _ point
  | handlerReturns =>
    obtain ⟨point, rfl, -⟩ := timerLoopMove_handlerReturns hl
    exact .point _ point
  | batchEnds =>
    obtain ⟨point, rfl, -⟩ := timerLoopMove_batchEnds hl
    exact .point _ point
  | read =>
    obtain ⟨q, rest, s, -, hunread, hs, rfl⟩ := timerLoopMove_read hl
    cases q with
    | timeouts =>
      obtain ⟨u, hu, rfl⟩ := Option.map_eq_some_iff.mp hs
      exact .timeouts _ _ u _ (fun _ _ => hunread) hu
    | periodicTimeouts =>
      obtain ⟨u, hu, rfl⟩ := Option.map_eq_some_iff.mp hs
      exact .periodicTimeouts _ _ u _ (fun _ _ => hunread) hu

theorem TimersGood.move (hg : TimersGood c) {l : TimerLoopStep κ}
    (hl : timerLoopMove c l = some t) : TimersGood t := by
  cases membersMove_of_move hl with
  | tick _ now => exact hg.elapse now
  | timeouts _ l s point hread hs => exact ⟨hg.timeouts.step hs, hg.periodicTimeouts⟩
  | periodicTimeouts _ l s point hread hs => exact ⟨hg.timeouts, hg.periodicTimeouts.step hs⟩
  | eraseForeign handle timeouts pending hforeign =>
    have hpend := PeriodicTimeouts.pending_of_removeTimeout hforeign
    have hpoint := hg.periodicTimeouts
    refine ⟨hg.timeouts, ?_⟩
    simp only
    cases hp : c.periodicTimeouts.point with
    | outside =>
      rw [hp] at hpoint
      exact absurd hpoint.2.1 hpend
    | _ =>
      rw [hp] at hpoint
      exact hpoint
  | point _ point => exact ⟨hg.timeouts, hg.periodicTimeouts⟩

end Moves

end Linuxpp.Ioloop
