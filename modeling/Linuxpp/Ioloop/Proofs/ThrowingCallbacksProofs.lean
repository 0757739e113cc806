import Linuxpp.Ioloop.Proofs.CallbacksProofs
import Linuxpp.Ioloop.Proofs.TimeoutRunsProofs
import Linuxpp.Ioloop.Proofs.TimerGuaranteesProofs
import Linuxpp.Ioloop.ThrowingCallbacks

/-!
# Proofs: callbacks that throw

A throwing callback loses the queued callbacks behind it, and a throwing callback of a timeout leaves
its queue with a disarmed timer. Where neither happens, the invariants of the loop without exceptions
are kept, and with them all work.
-/

namespace Linuxpp.Ioloop

variable {κ : Type}

section Callbacks

variable {c t : CallbackLoop κ}

theorem CallbackLoop.callbackThrows_eq_some_iff : c.callbackThrows = some t ↔
    (c.mutex.byLoop = false ∧ c.phase.userCode = true) ∧
      { c with phase := .dispatching false } = t := by
  unfold callbackThrows
  cases hm : c.mutex.byLoop with
  | true => simp
  | false =>
    cases hp : c.phase with
    | running callbacks inCallback => cases inCallback <;> simp [LoopPhase.userCode]
    | _ => simp [LoopPhase.userCode]

theorem LoopPhase.userCode_holdsMutex {phase : LoopPhase κ} (h : phase.userCode = true) :
    phase.holdsMutex = false ∧ phase.untaken = false := by
  cases phase <;> simp_all [userCode, holdsMutex, untaken]

/-- An exception with no callback behind it keeps the invariant. -/
theorem Handoff.callbackThrows (h : Handoff c) (hl : c.callbackThrows = some t)
    (hlast : c.phase.todo = []) : Handoff t := by
  obtain ⟨⟨-, huser⟩, rfl⟩ := CallbackLoop.callbackThrows_eq_some_iff.mp hl
  obtain ⟨hholds, huntaken⟩ := LoopPhase.userCode_holdsMutex huser
  have horder := h.order
  have hexclusion := h.exclusion
  rw [hlast] at horder
  rw [hholds] at hexclusion
  exact ⟨horder, h.calls, hexclusion, fun hw _ => h.readable hw huntaken, by simp, by simp⟩

/-- An exception loses what is behind the callback. -/
theorem CallbackLoop.todo_of_callbackThrows
    (hc : c.entered = c.ran ++ c.phase.todo ++ c.newCallbacks ++ c.mutex.inFlight)
    (hl : c.callbackThrows = some t)
    (ht : t.entered = t.ran ++ t.phase.todo ++ t.newCallbacks ++ t.mutex.inFlight) :
    c.phase.todo = [] := by
  obtain ⟨-, rfl⟩ := callbackThrows_eq_some_iff.mp hl
  have ht : c.entered = c.ran ++ [] ++ c.newCallbacks ++ c.mutex.inFlight := ht
  have hlength := congrArg List.length (hc.symm.trans ht)
  simp only [List.length_append, List.length_nil] at hlength
  exact List.length_eq_zero_iff.mp (by omega)

theorem Handoff.survive (h : Handoff c) : CallbacksSurvive c :=
  ⟨h.order, fun hp hm => h.drains hp hm⟩

theorem Handoff.throwingStep (h : Handoff c) {l : Option (CallbackStep κ)}
    (hl : throwingCallbackStep c l = some t) (hok : ThrowsLast c l) : Handoff t := by
  cases l with
  | some l => exact h.step hl
  | none => exact h.callbackThrows hl (hok rfl)

theorem callbacksSurvive_iff {ls : List (Option (CallbackStep κ))}
    (hrun : throwingCallbackStep.run {} ls = some c) :
    throwingCallbackStep.Throughout CallbacksSurvive {} ls ↔
      throwingCallbackStep.Along ThrowsLast {} ls := by
  have hinv : ∀ (s : CallbackLoop κ) l t, Handoff s → True → ThrowsLast s l →
      throwingCallbackStep s l = some t → Handoff t :=
    fun _ _ _ h _ hok hl => h.throwingStep hl hok
  have hstep : ∀ (s : CallbackLoop κ) l t, Handoff s → CallbacksSurvive s → True →
      throwingCallbackStep s l = some t → (CallbacksSurvive t ↔ ThrowsLast s l) := by
    intro s l t h _ _ hl
    constructor
    · rintro ht rfl
      exact CallbackLoop.todo_of_callbackThrows h.order hl ht.kept
    · intro hok
      exact (h.throwingStep hl hok).survive
  exact Machine.throughout_iff_along_of_guarded hinv hstep hrun
    (Machine.along_of_forall_mem fun _ _ _ => trivial) handoff_init handoff_init.survive

end Callbacks

section Quiet

/-- A timer that expired is not armed. During a pass the timer has been read and is not armed, and
while a callback runs there is a front entry. -/
structure QuietInPass (v : QueueView) : Prop where
  spent : v.timer.unread = true → v.timer.expiry = none
  pass : v.point ≠ .outside → v.timer = {} ∧ ∀ p, v.point = .callback p → v.front ≠ none

theorem setOneshot_spent {t : MonotonicTimerfd} (h : t.unread = true → t.expiry = none)
    (deadline : TimeType) (o : SettimeOutcome) : (t.setOneshot deadline o).2.unread = true →
      (t.setOneshot deadline o).2.expiry = none := by
  cases ho : o.errno with
  | none =>
    rw [MonotonicTimerfd.setOneshot_of_ok ho]
    simp
  | some e => rwa [MonotonicTimerfd.setOneshot_of_error ho]

theorem QueueStep.spent {v v' : QueueView} {arms : Option TimeType}
    {outcome : Option SettimeOutcome} (h : QueueStep v arms outcome v')
    (hv : v.timer.unread = true → v.timer.expiry = none) :
    v'.timer.unread = true → v'.timer.expiry = none := by
  cases h with
  | kept harms htimer hfront => rwa [htimer]
  | armed deadline o harms ho htimer hfront =>
    rw [htimer]
    exact setOneshot_spent hv deadline o

theorem QuietInPass.elapse {v : QueueView} (h : QuietInPass v) (now : TimeType) :
    QuietInPass { v with timer := v.timer.elapse now } where
  spent := by
    unfold MonotonicTimerfd.elapse
    split_ifs
    · simp
    · exact h.spent
  pass := by
    intro hin
    obtain ⟨htimer, hfront⟩ := h.pass hin
    refine ⟨?_, hfront⟩
    simp only [htimer]
    rfl

/-- The `read` of a timer that has expired. -/
theorem QuietInPass.read {v : QueueView} (h : QuietInPass v) (hunread : v.timer.unread = true) :
    v.timer.read = {} := by
  have hexpiry := h.spent hunread
  unfold MonotonicTimerfd.read
  rw [hexpiry]

theorem quiet_of_begun {v : QueueView} {p : Pass} (htimer : v.timer = {})
    (hpoint : v.point = .loop p) : QuietInPass v where
  spent := by simp [htimer]
  pass := fun _ => ⟨htimer, by simp [hpoint]⟩

section Timeouts

variable {c t : TimeoutLoop κ}

theorem quiet_timeoutStep (hg : Good c) (h : QuietInPass c.view) {l : TimeoutStep κ}
    (hl : timeoutStep c l = some t) (hne : ∀ now, l ≠ .processTimeouts now) :
    QuietInPass t.view := by
  refine ⟨(timeoutStep_view hg hl hne).spent h.spent, fun hin => ?_⟩
  have hpoint := hg.point
  cases l with
  | addTimeout timeout callback o =>
    obtain ⟨huser, rfl⟩ := timeoutStep_addTimeout.mp hl
    rcases PassPoint.userCode_iff.mp huser with hp | ⟨p, hp⟩
    · exact absurd hp hin
    · rw [hp] at hpoint
      simp only [TimeoutLoop.view, Timeouts.addTimeout, hpoint.1, if_true]
      exact h.pass hin
  | removeTimeout handle =>
    obtain ⟨⟨huser, -⟩, rfl⟩ := timeoutStep_removeTimeout.mp hl
    rcases PassPoint.userCode_iff.mp huser with hp | ⟨p, hp⟩
    · exact absurd hp hin
    · rw [hp] at hpoint
      obtain ⟨htimer, hfront⟩ := h.pass hin
      simp only [TimeoutLoop.view, Timeouts.removeTimeout_members hg.distinct, hpoint.1, if_true]
      refine ⟨htimer, fun p hp => ?_⟩
      have hfront := hfront p hp
      simpa [TimeoutLoop.view] using hfront
  | timeoutHandle =>
    obtain ⟨-, rfl⟩ := timeoutStep_timeoutHandle.mp hl
    exact h.pass hin
  | processTimeouts now => exact absurd rfl (hne now)
  | iterate =>
    obtain ⟨p, hp, rfl⟩ := timeoutStep_iterate.mp hl
    obtain ⟨htimer, -⟩ := h.pass (by simp [TimeoutLoop.view, hp])
    have hit := iterates c p
    generalize iteration c p = t at hit ⊢
    cases hit with
    | call e he =>
      refine ⟨htimer, fun _ _ hnone => ?_⟩
      have hempty : c.members.timeouts = [] := by simpa [TimeoutLoop.view] using hnone
      simp [hempty] at he
    | _ => exact ⟨htimer, by simp [TimeoutLoop.view]⟩
  | callbackReturns =>
    obtain ⟨p, hp, rfl⟩ := timeoutStep_callbackReturns.mp hl
    obtain ⟨htimer, -⟩ := h.pass (by simp [TimeoutLoop.view, hp])
    exact ⟨htimer, by simp [TimeoutLoop.view]⟩
  | finish o =>
    obtain ⟨p, hp, rfl⟩ := timeoutStep_finish.mp hl
    exact absurd rfl hin

end Timeouts

section PeriodicTimeouts

variable {c t : PeriodicTimeoutLoop κ}

/-- During a pass a removal erases nothing. -/
theorem PeriodicTimeouts.removeTimeout_length {s s' : PeriodicTimeouts κ}
    {handle : PeriodicTimeoutHandle} (h : s.removeTimeout handle = some s')
    (hproc : s.processingPeriodicTimeouts = true) :
    s'.periodicTimeouts.length = s.periodicTimeouts.length := by
  unfold removeTimeout at h
  rw [if_pos hproc] at h
  split_ifs at h
  · obtain rfl := Option.some.inj h
    exact List.length_replaceF
  · obtain rfl := Option.some.inj h
    rfl

theorem quiet_periodicTimeoutStep (hpoint : PeriodicAtPoint c.members c.point)
    (h : QuietInPass c.view) {l : PeriodicTimeoutStep κ} (hl : periodicTimeoutStep c l = some t)
    (hne : ∀ now, l ≠ .processPeriodicTimeouts now) : QuietInPass t.view := by
  refine ⟨(periodicTimeoutStep_view hpoint hl hne).spent h.spent, fun hin => ?_⟩
  cases l with
  | addPeriodicTimeout period callback now o =>
    obtain ⟨huser, rfl⟩ := periodicTimeoutStep_addPeriodicTimeout.mp hl
    rcases PassPoint.userCode_iff.mp huser with hp | ⟨p, hp⟩
    · exact absurd hp hin
    · rw [hp] at hpoint
      simp only [PeriodicTimeoutLoop.view, PeriodicTimeouts.addPeriodicTimeout, hpoint.1, if_true]
      exact h.pass hin
  | removeTimeout handle =>
    obtain ⟨⟨huser, -⟩, members, hremove, rfl⟩ := periodicTimeoutStep_removeTimeout.mp hl
    rcases PassPoint.userCode_iff.mp huser with hp | ⟨p, hp⟩
    · exact absurd hp hin
    · rw [hp] at hpoint
      obtain ⟨htimer, hfront⟩ := h.pass hin
      have hlength := PeriodicTimeouts.removeTimeout_length hremove hpoint.1
      obtain ⟨timeouts, rfl, -⟩ := PeriodicTimeouts.removeTimeout_sublist hremove
      refine ⟨htimer, fun p hp hnone => hfront p hp ?_⟩
      have hempty : timeouts = [] := by simpa [PeriodicTimeoutLoop.view] using hnone
      rw [hempty] at hlength
      simp [PeriodicTimeoutLoop.view, List.length_eq_zero_iff.mp hlength.symm]
  | periodicTimeoutHandle =>
    obtain ⟨-, rfl⟩ := periodicTimeoutStep_periodicTimeoutHandle.mp hl
    exact h.pass hin
  | processPeriodicTimeouts now => exact absurd rfl (hne now)
  | iterate =>
    obtain ⟨p, hp, rfl⟩ := periodicTimeoutStep_iterate.mp hl
    obtain ⟨htimer, -⟩ := h.pass (by simp [PeriodicTimeoutLoop.view, hp])
    have hit := periodicIterates c p
    generalize periodicIteration c p = t at hit ⊢
    cases hit with
    | call e he =>
      refine ⟨htimer, fun _ _ hnone => ?_⟩
      have hempty : c.members.periodicTimeouts = [] := by
        simpa [PeriodicTimeoutLoop.view] using hnone
      simp [hempty] at he
    | _ => exact ⟨htimer, by simp [PeriodicTimeoutLoop.view]⟩
  | callbackReturns =>
    obtain ⟨p, hp, rfl⟩ := periodicTimeoutStep_callbackReturns.mp hl
    obtain ⟨htimer, -⟩ := h.pass (by simp [PeriodicTimeoutLoop.view, hp])
    exact ⟨htimer, by simp [PeriodicTimeoutLoop.view]⟩
  | finish now order o =>
    obtain ⟨p, hp, -, rfl⟩ := periodicTimeoutStep_finish.mp hl
    exact absurd rfl hin

end PeriodicTimeouts

end Quiet

section Timers

variable {c t : TimerLoop κ} {q : TimerQueue}

theorem quiet_move (hg : TimersGood c) (h : ∀ q, QuietInPass (c.view q)) {l : TimerLoopStep κ}
    (hl : timerLoopMove c l = some t)
    (hdefined : ∀ handle timeouts pending, l ≠ .eraseForeign handle timeouts pending) :
    ∀ q, QuietInPass (t.view q) := by
  intro q
  have hq := h q
  cases membersMove_of_move hl with
  | tick _ now => cases q <;> exact hq.elapse now
  | timeouts _ l s point hread hs =>
    cases q with
    | periodicTimeouts => exact hq
    | timeouts =>
      by_cases hbegin : ∃ now, l = .processTimeouts now
      · obtain ⟨now, rfl⟩ := hbegin
        -- the timer has expired, so that reading it leaves nothing of it
        have hempty := hq.read (hread now rfl)
        obtain ⟨-, rfl⟩ := timeoutStep_processTimeouts.mp hs
        exact quiet_of_begun hempty rfl
      · exact quiet_timeoutStep hg.timeouts hq hs (not_exists.mp hbegin)
  | periodicTimeouts _ l s point hread hs =>
    cases q with
    | timeouts => exact hq
    | periodicTimeouts =>
      by_cases hbegin : ∃ now, l = .processPeriodicTimeouts now
      · obtain ⟨now, rfl⟩ := hbegin
        have hempty := hq.read (hread now rfl)
        obtain ⟨-, rfl⟩ := periodicTimeoutStep_processPeriodicTimeouts.mp hs
        exact quiet_of_begun hempty rfl
      · exact quiet_periodicTimeoutStep hg.periodicTimeouts hq hs (not_exists.mp hbegin)
  | eraseForeign handle timeouts pending hforeign =>
    exact absurd rfl (hdefined handle timeouts pending)
  | point _ point => cases q <;> exact hq

/-- The one-shot timeouts follow a trace of alarms whatever else the loop does. -/
theorem follows_move (hg : TimersGood c) (h : ∃ tr, Follows tr c.timeouts) {l : TimerLoopStep κ}
    (hl : timerLoopMove c l = some t) : ∃ tr, Follows tr t.timeouts := by
  obtain ⟨tr, htr⟩ := h
  cases membersMove_of_move hl with
  | tick _ now => exact ⟨tr, htr.same (fun _ => Iff.rfl) rfl le_rfl⟩
  | timeouts _ l s point hread hs =>
    obtain ⟨ext, hext, -⟩ := htr.step hg.timeouts hs
    exact ⟨tr ++ ext, hext⟩
  | _ => exact ⟨tr, htr⟩

/-- The invariant of the runs in which no callback of a timeout throws. -/
structure Unbroken (c : TimerLoop κ) : Prop where
  good : TimersGood c
  covered : ∀ q, c.FrontCovered q
  quiet : ∀ q, QuietInPass (c.view q)
  follows : ∃ tr, Follows tr c.timeouts

theorem unbroken_init (now : TimeType) : Unbroken ({ clock := now } : TimerLoop κ) where
  good := timersGood_init now
  covered := by
    intro q _ deadline hd
    cases q <;> simp [TimerLoop.frontDeadline] at hd
  quiet := by
    intro q
    cases q <;> exact ⟨by simp [TimerLoop.view, TimerLoop.timer], fun hin => absurd rfl hin⟩
  follows := ⟨[], follows_init⟩

theorem Unbroken.step (h : Unbroken c) {l : TimerLoopStep κ} (hl : timerLoopStep c l = some t)
    (hok : l.SettimeSucceeds)
    (hdefined : ∀ handle timeouts pending, l ≠ .eraseForeign handle timeouts pending) :
    Unbroken t := by
  have hgood := h.good.step hl
  have hcovered := fun q => FrontCovered.step (h.covered q) h.good hl hok
  obtain ⟨s, hs, rfl⟩ := Option.map_eq_some_iff.mp hl
  have hfollows := follows_move h.good h.follows hs
  refine ⟨hgood, hcovered, fun q => ?_, hfollows⟩
  have hquiet := quiet_move h.good h.quiet hs hdefined q
  cases q <;> exact hquiet

/-- The three places where an exception comes from. -/
inductive Throws (c : TimerLoop κ) : TimerLoop κ → Prop
  | calling (rest : List LoopEvent) (hp : c.point = .calling rest) :
      Throws c { c with point := .idle }
  | timeouts (rest : List LoopEvent) (p : Pass) (hp : c.point = .passing .timeouts rest)
      (hpass : c.timeouts.point = .callback p) :
      Throws c { c with
        timeouts := { c.timeouts with
          members := { c.timeouts.members with processingTimeouts := p.sentry }
          point := .outside }
        point := .idle }
  | periodicTimeouts (rest : List LoopEvent) (p : Pass)
      (hp : c.point = .passing .periodicTimeouts rest)
      (hpass : c.periodicTimeouts.point = .callback p) :
      Throws c { c with
        periodicTimeouts := { c.periodicTimeouts with
          members := { c.periodicTimeouts.members with processingPeriodicTimeouts := p.sentry }
          point := .outside }
        point := .idle }

theorem throws_of_callbackThrows (hl : c.callbackThrows = some t) : Throws c t := by
  unfold TimerLoop.callbackThrows at hl
  cases hp : c.point with
  | calling rest =>
    rw [hp] at hl
    obtain rfl := Option.some.inj hl
    exact .calling rest hp
  | passing q rest =>
    cases q with
    | timeouts =>
      simp only [hp, TimeoutLoop.callbackThrows] at hl
      cases hpass : c.timeouts.point <;> simp only [hpass, Option.map_none, Option.map_some,
        reduceCtorEq, Option.some.injEq] at hl
      subst hl
      exact .timeouts rest _ hp hpass
    | periodicTimeouts =>
      simp only [hp, PeriodicTimeoutLoop.callbackThrows] at hl
      cases hpass : c.periodicTimeouts.point <;> simp only [hpass, Option.map_none,
        Option.map_some, reduceCtorEq, Option.some.injEq] at hl
      subst hl
      exact .periodicTimeouts rest _ hp hpass
  | _ => simp [hp] at hl

/-- An exception outside of the passes keeps everything. -/
theorem Unbroken.callbackThrows (h : Unbroken c) (hl : c.callbackThrows = some t)
    (hok : ∀ q, c.passing q = false) : Unbroken t := by
  cases throws_of_callbackThrows hl with
  | calling rest hp =>
    refine ⟨⟨h.good.timeouts, h.good.periodicTimeouts⟩, fun q => ?_, fun q => ?_, h.follows⟩
    · have hcovered := h.covered q
      cases q <;> exact hcovered
    · have hquiet := h.quiet q
      cases q <;> exact hquiet
  | timeouts rest p hp =>
    exact absurd (hok .timeouts) (by simp [TimerLoop.passing, hp])
  | periodicTimeouts rest p hp =>
    exact absurd (hok .periodicTimeouts) (by simp [TimerLoop.passing, hp])

theorem Unbroken.survive (h : Unbroken c) : TimeoutsSurvive c where
  kept := by
    intro t hl
    cases throws_of_callbackThrows hl <;> exact ⟨rfl, rfl, rfl, rfl⟩
  armed := fun q => .inl (h.covered q)
  once := by
    intro handle
    obtain ⟨tr, htr⟩ := h.follows
    exact htr.called_once handle

/-- A queue whose timer is disarmed and which has a front entry is not covered. -/
theorem not_frontCovered (hout : c.passPoint q = .outside) (htimer : c.timer q = {})
    {deadline : TimeType} (hfront : c.frontDeadline q = some deadline) : ¬ c.FrontCovered q := by
  intro h
  have hready := h hout deadline hfront
  rw [htimer] at hready
  rcases hready with hunread | ⟨expiry, hexpiry, -⟩
  · cases hunread
  · cases hexpiry

/-- An addition behind the front does not arm the timer. -/
theorem not_rearmed_timeouts (hout : c.timeouts.point = .outside)
    (hproc : c.timeouts.members.processingTimeouts = false)
    (htimer : c.timer .timeouts = {}) {front : TimeoutCallback κ}
    (hfront : c.timeouts.members.timeouts.head? = some front) :
    ¬ c.RearmedByNextAdd .timeouts := by
  rintro ⟨huser, hadd⟩
  let l : TimeoutStep κ := .addTimeout front.timeout front.callback { now := c.clock }
  have hmay : l.mayRun c = true := by simp [l, TimeoutStep.mayRun, huser]
  have hlate := Timeouts.addTimeout_late hproc hfront le_rfl front.callback { now := c.clock }
  have hmove : timerLoopMove c (.timeouts l) = some _ := timerLoopMove_timeouts.mpr ⟨hmay, _,
    timeoutStep_addTimeout.mpr ⟨PassPoint.userCode_iff.mpr (.inl hout), rfl⟩, rfl⟩
  have hcovered := hadd (.timeouts l) _ rfl
    (by simp [l, TimerLoopStep.SettimeSucceeds, TimerLoopStep.outcome, TimeoutStep.outcome])
    (Option.map_eq_some_iff.mpr ⟨_, hmove, rfl⟩)
  exact absurd hcovered (not_frontCovered hout (hlate.1.trans htimer) hlate.2)

theorem not_rearmed_periodicTimeouts (hout : c.periodicTimeouts.point = .outside)
    (hproc : c.periodicTimeouts.members.processingPeriodicTimeouts = false)
    (htimer : c.timer .periodicTimeouts = {}) {front : PeriodicTimeoutCallback κ}
    (hfront : c.periodicTimeouts.members.periodicTimeouts.head? = some front) :
    ¬ c.RearmedByNextAdd .periodicTimeouts := by
  rintro ⟨huser, hadd⟩
  let l : PeriodicTimeoutStep κ := .addPeriodicTimeout (front.timeout - c.clock) front.callback
    c.clock { now := c.clock }
  have hmay : l.mayRun c = true := by simp [l, PeriodicTimeoutStep.mayRun, huser]
  have hsum : front.timeout ≤ c.clock + (front.timeout - c.clock) := by
    rw [Int.add_comm, Int.sub_add_cancel]
  have hlate := PeriodicTimeouts.addPeriodicTimeout_late hproc hfront hsum front.callback
    { now := c.clock }
  have hmove : timerLoopMove c (.periodicTimeouts l) = some _ :=
    timerLoopMove_periodicTimeouts.mpr ⟨hmay, _, periodicTimeoutStep_addPeriodicTimeout.mpr
      ⟨PassPoint.userCode_iff.mpr (.inl hout), rfl⟩, rfl⟩
  have hcovered := hadd (.periodicTimeouts l) _ rfl
    (by simp [l, TimerLoopStep.SettimeSucceeds, TimerLoopStep.outcome,
      PeriodicTimeoutStep.outcome])
    (Option.map_eq_some_iff.mpr ⟨_, hmove, rfl⟩)
  exact absurd hcovered (not_frontCovered hout (hlate.1.trans htimer) hlate.2)

/-- After an exception of a timeout's callback its queue has a front entry and a disarmed timer. -/
theorem Unbroken.not_passing_of_survive (h : Unbroken c) (hl : c.callbackThrows = some t)
    (ht : TimeoutsSurvive t) : ∀ q, c.passing q = false := by
  cases throws_of_callbackThrows hl with
  | calling rest hp => simp [TimerLoop.passing, hp]
  | timeouts rest p hp hpass =>
    obtain ⟨htimer, hfront⟩ := (h.quiet .timeouts).pass
      (by simp [TimerLoop.view, TimerLoop.passPoint, hpass])
    obtain ⟨deadline, hfront⟩ := Option.ne_none_iff_exists'.mp (hfront p hpass)
    obtain ⟨front, hhead, rfl⟩ := Option.map_eq_some_iff.mp hfront
    have hpoint := h.good.timeouts.point
    rw [hpass] at hpoint
    rcases ht.armed .timeouts with hcovered | hrearmed
    · exact absurd hcovered (not_frontCovered rfl htimer hfront)
    · exact absurd hrearmed (not_rearmed_timeouts rfl hpoint.2.1 htimer hhead)
  | periodicTimeouts rest p hp hpass =>
    obtain ⟨htimer, hfront⟩ := (h.quiet .periodicTimeouts).pass
      (by simp [TimerLoop.view, TimerLoop.passPoint, hpass])
    obtain ⟨deadline, hfront⟩ := Option.ne_none_iff_exists'.mp (hfront p hpass)
    obtain ⟨front, hhead, rfl⟩ := Option.map_eq_some_iff.mp hfront
    have hpoint := h.good.periodicTimeouts
    rw [hpass] at hpoint
    rcases ht.armed .periodicTimeouts with hcovered | hrearmed
    · exact absurd hcovered (not_frontCovered rfl htimer hfront)
    · exact absurd hrearmed (not_rearmed_periodicTimeouts rfl hpoint.2 htimer hhead)

theorem Unbroken.throwingStep (h : Unbroken c) {l : Option (TimerLoopStep κ)}
    (hl : throwingTimerLoopStep c l = some t) (hg : Undisturbed c l)
    (hok : ThrowsOutsidePasses c l) : Unbroken t := by
  cases l with
  | some l =>
    obtain ⟨hsettime, hdefined⟩ := hg l rfl
    exact h.step hl hsettime hdefined
  | none => exact h.callbackThrows hl (hok rfl)

theorem timeoutsSurvive_iff {now : TimeType} {ls : List (Option (TimerLoopStep κ))}
    (hrun : throwingTimerLoopStep.run { clock := now } ls = some c)
    (hg : throwingTimerLoopStep.Along Undisturbed { clock := now } ls) :
    throwingTimerLoopStep.Throughout TimeoutsSurvive { clock := now } ls ↔
      throwingTimerLoopStep.Along ThrowsOutsidePasses { clock := now } ls := by
  have hinv : ∀ (s : TimerLoop κ) l t, Unbroken s → Undisturbed s l → ThrowsOutsidePasses s l →
      throwingTimerLoopStep s l = some t → Unbroken t :=
    fun _ _ _ h hg hok hl => h.throwingStep hl hg hok
  have hstep : ∀ (s : TimerLoop κ) l t, Unbroken s → TimeoutsSurvive s → Undisturbed s l →
      throwingTimerLoopStep s l = some t → (TimeoutsSurvive t ↔ ThrowsOutsidePasses s l) := by
    intro s l t h _ hg hl
    constructor
    · rintro ht rfl
      exact h.not_passing_of_survive hl ht
    · intro hok
      exact (h.throwingStep hl hg hok).survive
  exact Machine.throughout_iff_along_of_guarded hinv hstep hrun hg (unbroken_init now)
    (unbroken_init now).survive

end Timers

/-- **What a throwing callback loses.** In every run no queued callback is lost exactly if none
throws that has others behind it, and the timeouts stay armed, stored and called once exactly if no
callback of a timeout throws. -/
theorem throwing_callbacks_lose_no_work_iff :
    (∀ ls (c : CallbackLoop κ), throwingCallbackStep.run {} ls = some c →
      (throwingCallbackStep.Throughout CallbacksSurvive {} ls ↔
        throwingCallbackStep.Along ThrowsLast {} ls)) ∧
    ∀ now ls (c : TimerLoop κ), throwingTimerLoopStep.run { clock := now } ls = some c →
      throwingTimerLoopStep.Along Undisturbed { clock := now } ls →
      (throwingTimerLoopStep.Throughout TimeoutsSurvive { clock := now } ls ↔
        throwingTimerLoopStep.Along ThrowsOutsidePasses { clock := now } ls) := by
  constructor
  · intro ls c hrun
    exact callbacksSurvive_iff hrun
  · intro now ls c hrun hg
    exact timeoutsSurvive_iff hrun hg

/-- A callback is queued, taken and called. -/
def callOne : List (CallbackStep ℕ) :=
  [.enter (.other 1) 10, .push, .write, .leave, .epollWait true, .read, .lock, .take, .unlock,
    .call]

/-- A timeout for 10 is added, and the handler of another event is called. -/
def callHandler : List (TimerLoopStep ℕ) :=
  [.timeouts (.addTimeout 10 0 { now := 0 }), .epollWait [.other], .dispatch]

/-- The last one of the callbacks throws, and a handler does. -/
theorem throwing_callbacks_lose_no_work_iff_last :
    throwingCallbackStep.Throughout CallbacksSurvive {} (callOne.map some ++ [none]) ∧
    throwingTimerLoopStep.Throughout TimeoutsSurvive { clock := 0 }
      (callHandler.map some ++ [none]) := by
  constructor
  · refine (throwing_callbacks_lose_no_work_iff.1 _ _ rfl).mpr (Machine.along_append
      (Machine.along_of_forall_mem fun s l hl => ?_) rfl ⟨fun _ => rfl, fun _ _ => trivial⟩)
    obtain ⟨l, -, rfl⟩ := List.mem_map.mp hl
    intro hnone
    cases hnone
  · refine (throwing_callbacks_lose_no_work_iff.2 0 _ _ rfl ?_).mpr (Machine.along_append
      (Machine.along_of_forall_mem fun s l hl => ?_) rfl ⟨fun _ => ?_, fun _ _ => trivial⟩)
    · refine Machine.along_of_forall_mem fun s l hl l' hl' => ?_
      rcases List.mem_append.mp hl with hl | hl
      · obtain ⟨l, hl, rfl⟩ := List.mem_map.mp hl
        obtain rfl := Option.some.inj hl'
        revert l
        simp [callHandler, TimerLoopStep.SettimeSucceeds, TimerLoopStep.outcome,
          TimeoutStep.outcome]
      · obtain rfl := List.mem_singleton.mp hl
        cases hl'
    · obtain ⟨l, -, rfl⟩ := List.mem_map.mp hl
      intro hnone
      cases hnone
    · intro q
      rfl

/-- Two callbacks are queued and taken, and the first one throws. `start` is called again. -/
def throwFirstOfTwo : List (Option (CallbackStep ℕ)) :=
  [.enter (.other 1) 10, .push, .write, .leave, .enter (.other 2) 20, .push, .write, .leave,
    .epollWait true, .read, .lock, .take, .unlock, .call].map some ++ [none, some .endBatch]

/-- A timeout for 10 is added, and its callback throws at 10. -/
def throwAtTen : List (Option (TimerLoopStep ℕ)) :=
  [.timeouts (.addTimeout 10 0 { now := 0 }), .tick 10, .epollWait [.timerfd .timeouts], .dispatch,
    .read, .timeouts .iterate].map some ++ [none]

/-- A timeout for 5 is added behind that, and both callbacks are called. -/
def callAgain : List (Option (TimerLoopStep ℕ)) :=
  [.timeouts (.addTimeout 5 1 { now := 10 }), .tick 11, .epollWait [.timerfd .timeouts], .dispatch,
    .read, .timeouts .iterate, .timeouts .callbackReturns, .timeouts .iterate].map some

/-- A callback behind the one that throws is never run. A timeout whose callback throws stays at the
front, no timer is armed for it, and it is called again when another timeout makes the timer
expire. -/
theorem throwing_callback_loses_and_repeats_work :
    (∃ c : CallbackLoop ℕ, throwingCallbackStep.run {} throwFirstOfTwo = some c ∧
      c.phase = .waiting ∧ c.callbacksEventfd = 0 ∧ c.newCallbacks = [] ∧ c.ran = [⟨0, 10⟩] ∧
      c.entered = [⟨0, 10⟩, ⟨1, 20⟩] ∧ ¬ CallbacksSurvive c) ∧
    (∃ c : TimerLoop ℕ, throwingTimerLoopStep.run { clock := 0 } throwAtTen = some c ∧
      c.frontDeadline .timeouts = some 10 ∧ c.timer .timeouts = {} ∧ ¬ TimeoutsSurvive c) ∧
    ∃ c : TimerLoop ℕ,
      throwingTimerLoopStep.run { clock := 0 } (throwAtTen ++ callAgain) = some c ∧
      c.timeouts.history.countP (TimeoutEvent.isCallOf ⟨0⟩) = 2 ∧ ¬ TimeoutsSurvive c := by
  refine ⟨⟨_, rfl, rfl, rfl, rfl, rfl, rfl, fun h => ?_⟩, ⟨_, rfl, rfl, rfl, fun h => ?_⟩,
    _, rfl, rfl, fun h => ?_⟩
  · exact absurd h.kept (by decide)
  · rcases h.armed .timeouts with hcovered | hrearmed
    · exact absurd hcovered (not_frontCovered (q := .timeouts) rfl rfl rfl)
    · exact absurd hrearmed (not_rearmed_timeouts rfl rfl rfl rfl)
  · exact absurd (h.once ⟨0⟩) (by decide)

end Linuxpp.Ioloop
