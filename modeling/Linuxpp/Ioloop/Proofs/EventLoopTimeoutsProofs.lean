import Linuxpp.Ioloop.Proofs.DueTimeoutsProofs
import Linuxpp.Ioloop.Proofs.EventLoopProgressProofs

/-!
# Proofs: no due timeout waits for more than one turn

While the loop waits, the timerfd of a queue with a due entry has an unread expiration, as soon as the
clock has moved since it was armed and has passed the deadline by what the arming was late. So the
turn has its event, and the pass that the event leads to calls what is due.
-/

namespace Linuxpp.Ioloop

open SortedInsert

variable {κ : Type}

section Ticking

variable {c t : TimerLoop κ} {q : TimerQueue}

/-- Every timerfd that is armed is armed for a time to come. -/
def ArmedAhead (c : TimerLoop κ) : Prop :=
  ∀ q, ∀ expiry ∈ (c.timer q).expiry, c.clock < expiry

/-- A pass is in progress only while the loop is in the handler of its timerfd. -/
def PassesInHandlers (c : TimerLoop κ) : Prop :=
  ∀ q, c.passPoint q ≠ .outside → c.passing q = true

/-- The invariant of the runs in which `timerfd_settime` succeeds. -/
structure Ticking (c : TimerLoop κ) : Prop where
  good : TimersGood c
  periodic : IdleOrInPass c.periodicTimeouts
  seated : PassesInHandlers c
  ahead : ArmedAhead c
  covered : ∀ q, c.FrontCovered q

theorem elapse_ahead (timer : MonotonicTimerfd) (now : TimeType) :
    ∀ expiry ∈ (timer.elapse now).expiry, now < expiry := by
  intro expiry hexpiry
  unfold MonotonicTimerfd.elapse at hexpiry
  split_ifs at hexpiry with hany
  · cases hexpiry
  · rw [hexpiry] at hany
    exact Int.not_le.mp fun hle => hany (decide_eq_true hle)

theorem setOneshot_ahead {timer : MonotonicTimerfd} {now : TimeType}
    (h : ∀ expiry ∈ timer.expiry, now < expiry) (deadline : TimeType) {o : SettimeOutcome}
    (harmed : o.armed = now) : ∀ expiry ∈ (timer.setOneshot deadline o).2.expiry, now < expiry := by
  intro expiry hexpiry
  cases ho : o.errno with
  | none =>
    rw [MonotonicTimerfd.setOneshot_of_ok ho] at hexpiry
    obtain rfl := Option.some.inj hexpiry
    rw [harmed]
    exact Int.lt_of_lt_of_le (Int.lt_succ now) (Int.le_max_right _ (now + 1))
  | some errno =>
    rw [MonotonicTimerfd.setOneshot_of_error ho] at hexpiry
    exact h expiry hexpiry

/-- Only a `read` takes the thread behind a `read`. -/
theorem read_of_begun {l : TimerLoopStep κ} (hl : timerLoopMove c l = some t)
    {rest : List LoopEvent} (hpoint : c.point = .reading q rest)
    (hpoint' : t.point = .passing q rest) : l = .read := by
  have hmoved : t.point ≠ c.point := by
    rw [hpoint, hpoint']
    simp
  cases l with
  | read => rfl
  | tick now =>
    obtain ⟨-, rfl⟩ := timerLoopMove_tick.mp hl
    exact absurd rfl hmoved
  | timeouts l =>
    obtain ⟨-, s, -, rfl⟩ := timerLoopMove_timeouts.mp hl
    exact absurd rfl hmoved
  | periodicTimeouts l =>
    obtain ⟨-, s, -, rfl⟩ := timerLoopMove_periodicTimeouts.mp hl
    exact absurd rfl hmoved
  | eraseForeign handle timeouts pending =>
    obtain ⟨-, rfl⟩ := timerLoopMove_eraseForeign.mp hl
    exact absurd rfl hmoved
  | _ => simp [timerLoopMove, hpoint] at hl

theorem ArmedAhead.move (h : ArmedAhead c) (hg : TimersGood c) {l : TimerLoopStep κ}
    (hl : timerLoopMove c l = some t) : ArmedAhead t := by
  intro q
  by_cases hread : l = .read
  · subst hread
    obtain ⟨q', rest, s, hp, -, hs, rfl⟩ := timerLoopMove_read hl
    have hkept : s.clock = c.clock ∧ (s.timer q).expiry = (c.timer q).expiry := by
      cases q' with
      | timeouts =>
        obtain ⟨u, hu, rfl⟩ := Option.map_eq_some_iff.mp hs
        obtain ⟨-, rfl⟩ := timeoutStep_processTimeouts.mp hu
        cases q <;> exact ⟨rfl, rfl⟩
      | periodicTimeouts =>
        obtain ⟨u, hu, rfl⟩ := Option.map_eq_some_iff.mp hs
        obtain ⟨-, rfl⟩ := periodicTimeoutStep_processPeriodicTimeouts.mp hu
        cases q <;> exact ⟨rfl, rfl⟩
    intro expiry hexpiry
    show s.clock < expiry
    rw [hkept.1]
    refine h q expiry ?_
    rw [← hkept.2]
    cases q <;> exact hexpiry
  · cases loopStep_of_move hg hl q with
    | queue hstep hclock hnow hdue =>
      rw [hclock]
      cases hstep with
      | kept harms htimer hfront =>
        have htimer : t.timer q = c.timer q := htimer
        rw [htimer]
        exact h q
      | armed deadline o harms ho htimer hfront =>
        have htimer : t.timer q = ((c.timer q).setOneshot deadline o).2 := htimer
        rw [htimer]
        exact setOneshot_ahead (h q) deadline (SettimeOutcome.madeAt_iff.mp (hnow o ho)).2
    | elapsed harms hle hview =>
      have htimer : t.timer q = (c.timer q).elapse t.clock := congrArg QueueView.timer hview
      rw [htimer]
      exact elapse_ahead _ _
    | begun rest harms hout hpoint hpoint' =>
      exact absurd (read_of_begun hl hpoint hpoint') hread

theorem PassesInHandlers.move (h : PassesInHandlers c) {l : TimerLoopStep κ}
    (hl : timerLoopMove c l = some t) (hforeign : l.isForeign = false) : PassesInHandlers t := by
  intro q hin
  by_cases hout : c.passPoint q = .outside
  · -- the pass has begun in this step
    have hbegun : l = .read ∧ ∃ rest, c.point = .reading q rest := by
      cases q with
      | timeouts =>
        rcases timeouts_of_move hl with ⟨timer, heq⟩ | ⟨k, hk, hread⟩
        · refine absurd ?_ hin
          show t.timeouts.point = .outside
          rw [heq]
          exact hout
        · by_contra hnot
          refine hin (timeoutStep_outside (fun now heq => hnot ?_) hk hout)
          exact ⟨(hread now heq).1, (hread now heq).2.1⟩
      | periodicTimeouts =>
        rcases periodicTimeouts_of_move hl hforeign with ⟨timer, heq⟩ | ⟨k, hk, hread⟩
        · refine absurd ?_ hin
          show t.periodicTimeouts.point = .outside
          rw [heq]
          exact hout
        · by_contra hnot
          refine hin (periodicTimeoutStep_outside (fun now heq => hnot ?_) hk hout)
          exact ⟨(hread now heq).1, (hread now heq).2.1⟩
    obtain ⟨rfl, rest, hp⟩ := hbegun
    obtain ⟨q', rest', s, hp', -, -, rfl⟩ := timerLoopMove_read hl
    rw [hp] at hp'
    obtain ⟨rfl, rfl⟩ := LoopPoint.reading.inj hp'
    exact decide_eq_true rfl
  · exact (passing_of_move hl (h q hout)).resolve_right hout

theorem IdleOrInPass.withTimer {c : PeriodicTimeoutLoop κ} (h : IdleOrInPass c)
    (timer : MonotonicTimerfd) : IdleOrInPass { c with
      members := { c.members with periodicTimeoutTimerfd := timer } } := by
  rcases h with h | ⟨c₀, now, evs, h⟩
  · obtain ⟨hpoint, hsorted, hdistinct, hmade, hflags, hproc, hpending⟩ := h
    exact .inl ⟨hpoint, hsorted, hdistinct, hmade, hflags, hproc, hpending⟩
  · obtain ⟨hidle, hhistory, htimeouts, hpending, hdistinct, hmade, hflags, hproc, hwalk⟩ := h
    exact .inr ⟨c₀, now, evs,
      ⟨hidle, hhistory, htimeouts, hpending, hdistinct, hmade, hflags, hproc, hwalk⟩⟩

theorem ticking_init (now : TimeType) : Ticking ({ clock := now } : TimerLoop κ) where
  good := timersGood_init now
  periodic := .inl idle_init
  seated q hin := by
    cases q <;> exact absurd rfl hin
  ahead q expiry hexpiry := by
    cases q <;> cases hexpiry
  covered q _ deadline hd := by
    cases q <;> cases hd

theorem Ticking.step (h : Ticking c) {l : TimerLoopStep κ} (hl : timerLoopStep c l = some t)
    (hforeign : l.isForeign = false) (hok : l.SettimeSucceeds) : Ticking t := by
  have hgood := h.good.step hl
  have hcovered := fun q => FrontCovered.step (h.covered q) h.good hl hok
  obtain ⟨s, hs, rfl⟩ := Option.map_eq_some_iff.mp hl
  have hseated := h.seated.move hs hforeign
  have hahead := h.ahead.move h.good hs
  refine ⟨hgood, ?_, fun q => ?_, fun q => ?_, hcovered⟩
  · show IdleOrInPass s.periodicTimeouts
    rcases periodicTimeouts_of_move hs hforeign with ⟨timer, heq⟩ | ⟨k, hk, -⟩
    · rw [heq]
      exact h.periodic.withTimer timer
    · exact h.periodic.step hk
  · cases q
    · exact hseated .timeouts
    · exact hseated .periodicTimeouts
  · cases q
    · exact hahead .timeouts
    · exact hahead .periodicTimeouts

/-- While no pass of the queue is in progress and something in it is due, its timerfd has an unread
expiration, if the clock has gone on for long enough since the timerfd was armed. -/
theorem Ticking.unread (h : Ticking c) (hout : c.passPoint q = .outside) {deadline : TimeType}
    (hfront : deadline ∈ c.frontDeadline q) (hdue : deadline ≤ c.clock)
    (hclock : c.OutwaitsArming q) : (c.timer q).unread = true := by
  rcases h.covered q hout deadline hfront with hunread | ⟨expiry, hexpiry, hle⟩
  · exact hunread
  · have hlt := h.ahead q expiry hexpiry
    obtain ⟨hmoved, hlate⟩ := hclock deadline hfront hdue
    have hmax : max (deadline + (c.armedBy q).delay) ((c.armedBy q).armed + 1) ≤ c.clock :=
      Int.max_le.mpr ⟨hlate, hmoved⟩
    exact absurd (Int.le_trans hle hmax) (Int.not_le.mpr hlt)

end Ticking

section Turns

variable {c t : EventLoop κ} {own : OwnFds} {clock : TimeType} {ls ks : List (EventLoopStep κ)}
  {q : TimerQueue}

/-- The loop takes no undefined step. -/
theorem defined_of_mayRunIn {k : TimerLoopStep κ} (h : k.mayRunIn c = true) :
    k.isForeign = false := by
  cases k with
  | eraseForeign handle timeouts pending => cases h
  | _ => rfl

theorem defined_of_isMove {k : TimerLoopStep κ} (h : k.isMove = true) :
    k.isForeign = false ∧ k.SettimeSucceeds := by
  cases k with
  | tick now => cases h
  | timeouts l => cases h
  | periodicTimeouts l => cases h
  | eraseForeign handle timeouts pending => cases h
  | _ => exact ⟨rfl, fun o ho => by cases ho⟩

theorem ticking_of_run (hrun : eventLoopStep.run (EventLoop.construct κ own clock) ls = some c)
    (hthrows : .throws ∉ ls) (hok : ∀ l, .timers l ∈ ls → l.SettimeSucceeds) :
    Ticking c.timerView := by
  obtain ⟨ks, hks, halong⟩ := timerView_of_run
    (fun _ k => k.isForeign = false ∧ k.SettimeSucceeds) hrun (Located.construct own clock) hthrows
    (fun _ _ hmove => defined_of_isMove hmove) (Machine.along_of_forall_mem fun s l hl k heq hmay =>
      ⟨defined_of_mayRunIn hmay, hok k (heq ▸ hl)⟩)
  exact Machine.run_invariant_along (fun _ _ _ h hok hl => h.step hl hok.1 hok.2) hks halong
    (ticking_init clock)

/-- What is served when a turn begins is answered when it is over. -/
theorem answered_of_turn {x : Fate κ} {Inv : TimerLoop κ → Prop} (hx : x.Sound q Inv)
    (hinv : ∀ v k v', Inv v → timerLoopStep v k = some v' → Inv v') (hlocated : Located c)
    (hturn : eventLoopStep.run c ks = some t) (hthrows : .throws ∉ ks) (hends : .prune ∈ ks)
    (hc : Inv c.timerView) (hserved : x.Served q c.timerView) : x.answered t.timerView := by
  have hview : ∀ {s u : EventLoop κ} {ls : List (EventLoopStep κ)},
      eventLoopStep.run s ls = some u → Located s → .throws ∉ ls →
      ∃ ks, timerLoopStep.run s.timerView ks = some u.timerView ∧
        timerLoopStep.Along (fun _ k => k.isForeign = false) s.timerView ks :=
    fun hrun hs hthrows => timerView_of_run _ hrun hs hthrows
      (fun _ _ hmove => (defined_of_isMove hmove).1)
      (Machine.along_of_forall_mem fun _ _ _ _ _ hmay => defined_of_mayRunIn hmay)
  obtain ⟨before, after, s, s', rfl, hbefore, hafter, hprune, hnext⟩ := cut_at_prune hturn hends
  have hruns : eventLoopStep.run c (before ++ [.prune]) = some s' :=
    Machine.run_append_eq_some.mpr ⟨s, hbefore, (Machine.run_singleton _ _).trans hprune⟩
  have hthrows' : .throws ∉ before ++ [.prune] := by
    intro h
    rcases List.mem_append.mp h with h | h
    · exact hthrows (List.mem_append_left _ h)
    · cases List.mem_singleton.mp h
  have hanswered : x.answered s'.timerView := by
    obtain ⟨ks, hks, halong⟩ := hview hruns hlocated hthrows'
    have hstep : ∀ v k v', Inv v ∧ x.Served q v → k.isForeign = false →
        timerLoopStep v k = some v' → Inv v' ∧ x.Served q v' :=
      fun v k v' h hforeign hk => ⟨hinv v k v' h.1 hk, h.2.step hx h.1 hk hforeign⟩
    have hidle : s'.timerView.point = .idle := by
      rcases hnext with hnext | hnext <;> exact loopPoint_eq hnext
    cases (Machine.run_invariant_along hstep hks halong ⟨hc, hserved⟩).2 with
    | reported hdue hwaits =>
      rw [hidle] at hdue
      cases hdue
    | passing hpass hturn =>
      unfold TimerLoop.passing at hpass
      rw [hidle] at hpass
      cases hpass
    | answered hanswered => exact hanswered
  have hslocated := Machine.run_invariant (fun _ _ _ h hl => Located.step h hl) hruns hlocated
  obtain ⟨ks, hks, halong⟩ := hview hafter hslocated fun h =>
    hthrows (List.mem_append_right _ (List.mem_cons_of_mem _ h))
  exact Machine.run_invariant_along
    (fun v k v' h hforeign hk => hx.answered v k v' h hk hforeign) hks halong hanswered

/-- The batch of a turn has the event of a timerfd that was reported. -/
theorem due_of_begin {reports : List (Int × UInt32)}
    (hwait : eventLoopStep c (.epollWait reports) = some t)
    (hreported : c.own.fd q.function ∈ reports.map Prod.fst) :
    .timerfd q ∈ t.timerView.point.due := by
  obtain ⟨-, -, hloc, -⟩ := begin_turn hwait
  rw [loopPoint_eq hloc]
  obtain ⟨report, hreport, hfd⟩ := List.mem_map.mp hreported
  refine List.mem_map.mpr ⟨_, List.mem_map_of_mem hreport, ?_⟩
  have hown := EventLoop.own_of_step hwait
  rw [loopEvent_eq, hown, OwnFds.function_eq_some, ← hfd]
  rfl

/-- In a sorted queue the front is no later than any entry. -/
theorem front_le {ε : Type} {key : ε → TimeType} {xs : List ε} {x : ε} (h : SortedBy key xs)
    (hx : x ∈ xs) : ∃ front ∈ xs.head?.map key, front ≤ key x := by
  cases xs with
  | nil => cases hx
  | cons y ys =>
    refine ⟨key y, rfl, ?_⟩
    rcases List.mem_cons.mp hx with rfl | hx
    · exact Int.le_refl _
    · exact List.rel_of_pairwise_cons h hx

/-- **No due timeout waits for more than one turn.** Let `timerfd_settime` succeed and nothing be
thrown. Let the loop wait in `epoll_wait`, and the clock have outwaited the arming of the timerfd of
the queue, and let the wait report this timerfd if it is readable. Then every timeout of the queue
that was due has been called or removed when the turn is over, whatever else the batch, other threads
and the clock do in between. -/
theorem due_timeouts_run_within_a_turn
    (hrun : eventLoopStep.run (EventLoop.construct κ own clock) ls = some c)
    (hsettime : ∀ l, .timers l ∈ ls → l.SettimeSucceeds) (hclock : c.timerView.OutwaitsArming q)
    {reports : List (Int × UInt32)} (hreported : c.readable q.function = true →
      own.fd q.function ∈ reports.map Prod.fst)
    (hturn : eventLoopStep.run c (.epollWait reports :: ks) = some t)
    (hthrows : .throws ∉ ls ++ ks) (hends : .prune ∈ ks) : c.timerView.AnswersDue t.timerView q := by
  obtain ⟨hthrows, hthrows'⟩ := not_or.mp fun h => hthrows (List.mem_append.mpr h)
  have hown : own = c.own := (own_of_run hrun).symm
  have hc := ticking_of_run hrun hthrows hsettime
  have hlocated := located_of_run hrun
  obtain ⟨u, hwait, hturn⟩ := Machine.run_cons_eq_some.mp hturn
  obtain ⟨hloc, -, -, -, htimeouts, hperiodic, hu⟩ := begin_turn hwait
  have hout : c.timerView.passPoint q = .outside := by
    by_contra hin
    have hpass := hc.seated q hin
    unfold TimerLoop.passing at hpass
    rw [loopPoint_eq hloc] at hpass
    cases hpass
  have hdue : ∀ deadline ∈ c.timerView.frontDeadline q, deadline ≤ c.clock →
      .timerfd q ∈ u.timerView.point.due := by
    intro deadline hfront hle
    have hunread := hc.unread hout hfront hle hclock
    have hready : c.readable q.function = true := by cases q <;> exact hunread
    exact due_of_begin hwait (hown ▸ hreported hready)
  cases q with
  | timeouts =>
    intro e he hle
    obtain ⟨front, hfront, hmin⟩ := front_le hc.good.timeouts.sorted he
    refine answered_of_turn (oneshotFate_sound c.timeouts.history.length e)
      (fun _ _ _ h hl => h.step hl) (hlocated.step hwait) hturn hthrows' hends ?_
      (.reported (hdue front hfront (Int.le_trans hmin hle)) ?_)
    · constructor
      · show Good u.timeouts
        rw [htimeouts]
        exact hc.good.timeouts
      · show PeriodicAtPoint u.periodicTimeouts.members u.periodicTimeouts.point
        rw [hperiodic]
        exact hc.good.periodicTimeouts
    · show Waits _ e u.timeouts ∧ e.timeout ≤ u.clock
      rw [htimeouts, hu]
      exact ⟨⟨hout, he, Nat.le_refl _⟩, hle⟩
  | periodicTimeouts =>
    intro e he hle
    have hidle : Idle c.periodicTimeouts := by
      rcases hc.periodic with hidle | ⟨c₀, now, evs, hin⟩
      · exact hidle
      · have hwalk := hin.walk
        rw [show c.timerView.periodicTimeouts.point = .outside from hout] at hwalk
        exact hwalk.elim
    obtain ⟨front, hfront, hmin⟩ := front_le hidle.sorted he
    refine answered_of_turn (periodicFate_sound c.periodicTimeouts.history.length e)
      (fun _ _ _ _ _ => trivial) (hlocated.step hwait) hturn hthrows' hends trivial
      (.reported (hdue front hfront (Int.le_trans hmin hle)) ?_)
    show PeriodicWaits _ e u.periodicTimeouts ∧ e.timeout ≤ u.clock
    rw [hperiodic, hu]
    exact ⟨⟨hidle, he, Nat.le_refl _⟩, hle⟩

/-- Two timeouts are added, one of each kind, and the clock passes both before `start`. -/
def addBothThenWait : List (EventLoopStep ℕ) :=
  [.timers (.timeouts (.addTimeout 7 20 { now := 0 })),
    .timers (.periodicTimeouts (.addPeriodicTimeout 5 30 0 { now := 0 })), .timers (.tick 8), .start,
    .setKeepRunning, .testKeepRunning]

/-- A turn with the event of the one-shot timerfd. -/
def callOneshot : List (EventLoopStep ℕ) :=
  [.dispatch, .readTimerfd, .timers (.timeouts .iterate), .timers (.timeouts .callbackReturns),
    .timers (.timeouts .iterate), .timers (.timeouts (.finish { now := 8 })), .handlerReturns, .prune]

theorem due_timeouts_run_within_a_turn_seven : ∃ c t,
    eventLoopStep.run (EventLoop.construct ℕ firstFds 0) addBothThenWait = some c ∧
      c.timeouts.members.timeouts = [⟨⟨0⟩, 7, 20, false⟩] ∧
      eventLoopStep.run c (.epollWait [(5, 1)] :: callOneshot) = some t ∧
      c.timerView.AnswersDue t.timerView .timeouts := by
  obtain ⟨c, hrun, htimeouts, hfront, harmed, hclock⟩ : ∃ c,
      eventLoopStep.run (EventLoop.construct ℕ firstFds 0) addBothThenWait = some c ∧
        c.timeouts.members.timeouts = [⟨⟨0⟩, 7, 20, false⟩] ∧
        c.timerView.frontDeadline .timeouts = some 7 ∧
        c.timerView.armedBy .timeouts = { now := 0 } ∧ c.timerView.clock = 8 :=
    ⟨_, rfl, rfl, rfl, rfl, rfl⟩
  have hboth : eventLoopStep.run (EventLoop.construct ℕ firstFds 0)
      (addBothThenWait ++ .epollWait [(5, 1)] :: callOneshot) = some _ := rfl
  obtain ⟨c', hc, hturn⟩ := Machine.run_append_eq_some.mp hboth
  obtain rfl := Option.some.inj (hrun.symm.trans hc)
  refine ⟨_, _, hrun, htimeouts, hturn, due_timeouts_run_within_a_turn hrun ?_ ?_
    (fun _ => by decide) hturn ?_ ?_⟩
  · intro l hl
    simp only [addBothThenWait, List.mem_cons, EventLoopStep.timers.injEq, List.not_mem_nil,
      or_false, reduceCtorEq] at hl
    rcases hl with rfl | rfl | rfl <;> decide
  · intro deadline hdeadline _
    obtain rfl : 7 = deadline := Option.some.inj (hfront.symm.trans hdeadline)
    rw [harmed, hclock]
    decide
  · simp [addBothThenWait, callOneshot]
  · simp [callOneshot]

end Turns

end Linuxpp.Ioloop
