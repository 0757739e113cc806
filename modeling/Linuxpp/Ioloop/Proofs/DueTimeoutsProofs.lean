import Linuxpp.Ioloop.Proofs.EventLoopTurnsProofs
import Linuxpp.Ioloop.Proofs.PeriodicGuaranteesProofs
import Linuxpp.Ioloop.Proofs.TimeoutPassProofs

/-!
# Proofs: what is due is called within a turn

An entry that is due waits for the pass of its queue, then for its turn in the pass, and then it has
been called or removed. A pass reads the clock behind its timerfd, so what was due when the turn
began is due for the pass.
-/

namespace Linuxpp.Ioloop

open SortedInsert DueWalk

variable {κ : Type}

section Oneshot

variable {c c₀ t : TimeoutLoop κ} {n : ℕ} {now : TimeType} {e : TimeoutCallback κ}
  {evs : List (TimeoutEvent κ)}

/-- The entry was called or removed behind the first `n` events. -/
def Answered (n : ℕ) (e : TimeoutCallback κ) (c : TimeoutLoop κ) : Prop :=
  (∃ now, .called now e ∈ c.history.drop n) ∨ .removed e.handle ∈ c.history.drop n

/-- The entry is stored, and no pass is in progress. -/
structure Waits (n : ℕ) (e : TimeoutCallback κ) (c : TimeoutLoop κ) : Prop where
  outside : c.point = .outside
  stored : e ∈ c.members.timeouts
  since : n ≤ c.history.length

/-- A pass is in progress for which the entry is due. -/
structure InTurn (n : ℕ) (e : TimeoutCallback κ) (c : TimeoutLoop κ) (c₀ : TimeoutLoop κ)
    (now : TimeType) (evs : List (TimeoutEvent κ)) : Prop where
  pass : InPass c₀ now evs c
  begun : c₀.point = .outside
  good : Good c₀
  stored : e ∈ c₀.members.timeouts
  due : e.timeout ≤ now
  since : n ≤ c₀.history.length

theorem mem_drop_mono {α : Type} {xs ys : List α} {x : α} {n : ℕ} (h : xs <+: ys)
    (hx : x ∈ xs.drop n) : x ∈ ys.drop n := by
  obtain ⟨zs, rfl⟩ := h
  rw [List.drop_append]
  exact List.mem_append_left _ hx

theorem mem_drop_concat {α : Type} {xs : List α} {n : ℕ} (h : n ≤ xs.length) (x : α) :
    x ∈ (xs ++ [x]).drop n := by
  rw [List.drop_append_of_le_length h]
  exact List.mem_append_right _ List.mem_cons_self

/-- The history only grows. -/
theorem history_prefix {l : TimeoutStep κ} (hl : timeoutStep c l = some t) :
    c.history <+: t.history := by
  cases l with
  | addTimeout timeout callback o =>
    obtain ⟨-, rfl⟩ := timeoutStep_addTimeout.mp hl
    exact List.prefix_append _ _
  | removeTimeout handle =>
    obtain ⟨-, rfl⟩ := timeoutStep_removeTimeout.mp hl
    exact List.prefix_append _ _
  | timeoutHandle =>
    obtain ⟨-, rfl⟩ := timeoutStep_timeoutHandle.mp hl
    exact List.prefix_rfl
  | processTimeouts now =>
    obtain ⟨-, rfl⟩ := timeoutStep_processTimeouts.mp hl
    exact List.prefix_rfl
  | iterate =>
    obtain ⟨p, -, rfl⟩ := timeoutStep_iterate.mp hl
    have hit := iterates c p
    generalize iteration c p = t at hit ⊢
    cases hit with
    | call e he hflag hdue => exact List.prefix_append _ _
    | _ => exact List.prefix_rfl
  | callbackReturns =>
    obtain ⟨p, -, rfl⟩ := timeoutStep_callbackReturns.mp hl
    exact List.prefix_rfl
  | finish o =>
    obtain ⟨p, -, rfl⟩ := timeoutStep_finish.mp hl
    exact List.prefix_rfl

theorem Answered.step (h : Answered n e c) {l : TimeoutStep κ} (hl : timeoutStep c l = some t) :
    Answered n e t := by
  have hprefix := history_prefix hl
  rcases h with ⟨now, hcalled⟩ | hremoved
  · exact .inl ⟨now, mem_drop_mono hprefix hcalled⟩
  · exact .inr (mem_drop_mono hprefix hremoved)

/-- Outside of passes an entry stays stored until it is removed. -/
theorem Waits.step (h : Waits n e c) (hg : Good c) {l : TimeoutStep κ}
    (hl : timeoutStep c l = some t) (hne : ∀ now, l ≠ .processTimeouts now) :
    Waits n e t ∨ Answered n e t := by
  have hpoint := hg.point
  rw [h.outside] at hpoint
  obtain ⟨hproc, -, -⟩ := hpoint
  have hlen : ∀ ev, n ≤ (c.history ++ [ev]).length := by
    intro ev
    rw [List.length_append]
    exact Nat.le_trans h.since (Nat.le_add_right _ _)
  cases l with
  | addTimeout timeout callback o =>
    obtain ⟨-, rfl⟩ := timeoutStep_addTimeout.mp hl
    obtain ⟨timer, ht⟩ := c.members.addTimeout_members timeout callback o
    refine .inl ⟨h.outside, ?_, hlen _⟩
    rw [ht]
    simp only [hproc, Bool.false_eq_true, if_false, mem_insertLower]
    exact .inr h.stored
  | removeTimeout handle =>
    obtain ⟨-, rfl⟩ := timeoutStep_removeTimeout.mp hl
    by_cases hhandle : e.handle = handle
    · refine .inr (.inr ?_)
      rw [hhandle]
      exact mem_drop_concat h.since _
    · refine .inl ⟨h.outside, ?_, hlen _⟩
      rw [Timeouts.removeTimeout_members hg.distinct]
      simp only [hproc, Bool.false_eq_true, if_false]
      exact List.mem_filter.mpr ⟨h.stored, decide_eq_true hhandle⟩
  | timeoutHandle =>
    obtain ⟨-, rfl⟩ := timeoutStep_timeoutHandle.mp hl
    exact .inl ⟨h.outside, h.stored, h.since⟩
  | processTimeouts now => exact absurd rfl (hne now)
  | iterate =>
    obtain ⟨p, hp, -⟩ := timeoutStep_iterate.mp hl
    rw [h.outside] at hp
    cases hp
  | callbackReturns =>
    obtain ⟨p, hp, -⟩ := timeoutStep_callbackReturns.mp hl
    rw [h.outside] at hp
    cases hp
  | finish o =>
    obtain ⟨p, hp, -⟩ := timeoutStep_finish.mp hl
    rw [h.outside] at hp
    cases hp

/-- The pass that begins when the entry is due is one in which it has its turn. -/
theorem Waits.begin (h : Waits n e c) (hg : Good c) (hdue : e.timeout ≤ now)
    (hl : timeoutStep c (.processTimeouts now) = some t) : InTurn n e t c now [] := by
  obtain ⟨-, rfl⟩ := timeoutStep_processTimeouts.mp hl
  exact ⟨InPass.begin hg h.outside now, h.outside, hg, h.stored, hdue, h.since⟩

theorem InTurn.inside (h : InTurn n e c c₀ now evs) : c.point ≠ .outside := by
  intro hout
  have hpoint := h.pass.point
  rw [hout] at hpoint
  exact hpoint

/-- Behind the loop of the pass, the entry has had its turn: the list being sorted, the loop does not
stop before it. -/
theorem InTurn.turned (h : InTurn n e c c₀ now evs) {p : Pass} (hp : c.point = .done p) :
    .called now e ∈ evs ∨ .removed e.handle ∈ evs := by
  have hpoint := h.pass.point
  rw [hp] at hpoint
  obtain ⟨i, hwalk, hover⟩ := hpoint.over
  obtain ⟨k, hk⟩ := List.mem_iff_getElem?.mp h.stored
  have hexactly := hwalk.callsExactlyDue h.good.sorted hover
  rcases hexactly.complete k e hk h.due with hcalled | hremoved
  · obtain ⟨now', hcalled⟩ := TimeoutEvent.called_mem_walk.mp hcalled
    obtain rfl := h.pass.clock now' e hcalled
    exact .inl hcalled
  · exact .inr (TimeoutEvent.removed_mem_walk.mp hremoved.mem)

/-- The entry has its turn before the pass is over. -/
theorem InTurn.step (h : InTurn n e c c₀ now evs) (hg : Good c) {l : TimeoutStep κ}
    (hl : timeoutStep c l = some t) : (∃ evs', InTurn n e t c₀ now evs') ∨ Answered n e t := by
  by_cases hlast : ∃ o, l = .finish o
  · obtain ⟨o, rfl⟩ := hlast
    obtain ⟨p, hp, rfl⟩ := timeoutStep_finish.mp hl
    refine .inr ?_
    have hdrop : ∀ ev ∈ evs, ev ∈ c.history.drop n := by
      intro ev hev
      rw [h.pass.history, List.drop_append_of_le_length h.since]
      exact List.mem_append_right _ hev
    exact (h.turned hp).imp (fun hcalled => ⟨now, hdrop _ hcalled⟩) (hdrop _)
  · have hne : ∀ o, l ≠ .finish o := fun o heq => hlast ⟨o, heq⟩
    obtain ⟨evs', hpass⟩ := h.pass.step (h.good.unflagged_outside h.begun) hg hl hne
    exact .inl ⟨evs', { h with pass := hpass }⟩

end Oneshot

section Periodic

variable {c c₀ t : PeriodicTimeoutLoop κ} {n : ℕ} {now : TimeType} {e : PeriodicTimeoutCallback κ}
  {evs : List (PeriodicTimeoutEvent κ)}

/-- The entry was called or removed behind the first `n` events. -/
def PeriodicAnswered (n : ℕ) (e : PeriodicTimeoutCallback κ) (c : PeriodicTimeoutLoop κ) : Prop :=
  .called e ∈ c.history.drop n ∨ .removed e.handle ∈ c.history.drop n

/-- The entry is stored, and no pass is in progress. -/
structure PeriodicWaits (n : ℕ) (e : PeriodicTimeoutCallback κ) (c : PeriodicTimeoutLoop κ) :
    Prop where
  idle : Idle c
  stored : e ∈ c.members.periodicTimeouts
  since : n ≤ c.history.length

/-- A pass is in progress for which the entry is due. -/
structure InPeriodicTurn (n : ℕ) (e : PeriodicTimeoutCallback κ) (c c₀ : PeriodicTimeoutLoop κ)
    (now : TimeType) (evs : List (PeriodicTimeoutEvent κ)) : Prop where
  pass : InPeriodicPass c₀ now evs c
  stored : e ∈ c₀.members.periodicTimeouts
  due : e.timeout ≤ now
  since : n ≤ c₀.history.length

theorem periodicHistory_prefix {l : PeriodicTimeoutStep κ}
    (hl : periodicTimeoutStep c l = some t) : c.history <+: t.history := by
  cases l with
  | addPeriodicTimeout period callback now o =>
    obtain ⟨-, rfl⟩ := periodicTimeoutStep_addPeriodicTimeout.mp hl
    exact List.prefix_append _ _
  | removeTimeout handle =>
    obtain ⟨-, members, -, rfl⟩ := periodicTimeoutStep_removeTimeout.mp hl
    exact List.prefix_append _ _
  | periodicTimeoutHandle =>
    obtain ⟨-, rfl⟩ := periodicTimeoutStep_periodicTimeoutHandle.mp hl
    exact List.prefix_rfl
  | processPeriodicTimeouts now =>
    obtain ⟨-, rfl⟩ := periodicTimeoutStep_processPeriodicTimeouts.mp hl
    exact List.prefix_rfl
  | iterate =>
    obtain ⟨p, -, rfl⟩ := periodicTimeoutStep_iterate.mp hl
    have hit := periodicIterates c p
    generalize periodicIteration c p = t at hit ⊢
    cases hit with
    | call e he hflag hdue => exact List.prefix_append _ _
    | _ => exact List.prefix_rfl
  | callbackReturns =>
    obtain ⟨p, -, rfl⟩ := periodicTimeoutStep_callbackReturns.mp hl
    exact List.prefix_rfl
  | finish now order o =>
    obtain ⟨p, -, -, rfl⟩ := periodicTimeoutStep_finish.mp hl
    exact List.prefix_rfl

theorem PeriodicAnswered.step (h : PeriodicAnswered n e c) {l : PeriodicTimeoutStep κ}
    (hl : periodicTimeoutStep c l = some t) : PeriodicAnswered n e t := by
  have hprefix := periodicHistory_prefix hl
  exact h.imp (mem_drop_mono hprefix) (mem_drop_mono hprefix)

/-- Outside of passes an entry stays stored until it is removed. -/
theorem PeriodicWaits.step (h : PeriodicWaits n e c) {l : PeriodicTimeoutStep κ}
    (hl : periodicTimeoutStep c l = some t) (hne : ∀ now, l ≠ .processPeriodicTimeouts now) :
    PeriodicWaits n e t ∨ PeriodicAnswered n e t := by
  have hlen : ∀ ev, n ≤ (c.history ++ [ev]).length := by
    intro ev
    rw [List.length_append]
    exact Nat.le_trans h.since (Nat.le_add_right _ _)
  have hout := h.idle.point
  cases l with
  | addPeriodicTimeout period callback now o =>
    obtain ⟨-, rfl⟩ := periodicTimeoutStep_addPeriodicTimeout.mp hl
    refine .inl ⟨h.idle.addPeriodicTimeout period callback now o _, ?_, hlen _⟩
    obtain ⟨timer, ht⟩ := c.members.addPeriodicTimeout_members period callback now o
    rw [ht]
    simp only [h.idle.processing, Bool.false_eq_true, if_false, mem_insertLower]
    exact .inr h.stored
  | removeTimeout handle =>
    obtain ⟨-, members, hremove, rfl⟩ := periodicTimeoutStep_removeTimeout.mp hl
    by_cases hhandle : e.handle = handle
    · refine .inr (.inr ?_)
      rw [hhandle]
      exact mem_drop_concat h.since _
    · refine .inl ⟨h.idle.removeTimeout hremove _, ?_, hlen _⟩
      rw [PeriodicTimeouts.removeTimeout_members h.idle.handles_nodup hremove]
      simp only [h.idle.processing, Bool.false_eq_true, if_false]
      exact List.mem_filter.mpr ⟨h.stored, decide_eq_true hhandle⟩
  | periodicTimeoutHandle =>
    obtain ⟨-, rfl⟩ := periodicTimeoutStep_periodicTimeoutHandle.mp hl
    have hidle := h.idle
    exact .inl ⟨{ hidle with made := fun e he => Nat.lt_succ_of_lt (hidle.made e he) }, h.stored,
      h.since⟩
  | processPeriodicTimeouts now => exact absurd rfl (hne now)
  | iterate =>
    obtain ⟨p, hp, -⟩ := periodicTimeoutStep_iterate.mp hl
    rw [hout] at hp
    cases hp
  | callbackReturns =>
    obtain ⟨p, hp, -⟩ := periodicTimeoutStep_callbackReturns.mp hl
    rw [hout] at hp
    cases hp
  | finish now order o =>
    obtain ⟨p, hp, -⟩ := periodicTimeoutStep_finish.mp hl
    rw [hout] at hp
    cases hp

/-- The pass that begins when the entry is due is one in which it has its turn. -/
theorem PeriodicWaits.begin (h : PeriodicWaits n e c) (hdue : e.timeout ≤ now)
    (hl : periodicTimeoutStep c (.processPeriodicTimeouts now) = some t) :
    InPeriodicTurn n e t c now [] := by
  obtain ⟨-, rfl⟩ := periodicTimeoutStep_processPeriodicTimeouts.mp hl
  exact ⟨h.idle.beginPass now, h.stored, hdue, h.since⟩

theorem InPeriodicTurn.inside (h : InPeriodicTurn n e c c₀ now evs) : c.point ≠ .outside := by
  intro hout
  have hwalk := h.pass.walk
  rw [hout] at hwalk
  exact hwalk

/-- Behind the loop of the pass, the entry has had its turn. -/
theorem InPeriodicTurn.turned (h : InPeriodicTurn n e c c₀ now evs) {p : Pass}
    (hp : c.point = .done p) : .called e ∈ evs ∨ .removed e.handle ∈ evs := by
  have hwalk := h.pass.walk
  rw [hp] at hwalk
  obtain ⟨-, hwalk, hover⟩ := hwalk
  have hexactly := hwalk.callsExactlyDue h.pass.idle.sorted hover
  obtain ⟨k, hk, rfl⟩ := List.mem_iff_getElem.mp h.stored
  rcases hexactly.complete k _ (List.getElem?_eq_getElem hk) h.due with hcalled | hremoved
  · exact .inl (mem_calls.mp hcalled)
  · exact .inr (mem_removals.mp hremoved.mem)

/-- The entry has its turn before the pass is over. -/
theorem InPeriodicTurn.step (h : InPeriodicTurn n e c c₀ now evs) {l : PeriodicTimeoutStep κ}
    (hl : periodicTimeoutStep c l = some t) :
    (∃ evs', InPeriodicTurn n e t c₀ now evs') ∨ PeriodicAnswered n e t := by
  by_cases hlast : ∃ now order o, l = .finish now order o
  · obtain ⟨now', order, o, rfl⟩ := hlast
    obtain ⟨p, hp, -, rfl⟩ := periodicTimeoutStep_finish.mp hl
    refine .inr ?_
    have hdrop : ∀ ev ∈ evs, ev ∈ c.history.drop n := by
      intro ev hev
      rw [h.pass.history, List.drop_append_of_le_length h.since]
      exact List.mem_append_right _ hev
    exact (h.turned hp).imp (hdrop _) (hdrop _)
  · have hne : ∀ now order o, l ≠ .finish now order o :=
      fun now order o heq => hlast ⟨now, order, o, heq⟩
    obtain ⟨evs', hpass⟩ := h.pass.step hl hne
    exact .inl ⟨evs', { h with pass := hpass }⟩

end Periodic

section Loop

variable {c t : TimerLoop κ} {q : TimerQueue}

/-- The step is an undefined removal. -/
def TimerLoopStep.isForeign : TimerLoopStep κ → Bool
  | .eraseForeign _ _ _ => true
  | _ => false

/-- The events whose timerfds are still to be read wait for the `read` that begins the pass. -/
theorem due_of_move {l : TimerLoopStep κ} (hl : timerLoopMove c l = some t)
    (hdue : .timerfd q ∈ c.point.due) : .timerfd q ∈ t.point.due ∨
      l = .read ∧ ∃ rest, c.point = .reading q rest ∧ t.point = .passing q rest := by
  cases l with
  | tick now =>
    obtain ⟨-, rfl⟩ := timerLoopMove_tick.mp hl
    exact .inl hdue
  | timeouts l =>
    obtain ⟨-, s, -, rfl⟩ := timerLoopMove_timeouts.mp hl
    exact .inl hdue
  | periodicTimeouts l =>
    obtain ⟨-, s, -, rfl⟩ := timerLoopMove_periodicTimeouts.mp hl
    exact .inl hdue
  | eraseForeign handle timeouts pending =>
    obtain ⟨-, rfl⟩ := timerLoopMove_eraseForeign.mp hl
    exact .inl hdue
  | epollWait events =>
    obtain ⟨hidle, -, -⟩ := timerLoopMove_epollWait.mp hl
    rw [hidle] at hdue
    cases hdue
  | dispatch =>
    cases hp : c.point with
    | dispatching rest =>
      rw [hp] at hdue
      cases hdue with
      | head rest =>
        simp only [timerLoopMove, hp, Option.some.injEq] at hl
        subst hl
        exact .inl List.mem_cons_self
      | tail event hdue =>
        cases event with
        | timerfd q' =>
          simp only [timerLoopMove, hp, Option.some.injEq] at hl
          subst hl
          exact .inl (List.mem_cons_of_mem _ hdue)
        | other =>
          simp only [timerLoopMove, hp, Option.some.injEq] at hl
          subst hl
          exact .inl hdue
    | _ => simp [timerLoopMove, hp] at hl
  | read =>
    obtain ⟨q', rest, s, hp, -, -, rfl⟩ := timerLoopMove_read hl
    rw [hp] at hdue
    cases hdue with
    | head => exact .inr ⟨rfl, rest, hp, rfl⟩
    | tail _ hdue => exact .inl hdue
  | handlerReturns =>
    cases hp : c.point with
    | calling rest =>
      rw [hp] at hdue
      simp only [timerLoopMove, hp, Option.some.injEq] at hl
      subst hl
      exact .inl hdue
    | passing q' rest =>
      rw [hp] at hdue
      simp only [timerLoopMove, hp] at hl
      obtain ⟨-, hl⟩ := Option.ite_none_right_eq_some.mp hl
      obtain rfl := Option.some.inj hl
      exact .inl hdue
    | _ => simp [timerLoopMove, hp] at hl
  | batchEnds =>
    cases hp : c.point with
    | dispatching rest =>
      rw [hp] at hdue
      cases rest with
      | nil => cases hdue
      | cons event rest => simp [timerLoopMove, hp] at hl
    | _ => simp [timerLoopMove, hp] at hl

/-- The handler of a timerfd goes on until its pass is over. -/
theorem passing_of_move {l : TimerLoopStep κ} (hl : timerLoopMove c l = some t)
    (hpass : c.passing q = true) : t.passing q = true ∨ c.passPoint q = .outside := by
  have hpoint : ∃ rest, c.point = .passing q rest := by
    unfold TimerLoop.passing at hpass
    cases hp : c.point with
    | passing q' rest =>
      rw [hp] at hpass
      exact ⟨rest, by rw [of_decide_eq_true hpass]⟩
    | _ => simp [hp] at hpass
  obtain ⟨rest, hp⟩ := hpoint
  have hstays : t.point = c.point → t.passing q = true := by
    intro heq
    unfold TimerLoop.passing at hpass ⊢
    rwa [heq]
  cases l with
  | tick now =>
    obtain ⟨-, rfl⟩ := timerLoopMove_tick.mp hl
    exact .inl (hstays rfl)
  | timeouts l =>
    obtain ⟨-, s, -, rfl⟩ := timerLoopMove_timeouts.mp hl
    exact .inl (hstays rfl)
  | periodicTimeouts l =>
    obtain ⟨-, s, -, rfl⟩ := timerLoopMove_periodicTimeouts.mp hl
    exact .inl (hstays rfl)
  | eraseForeign handle timeouts pending =>
    obtain ⟨-, rfl⟩ := timerLoopMove_eraseForeign.mp hl
    exact .inl (hstays rfl)
  | handlerReturns =>
    simp only [timerLoopMove, hp] at hl
    obtain ⟨hout, -⟩ := Option.ite_none_right_eq_some.mp hl
    exact .inr hout
  | _ => simp [timerLoopMove, hp] at hl

/-- What a step of the loop does to the one-shot timeouts: it is one of their steps, or it moves
their timer at most. Only the `read` of their timerfd begins a pass, and with the clock value. -/
theorem timeouts_of_move {l : TimerLoopStep κ} (hl : timerLoopMove c l = some t) :
    (∃ timer, t.timeouts = { c.timeouts with
      members := { c.timeouts.members with timeoutTimerfd := timer } }) ∨
    ∃ k, timeoutStep c.timeouts k = some t.timeouts ∧ ∀ now, k = .processTimeouts now →
      l = .read ∧ (∃ rest, c.point = .reading .timeouts rest) ∧ now = c.clock := by
  cases l with
  | tick now =>
    obtain ⟨-, rfl⟩ := timerLoopMove_tick.mp hl
    exact .inl ⟨_, rfl⟩
  | timeouts l =>
    obtain ⟨hmay, s, hs, rfl⟩ := timerLoopMove_timeouts.mp hl
    exact .inr ⟨l, hs, fun now heq => absurd heq ((TimeoutStep.mayRun_spec hmay).1 now)⟩
  | periodicTimeouts l =>
    obtain ⟨-, s, -, rfl⟩ := timerLoopMove_periodicTimeouts.mp hl
    exact .inl ⟨_, rfl⟩
  | eraseForeign handle timeouts pending =>
    obtain ⟨-, rfl⟩ := timerLoopMove_eraseForeign.mp hl
    exact .inl ⟨_, rfl⟩
  | epollWait events =>
    obtain ⟨-, -, rfl⟩ := timerLoopMove_epollWait.mp hl
    exact .inl ⟨_, rfl⟩
  | dispatch =>
    obtain ⟨point, rfl, -⟩ := timerLoopMove_dispatch hl
    exact .inl ⟨_, rfl⟩
  | handlerReturns =>
    obtain ⟨point, rfl, -⟩ := timerLoopMove_handlerReturns hl
    exact .inl ⟨_, rfl⟩
  | batchEnds =>
    obtain ⟨point, rfl, -⟩ := timerLoopMove_batchEnds hl
    exact .inl ⟨_, rfl⟩
  | read =>
    obtain ⟨q, rest, s, hp, -, hs, rfl⟩ := timerLoopMove_read hl
    cases q with
    | timeouts =>
      obtain ⟨u, hu, rfl⟩ := Option.map_eq_some_iff.mp hs
      refine .inr ⟨_, hu, fun now heq => ⟨rfl, ⟨rest, hp⟩, ?_⟩⟩
      exact (TimeoutStep.processTimeouts.inj heq).symm
    | periodicTimeouts =>
      obtain ⟨u, hu, rfl⟩ := Option.map_eq_some_iff.mp hs
      exact .inl ⟨_, rfl⟩

/-- The same for the periodic timeouts, which no step of the loop leaves in an undefined state. -/
theorem periodicTimeouts_of_move {l : TimerLoopStep κ} (hl : timerLoopMove c l = some t)
    (hforeign : l.isForeign = false) :
    (∃ timer, t.periodicTimeouts = { c.periodicTimeouts with
      members := { c.periodicTimeouts.members with periodicTimeoutTimerfd := timer } }) ∨
    ∃ k, periodicTimeoutStep c.periodicTimeouts k = some t.periodicTimeouts ∧
      ∀ now, k = .processPeriodicTimeouts now →
        l = .read ∧ (∃ rest, c.point = .reading .periodicTimeouts rest) ∧ now = c.clock := by
  cases l with
  | tick now =>
    obtain ⟨-, rfl⟩ := timerLoopMove_tick.mp hl
    exact .inl ⟨_, rfl⟩
  | timeouts l =>
    obtain ⟨-, s, -, rfl⟩ := timerLoopMove_timeouts.mp hl
    exact .inl ⟨_, rfl⟩
  | periodicTimeouts l =>
    obtain ⟨hmay, s, hs, rfl⟩ := timerLoopMove_periodicTimeouts.mp hl
    exact .inr ⟨l, hs, fun now heq => absurd heq ((PeriodicTimeoutStep.mayRun_spec hmay).1 now)⟩
  | eraseForeign handle timeouts pending => cases hforeign
  | epollWait events =>
    obtain ⟨-, -, rfl⟩ := timerLoopMove_epollWait.mp hl
    exact .inl ⟨_, rfl⟩
  | dispatch =>
    obtain ⟨point, rfl, -⟩ := timerLoopMove_dispatch hl
    exact .inl ⟨_, rfl⟩
  | handlerReturns =>
    obtain ⟨point, rfl, -⟩ := timerLoopMove_handlerReturns hl
    exact .inl ⟨_, rfl⟩
  | batchEnds =>
    obtain ⟨point, rfl, -⟩ := timerLoopMove_batchEnds hl
    exact .inl ⟨_, rfl⟩
  | read =>
    obtain ⟨q, rest, s, hp, -, hs, rfl⟩ := timerLoopMove_read hl
    cases q with
    | timeouts =>
      obtain ⟨u, hu, rfl⟩ := Option.map_eq_some_iff.mp hs
      exact .inl ⟨_, rfl⟩
    | periodicTimeouts =>
      obtain ⟨u, hu, rfl⟩ := Option.map_eq_some_iff.mp hs
      refine .inr ⟨_, hu, fun now heq => ⟨rfl, ⟨rest, hp⟩, ?_⟩⟩
      exact (PeriodicTimeoutStep.processPeriodicTimeouts.inj heq).symm

theorem clock_of_move {l : TimerLoopStep κ} (hl : timerLoopMove c l = some t) :
    c.clock ≤ t.clock := by
  cases l with
  | tick now =>
    obtain ⟨hle, rfl⟩ := timerLoopMove_tick.mp hl
    exact hle
  | read =>
    obtain ⟨q, rest, s, -, -, hs, rfl⟩ := timerLoopMove_read hl
    cases q <;> obtain ⟨u, -, rfl⟩ := Option.map_eq_some_iff.mp hs <;> exact Int.le_refl _
  | timeouts l =>
    obtain ⟨-, s, -, rfl⟩ := timerLoopMove_timeouts.mp hl
    exact Int.le_refl _
  | periodicTimeouts l =>
    obtain ⟨-, s, -, rfl⟩ := timerLoopMove_periodicTimeouts.mp hl
    exact Int.le_refl _
  | eraseForeign handle timeouts pending =>
    obtain ⟨-, rfl⟩ := timerLoopMove_eraseForeign.mp hl
    exact Int.le_refl _
  | epollWait events =>
    obtain ⟨-, -, rfl⟩ := timerLoopMove_epollWait.mp hl
    exact Int.le_refl _
  | dispatch =>
    obtain ⟨point, rfl, -⟩ := timerLoopMove_dispatch hl
    exact Int.le_refl _
  | handlerReturns =>
    obtain ⟨point, rfl, -⟩ := timerLoopMove_handlerReturns hl
    exact Int.le_refl _
  | batchEnds =>
    obtain ⟨point, rfl, -⟩ := timerLoopMove_batchEnds hl
    exact Int.le_refl _

end Loop

section Served

variable {c t : TimerLoop κ} {q : TimerQueue} {n : ℕ}

/-- What the loop knows of an entry of the queue: it waits for its pass and is due, its pass is in
progress, or it was called or removed. -/
structure Fate (κ : Type) where
  waits : TimerLoop κ → Prop
  inTurn : TimerLoop κ → Prop
  answered : TimerLoop κ → Prop

/-- A waiting entry has its turn in the pass that the `read` of its timerfd begins, and the pass lasts
until the entry was called or removed. -/
structure Fate.Sound (x : Fate κ) (q : TimerQueue) (Inv : TimerLoop κ → Prop) : Prop where
  waits : ∀ c l t, Inv c → x.waits c → timerLoopStep c l = some t → l.isForeign = false →
    (l = .read → ∀ rest, c.point ≠ .reading q rest) → x.waits t ∨ x.answered t
  begins : ∀ c rest t, Inv c → x.waits c → timerLoopStep c .read = some t →
    c.point = .reading q rest → x.inTurn t
  inTurn : ∀ c l t, Inv c → x.inTurn c → timerLoopStep c l = some t → l.isForeign = false →
    x.inTurn t ∨ x.answered t
  inside : ∀ c, x.inTurn c → c.passPoint q ≠ .outside
  answered : ∀ c l t, x.answered c → timerLoopStep c l = some t → l.isForeign = false →
    x.answered t

/-- The entry is reported and waits, or is in its turn, or was called or removed. -/
inductive Fate.Served (x : Fate κ) (q : TimerQueue) (c : TimerLoop κ) : Prop
  | reported (hdue : .timerfd q ∈ c.point.due) (hwaits : x.waits c)
  | passing (hpass : c.passing q = true) (hturn : x.inTurn c)
  | answered (hanswered : x.answered c)

theorem Fate.Served.step {x : Fate κ} {Inv : TimerLoop κ → Prop} (h : x.Served q c)
    (hx : x.Sound q Inv) (hc : Inv c) {l : TimerLoopStep κ} (hl : timerLoopStep c l = some t)
    (hforeign : l.isForeign = false) : x.Served q t := by
  obtain ⟨s, hs, heq⟩ := Option.map_eq_some_iff.mp hl
  have hpoint : t.point = s.point := by rw [← heq]
  cases h with
  | reported hdue hwaits =>
    by_cases hread : l = .read ∧ ∃ rest, c.point = .reading q rest
    · obtain ⟨rfl, rest, hp⟩ := hread
      have hturn := hx.begins c rest t hc hwaits hl hp
      obtain ⟨q', rest', u, hp', -, -, rfl⟩ := timerLoopMove_read hs
      rw [hp] at hp'
      obtain ⟨rfl, rfl⟩ := LoopPoint.reading.inj hp'
      refine .passing ?_ hturn
      unfold TimerLoop.passing
      rw [hpoint]
      exact decide_eq_true rfl
    · have hother : l = .read → ∀ rest, c.point ≠ .reading q rest :=
        fun heq rest hp => hread ⟨heq, rest, hp⟩
      rcases due_of_move hs hdue with hdue | ⟨hread, rest, hp, -⟩
      · rcases hx.waits c l t hc hwaits hl hforeign hother with hwaits | hanswered
        · exact .reported (hpoint ▸ hdue) hwaits
        · exact .answered hanswered
      · exact absurd hp (hother hread rest)
  | passing hpass hturn =>
    rcases passing_of_move hs hpass with hpass | hout
    · rcases hx.inTurn c l t hc hturn hl hforeign with hturn | hanswered
      · refine .passing ?_ hturn
        unfold TimerLoop.passing at hpass ⊢
        rwa [hpoint]
      · exact .answered hanswered
    · exact absurd hout (hx.inside c hturn)
  | answered hanswered => exact .answered (hx.answered c l t hanswered hl hforeign)

/-- An entry that is due in `timeouts_`, when the history had `n` events. -/
def oneshotFate (n : ℕ) (e : TimeoutCallback κ) : Fate κ where
  waits c := Waits n e c.timeouts ∧ e.timeout ≤ c.clock
  inTurn c := ∃ c₀ now evs, InTurn n e c.timeouts c₀ now evs
  answered c := Answered n e c.timeouts

/-- An entry that is due in `periodic_timeouts_`, when the history had `n` events. -/
def periodicFate (n : ℕ) (e : PeriodicTimeoutCallback κ) : Fate κ where
  waits c := PeriodicWaits n e c.periodicTimeouts ∧ e.timeout ≤ c.clock
  inTurn c := ∃ c₀ now evs, InPeriodicTurn n e c.periodicTimeouts c₀ now evs
  answered c := PeriodicAnswered n e c.periodicTimeouts

theorem oneshotFate_sound (n : ℕ) (e : TimeoutCallback κ) :
    (oneshotFate n e).Sound .timeouts TimersGood where
  waits := by
    rintro c l t hc ⟨h, hdue⟩ hl hforeign hother
    obtain ⟨s, hs, rfl⟩ := Option.map_eq_some_iff.mp hl
    have hclock := Int.le_trans hdue (clock_of_move hs)
    rcases timeouts_of_move hs with ⟨timer, heq⟩ | ⟨k, hk, hread⟩
    · refine .inl ⟨?_, hclock⟩
      rw [heq]
      exact ⟨h.outside, h.stored, h.since⟩
    · refine (h.step hc.timeouts hk fun now heq => ?_).imp_left fun h => ⟨h, hclock⟩
      obtain ⟨rfl, ⟨rest, hp⟩, -⟩ := hread now heq
      exact hother rfl rest hp
  begins := by
    rintro c rest t hc ⟨h, hdue⟩ hl hp
    obtain ⟨s, hs, rfl⟩ := Option.map_eq_some_iff.mp hl
    obtain ⟨q, rest', v, hp', -, hv, rfl⟩ := timerLoopMove_read hs
    rw [hp] at hp'
    obtain ⟨rfl, rfl⟩ := LoopPoint.reading.inj hp'
    obtain ⟨u, hu, rfl⟩ := Option.map_eq_some_iff.mp hv
    exact ⟨_, _, _, h.begin hc.timeouts hdue hu⟩
  inTurn := by
    rintro c l t hc ⟨c₀, now, evs, h⟩ hl hforeign
    obtain ⟨s, hs, rfl⟩ := Option.map_eq_some_iff.mp hl
    rcases timeouts_of_move hs with ⟨timer, heq⟩ | ⟨k, hk, -⟩
    · refine .inl ⟨c₀, now, evs, ?_⟩
      rw [heq]
      obtain ⟨hhistory, htimeouts, hpending, hclock, hpoint⟩ := h.pass
      exact { h with pass := ⟨hhistory, htimeouts, hpending, hclock, hpoint⟩ }
    · exact (h.step hc.timeouts hk).imp_left fun ⟨evs', h'⟩ => ⟨c₀, now, evs', h'⟩
  inside := fun c ⟨_, _, _, h⟩ => h.inside
  answered := by
    intro c l t h hl hforeign
    obtain ⟨s, hs, rfl⟩ := Option.map_eq_some_iff.mp hl
    show Answered n e s.timeouts
    rcases timeouts_of_move hs with ⟨timer, heq⟩ | ⟨k, hk, -⟩
    · rw [heq]
      exact h
    · exact Answered.step h hk

theorem periodicFate_sound (n : ℕ) (e : PeriodicTimeoutCallback κ) :
    (periodicFate n e).Sound .periodicTimeouts fun _ => True where
  waits := by
    rintro c l t - ⟨h, hdue⟩ hl hforeign hother
    obtain ⟨s, hs, rfl⟩ := Option.map_eq_some_iff.mp hl
    have hclock := Int.le_trans hdue (clock_of_move hs)
    rcases periodicTimeouts_of_move hs hforeign with ⟨timer, heq⟩ | ⟨k, hk, hread⟩
    · refine .inl ⟨?_, hclock⟩
      rw [heq]
      obtain ⟨hpoint, hsorted, hdistinct, hmade, hflags, hproc, hpending⟩ := h.idle
      exact ⟨⟨hpoint, hsorted, hdistinct, hmade, hflags, hproc, hpending⟩, h.stored, h.since⟩
    · refine (h.step hk fun now heq => ?_).imp_left fun h => ⟨h, hclock⟩
      obtain ⟨rfl, ⟨rest, hp⟩, -⟩ := hread now heq
      exact hother rfl rest hp
  begins := by
    rintro c rest t - ⟨h, hdue⟩ hl hp
    obtain ⟨s, hs, rfl⟩ := Option.map_eq_some_iff.mp hl
    obtain ⟨q, rest', v, hp', -, hv, rfl⟩ := timerLoopMove_read hs
    rw [hp] at hp'
    obtain ⟨rfl, rfl⟩ := LoopPoint.reading.inj hp'
    obtain ⟨u, hu, rfl⟩ := Option.map_eq_some_iff.mp hv
    exact ⟨_, _, _, h.begin hdue hu⟩
  inTurn := by
    rintro c l t - ⟨c₀, now, evs, h⟩ hl hforeign
    obtain ⟨s, hs, rfl⟩ := Option.map_eq_some_iff.mp hl
    rcases periodicTimeouts_of_move hs hforeign with ⟨timer, heq⟩ | ⟨k, hk, -⟩
    · refine .inl ⟨c₀, now, evs, ?_⟩
      rw [heq]
      obtain ⟨hidle, hhistory, htimeouts, hpending, hdistinct, hmade, hflags, hproc, hwalk⟩ := h.pass
      exact { h with
        pass := ⟨hidle, hhistory, htimeouts, hpending, hdistinct, hmade, hflags, hproc, hwalk⟩ }
    · exact (h.step hk).imp_left fun ⟨evs', h'⟩ => ⟨c₀, now, evs', h'⟩
  inside := fun c ⟨_, _, _, h⟩ => h.inside
  answered := by
    intro c l t h hl hforeign
    obtain ⟨s, hs, rfl⟩ := Option.map_eq_some_iff.mp hl
    show PeriodicAnswered n e s.periodicTimeouts
    rcases periodicTimeouts_of_move hs hforeign with ⟨timer, heq⟩ | ⟨k, hk, -⟩
    · rw [heq]
      exact h
    · exact PeriodicAnswered.step h hk

end Served

end Linuxpp.Ioloop
