import Linuxpp.Ioloop.Proofs.TimeoutRunsProofs

/-!
# Proofs: one pass of `process_timeouts`

The state inside a pass is described by what the callbacks of the pass have done so far and by where
the iterator is. The pass calls exactly what is due, and it keeps what is not due unless it stops at
an entry that was not removed: that entry is erased with the entries that were called.
-/

namespace Linuxpp.Ioloop

open SortedInsert DueWalk TimeoutEvent

variable {κ : Type}

namespace TimeoutEvent

variable {evs : List (TimeoutEvent κ)}

theorem called_mem_walk {e : TimeoutCallback κ} :
    e ∈ calls (evs.map walk) ↔ ∃ now, .called now e ∈ evs := by
  rw [mem_calls, List.mem_map]
  constructor
  · rintro ⟨ev, hev, heq⟩
    cases ev with
    | called now e' =>
      obtain rfl := WalkEvent.called.inj heq
      exact ⟨now, hev⟩
    | _ => cases heq
  · rintro ⟨now, hev⟩
    exact ⟨_, hev, rfl⟩

theorem added_mem_walk {e : TimeoutCallback κ} :
    e ∈ additions (evs.map walk) ↔ .added e ∈ evs := by
  rw [additions, List.filterMap_map]
  refine mem_filterMap_iff fun ev e => ?_
  cases ev <;> simp [walk]

theorem removed_mem_walk {handle : TimeoutHandle} :
    handle ∈ removals (evs.map walk) ↔ .removed handle ∈ evs := by
  rw [removals, List.filterMap_map]
  refine mem_filterMap_iff fun ev handle => ?_
  cases ev <;> simp [walk]

@[simp] theorem map_walk_concat (evs : List (TimeoutEvent κ)) (ev : TimeoutEvent κ) :
    (evs ++ [ev]).map walk = evs.map walk ++ [ev.walk] := List.map_append

end TimeoutEvent

/-- An entry of `c₀`, flagged if it was removed since. -/
def flaggedIn (evs : List (TimeoutEvent κ)) (e : TimeoutCallback κ) : TimeoutCallback κ :=
  { e with remove := decide (e.handle ∈ removals (evs.map walk)) }

/-- The iterator has come to position `i`. -/
abbrev WalkTo (c₀ : TimeoutLoop κ) (now : TimeType) (evs : List (TimeoutEvent κ)) (i : ℕ) : Prop :=
  Walk TimeoutCallback.handle TimeoutCallback.timeout c₀.members.timeouts now (evs.map walk) i

/-- The iterator stopped behind an entry that is neither removed nor due. -/
def StoppedBehind (c₀ : TimeoutLoop κ) (now : TimeType) (evs : List (TimeoutEvent κ)) (i : ℕ) :
    Prop :=
  ∃ k e, i = k + 1 ∧ c₀.members.timeouts[k]? = some e ∧ now < e.timeout ∧
    e.handle ∉ removals (evs.map walk) ∧ WalkTo c₀ now evs k

/-- How far the pass has come at a point of the thread. -/
def Progress (c₀ : TimeoutLoop κ) (now : TimeType) (evs : List (TimeoutEvent κ)) :
    PassPoint → Prop
  | .outside => False
  | .loop p | .callback p => p.now = now ∧ WalkTo c₀ now evs p.i
  | .done p => p.now = now ∧ (p.i = c₀.members.timeouts.length ∧ WalkTo c₀ now evs p.i ∨
      StoppedBehind c₀ now evs p.i)

/-- `c` is inside the pass that `c₀` began with the clock value `now`; `evs` happened since. -/
structure InPass (c₀ : TimeoutLoop κ) (now : TimeType) (evs : List (TimeoutEvent κ))
    (c : TimeoutLoop κ) : Prop where
  history : c.history = c₀.history ++ evs
  timeouts : c.members.timeouts = c₀.members.timeouts.map (flaggedIn evs)
  pending : c.members.pendingTimeoutAdditions =
    (additions (evs.map walk)).filter fun e => e.handle ∉ removals (evs.map walk)
  clock : ∀ now' e, .called now' e ∈ evs → now' = now
  point : Progress c₀ now evs c.point

section

variable {c₀ c t : TimeoutLoop κ} {now : TimeType} {evs : List (TimeoutEvent κ)}

/-- The walk stopped at the end of `timeouts_`, or at the entry before the iterator. -/
theorem Progress.over {p : Pass} (h : Progress c₀ now evs (.done p)) :
    ∃ i, WalkTo c₀ now evs i ∧ Over TimeoutCallback.timeout c₀.members.timeouts now i := by
  rcases h.2 with ⟨hi, hwalk⟩ | ⟨k, e, -, he, hlater, -, hwalk⟩
  · refine ⟨p.i, hwalk, fun e he => ?_⟩
    have hlt := (List.getElem?_eq_some_iff.mp he).1
    omega
  · refine ⟨k, hwalk, fun e' he' => ?_⟩
    obtain rfl := Option.some.inj (he.symm.trans he')
    exact hlater

/-- What user code adds or removes does not move the walk. -/
theorem InPass.walk_other (h : InPass c₀ now evs c) {p : Pass} (hp : c.point = .callback p)
    {ev : TimeoutEvent κ} (hev : ∀ e, ev.walk ≠ .called e) :
    Progress c₀ now (evs ++ [ev]) c.point := by
  have hpoint := h.point
  rw [hp] at hpoint ⊢
  refine ⟨hpoint.1, ?_⟩
  have hwalk := hpoint.2.other hev
  rw [← map_walk_concat] at hwalk
  exact hwalk

/-- Nor is it a call. -/
theorem InPass.clock_other (h : InPass c₀ now evs c) {ev : TimeoutEvent κ}
    (hev : ∀ e, ev.walk ≠ .called e) :
    ∀ now' e, .called now' e ∈ evs ++ [ev] → now' = now := by
  intro now' e he
  rcases List.mem_append.mp he with he | he
  · exact h.clock now' e he
  · obtain rfl := List.mem_singleton.mp he
    exact absurd rfl (hev e)

/-- In a callback, the pass has called the entry before its iterator. -/
theorem InPass.callback_of_userCode (h : InPass c₀ now evs c) (huser : c.point.userCode = true) :
    ∃ p, c.point = .callback p := by
  rcases PassPoint.userCode_iff.mp huser with hp | hp
  · have hpoint := h.point
    rw [hp] at hpoint
    exact hpoint.elim
  · exact hp

/-- A pass begins. -/
theorem InPass.begin (hg : Good c₀) (hp : c₀.point = .outside) (now : TimeType) :
    InPass c₀ now [] { c₀ with
      members := (c₀.members.beginPass now).2, point := .loop (c₀.members.beginPass now).1 } := by
  have hpoint := hg.point
  rw [hp] at hpoint
  obtain ⟨-, hpend, hflag⟩ := hpoint
  have hid : ∀ e ∈ c₀.members.timeouts, flaggedIn [] e = id e := by
    intro e he
    have hfalse := hflag e he
    cases e
    simp_all [flaggedIn, removals]
  constructor
  case history => exact (List.append_nil _).symm
  case timeouts => rw [List.map_congr_left hid, List.map_id]; rfl
  case pending => exact hpend
  case clock => simp
  case point => exact ⟨rfl, Walk.start _ _⟩

theorem InPass.addTimeout (h : InPass c₀ now evs c) (hg : Good c) (huser : c.point.userCode = true)
    (timeout : TimeType) (callback : κ) (o : SettimeOutcome) :
    InPass c₀ now (evs ++ [.added (c.members.newEntry timeout callback)]) { c with
      members := (c.members.addTimeout timeout callback o).2
      history := c.history ++ [.added (c.members.newEntry timeout callback)] } := by
  have hgood := hg.point
  obtain ⟨timer, ht⟩ := c.members.addTimeout_members timeout callback o
  obtain ⟨p, hp⟩ := h.callback_of_userCode huser
  rw [hp] at hgood
  have hfresh : (c.members.newEntry timeout callback).handle ∉ removals (evs.map walk) := by
    intro hin
    have hpast := hg.past (.removed (c.members.newEntry timeout callback).handle)
      (h.history ▸ List.mem_append_right _ (removed_mem_walk.mp hin))
    exact hpast.ne rfl
  have hother : ∀ e, (.added (c.members.newEntry timeout callback) : TimeoutEvent κ).walk ≠
      .called e := fun e heq => by cases heq
  have hsame : removals ((evs ++ [added (c.members.newEntry timeout callback)]).map walk) =
      removals (evs.map walk) := by simp [walk]
  have hmore : additions ((evs ++ [added (c.members.newEntry timeout callback)]).map walk) =
      additions (evs.map walk) ++ [c.members.newEntry timeout callback] := by simp [walk]
  constructor
  case history => rw [h.history, List.append_assoc]
  case timeouts =>
    rw [ht]
    have hflagged : flaggedIn (evs ++ [.added (c.members.newEntry timeout callback)]) =
        flaggedIn evs := by
      funext e
      rw [flaggedIn, flaggedIn, hsame]
    simp only [hgood.1, if_true, h.timeouts, hflagged]
  case pending =>
    rw [ht]
    have hkeep : ∀ e ∈ [c.members.newEntry timeout callback],
        decide (e.handle ∉ removals (evs.map walk)) = true := by
      intro e he
      obtain rfl := List.mem_singleton.mp he
      exact decide_eq_true hfresh
    simp only [hgood.1, if_true, h.pending, hsame, hmore, List.filter_append]
    exact congrArg _ (List.filter_eq_self.mpr hkeep).symm
  case clock => exact h.clock_other hother
  case point => exact h.walk_other hp hother

theorem InPass.removeTimeout (h : InPass c₀ now evs c) (hg : Good c)
    (huser : c.point.userCode = true) (handle : TimeoutHandle) :
    InPass c₀ now (evs ++ [.removed handle]) { c with
      members := c.members.removeTimeout handle
      history := c.history ++ [.removed handle] } := by
  have hgood := hg.point
  obtain ⟨p, hp⟩ := h.callback_of_userCode huser
  rw [hp] at hgood
  have hother : ∀ e, (.removed handle : TimeoutEvent κ).walk ≠ .called e :=
    fun e heq => by cases heq
  have hmore : removals ((evs ++ [removed handle]).map walk) =
      removals (evs.map walk) ++ [handle] := by simp [walk]
  rw [Timeouts.removeTimeout_members hg.distinct]
  constructor
  case history => rw [h.history, List.append_assoc]
  case timeouts =>
    simp only [hgood.1, if_true, h.timeouts, List.map_map]
    refine List.map_congr_left fun e _ => ?_
    simp only [Function.comp_apply, flaggedIn, hmore, List.mem_append, List.mem_singleton]
    by_cases hh : e.handle = handle
    · simp [hh]
    · simp [hh]
  case pending =>
    have hadded : additions ((evs ++ [removed handle]).map walk) = additions (evs.map walk) := by
      simp [walk]
    simp only [h.pending, hmore, hadded, List.filter_filter]
    refine List.filter_congr fun e _ => ?_
    simp only [List.mem_append, List.mem_singleton]
    grind
  case clock => exact h.clock_other hother
  case point => exact h.walk_other hp hother

/-- One iteration of the pass. The entry at the iterator is flagged, called, or stopped at. -/
theorem InPass.iteration (hc₀ : ∀ e ∈ c₀.members.timeouts, e.remove = false)
    (h : InPass c₀ now evs c) {p : Pass} (hp : c.point = .loop p) :
    ∃ evs', InPass c₀ now evs' (iteration c p) := by
  have hpoint := h.point
  rw [hp] at hpoint
  obtain ⟨hnow, hwalk⟩ := hpoint
  have hentry : ∀ e, c.members.timeouts[p.i]? = some e →
      ∃ e₀, c₀.members.timeouts[p.i]? = some e₀ ∧ flaggedIn evs e₀ = e := by
    intro e he
    rw [h.timeouts, List.getElem?_map] at he
    exact Option.map_eq_some_iff.mp he
  have hit := iterates c p
  generalize Ioloop.iteration c p = t at hit ⊢
  cases hit with
  | atEnd he =>
    have hlen : c.members.timeouts.length = c₀.members.timeouts.length := by
      rw [h.timeouts, List.length_map]
    have hi : p.i = c₀.members.timeouts.length := by
      have hge := List.getElem?_eq_none_iff.mp he
      have hle := hwalk.le
      omega
    exact ⟨evs, { h with point := ⟨hnow, Or.inl ⟨hi, hwalk⟩⟩ }⟩
  | skip e he hflag =>
    obtain ⟨e₀, he₀, rfl⟩ := hentry e he
    have hremoved : e₀.handle ∈ removals (evs.map walk) := by simpa [flaggedIn] using hflag
    exact ⟨evs, { h with point := ⟨hnow, hwalk.skip he₀ hremoved⟩ }⟩
  | call e he hflag hdue =>
    obtain ⟨e₀, he₀, rfl⟩ := hentry e he
    have hlive : e₀.handle ∉ removals (evs.map walk) := by simpa [flaggedIn] using hflag
    have hsame : flaggedIn evs e₀ = e₀ := by
      have hunflagged := hc₀ e₀ (List.mem_of_getElem? he₀)
      cases e₀
      simp_all [flaggedIn]
    rw [hsame] at hdue ⊢
    have hremovals : removals ((evs ++ [called p.now e₀]).map walk) = removals (evs.map walk) := by
      simp [walk]
    have hflagged : flaggedIn (evs ++ [.called p.now e₀]) = flaggedIn evs := by
      funext e
      rw [flaggedIn, flaggedIn, hremovals]
    refine ⟨evs ++ [.called p.now e₀], ?_⟩
    constructor
    case history => rw [h.history, List.append_assoc]
    case timeouts => rw [h.timeouts, hflagged]
    case pending =>
      have hadded : additions ((evs ++ [called p.now e₀]).map walk) = additions (evs.map walk) := by
        simp [walk]
      rw [h.pending, hremovals, hadded]
    case clock =>
      intro now' e' he'
      rcases List.mem_append.mp he' with he' | he'
      · exact h.clock now' e' he'
      · obtain ⟨rfl, -⟩ : now' = p.now ∧ e' = e₀ := by simpa using he'
        exact hnow
    case point =>
      refine ⟨hnow, ?_⟩
      show Walk _ _ _ _ (List.map walk (evs ++ [.called p.now e₀])) (p.i + 1)
      rw [map_walk_concat]
      exact hwalk.call he₀ (hnow ▸ hdue) hlive
  | stop e he hflag hlater =>
    obtain ⟨e₀, he₀, rfl⟩ := hentry e he
    have hnot : e₀.handle ∉ removals (evs.map walk) := by simpa [flaggedIn] using hflag
    exact ⟨evs, { h with
      point := ⟨hnow, Or.inr ⟨p.i, e₀, rfl, he₀, hnow ▸ hlater, hnot, hwalk⟩⟩ }⟩

/-- Every step but the last keeps the description of the pass. -/
theorem InPass.step (hc₀ : ∀ e ∈ c₀.members.timeouts, e.remove = false)
    (h : InPass c₀ now evs c) (hg : Good c) {l : TimeoutStep κ} (hl : timeoutStep c l = some t)
    (hne : ∀ o, l ≠ .finish o) : ∃ evs', InPass c₀ now evs' t := by
  have hpoint := h.point
  cases l with
  | addTimeout timeout callback o =>
    obtain ⟨huser, rfl⟩ := timeoutStep_addTimeout.mp hl
    exact ⟨_, h.addTimeout hg huser timeout callback o⟩
  | removeTimeout handle =>
    obtain ⟨⟨huser, -⟩, rfl⟩ := timeoutStep_removeTimeout.mp hl
    exact ⟨_, h.removeTimeout hg huser handle⟩
  | timeoutHandle =>
    obtain ⟨-, rfl⟩ := timeoutStep_timeoutHandle.mp hl
    exact ⟨evs, { h with }⟩
  | processTimeouts now' =>
    obtain ⟨hp, -⟩ := timeoutStep_processTimeouts.mp hl
    rw [hp] at hpoint
    exact hpoint.elim
  | iterate =>
    obtain ⟨p, hp, rfl⟩ := timeoutStep_iterate.mp hl
    exact h.iteration hc₀ hp
  | callbackReturns =>
    obtain ⟨p, hp, rfl⟩ := timeoutStep_callbackReturns.mp hl
    rw [hp] at hpoint
    exact ⟨evs, { h with point := hpoint }⟩
  | finish o => exact absurd rfl (hne o)

/-- The iterator is behind an entry that is neither removed nor due, and the loop is over. -/
def Stopped (c : TimeoutLoop κ) : Prop :=
  ∃ p k e, c.point = .done p ∧ p.i = k + 1 ∧ c.members.timeouts[k]? = some e ∧
    e.remove = false ∧ p.now < e.timeout

/-- Inside a pass, only an iteration that reaches an entry which is neither removed nor due leads to
a stop behind one. -/
theorem InPass.not_stopped_step (h : InPass c₀ now evs c) (hnot : ¬ Stopped c) {l : TimeoutStep κ}
    (hl : timeoutStep c l = some t) (hok : ReachesRemovedOrDue c l) : ¬ Stopped t := by
  have hpoint := h.point
  rintro ⟨p, k, e, hp, hi, he, hflag, hlater⟩
  cases l with
  | addTimeout timeout callback o =>
    obtain ⟨huser, rfl⟩ := timeoutStep_addTimeout.mp hl
    simp only at hp
    simp [hp, PassPoint.userCode] at huser
  | removeTimeout handle =>
    obtain ⟨⟨huser, -⟩, rfl⟩ := timeoutStep_removeTimeout.mp hl
    simp only at hp
    simp [hp, PassPoint.userCode] at huser
  | timeoutHandle =>
    obtain ⟨-, rfl⟩ := timeoutStep_timeoutHandle.mp hl
    exact hnot ⟨p, k, e, hp, hi, he, hflag, hlater⟩
  | processTimeouts now' =>
    obtain ⟨-, rfl⟩ := timeoutStep_processTimeouts.mp hl
    simp at hp
  | iterate =>
    obtain ⟨q, hq, rfl⟩ := timeoutStep_iterate.mp hl
    rw [hq] at hpoint
    have hit := iterates c q
    generalize Ioloop.iteration c q = t at hit hp he
    cases hit with
    | atEnd =>
      -- the end of `timeouts_` was reached, and every entry had its turn
      obtain rfl := PassPoint.done.inj hp
      rw [h.timeouts, List.getElem?_map] at he
      obtain ⟨e₀, he₀, rfl⟩ := Option.map_eq_some_iff.mp he
      rcases hpoint.2.turned k e₀ (by omega) he₀ with hcalled | hremoved
      · exact absurd (hpoint.2.due e₀ hcalled) (not_le.mpr (hpoint.1 ▸ hlater))
      · exact absurd hremoved.mem (by simpa [flaggedIn] using hflag)
    | skip => cases hp
    | call => cases hp
    | stop e' he' hflag' hlater' =>
      rcases hok rfl q e' hq he' with hrem | hdue
      · exact absurd hrem (by simp [hflag'])
      · exact absurd hdue (not_le.mpr hlater')
  | callbackReturns =>
    obtain ⟨q, -, rfl⟩ := timeoutStep_callbackReturns.mp hl
    simp at hp
  | finish o =>
    obtain ⟨q, -, rfl⟩ := timeoutStep_finish.mp hl
    simp at hp

/-- A run either meets the guard all along, or stops behind an entry that is neither removed nor
due, because only the end of the pass follows such a stop. -/
theorem along_or_stopped {body : List (TimeoutStep κ)} (hrun : timeoutStep.run c body = some t)
    (hone : ∀ o, .finish o ∉ body) :
    timeoutStep.Along ReachesRemovedOrDue c body ∨ Stopped t := by
  induction body generalizing c with
  | nil => exact Or.inl trivial
  | cons l ls ih =>
    obtain ⟨s, hl, hrest⟩ := Machine.run_cons_eq_some.mp hrun
    have hone' : ∀ o, .finish o ∉ ls := fun o hin => hone o (List.mem_cons_of_mem _ hin)
    by_cases hok : ReachesRemovedOrDue c l
    · rcases ih hrest hone' with halong | hstop
      · refine Or.inl ⟨hok, fun s' hl' => ?_⟩
        obtain rfl := Option.some.inj (hl.symm.trans hl')
        exact halong
      · exact Or.inr hstop
    · right
      unfold ReachesRemovedOrDue at hok
      push Not at hok
      obtain ⟨rfl, p, e, hp, he, hflag, hlater⟩ := hok
      obtain ⟨q, hq, rfl⟩ := timeoutStep_iterate.mp hl
      obtain rfl : p = q := PassPoint.loop.inj (hp.symm.trans hq)
      have hstop : Ioloop.iteration c p = { c with point := .done { p with i := p.i + 1 } } := by
        unfold Ioloop.iteration
        simp only [he]
        rw [if_neg hflag, if_neg (not_le.mpr hlater)]
      rw [hstop] at hrest
      cases ls with
      | nil =>
        obtain rfl := Option.some.inj hrest
        exact ⟨_, p.i, e, rfl, rfl, he, by simpa using hflag, hlater⟩
      | cons l' ls' =>
        -- at the end of the loop only `finish` can follow
        obtain ⟨s', hl', -⟩ := Machine.run_cons_eq_some.mp hrest
        cases l' with
        | finish o => exact absurd (List.mem_cons_of_mem _ List.mem_cons_self) (hone o)
        | _ => simp [timeoutStep, PassPoint.userCode] at hl'

end

section Pass

variable {c₀ c₁ : TimeoutLoop κ} {now : TimeType} {body : List (TimeoutStep κ)} {o : SettimeOutcome}

theorem Good.unflagged_outside (hg : Good c₀) (hout : c₀.point = .outside) :
    ∀ e ∈ c₀.members.timeouts, e.remove = false := by
  have hpoint := hg.point
  rw [hout] at hpoint
  exact hpoint.2.2

theorem along_not_finish (c : TimeoutLoop κ) (hone : ∀ o, .finish o ∉ body) :
    timeoutStep.Along (fun _ l => ∀ o, l ≠ .finish o) c body := by
  refine Machine.along_of_forall_mem fun _ l hl o hlo => ?_
  subst hlo
  exact hone o hl

/-- Up to its last step, a pass is in the state that `InPass` describes. -/
theorem inPass_of_run {c : TimeoutLoop κ} (hg : Good c₀)
    (hrun : timeoutStep.run c₀ (.processTimeouts now :: body) = some c)
    (hone : ∀ o, .finish o ∉ body) : Good c ∧ ∃ evs, InPass c₀ now evs c := by
  obtain ⟨s, hbegin, hbody⟩ := Machine.run_cons_eq_some.mp hrun
  obtain ⟨hout, rfl⟩ := timeoutStep_processTimeouts.mp hbegin
  have hstep : ∀ (s : TimeoutLoop κ) l t, (Good s ∧ ∃ evs, InPass c₀ now evs s) →
      (∀ o, l ≠ .finish o) → timeoutStep s l = some t → Good t ∧ ∃ evs, InPass c₀ now evs t := by
    rintro s l t ⟨hgs, evs, hs⟩ hne hl
    exact ⟨hgs.step hl, hs.step (hg.unflagged_outside hout) hgs hl hne⟩
  exact Machine.run_invariant_along hstep hbody (along_not_finish _ hone)
    ⟨hg.step hbegin, [], InPass.begin hg hout now⟩

/-- A pass that meets the guard all along is not stopped. -/
theorem not_stopped_of_along {c : TimeoutLoop κ} (hg : Good c₀)
    (hrun : timeoutStep.run c₀ (.processTimeouts now :: body) = some c)
    (hone : ∀ o, .finish o ∉ body)
    (hok : timeoutStep.Along ReachesRemovedOrDue c₀ (.processTimeouts now :: body)) :
    ¬ Stopped c := by
  obtain ⟨s, hbegin, hbody⟩ := Machine.run_cons_eq_some.mp hrun
  have hok' := hok.2 s hbegin
  obtain ⟨hout, rfl⟩ := timeoutStep_processTimeouts.mp hbegin
  have hstep : ∀ (s : TimeoutLoop κ) l t,
      (Good s ∧ (∃ evs, InPass c₀ now evs s) ∧ ¬ Stopped s) →
      ((∀ o, l ≠ .finish o) ∧ ReachesRemovedOrDue s l) → timeoutStep s l = some t →
      Good t ∧ (∃ evs, InPass c₀ now evs t) ∧ ¬ Stopped t := by
    rintro s l t ⟨hgs, ⟨evs, hs⟩, hnot⟩ ⟨hne, hokl⟩ hl
    exact ⟨hgs.step hl, hs.step (hg.unflagged_outside hout) hgs hl hne,
      hs.not_stopped_step hnot hl hokl⟩
  have hbegun : ¬ Stopped ({ c₀ with
      members := (c₀.members.beginPass now).2
      point := .loop (c₀.members.beginPass now).1 } : TimeoutLoop κ) := by
    rintro ⟨p, k, e, hp, -⟩
    exact absurd hp (by simp)
  exact (Machine.run_invariant_along hstep hbody ((along_not_finish _ hone).and hok')
    ⟨hg.step hbegin, ⟨[], InPass.begin hg hout now⟩, hbegun⟩).2.2

/-- The state before the last step of a pass, and what that step makes of it. -/
theorem IsPass.before_finish (h : IsPass c₀ now body o c₁) (hg : Good c₀) :
    ∃ c p, timeoutStep.run c₀ (.processTimeouts now :: body) = some c ∧ c.point = .done p ∧
      Good c₁ ∧ c₁.history = c.history ∧ ∀ e, e ∈ c₁.members.timeouts ↔
        e ∈ c.members.pendingTimeoutAdditions ∨
          e ∈ c.members.timeouts.drop p.i ∧ e.remove = false := by
  obtain ⟨c, hrun, hlast⟩ := Machine.run_append_eq_some.mp h.run
  rw [Machine.run_singleton] at hlast
  have hgc := (inPass_of_run hg hrun h.one).1
  have hg₁ := hgc.step hlast
  obtain ⟨p, hp, rfl⟩ := timeoutStep_finish.mp hlast
  obtain ⟨timer, ht⟩ := c.members.endPass_members p o
  refine ⟨c, p, hrun, hp, hg₁, rfl, fun e => ?_⟩
  rw [ht]
  exact Timeouts.mem_merged

theorem InPass.eventsSince_eq {evs : List (TimeoutEvent κ)} {c : TimeoutLoop κ}
    (h : InPass c₀ now evs c) (hhist : c₁.history = c.history) : eventsSince c₀ c₁ = evs := by
  rw [eventsSince, hhist, h.history, List.drop_left]

/-- A pass calls exactly what is due. -/
theorem IsPass.callsExactlyDueAt (h : IsPass c₀ now body o c₁) (hg : Good c₀) :
    CallsExactlyDueAt c₀ now c₁ := by
  obtain ⟨c, p, hrun, hp, -, hhist, -⟩ := h.before_finish hg
  obtain ⟨-, evs, hin⟩ := inPass_of_run hg hrun h.one
  have hpoint := hin.point
  rw [hp] at hpoint
  obtain ⟨i, hwalk, hover⟩ := hpoint.over
  constructor
  all_goals rw [hin.eventsSince_eq hhist]
  case exactly => exact hwalk.callsExactlyDue hg.sorted hover
  case clock => exact hin.clock

/-- A pass that is not stopped behind an entry which is neither removed nor due keeps what it
should. -/
theorem InPass.keepsUnexpired {evs : List (TimeoutEvent κ)} {c : TimeoutLoop κ} {p : Pass}
    (h : InPass c₀ now evs c) (hp : c.point = .done p)
    (hmem : ∀ e, e ∈ c₁.members.timeouts ↔ e ∈ c.members.pendingTimeoutAdditions ∨
      e ∈ c.members.timeouts.drop p.i ∧ e.remove = false)
    (hhist : c₁.history = c.history) (hg₁ : Good c₁) (hnot : ¬ Stopped c) :
    KeepsUnexpired c₀ now c₁ := by
  have hpoint := h.point
  rw [hp] at hpoint
  obtain ⟨hnow, hend⟩ := hpoint
  have hnodup : (c₁.members.timeouts.map TimeoutCallback.handle).Nodup :=
    ((List.sublist_append_left _ _).map _).nodup hg₁.distinct
  refine ⟨hnodup.of_map _, fun e => ?_⟩
  rw [hmem, h.eventsSince_eq hhist, ← removed_mem_walk, ← added_mem_walk]
  rcases hend with ⟨hi, hwalk⟩ | ⟨k, e₀, hi, he₀, hlater, hrem, -⟩
  · have hdrop : c.members.timeouts.drop p.i = [] := by
      rw [hi, h.timeouts, List.drop_eq_nil_iff, List.length_map]
    rw [hdrop, h.pending, List.mem_filter, decide_eq_true_eq]
    constructor
    · rintro (⟨hadd, hrem⟩ | ⟨hin, -⟩)
      · exact ⟨Or.inr hadd, hrem⟩
      · exact absurd hin List.not_mem_nil
    · rintro ⟨⟨hin, hlater⟩ | hadd, hrem⟩
      · obtain ⟨k, hk⟩ := List.mem_iff_getElem?.mp hin
        have hlt : k < p.i := hi ▸ (List.getElem?_eq_some_iff.mp hk).1
        rcases hwalk.turned k e hlt hk with hcalled | hremoved
        · exact absurd (hwalk.due e hcalled) (not_le.mpr hlater)
        · exact absurd hremoved.mem hrem
      · exact Or.inl ⟨hadd, hrem⟩
  · refine absurd ⟨p, k, flaggedIn evs e₀, hp, hi, ?_, ?_, ?_⟩ hnot
    · rw [h.timeouts, List.getElem?_map, he₀, Option.map_some]
    · simpa [flaggedIn] using hrem
    · rw [hnow]
      exact hlater

/-- A pass that is stopped behind an entry which is neither removed nor due loses that entry. -/
theorem InPass.not_keepsUnexpired {evs : List (TimeoutEvent κ)} {c : TimeoutLoop κ} {p : Pass}
    (h : InPass c₀ now evs c) (hg : Good c) (hp : c.point = .done p)
    (hmem : ∀ e, e ∈ c₁.members.timeouts ↔ e ∈ c.members.pendingTimeoutAdditions ∨
      e ∈ c.members.timeouts.drop p.i ∧ e.remove = false)
    (hhist : c₁.history = c.history) (hstop : Stopped c) : ¬ KeepsUnexpired c₀ now c₁ := by
  intro hkeeps
  have hpoint := h.point
  rw [hp] at hpoint
  obtain ⟨q, k, e, hq, hi, he, hflag, hlater⟩ := hstop
  obtain rfl : p = q := PassPoint.done.inj (hp.symm.trans hq)
  have hget := he
  rw [h.timeouts, List.getElem?_map] at hget
  obtain ⟨e₀, he₀, rfl⟩ := Option.map_eq_some_iff.mp hget
  have hnot : .removed e₀.handle ∉ eventsSince c₀ c₁ := by
    rw [h.eventsSince_eq hhist, ← removed_mem_walk]
    simpa [flaggedIn] using hflag
  have hkept := (hkeeps.mem e₀).mpr
    ⟨Or.inl ⟨List.mem_of_getElem? he₀, hpoint.1 ▸ hlater⟩, hnot⟩
  -- nothing behind the stop has the handle of the entry
  rw [hmem, hi] at hkept
  exact hg.handle_ne_of_behind he (hkept.imp_right And.left) rfl

/-- A pass keeps what it should exactly if no iteration reaches an entry that is neither removed nor
due. -/
theorem IsPass.keepsUnexpired_iff (h : IsPass c₀ now body o c₁) (hg : Good c₀) :
    KeepsUnexpired c₀ now c₁ ↔
      timeoutStep.Along ReachesRemovedOrDue c₀ (.processTimeouts now :: body) := by
  obtain ⟨c, p, hrun, hp, hg₁, hhist, hmem⟩ := h.before_finish hg
  obtain ⟨hgc, evs, hin⟩ := inPass_of_run hg hrun h.one
  constructor
  · intro hkeeps
    have hone : ∀ o, .finish o ∉ .processTimeouts now :: body := by
      intro o hin
      rcases List.mem_cons.mp hin with hin | hin
      · exact absurd hin (by simp)
      · exact h.one o hin
    rcases along_or_stopped hrun hone with halong | hstop
    · exact halong
    · exact absurd hkeeps (hin.not_keepsUnexpired hgc hp hmem hhist hstop)
  · intro hok
    exact hin.keepsUnexpired hp hmem hhist hg₁ (not_stopped_of_along hg hrun h.one hok)

end Pass
end Linuxpp.Ioloop
