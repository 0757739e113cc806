import Linuxpp.Foundations.Keyed
import Linuxpp.Ioloop.PeriodicTimeouts

/-!
# Proofs: the periodic timeouts between two steps

What `add_periodic_timeout`, `remove_timeout` and the two ends of `process_periodic_timeouts` do to
the two vectors, and what each step of the loop requires and leaves behind.
-/

namespace Linuxpp.Ioloop

open SortedInsert SortOrder DueWalk

variable {κ : Type}

namespace PeriodicTimeouts

/-- The entries that `s` stores, the pending ones last. -/
def stored (s : PeriodicTimeouts κ) : List (PeriodicTimeoutCallback κ) :=
  s.periodicTimeouts ++ s.pendingPeriodicTimeoutAdditions

/-- The handles of the entries that `s` stores. -/
def handles (s : PeriodicTimeouts κ) : List PeriodicTimeoutHandle :=
  s.stored.map PeriodicTimeoutCallback.handle

/-- Arming the timer changes nothing else. -/
theorem armFrontThenReturn_members {ρ : Type} (s : PeriodicTimeouts κ) (o : SettimeOutcome)
    (r : ρ) :
    ∃ timer, (s.armFrontThenReturn o r).2 = { s with periodicTimeoutTimerfd := timer } := by
  obtain ⟨timeouts, processing, pending, timer, nextId⟩ := s
  cases timeouts with
  | nil => exact ⟨timer, rfl⟩
  | cons front rest => exact ⟨_, rfl⟩

theorem armFrontIf_members {ρ : Type} (s : PeriodicTimeouts κ) (b : Bool) (o : SettimeOutcome)
    (r : ρ) : ∃ timer, (if b then s.armFrontThenReturn o r else (.ok r, s)).2 =
      { s with periodicTimeoutTimerfd := timer } := by
  cases b with
  | true => exact s.armFrontThenReturn_members o r
  | false => exact ⟨s.periodicTimeoutTimerfd, rfl⟩

/-- `add_periodic_timeout` makes one handle and stores one entry: behind the pending ones during a
pass, and before the first entry with no earlier deadline otherwise. -/
theorem addPeriodicTimeout_members (s : PeriodicTimeouts κ) (period : Int) (callback : κ)
    (now : TimeType) (o : SettimeOutcome) :
    ∃ timer, (s.addPeriodicTimeout period callback now o).2 =
      { s with
        periodicTimeouts := if s.processingPeriodicTimeouts then s.periodicTimeouts
          else insertLower PeriodicTimeoutCallback.timeout s.periodicTimeouts
            (s.newEntry period callback now)
        pendingPeriodicTimeoutAdditions := if s.processingPeriodicTimeouts then
          s.pendingPeriodicTimeoutAdditions ++ [s.newEntry period callback now]
          else s.pendingPeriodicTimeoutAdditions
        periodicTimeoutTimerfd := timer
        nextId := s.nextId + 1 } := by
  obtain ⟨timeouts, processing, pending, timer, nextId⟩ := s
  cases processing with
  | true => exact ⟨timer, rfl⟩
  | false =>
    cases timeouts with
    | nil => exact ⟨_, rfl⟩
    | cons front rest =>
      simp only [addPeriodicTimeout, insertPeriodicTimeout, Bool.false_eq_true, if_false]
      exact armFrontIf_members _ _ _ _

/-- `remove_timeout` erases the entry with the handle, or flags it if a pass may look at it. -/
theorem removeTimeout_members {s s' : PeriodicTimeouts κ} (hs : s.handles.Nodup)
    {handle : PeriodicTimeoutHandle} (h : s.removeTimeout handle = some s') : s' =
      { s with periodicTimeouts := if s.processingPeriodicTimeouts then
            s.periodicTimeouts.map fun e =>
              if e.handle = handle then { e with remove := true } else e
          else s.periodicTimeouts.filter fun e => e.handle ≠ handle } := by
  have ht : (s.periodicTimeouts.map PeriodicTimeoutCallback.handle).Nodup :=
    ((List.sublist_append_left _ _).map _).nodup hs
  unfold removeTimeout at h
  by_cases hany : handle ∈ s.periodicTimeouts.map PeriodicTimeoutCallback.handle
  · rw [if_pos (by simpa [List.any_eq_true] using hany), Keyed.eraseP_eq_filter ht,
      Keyed.replaceF_eq_map ht fun e => { e with remove := true }] at h
    split_ifs at h ⊢ <;> exact (Option.some.inj h).symm
  · rw [if_neg (by simpa [List.any_eq_true] using hany)] at h
    rw [Keyed.filter_of_not_mem hany, Keyed.map_ite_of_not_mem _ hany, ite_self]
    split_ifs at h
    exact (Option.some.inj h).symm

/-- If the processed entries come first, the loop that resets them reaches them all. -/
theorem resetProcessed_eq_map (now : TimeType) {es : List (PeriodicTimeoutCallback κ)}
    (h : es.Pairwise fun a b => b.processed = true → a.processed = true) :
    resetProcessed now es = es.map fun e => if e.processed then e.reset now else e := by
  induction es with
  | nil => rfl
  | cons e es ih =>
    rw [List.pairwise_cons] at h
    cases he : e.processed with
    | true => rw [resetProcessed, if_pos he, List.map_cons, if_pos he, ih h.2]
    | false =>
      have hrest : ∀ e' ∈ es, (if e'.processed then e'.reset now else e') = id e' := by
        intro e' he'
        have hnot : ¬ e'.processed = true := fun hproc => by simp [h.1 e' he' hproc] at he
        rw [if_neg hnot, id]
      have hnot : ¬ e.processed = true := by simp [he]
      rw [resetProcessed, if_neg hnot, List.map_cons, if_neg hnot, List.map_congr_left hrest,
        List.map_id]

/-- What a pass leaves in `periodic_timeouts_`. -/
def merged (s : PeriodicTimeouts κ) (now : TimeType) (order : List ℕ) :
    List (PeriodicTimeoutCallback κ) :=
  s.pendingPeriodicTimeoutAdditions.foldl (insertLower PeriodicTimeoutCallback.timeout)
    (permute (s.rescheduled now) order)

theorem endPass_members (s : PeriodicTimeouts κ) (p : Pass) (now : TimeType) (order : List ℕ)
    (o : SettimeOutcome) : ∃ timer, (s.endPass p now order o).2 =
      { s with
        periodicTimeouts := s.merged now order
        pendingPeriodicTimeoutAdditions := []
        processingPeriodicTimeouts := p.sentry
        periodicTimeoutTimerfd := timer } :=
  armFrontThenReturn_members _ _ _

theorem sortedBy_merged {s : PeriodicTimeouts κ} {now : TimeType} {order : List ℕ}
    (h : IsSortOrder PeriodicTimeoutCallback.timeout (s.rescheduled now) order) :
    SortedBy PeriodicTimeoutCallback.timeout (s.merged now order) :=
  SortedBy.foldl_insertLower h.2 _

theorem merged_perm {s : PeriodicTimeouts κ} {now : TimeType} {order : List ℕ}
    (h : IsSortOrder PeriodicTimeoutCallback.timeout (s.rescheduled now) order) :
    (s.merged now order).Perm (s.rescheduled now ++ s.pendingPeriodicTimeoutAdditions) := by
  have hinserted : (s.merged now order).Perm
      (s.pendingPeriodicTimeoutAdditions ++ permute (s.rescheduled now) order) :=
    foldl_insertLower_perm _ _
  exact hinserted.trans (((permute_perm h.1).append_left _).trans List.perm_append_comm)

end PeriodicTimeouts

section Step

variable {c t : PeriodicTimeoutLoop κ}

attribute [local simp] periodicTimeoutStep

theorem periodicTimeoutStep_addPeriodicTimeout {period : Int} {callback : κ} {now : TimeType}
    {o : SettimeOutcome} :
    periodicTimeoutStep c (.addPeriodicTimeout period callback now o) = some t ↔
      c.point.userCode = true ∧
      { c with
        members := (c.members.addPeriodicTimeout period callback now o).2
        history := c.history ++ [.added (c.members.newEntry period callback now)] } = t := by
  simp

theorem periodicTimeoutStep_removeTimeout {handle : PeriodicTimeoutHandle} :
    periodicTimeoutStep c (.removeTimeout handle) = some t ↔
      (c.point.userCode = true ∧ handle.id < c.members.nextId) ∧
      ∃ members, c.members.removeTimeout handle = some members ∧
        { c with members := members, history := c.history ++ [.removed handle] } = t := by
  simp

theorem periodicTimeoutStep_periodicTimeoutHandle :
    periodicTimeoutStep c .periodicTimeoutHandle = some t ↔ c.point.userCode = true ∧
      { c with members := { c.members with nextId := c.members.nextId + 1 } } = t := by
  simp

theorem periodicTimeoutStep_processPeriodicTimeouts {now : TimeType} :
    periodicTimeoutStep c (.processPeriodicTimeouts now) = some t ↔ c.point = .outside ∧
      { c with
        members := (c.members.beginPass now).2
        point := .loop (c.members.beginPass now).1 } = t := by
  cases hp : c.point <;> simp [hp]

theorem periodicTimeoutStep_iterate :
    periodicTimeoutStep c .iterate = some t ↔
      ∃ p, c.point = .loop p ∧ periodicIteration c p = t := by
  cases hp : c.point <;> simp [hp]

theorem periodicTimeoutStep_callbackReturns :
    periodicTimeoutStep c .callbackReturns = some t ↔
      ∃ p, c.point = .callback p ∧ { c with point := .loop p } = t := by
  cases hp : c.point <;> simp [hp]

theorem periodicTimeoutStep_finish {now : TimeType} {order : List ℕ} {o : SettimeOutcome} :
    periodicTimeoutStep c (.finish now order o) = some t ↔ ∃ p, c.point = .done p ∧
      IsSortOrder PeriodicTimeoutCallback.timeout (c.members.rescheduled now) order ∧
      { c with members := (c.members.endPass p now order o).2, point := .outside } = t := by
  cases hp : c.point <;> simp [hp]

end Step

/-- The four ways an iteration can go. -/
inductive PeriodicIterates (c : PeriodicTimeoutLoop κ) (p : Pass) : PeriodicTimeoutLoop κ → Prop
  | atEnd (he : c.members.periodicTimeouts[p.i]? = none) :
      PeriodicIterates c p { c with point := .done p }
  | skip (e : PeriodicTimeoutCallback κ) (he : c.members.periodicTimeouts[p.i]? = some e)
      (hflag : e.remove = true) :
      PeriodicIterates c p { c with point := .loop { p with i := p.i + 1 } }
  | call (e : PeriodicTimeoutCallback κ) (he : c.members.periodicTimeouts[p.i]? = some e)
      (hflag : e.remove = false) (hdue : e.timeout ≤ p.now) :
      PeriodicIterates c p
        { members := { c.members with
            periodicTimeouts := c.members.periodicTimeouts.set p.i { e with processed := true } }
          point := .callback { p with i := p.i + 1 }
          history := c.history ++ [.called e] }
  | stop (e : PeriodicTimeoutCallback κ) (he : c.members.periodicTimeouts[p.i]? = some e)
      (hflag : e.remove = false) (hlater : p.now < e.timeout) :
      PeriodicIterates c p { c with point := .done p }

theorem periodicIterates (c : PeriodicTimeoutLoop κ) (p : Pass) :
    PeriodicIterates c p (periodicIteration c p) := by
  unfold periodicIteration
  cases he : c.members.periodicTimeouts[p.i]? with
  | none => exact .atEnd he
  | some e =>
    simp only
    split_ifs with hflag hdue
    · exact .skip e he hflag
    · exact .call e he (by simpa using hflag) hdue
    · exact .stop e he (by simpa using hflag) (not_le.mp hdue)

end Linuxpp.Ioloop
