import Linuxpp.Foundations.Keyed
import Linuxpp.Ioloop.Timeouts

/-!
# Proofs: the one-shot timeouts between two steps

What `add_timeout`, `remove_timeout` and the two ends of `process_timeouts` do to the two vectors,
and the invariant of every reachable state: `timeouts_` is sorted, all handles are distinct and
made, and entries are flagged or pending only during a pass.
-/

namespace Linuxpp.Ioloop

open SortedInsert

variable {κ : Type}

namespace Timeouts

variable {s : Timeouts κ}

/-- The entries that `s` stores, the pending ones last. -/
def stored (s : Timeouts κ) : List (TimeoutCallback κ) := s.timeouts ++ s.pendingTimeoutAdditions

/-- The handles of the entries that `s` stores. -/
def handles (s : Timeouts κ) : List TimeoutHandle := s.stored.map TimeoutCallback.handle

@[simp] theorem newEntry_handle (s : Timeouts κ) (timeout : TimeType) (callback : κ) :
    (s.newEntry timeout callback).handle = ⟨s.nextId⟩ := rfl

/-- `add_timeout` makes one handle and stores one entry: behind the pending ones during a pass, and
before the first entry with no earlier deadline otherwise. -/
theorem addTimeout_members (s : Timeouts κ) (timeout : TimeType) (callback : κ)
    (o : SettimeOutcome) : ∃ timer, (s.addTimeout timeout callback o).2 =
      { s with
        timeouts := if s.processingTimeouts then s.timeouts
          else insertLower TimeoutCallback.timeout s.timeouts (s.newEntry timeout callback)
        pendingTimeoutAdditions := if s.processingTimeouts then
          s.pendingTimeoutAdditions ++ [s.newEntry timeout callback] else s.pendingTimeoutAdditions
        timeoutTimerfd := timer
        nextId := s.nextId + 1 } := by
  cases hp : s.processingTimeouts with
  | true => exact ⟨s.timeoutTimerfd, by simp [addTimeout, hp]⟩
  | false =>
    cases ht : s.timeouts with
    | nil => exact ⟨_, by simp only [addTimeout, hp, ht]; rfl⟩
    | cons front rest =>
      simp only [addTimeout, hp, ht, insertTimeout, Bool.false_eq_true, if_false]
      split_ifs
      · exact ⟨_, rfl⟩
      · exact ⟨s.timeoutTimerfd, rfl⟩

/-- Flagging the first entry with a handle flags every entry with that handle, there being one. -/
theorem flagRemoved_eq_map {es : List (TimeoutCallback κ)} {handle : TimeoutHandle}
    (h : (es.map TimeoutCallback.handle).Nodup) :
    flagRemoved handle es =
      es.map fun e => if e.handle = handle then { e with remove := true } else e := by
  induction es with
  | nil => rfl
  | cons e es ih =>
    rw [List.map_cons, List.nodup_cons] at h
    by_cases he : e.handle = handle
    · rw [flagRemoved, if_pos he, List.map_cons, if_pos he, Keyed.map_ite_of_not_mem _ (he ▸ h.1)]
    · rw [flagRemoved, if_neg he, List.map_cons, if_neg he, ih h.2]

/-- `remove_timeout` erases the entry with the handle, or flags it if a pass may look at it. -/
theorem removeTimeout_members (hs : s.handles.Nodup)
    (handle : TimeoutHandle) : s.removeTimeout handle =
      { s with
        timeouts := if s.processingTimeouts then
            s.timeouts.map fun e => if e.handle = handle then { e with remove := true } else e
          else s.timeouts.filter fun e => e.handle ≠ handle
        pendingTimeoutAdditions :=
          s.pendingTimeoutAdditions.filter fun e => e.handle ≠ handle } := by
  rw [handles, stored, List.map_append, List.nodup_append] at hs
  obtain ⟨ht, hp, hdisj⟩ := hs
  unfold removeTimeout
  by_cases hany : handle ∈ s.timeouts.map TimeoutCallback.handle
  · have hpend : handle ∉ s.pendingTimeoutAdditions.map TimeoutCallback.handle :=
      fun hin => hdisj _ hany _ hin rfl
    rw [if_pos (by simpa [List.any_eq_true] using hany), Keyed.filter_of_not_mem hpend,
      flagRemoved_eq_map ht, Keyed.eraseP_eq_filter ht]
    split_ifs <;> rfl
  · rw [if_neg (by simpa [List.any_eq_true] using hany), Keyed.eraseP_eq_filter hp,
      Keyed.filter_of_not_mem hany, Keyed.map_ite_of_not_mem _ hany]
    split_ifs <;> rfl

/-- What a pass leaves in `timeouts_`: the entries from its iterator on that are not flagged, and
the pending ones. -/
def merged (s : Timeouts κ) (p : Pass) : List (TimeoutCallback κ) :=
  s.pendingTimeoutAdditions.foldl (insertLower TimeoutCallback.timeout)
    ((s.timeouts.drop p.i).filter fun e => !e.remove)

theorem endPass_members (s : Timeouts κ) (p : Pass) (o : SettimeOutcome) :
    ∃ timer, (s.endPass p o).2 =
      { s with
        timeouts := s.merged p
        pendingTimeoutAdditions := []
        processingTimeouts := p.sentry
        timeoutTimerfd := timer } := by
  cases hm : s.merged p with
  | nil =>
    unfold merged at hm
    simp only [endPass, hm]
    exact ⟨_, rfl⟩
  | cons front rest =>
    unfold merged at hm
    simp only [endPass, hm]
    exact ⟨_, rfl⟩

theorem mem_merged {p : Pass} {e : TimeoutCallback κ} : e ∈ s.merged p ↔
    e ∈ s.pendingTimeoutAdditions ∨ e ∈ s.timeouts.drop p.i ∧ e.remove = false := by
  simp [merged, mem_foldl_insertLower]

theorem merged_perm (s : Timeouts κ) (p : Pass) : (s.merged p).Perm
    (s.pendingTimeoutAdditions ++ (s.timeouts.drop p.i).filter fun e => !e.remove) :=
  foldl_insertLower_perm _ _

theorem addTimeout_stored_perm (s : Timeouts κ) (timeout : TimeType) (callback : κ)
    (o : SettimeOutcome) : ((s.addTimeout timeout callback o).2.stored).Perm
      (s.newEntry timeout callback :: s.stored) := by
  obtain ⟨timer, ht⟩ := s.addTimeout_members timeout callback o
  rw [ht]
  unfold stored
  cases s.processingTimeouts with
  | true =>
    simp only [if_true]
    rw [← List.append_assoc]
    exact List.perm_append_singleton _ _
  | false => exact (insertLower_perm _ _).append_right _

theorem removeTimeout_handles_sublist (hs : s.handles.Nodup) (handle : TimeoutHandle) :
    (s.removeTimeout handle).handles.Sublist s.handles := by
  rw [removeTimeout_members hs]
  simp only [handles, stored, List.map_append]
  refine List.Sublist.append ?_ (List.filter_sublist.map _)
  split_ifs
  · have hkeep : ∀ e ∈ s.timeouts, (TimeoutCallback.handle ∘ fun e =>
        if e.handle = handle then { e with remove := true } else e) e = e.handle := by
      intro e _
      simp only [Function.comp_apply]
      split_ifs <;> rfl
    rw [List.map_map, List.map_congr_left hkeep]
  · exact List.filter_sublist.map _

theorem endPass_stored (s : Timeouts κ) (p : Pass) (o : SettimeOutcome) :
    ∃ kept, ((s.endPass p o).2.stored).Perm kept ∧ kept.Sublist s.stored := by
  obtain ⟨timer, ht⟩ := s.endPass_members p o
  have hkept : ((s.timeouts.drop p.i).filter fun e => !e.remove).Sublist s.timeouts :=
    List.filter_sublist.trans (List.drop_sublist p.i s.timeouts)
  refine ⟨_, ?_, hkept.append_right _⟩
  rw [ht]
  simp only [stored, List.append_nil]
  exact (s.merged_perm p).trans List.perm_append_comm

/-- An entry after `remove_timeout` is an entry from before, possibly flagged since. -/
theorem removeTimeout_stored (hs : s.handles.Nodup) {handle : TimeoutHandle}
    {e : TimeoutCallback κ} (he : e ∈ (s.removeTimeout handle).stored) :
    ∃ e' ∈ s.stored, { e with remove := e'.remove } = e' := by
  rw [removeTimeout_members hs] at he
  rcases List.mem_append.mp he with he | he
  · simp only at he
    split_ifs at he
    · obtain ⟨e', he', rfl⟩ := List.mem_map.mp he
      refine ⟨e', List.mem_append_left _ he', ?_⟩
      split_ifs <;> rfl
    · exact ⟨e, List.mem_append_left _ (List.mem_of_mem_filter he), rfl⟩
  · exact ⟨e, List.mem_append_right _ (List.mem_of_mem_filter he), rfl⟩

end Timeouts

/-- The members at a point of the thread: a pass sets `processing_timeouts_`, and outside of passes
no entry is flagged or pending. -/
def AtPoint (s : Timeouts κ) : PassPoint → Prop
  | .outside => s.processingTimeouts = false ∧ s.pendingTimeoutAdditions = [] ∧
      ∀ e ∈ s.timeouts, e.remove = false
  | .loop p | .callback p | .done p =>
      s.processingTimeouts = true ∧ p.sentry = false ∧ p.i ≤ s.timeouts.length

/-- The handle an event is about. -/
def TimeoutEvent.handle : TimeoutEvent κ → TimeoutHandle
  | .added e | .called _ e => e.handle
  | .removed handle => handle

/-- The invariant of the reachable states. -/
structure Good (c : TimeoutLoop κ) : Prop where
  sorted : SortedBy TimeoutCallback.timeout c.members.timeouts
  distinct : c.members.handles.Nodup
  made : ∀ handle ∈ c.members.handles, handle.id < c.members.nextId
  past : ∀ ev ∈ c.history, ev.handle.id < c.members.nextId
  unflagged : ∀ e ∈ c.members.pendingTimeoutAdditions, e.remove = false
  origin : ∀ e, .added e ∈ c.history → ∀ e' ∈ c.members.stored, e'.handle = e.handle →
    { e' with remove := false } = e
  genuine : ∀ e, .added e ∈ c.history → ∀ now e', .called now e' ∈ c.history →
    e'.handle = e.handle → e' = e
  point : AtPoint c.members c.point

theorem good_init : Good ({} : TimeoutLoop κ) where
  sorted := List.Pairwise.nil
  distinct := List.nodup_nil
  made := by simp [Timeouts.handles, Timeouts.stored]
  past := by simp
  unflagged := by simp
  origin := by simp
  genuine := by simp
  point := by simp [AtPoint]

theorem PassPoint.userCode_iff {point : PassPoint} :
    point.userCode = true ↔ point = .outside ∨ ∃ p, point = .callback p := by
  cases point <;> simp [userCode]

theorem AtPoint.addTimeout {s : Timeouts κ} {point : PassPoint} (h : AtPoint s point)
    (huser : point.userCode = true) (timeout : TimeType) (callback : κ) (o : SettimeOutcome) :
    AtPoint (s.addTimeout timeout callback o).2 point := by
  obtain ⟨timer, ht⟩ := s.addTimeout_members timeout callback o
  rw [ht]
  rcases PassPoint.userCode_iff.mp huser with rfl | ⟨p, rfl⟩
  · obtain ⟨hproc, hpend, hflag⟩ := h
    refine ⟨hproc, by simp [hproc, hpend], fun e he => ?_⟩
    simp only [hproc, Bool.false_eq_true, if_false, mem_insertLower] at he
    rcases he with rfl | he
    · rfl
    · exact hflag e he
  · obtain ⟨hproc, hsentry, hi⟩ := h
    exact ⟨hproc, hsentry, by simpa [hproc] using hi⟩

theorem AtPoint.removeTimeout {s : Timeouts κ} {point : PassPoint} (h : AtPoint s point)
    (huser : point.userCode = true) (hs : s.handles.Nodup) (handle : TimeoutHandle) :
    AtPoint (s.removeTimeout handle) point := by
  rw [Timeouts.removeTimeout_members hs]
  rcases PassPoint.userCode_iff.mp huser with rfl | ⟨p, rfl⟩
  · obtain ⟨hproc, hpend, hflag⟩ := h
    refine ⟨hproc, by simp [hpend], fun e he => hflag e ?_⟩
    simp only [hproc, Bool.false_eq_true, if_false] at he
    exact List.mem_of_mem_filter he
  · obtain ⟨hproc, hsentry, hi⟩ := h
    exact ⟨hproc, hsentry, by simpa [hproc] using hi⟩

theorem Good.addTimeout {c : TimeoutLoop κ} (h : Good c) (huser : c.point.userCode = true)
    (timeout : TimeType) (callback : κ) (o : SettimeOutcome) :
    Good { c with
      members := (c.members.addTimeout timeout callback o).2
      history := c.history ++ [.added (c.members.newEntry timeout callback)] } := by
  have hperm := (c.members.addTimeout_stored_perm timeout callback o).map TimeoutCallback.handle
  have hfresh : (c.members.newEntry timeout callback).handle ∉ c.members.handles :=
    fun hin => (h.made _ hin).ne rfl
  obtain ⟨timer, ht⟩ := c.members.addTimeout_members timeout callback o
  constructor
  case sorted =>
    rw [ht]
    cases hp : c.members.processingTimeouts with
    | true => simpa [hp] using h.sorted
    | false => simpa [hp] using h.sorted.insertLower (c.members.newEntry timeout callback)
  case distinct =>
    exact hperm.nodup_iff.mpr (List.nodup_cons.mpr ⟨hfresh, h.distinct⟩)
  case made =>
    intro handle hin
    rw [ht]
    rcases List.mem_cons.mp (hperm.mem_iff.mp hin) with rfl | hin
    · exact Nat.lt_succ_self _
    · exact Nat.lt_succ_of_lt (h.made handle hin)
  case past =>
    intro ev hev
    rw [ht]
    rcases List.mem_append.mp hev with hev | hev
    · exact Nat.lt_succ_of_lt (h.past ev hev)
    · obtain rfl := List.mem_singleton.mp hev
      exact Nat.lt_succ_self _
  case unflagged =>
    intro e he
    rw [ht] at he
    cases hp : c.members.processingTimeouts with
    | true =>
      simp only [hp, if_true, List.mem_append, List.mem_singleton] at he
      rcases he with he | rfl
      · exact h.unflagged e he
      · rfl
    | false => exact h.unflagged e (by simpa [hp] using he)
  case origin =>
    intro e he e' he' heq
    have hstored := (c.members.addTimeout_stored_perm timeout callback o).mem_iff.mp he'
    rcases List.mem_append.mp he with he | he <;> rcases List.mem_cons.mp hstored with rfl | hin
    · exact absurd (h.past _ he) (by simp [TimeoutEvent.handle, ← heq])
    · exact h.origin e he e' hin heq
    · simp_all [Timeouts.newEntry]
    · obtain rfl : e = c.members.newEntry timeout callback := by simpa using he
      exact absurd (heq ▸ List.mem_map_of_mem hin) hfresh
  case genuine =>
    intro e he now e' he' heq
    have hcalled : .called now e' ∈ c.history := by simpa using he'
    rcases List.mem_append.mp he with he | he
    · exact h.genuine e he now e' hcalled heq
    · obtain rfl : e = c.members.newEntry timeout callback := by simpa using he
      exact absurd (h.past _ hcalled) (by simp [TimeoutEvent.handle, heq])
  case point => exact h.point.addTimeout huser timeout callback o

theorem Good.removeTimeout {c : TimeoutLoop κ} (h : Good c) (huser : c.point.userCode = true)
    {handle : TimeoutHandle} (hmade : handle.id < c.members.nextId) :
    Good { c with
      members := c.members.removeTimeout handle, history := c.history ++ [.removed handle] } := by
  have hsub := Timeouts.removeTimeout_handles_sublist h.distinct handle
  have hmem := Timeouts.removeTimeout_members h.distinct handle
  constructor
  case sorted =>
    rw [hmem]
    simp only
    split_ifs
    · refine List.pairwise_map.mpr (h.sorted.imp fun {a b} hab => ?_)
      split_ifs <;> exact hab
    · exact h.sorted.filter _
  case distinct => exact hsub.nodup h.distinct
  case made =>
    intro k hin
    rw [hmem]
    exact h.made k (hsub.subset hin)
  case past =>
    intro ev hev
    rw [hmem]
    rcases List.mem_append.mp hev with hev | hev
    · exact h.past ev hev
    · obtain rfl := List.mem_singleton.mp hev
      exact hmade
  case unflagged =>
    intro e he
    rw [hmem] at he
    exact h.unflagged e (List.mem_of_mem_filter he)
  case origin =>
    intro e he e' he' heq
    obtain ⟨e'', hin, hsame⟩ := Timeouts.removeTimeout_stored h.distinct he'
    have hold := h.origin e (by simpa using he) e'' hin (by rw [← hsame]; exact heq)
    rw [← hold, ← hsame]
  case genuine =>
    intro e he now e' he'
    exact h.genuine e (by simpa using he) now e' (by simpa using he')
  case point => exact h.point.removeTimeout huser h.distinct handle

/-- The four ways an iteration can go. -/
inductive Iterates (c : TimeoutLoop κ) (p : Pass) : TimeoutLoop κ → Prop
  | atEnd (he : c.members.timeouts[p.i]? = none) : Iterates c p { c with point := .done p }
  | skip (e : TimeoutCallback κ) (he : c.members.timeouts[p.i]? = some e)
      (hflag : e.remove = true) :
      Iterates c p { c with point := .loop { p with i := p.i + 1 } }
  | call (e : TimeoutCallback κ) (he : c.members.timeouts[p.i]? = some e)
      (hflag : e.remove = false) (hdue : e.timeout ≤ p.now) :
      Iterates c p { c with
        point := .callback { p with i := p.i + 1 }, history := c.history ++ [.called p.now e] }
  | stop (e : TimeoutCallback κ) (he : c.members.timeouts[p.i]? = some e)
      (hflag : e.remove = false) (hlater : p.now < e.timeout) :
      Iterates c p { c with point := .done { p with i := p.i + 1 } }

theorem iterates (c : TimeoutLoop κ) (p : Pass) : Iterates c p (iteration c p) := by
  unfold iteration
  cases he : c.members.timeouts[p.i]? with
  | none => exact .atEnd he
  | some e =>
    simp only
    split_ifs with hflag hdue
    · exact .skip e he hflag
    · exact .call e he (by simpa using hflag) hdue
    · exact .stop e he (by simpa using hflag) (not_le.mp hdue)

theorem Good.iteration {c : TimeoutLoop κ} (h : Good c) {p : Pass} (hp : c.point = .loop p) :
    Good (iteration c p) := by
  have hpoint := h.point
  rw [hp] at hpoint
  obtain ⟨hproc, hsentry, hi⟩ := hpoint
  have hit := iterates c p
  generalize Ioloop.iteration c p = t at hit ⊢
  cases hit with
  | atEnd => exact { h with point := ⟨hproc, hsentry, hi⟩ }
  | skip e he =>
    exact { h with point := ⟨hproc, hsentry, (List.getElem?_eq_some_iff.mp he).1⟩ }
  | stop e he =>
    exact { h with point := ⟨hproc, hsentry, (List.getElem?_eq_some_iff.mp he).1⟩ }
  | call e he hflag =>
    have hlt := (List.getElem?_eq_some_iff.mp he).1
    have hstored : e ∈ c.members.stored := List.mem_append_left _ (List.mem_of_getElem? he)
    refine { h with past := ?_, origin := ?_, genuine := ?_, point := ⟨hproc, hsentry, hlt⟩ }
    · intro ev hev
      rcases List.mem_append.mp hev with hev | hev
      · exact h.past ev hev
      · obtain rfl := List.mem_singleton.mp hev
        exact h.made _ (List.mem_map_of_mem hstored)
    · intro e₀ he₀
      exact h.origin e₀ (by simpa using he₀)
    · intro e₀ he₀ now e' he' heq
      have hadded : .added e₀ ∈ c.history := by simpa using he₀
      rcases List.mem_append.mp he' with he' | he'
      · exact h.genuine e₀ hadded now e' he' heq
      · obtain ⟨-, rfl⟩ : now = p.now ∧ e' = e := by simpa using he'
        rw [← h.origin e₀ hadded e' hstored heq, ← hflag]

theorem Good.endPass {c : TimeoutLoop κ} (h : Good c) {p : Pass} (hp : c.point = .done p)
    (o : SettimeOutcome) :
    Good { c with members := (c.members.endPass p o).2, point := .outside } := by
  have hpoint := h.point
  rw [hp] at hpoint
  obtain ⟨kept, hperm, hsub⟩ := c.members.endPass_stored p o
  have hkeys := hperm.map TimeoutCallback.handle
  have hkept := hsub.map TimeoutCallback.handle
  obtain ⟨timer, ht⟩ := c.members.endPass_members p o
  constructor
  case sorted =>
    rw [ht]
    refine SortedBy.foldl_insertLower (h.sorted.sublist ?_) _
    exact List.filter_sublist.trans (List.drop_sublist p.i c.members.timeouts)
  case distinct => exact hkeys.nodup_iff.mpr (hkept.nodup h.distinct)
  case made =>
    intro handle hin
    rw [ht]
    exact h.made handle (hkept.subset (hkeys.mem_iff.mp hin))
  case past => rw [ht]; exact h.past
  case origin =>
    exact fun e he e' he' => h.origin e he e' (hsub.subset (hperm.mem_iff.mp he'))
  case genuine => exact h.genuine
  case unflagged => rw [ht]; simp
  case point =>
    rw [ht]
    refine ⟨hpoint.2.1, rfl, fun e he => ?_⟩
    rcases Timeouts.mem_merged.mp he with he | ⟨-, he⟩
    · exact h.unflagged e he
    · exact he

section Step

variable {c t : TimeoutLoop κ}

attribute [local simp] timeoutStep

theorem timeoutStep_addTimeout {timeout : TimeType} {callback : κ} {o : SettimeOutcome} :
    timeoutStep c (.addTimeout timeout callback o) = some t ↔ c.point.userCode = true ∧
      { c with
        members := (c.members.addTimeout timeout callback o).2
        history := c.history ++ [.added (c.members.newEntry timeout callback)] } = t := by
  simp

theorem timeoutStep_removeTimeout {handle : TimeoutHandle} :
    timeoutStep c (.removeTimeout handle) = some t ↔
      (c.point.userCode = true ∧ handle.id < c.members.nextId) ∧
      { c with
        members := c.members.removeTimeout handle
        history := c.history ++ [.removed handle] } = t := by
  simp

theorem timeoutStep_timeoutHandle :
    timeoutStep c .timeoutHandle = some t ↔ c.point.userCode = true ∧
      { c with members := { c.members with nextId := c.members.nextId + 1 } } = t := by
  simp

theorem timeoutStep_processTimeouts {now : TimeType} :
    timeoutStep c (.processTimeouts now) = some t ↔ c.point = .outside ∧
      { c with
        members := (c.members.beginPass now).2
        point := .loop (c.members.beginPass now).1 } = t := by
  cases hp : c.point <;> simp [hp]

theorem timeoutStep_iterate :
    timeoutStep c .iterate = some t ↔ ∃ p, c.point = .loop p ∧ iteration c p = t := by
  cases hp : c.point <;> simp [hp]

theorem timeoutStep_callbackReturns :
    timeoutStep c .callbackReturns = some t ↔
      ∃ p, c.point = .callback p ∧ { c with point := .loop p } = t := by
  cases hp : c.point <;> simp [hp]

theorem timeoutStep_finish {o : SettimeOutcome} :
    timeoutStep c (.finish o) = some t ↔ ∃ p, c.point = .done p ∧
      { c with members := (c.members.endPass p o).2, point := .outside } = t := by
  cases hp : c.point <;> simp [hp]

end Step

/-- Every step keeps the invariant. -/
theorem Good.step {c t : TimeoutLoop κ} {l : TimeoutStep κ} (h : Good c)
    (hl : timeoutStep c l = some t) : Good t := by
  cases l with
  | addTimeout timeout callback o =>
    obtain ⟨huser, rfl⟩ := timeoutStep_addTimeout.mp hl
    exact h.addTimeout huser timeout callback o
  | removeTimeout handle =>
    obtain ⟨⟨huser, hmade⟩, rfl⟩ := timeoutStep_removeTimeout.mp hl
    exact h.removeTimeout huser hmade
  | timeoutHandle =>
    obtain ⟨-, rfl⟩ := timeoutStep_timeoutHandle.mp hl
    exact { h with
      made := fun handle hin => Nat.lt_succ_of_lt (h.made handle hin)
      past := fun ev hev => Nat.lt_succ_of_lt (h.past ev hev) }
  | processTimeouts now =>
    obtain ⟨hp, rfl⟩ := timeoutStep_processTimeouts.mp hl
    have hpoint := h.point
    rw [hp] at hpoint
    exact { h with point := ⟨rfl, hpoint.1, Nat.zero_le _⟩ }
  | iterate =>
    obtain ⟨p, hp, rfl⟩ := timeoutStep_iterate.mp hl
    exact h.iteration hp
  | callbackReturns =>
    obtain ⟨p, hp, rfl⟩ := timeoutStep_callbackReturns.mp hl
    have hpoint := h.point
    rw [hp] at hpoint
    exact { h with point := hpoint }
  | finish o =>
    obtain ⟨p, hp, rfl⟩ := timeoutStep_finish.mp hl
    exact h.endPass hp o

theorem Good.of_reachable {c : TimeoutLoop κ} (hc : timeoutStep.Reachable {} c) : Good c :=
  hc.invariant (fun _ _ _ h hl => h.step hl) good_init

end Linuxpp.Ioloop
