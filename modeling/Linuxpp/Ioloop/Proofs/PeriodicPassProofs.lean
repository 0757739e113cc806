import Linuxpp.Ioloop.Proofs.PeriodicTimeoutsProofs

/-!
# Proofs: one pass of `process_periodic_timeouts`

The state inside a pass is the state before it, with the entries that were removed since marked
`remove` and those that were called marked `processed`, and a walk over what was due. When the walk
is over, the entries that were called and not removed come before all others that were not removed,
so the loop that resets them reaches them all.
-/

namespace Linuxpp.Ioloop

open SortedInsert SortOrder DueWalk

variable {κ : Type}

/-- No pass is running: `periodic_timeouts_` is sorted, its handles are distinct and made, and no
entry is flagged or pending. -/
structure Idle (c : PeriodicTimeoutLoop κ) : Prop where
  point : c.point = .outside
  sorted : SortedBy PeriodicTimeoutCallback.timeout c.members.periodicTimeouts
  distinct : (c.members.periodicTimeouts.map PeriodicTimeoutCallback.handle).Nodup
  made : ∀ e ∈ c.members.periodicTimeouts, e.handle.id < c.members.nextId
  unflagged : ∀ e ∈ c.members.periodicTimeouts, e.remove = false ∧ e.processed = false
  processing : c.members.processingPeriodicTimeouts = false
  pending : c.members.pendingPeriodicTimeoutAdditions = []

/-- An entry with the flags that the pass has set. -/
def marked (evs : List (PeriodicTimeoutEvent κ)) (e : PeriodicTimeoutCallback κ) :
    PeriodicTimeoutCallback κ :=
  { e with
    remove := decide (e.handle ∈ removals evs)
    processed := decide (e.handle ∈ (calls evs).map PeriodicTimeoutCallback.handle) }

/-- The walk of a pass over the entries `xs`, at a point of the thread. -/
def WalkAt (xs : List (PeriodicTimeoutCallback κ)) (now : TimeType)
    (evs : List (PeriodicTimeoutEvent κ)) : PassPoint → Prop
  | .outside => False
  | .loop p | .callback p => p.now = now ∧ p.sentry = false ∧
      Walk PeriodicTimeoutCallback.handle PeriodicTimeoutCallback.timeout xs now evs p.i
  | .done p => p.sentry = false ∧
      Walk PeriodicTimeoutCallback.handle PeriodicTimeoutCallback.timeout xs now evs p.i ∧
      Over PeriodicTimeoutCallback.timeout xs now p.i

/-- `c` is inside the pass that `c₀` began with the clock value `now`; `evs` happened since. -/
structure InPeriodicPass (c₀ : PeriodicTimeoutLoop κ) (now : TimeType)
    (evs : List (PeriodicTimeoutEvent κ)) (c : PeriodicTimeoutLoop κ) : Prop where
  idle : Idle c₀
  history : c.history = c₀.history ++ evs
  timeouts : c.members.periodicTimeouts = c₀.members.periodicTimeouts.map (marked evs)
  pending : c.members.pendingPeriodicTimeoutAdditions = additions evs
  distinct : ((c₀.members.periodicTimeouts ++ additions evs).map
    PeriodicTimeoutCallback.handle).Nodup
  made : ∀ e ∈ c₀.members.periodicTimeouts ++ additions evs, e.handle.id < c.members.nextId
  unflagged : ∀ e ∈ additions evs, e.remove = false ∧ e.processed = false
  processing : c.members.processingPeriodicTimeouts = true
  walk : WalkAt c₀.members.periodicTimeouts now evs c.point

section Idle

variable {c t : PeriodicTimeoutLoop κ}

theorem idle_init : Idle ({} : PeriodicTimeoutLoop κ) where
  point := rfl
  sorted := List.Pairwise.nil
  distinct := List.nodup_nil
  made := by simp
  unflagged := by simp
  processing := rfl
  pending := rfl

theorem Idle.handles_nodup (h : Idle c) : c.members.handles.Nodup := by
  rw [PeriodicTimeouts.handles, PeriodicTimeouts.stored, h.pending, List.append_nil]
  exact h.distinct

theorem Idle.addPeriodicTimeout (h : Idle c) (period : Int) (callback : κ) (now : TimeType)
    (o : SettimeOutcome) (history : List (PeriodicTimeoutEvent κ)) :
    Idle { c with
      members := (c.members.addPeriodicTimeout period callback now o).2, history := history } := by
  obtain ⟨timer, hadd⟩ := c.members.addPeriodicTimeout_members period callback now o
  rw [hadd, h.processing]
  have hmem : ∀ e ∈ insertLower PeriodicTimeoutCallback.timeout c.members.periodicTimeouts
      (c.members.newEntry period callback now),
      e = c.members.newEntry period callback now ∨ e ∈ c.members.periodicTimeouts :=
    fun e he => mem_insertLower.mp he
  constructor
  case point => exact h.point
  case sorted => exact h.sorted.insertLower _
  case distinct =>
    have hperm : (insertLower PeriodicTimeoutCallback.timeout c.members.periodicTimeouts
        (c.members.newEntry period callback now)).Perm
        (c.members.newEntry period callback now :: c.members.periodicTimeouts) :=
      insertLower_perm _ _
    refine (hperm.map _).nodup_iff.mpr (List.nodup_cons.mpr ⟨fun hin => ?_, h.distinct⟩)
    obtain ⟨e, he, heq⟩ := List.mem_map.mp hin
    have hlt := h.made e he
    rw [heq] at hlt
    exact absurd hlt (Nat.lt_irrefl _)
  case made =>
    intro e he
    rcases hmem e he with rfl | he
    · exact Nat.lt_succ_self _
    · exact Nat.lt_succ_of_lt (h.made e he)
  case unflagged =>
    intro e he
    rcases hmem e he with rfl | he
    · exact ⟨rfl, rfl⟩
    · exact h.unflagged e he
  case processing => rfl
  case pending => exact h.pending

theorem Idle.removeTimeout (h : Idle c) {handle : PeriodicTimeoutHandle}
    {members : PeriodicTimeouts κ} (hremove : c.members.removeTimeout handle = some members)
    (history : List (PeriodicTimeoutEvent κ)) :
    Idle { c with members := members, history := history } := by
  rw [PeriodicTimeouts.removeTimeout_members h.handles_nodup hremove, h.processing]
  have hsub : (c.members.periodicTimeouts.filter fun e => e.handle ≠ handle).Sublist
      c.members.periodicTimeouts := List.filter_sublist
  constructor
  case point => exact h.point
  case sorted => exact h.sorted.sublist hsub
  case distinct => exact (hsub.map _).nodup h.distinct
  case made => exact fun e he => h.made e (hsub.subset he)
  case unflagged => exact fun e he => h.unflagged e (hsub.subset he)
  case processing => rfl
  case pending => exact h.pending

/-- A pass begins. -/
theorem Idle.beginPass (h : Idle c) (now : TimeType) :
    InPeriodicPass c now [] { c with
      members := (c.members.beginPass now).2, point := .loop (c.members.beginPass now).1 } := by
  have hsame : ∀ e ∈ c.members.periodicTimeouts, marked [] e = id e := by
    intro e he
    obtain ⟨hremove, hprocessed⟩ := h.unflagged e he
    cases e
    simp_all [marked, removals, calls]
  constructor
  case idle => exact h
  case history => exact (List.append_nil _).symm
  case timeouts => rw [List.map_congr_left hsame, List.map_id]; rfl
  case pending => exact h.pending
  case distinct => simpa [additions] using h.distinct
  case made => exact fun e he => h.made e (by simpa [additions] using he)
  case unflagged => simp [additions]
  case processing => rfl
  case walk => exact ⟨rfl, h.processing, Walk.start _ _⟩

end Idle

section Pass

variable {c₀ c t : PeriodicTimeoutLoop κ} {now : TimeType} {evs : List (PeriodicTimeoutEvent κ)}

/-- In a callback, the pass has called the entry before its iterator. -/
theorem InPeriodicPass.callback_of_userCode (h : InPeriodicPass c₀ now evs c)
    (huser : c.point.userCode = true) : ∃ p, c.point = .callback p := by
  have hwalk := h.walk
  cases hp : c.point with
  | outside =>
    rw [hp] at hwalk
    exact hwalk.elim
  | callback p => exact ⟨p, rfl⟩
  | loop p | done p => simp [hp, PassPoint.userCode] at huser

theorem InPeriodicPass.handles_nodup (h : InPeriodicPass c₀ now evs c) :
    c.members.handles.Nodup := by
  have hkeep : ∀ e ∈ c₀.members.periodicTimeouts,
      (PeriodicTimeoutCallback.handle ∘ marked evs) e = e.handle := fun _ _ => rfl
  have hdistinct := h.distinct
  rw [List.map_append] at hdistinct
  rw [PeriodicTimeouts.handles, PeriodicTimeouts.stored, h.timeouts, h.pending, List.map_append,
    List.map_map, List.map_congr_left hkeep]
  exact hdistinct

/-- What user code adds or removes does not move the walk. -/
theorem InPeriodicPass.walk_other (h : InPeriodicPass c₀ now evs c) {p : Pass}
    (hp : c.point = .callback p) {ev : PeriodicTimeoutEvent κ} (hev : ∀ e, ev ≠ .called e) :
    WalkAt c₀.members.periodicTimeouts now (evs ++ [ev]) c.point := by
  have hwalk := h.walk
  rw [hp] at hwalk ⊢
  exact ⟨hwalk.1, hwalk.2.1, hwalk.2.2.other hev⟩

theorem InPeriodicPass.addPeriodicTimeout (h : InPeriodicPass c₀ now evs c)
    (huser : c.point.userCode = true) (period : Int) (callback : κ) (now' : TimeType)
    (o : SettimeOutcome) :
    InPeriodicPass c₀ now (evs ++ [.added (c.members.newEntry period callback now')]) { c with
      members := (c.members.addPeriodicTimeout period callback now' o).2
      history := c.history ++ [.added (c.members.newEntry period callback now')] } := by
  obtain ⟨p, hp⟩ := h.callback_of_userCode huser
  obtain ⟨timer, hadd⟩ := c.members.addPeriodicTimeout_members period callback now' o
  have hadded : additions (evs ++ [.added (c.members.newEntry period callback now')]) =
      additions evs ++ [c.members.newEntry period callback now'] := by simp
  have hmarked : marked (evs ++ [.added (c.members.newEntry period callback now')]) =
      marked evs := by
    funext e
    simp [marked]
  have hfresh : ∀ e ∈ c₀.members.periodicTimeouts ++ additions evs,
      e.handle ≠ (c.members.newEntry period callback now').handle := by
    intro e he heq
    have hlt := h.made e he
    rw [heq] at hlt
    exact absurd hlt (Nat.lt_irrefl _)
  rw [hadd, h.processing]
  constructor
  case idle => exact h.idle
  case history => rw [h.history, List.append_assoc]
  case timeouts => simpa [hmarked] using h.timeouts
  case pending => simp [h.pending, hadded]
  case distinct =>
    rw [hadded, ← List.append_assoc, List.map_append, List.nodup_append]
    refine ⟨h.distinct, List.nodup_singleton _, ?_⟩
    intro a ha b hb
    obtain ⟨e, he, rfl⟩ := List.mem_map.mp ha
    obtain rfl : b = (c.members.newEntry period callback now').handle := by simpa using hb
    exact hfresh e he
  case made =>
    intro e he
    rw [hadded, ← List.append_assoc] at he
    rcases List.mem_append.mp he with he | he
    · exact Nat.lt_succ_of_lt (h.made e he)
    · obtain rfl := List.mem_singleton.mp he
      exact Nat.lt_succ_self _
  case unflagged =>
    intro e he
    rw [hadded] at he
    rcases List.mem_append.mp he with he | he
    · exact h.unflagged e he
    · obtain rfl := List.mem_singleton.mp he
      exact ⟨rfl, rfl⟩
  case processing => rfl
  case walk => exact h.walk_other hp (by simp)

theorem InPeriodicPass.removeTimeout (h : InPeriodicPass c₀ now evs c)
    (huser : c.point.userCode = true) {handle : PeriodicTimeoutHandle}
    {members : PeriodicTimeouts κ} (hremove : c.members.removeTimeout handle = some members) :
    InPeriodicPass c₀ now (evs ++ [.removed handle])
      { c with members := members, history := c.history ++ [.removed handle] } := by
  obtain ⟨p, hp⟩ := h.callback_of_userCode huser
  have hadded : additions (evs ++ [.removed handle]) = additions evs := by simp
  rw [PeriodicTimeouts.removeTimeout_members h.handles_nodup hremove, h.processing]
  constructor
  case idle => exact h.idle
  case history => rw [h.history, List.append_assoc]
  case timeouts =>
    simp only [if_true, h.timeouts, List.map_map]
    refine List.map_congr_left fun e _ => ?_
    simp only [Function.comp_apply, marked]
    by_cases hh : e.handle = handle
    · simp [hh]
    · simp [hh]
  case pending => rw [hadded]; exact h.pending
  case distinct => rw [hadded]; exact h.distinct
  case made => rw [hadded]; exact h.made
  case unflagged => rw [hadded]; exact h.unflagged
  case processing => rfl
  case walk => exact h.walk_other hp (by simp)

/-- An entry whose turn has not come is as it was before the pass, unless it was removed. -/
theorem InPeriodicPass.marked_eq_self (h : InPeriodicPass c₀ now evs c) {i : ℕ}
    (hwalk : Walk PeriodicTimeoutCallback.handle PeriodicTimeoutCallback.timeout
      c₀.members.periodicTimeouts now evs i) {e : PeriodicTimeoutCallback κ}
    (he : c₀.members.periodicTimeouts[i]? = some e) (hlive : e.handle ∉ removals evs) :
    marked evs e = e := by
  have hnot : e.handle ∉ (calls evs).map PeriodicTimeoutCallback.handle := by
    intro hin
    have hbefore := (hwalk.order.map PeriodicTimeoutCallback.handle).subset hin
    have hsub : (c₀.members.periodicTimeouts.take i ++ [e]).Sublist
        c₀.members.periodicTimeouts := by
      have htake := List.take_sublist (i + 1) c₀.members.periodicTimeouts
      rwa [List.take_add_one, he] at htake
    have hnodup := (hsub.map PeriodicTimeoutCallback.handle).nodup h.idle.distinct
    rw [List.map_append, List.nodup_append] at hnodup
    exact hnodup.2.2 _ hbefore _ List.mem_cons_self rfl
  obtain ⟨hremove, hprocessed⟩ := h.idle.unflagged e (List.mem_of_getElem? he)
  cases e
  simp_all [marked]

/-- One iteration of the pass. The entry at the iterator was removed, is called, or is not due. -/
theorem InPeriodicPass.iteration (h : InPeriodicPass c₀ now evs c) {p : Pass}
    (hp : c.point = .loop p) : ∃ evs', InPeriodicPass c₀ now evs' (periodicIteration c p) := by
  have hwalk := h.walk
  rw [hp] at hwalk
  obtain ⟨hnow, hsentry, hwalk⟩ := hwalk
  have hentry : ∀ e, c.members.periodicTimeouts[p.i]? = some e →
      ∃ e₀, c₀.members.periodicTimeouts[p.i]? = some e₀ ∧ marked evs e₀ = e := by
    intro e he
    rw [h.timeouts, List.getElem?_map] at he
    exact Option.map_eq_some_iff.mp he
  have hit := periodicIterates c p
  generalize periodicIteration c p = t at hit ⊢
  cases hit with
  | atEnd he =>
    have hend : c₀.members.periodicTimeouts[p.i]? = none := by
      rwa [h.timeouts, List.getElem?_map, Option.map_eq_none_iff] at he
    have hover : Over PeriodicTimeoutCallback.timeout c₀.members.periodicTimeouts now p.i :=
      fun e hsome => absurd (hend.symm.trans hsome) (by simp)
    exact ⟨evs, { h with walk := ⟨hsentry, hwalk, hover⟩ }⟩
  | skip e he hflag =>
    obtain ⟨e₀, he₀, rfl⟩ := hentry e he
    have hremoved : e₀.handle ∈ removals evs := by simpa [marked] using hflag
    exact ⟨evs, { h with walk := ⟨hnow, hsentry, hwalk.skip he₀ hremoved⟩ }⟩
  | call e he hflag hdue =>
    obtain ⟨e₀, he₀, rfl⟩ := hentry e he
    have hlive : e₀.handle ∉ removals evs := by simpa [marked] using hflag
    have hsame := h.marked_eq_self hwalk he₀ hlive
    rw [hsame] at he hdue ⊢
    have hadded : additions (evs ++ [.called e₀]) = additions evs := by simp
    have hdistinct : (c.members.periodicTimeouts.map PeriodicTimeoutCallback.handle).Nodup :=
      ((List.sublist_append_left _ _).map _).nodup h.handles_nodup
    refine ⟨evs ++ [.called e₀], ?_⟩
    constructor
    case idle => exact h.idle
    case history => simp only [h.history, List.append_assoc]
    case timeouts =>
      refine (Keyed.set_eq_map hdistinct (fun e => { e with processed := true }) he).trans ?_
      rw [h.timeouts, List.map_map]
      refine List.map_congr_left fun e _ => ?_
      simp only [Function.comp_apply, marked]
      by_cases hh : e.handle = e₀.handle
      · simp [hh]
      · simp [hh]
    case pending => rw [hadded]; exact h.pending
    case distinct => rw [hadded]; exact h.distinct
    case made => rw [hadded]; exact h.made
    case unflagged => rw [hadded]; exact h.unflagged
    case processing => exact h.processing
    case walk => exact ⟨hnow, hsentry, hwalk.call he₀ (hnow ▸ hdue) hlive⟩
  | stop e he hflag hlater =>
    obtain ⟨e₀, he₀, rfl⟩ := hentry e he
    have hover : Over PeriodicTimeoutCallback.timeout c₀.members.periodicTimeouts now p.i := by
      intro e hsome
      obtain rfl : e₀ = e := Option.some.inj (he₀.symm.trans hsome)
      exact hnow ▸ hlater
    exact ⟨evs, { h with walk := ⟨hsentry, hwalk, hover⟩ }⟩

/-- Every step but the last keeps the description of the pass. -/
theorem InPeriodicPass.step (h : InPeriodicPass c₀ now evs c) {l : PeriodicTimeoutStep κ}
    (hl : periodicTimeoutStep c l = some t) (hne : ∀ now order o, l ≠ .finish now order o) :
    ∃ evs', InPeriodicPass c₀ now evs' t := by
  have hwalk := h.walk
  cases l with
  | addPeriodicTimeout period callback now' o =>
    obtain ⟨huser, rfl⟩ := periodicTimeoutStep_addPeriodicTimeout.mp hl
    exact ⟨_, h.addPeriodicTimeout huser period callback now' o⟩
  | removeTimeout handle =>
    obtain ⟨⟨huser, -⟩, members, hremove, rfl⟩ := periodicTimeoutStep_removeTimeout.mp hl
    exact ⟨_, h.removeTimeout huser hremove⟩
  | periodicTimeoutHandle =>
    obtain ⟨-, rfl⟩ := periodicTimeoutStep_periodicTimeoutHandle.mp hl
    exact ⟨evs, { h with made := fun e he => Nat.lt_succ_of_lt (h.made e he) }⟩
  | processPeriodicTimeouts now' =>
    obtain ⟨hp, -⟩ := periodicTimeoutStep_processPeriodicTimeouts.mp hl
    rw [hp] at hwalk
    exact hwalk.elim
  | iterate =>
    obtain ⟨p, hp, rfl⟩ := periodicTimeoutStep_iterate.mp hl
    exact h.iteration hp
  | callbackReturns =>
    obtain ⟨p, hp, rfl⟩ := periodicTimeoutStep_callbackReturns.mp hl
    rw [hp] at hwalk
    exact ⟨evs, { h with walk := hwalk }⟩
  | finish now' order o => exact absurd rfl (hne now' order o)

theorem PeriodicTimeoutCallback.nextTurn_handle (called : List (PeriodicTimeoutCallback κ))
    (e : PeriodicTimeoutCallback κ) : (e.nextTurn now called).handle = e.handle := by
  unfold nextTurn
  split_ifs <;> rfl

theorem PeriodicTimeoutCallback.nextTurn_unflagged {called : List (PeriodicTimeoutCallback κ)}
    {e : PeriodicTimeoutCallback κ} (h : e.remove = false ∧ e.processed = false) :
    (e.nextTurn now called).remove = false ∧ (e.nextTurn now called).processed = false := by
  unfold nextTurn
  split_ifs <;> exact h

/-- The pass has called an entry of `c₀` if it has called one with its handle. -/
theorem InPeriodicPass.mem_calls_iff (h : InPeriodicPass c₀ now evs c) {i : ℕ}
    (hwalk : Walk PeriodicTimeoutCallback.handle PeriodicTimeoutCallback.timeout
      c₀.members.periodicTimeouts now evs i) {e : PeriodicTimeoutCallback κ}
    (he : e ∈ c₀.members.periodicTimeouts) :
    e.handle ∈ (calls evs).map PeriodicTimeoutCallback.handle ↔ e ∈ calls evs := by
  constructor
  · intro hin
    obtain ⟨e', he', heq⟩ := List.mem_map.mp hin
    have hold : e' ∈ c₀.members.periodicTimeouts := List.mem_of_mem_take (hwalk.order.subset he')
    obtain rfl := List.inj_on_of_nodup_map h.idle.distinct hold he heq
    exact he'
  · exact fun hin => List.mem_map_of_mem hin

/-- After the loop, the entries that were not removed are left, those that were called with their
next deadlines. The loop that resets them reaches them all, since they come first. -/
theorem InPeriodicPass.rescheduled_eq (h : InPeriodicPass c₀ now evs c) {p : Pass}
    (hp : c.point = .done p) (now' : TimeType) : c.members.rescheduled now' =
      (c₀.members.periodicTimeouts.filter fun e => e.handle ∉ removals evs).map
        (PeriodicTimeoutCallback.nextTurn now' (calls evs)) := by
  have hwalk := h.walk
  rw [hp] at hwalk
  obtain ⟨-, hwalk, hover⟩ := hwalk
  have hkept : c.members.periodicTimeouts.filter (fun e => !e.remove) =
      (c₀.members.periodicTimeouts.filter fun e => e.handle ∉ removals evs).map (marked evs) := by
    rw [h.timeouts, List.filter_map]
    refine congrArg _ (List.filter_congr fun e _ => ?_)
    simp [marked]
  have hfirst : ((c₀.members.periodicTimeouts.filter fun e => e.handle ∉ removals evs).map
      (marked evs)).Pairwise fun a b => b.processed = true → a.processed = true := by
    refine List.pairwise_map.mpr ?_
    refine ((hwalk.called_first h.idle.sorted hover).filter _).imp_of_mem ?_
    intro a b ha hb hab hcalled
    obtain ⟨ha, hlive⟩ := List.mem_filter.mp ha
    have hb := List.mem_of_mem_filter hb
    have hcalled : b ∈ calls evs := (h.mem_calls_iff hwalk hb).mp (by simpa [marked] using hcalled)
    have hbefore := hab (by simpa using hlive) hcalled
    exact decide_eq_true ((h.mem_calls_iff hwalk ha).mpr hbefore)
  rw [PeriodicTimeouts.rescheduled, hkept, PeriodicTimeouts.resetProcessed_eq_map _ hfirst,
    List.map_map]
  refine List.map_congr_left fun e he => ?_
  obtain ⟨he, hlive⟩ := List.mem_filter.mp he
  obtain ⟨hremove, hprocessed⟩ := h.idle.unflagged e he
  have hlive : e.handle ∉ removals evs := by simpa using hlive
  simp only [Function.comp_apply, marked, PeriodicTimeoutCallback.nextTurn, hlive,
    PeriodicTimeoutCallback.reset, decide_false, decide_eq_true_eq]
  split_ifs with hcalled
  · rw [hremove, hprocessed]
  · cases e
    simp_all

theorem InPeriodicPass.eventsUntil_eq (h : InPeriodicPass c₀ now evs c)
    (ht : t.history = c.history) : c₀.eventsUntil t = evs := by
  rw [PeriodicTimeoutLoop.eventsUntil, ht, h.history, List.drop_left]

/-- When the rest of `process_periodic_timeouts` has run, no pass is running. -/
theorem InPeriodicPass.finish (h : InPeriodicPass c₀ now evs c) {p : Pass} (hp : c.point = .done p)
    {now' : TimeType} {order : List ℕ} {o : SettimeOutcome}
    (horder : IsSortOrder PeriodicTimeoutCallback.timeout (c.members.rescheduled now') order) :
    Idle { c with members := (c.members.endPass p now' order o).2, point := .outside } ∧
      Reschedules c₀ now'
        { c with members := (c.members.endPass p now' order o).2, point := .outside } := by
  have hwalk := h.walk
  rw [hp] at hwalk
  obtain ⟨timer, hend⟩ := c.members.endPass_members p now' order o
  have hperm := PeriodicTimeouts.merged_perm horder
  have hsorted := PeriodicTimeouts.sortedBy_merged horder
  rw [h.rescheduled_eq hp, h.pending] at hperm
  have hunflagged : ∀ e ∈ c.members.merged now' order, e.remove = false ∧ e.processed = false := by
    intro e he
    rcases List.mem_append.mp (hperm.mem_iff.mp he) with he | he
    · obtain ⟨e₀, he₀, rfl⟩ := List.mem_map.mp he
      have hflags := h.idle.unflagged e₀ (List.mem_of_mem_filter he₀)
      exact PeriodicTimeoutCallback.nextTurn_unflagged hflags
    · exact h.unflagged e he
  have hhandles : ((c.members.merged now' order).map PeriodicTimeoutCallback.handle).Perm
      ((c₀.members.periodicTimeouts.filter (fun e => e.handle ∉ removals evs) ++
        additions evs).map PeriodicTimeoutCallback.handle) := by
    refine (hperm.map _).trans (List.Perm.of_eq ?_)
    rw [List.map_append, List.map_append, List.map_map]
    refine congrArg (· ++ _) (List.map_congr_left fun e _ => ?_)
    exact e.nextTurn_handle (calls evs)
  have hsub : (c₀.members.periodicTimeouts.filter (fun e => e.handle ∉ removals evs) ++
      additions evs).Sublist (c₀.members.periodicTimeouts ++ additions evs) :=
    List.filter_sublist.append_right _
  have hevents : c₀.eventsUntil
      { c with members := (c.members.endPass p now' order o).2, point := .outside } = evs :=
    h.eventsUntil_eq rfl
  constructor
  · rw [hend]
    constructor
    case point => rfl
    case sorted => exact hsorted
    case distinct => exact hhandles.nodup_iff.mpr ((hsub.map _).nodup h.distinct)
    case made =>
      intro e he
      have hin := hhandles.mem_iff.mp (List.mem_map_of_mem he)
      obtain ⟨e₀, he₀, heq⟩ := List.mem_map.mp hin
      exact heq ▸ h.made e₀ (hsub.subset he₀)
    case unflagged => exact hunflagged
    case processing => exact hwalk.1
    case pending => rfl
  · constructor
    case sorted => rw [hend]; exact hsorted
    case unflagged => rw [hend]; exact hunflagged
    case perm => rw [hevents, hend]; exact hperm

end Pass

end Linuxpp.Ioloop
