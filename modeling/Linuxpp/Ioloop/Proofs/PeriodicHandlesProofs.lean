import Linuxpp.Ioloop.Proofs.TimeoutHandlesProofs

/-!
# Proofs: the handles of periodic timeouts

The removal of a pending entry is undefined. In all other states `remove_timeout` obeys the law that
it obeys for one-shot timeouts. `add_periodic_timeout` returns a handle that names what it adds where
the vector is not empty and no pass is running.
-/

namespace Linuxpp.Ioloop

open SortedInsert SortOrder DueWalk DeferredRemoval

variable {κ : Type}

/-- The handle of an entry and its flag. -/
def PeriodicTimeoutCallback.mark (e : PeriodicTimeoutCallback κ) : ℕ × Bool :=
  (e.handle.id, e.remove)

/-- The handle whose entry is called. -/
def PeriodicTimeoutEvent.calledId : PeriodicTimeoutEvent κ → Option ℕ
  | .called e => some e.handle.id
  | _ => none

theorem PeriodicTimeoutHandle.id_inj {handle handle' : PeriodicTimeoutHandle} :
    handle.id = handle'.id ↔ handle = handle' := by
  cases handle
  cases handle'
  simp

namespace PeriodicTimeouts

/-- What is seen of the periodic timeouts. -/
def queue (s : PeriodicTimeouts κ) : Queue where
  entries := s.periodicTimeouts.map PeriodicTimeoutCallback.mark
  aside := s.pendingPeriodicTimeoutAdditions.map PeriodicTimeoutCallback.mark
  next := s.nextId

variable {s s' : PeriodicTimeouts κ} {handle : PeriodicTimeoutHandle}

theorem queue_keys (s : PeriodicTimeouts κ) :
    s.queue.keys = s.handles.map PeriodicTimeoutHandle.id := by
  simp only [Queue.keys, queue, handles, stored, ← List.map_append, List.map_map]
  rfl

theorem handles_nodup (hs : s.queue.Sound) : s.handles.Nodup := by
  have hkeys := hs.distinct
  rw [s.queue_keys] at hkeys
  exact hkeys.of_map

theorem addPeriodicTimeout_stored_perm (s : PeriodicTimeouts κ) (period : Int) (callback : κ)
    (now : TimeType) (o : SettimeOutcome) :
    ((s.addPeriodicTimeout period callback now o).2.stored).Perm
      (s.newEntry period callback now :: s.stored) := by
  obtain ⟨timer, hadd⟩ := s.addPeriodicTimeout_members period callback now o
  rw [hadd]
  unfold stored
  cases s.processingPeriodicTimeouts with
  | true =>
    simp only [if_true]
    rw [← List.append_assoc]
    exact List.perm_append_singleton _ _
  | false => exact (insertLower_perm _ _).append_right _

theorem queue_addPeriodicTimeout (s : PeriodicTimeouts κ) (period : Int) (callback : κ)
    (now : TimeType) (o : SettimeOutcome) :
    s.queue.Change none (s.addPeriodicTimeout period callback now o).2.queue := by
  obtain ⟨timer, hadd⟩ := s.addPeriodicTimeout_members period callback now o
  rw [hadd]
  cases hp : s.processingPeriodicTimeouts with
  | true =>
    simp only [queue, if_true, List.map_append, List.map_cons, List.map_nil]
    exact .putAside
  | false =>
    simp only [queue, Bool.false_eq_true, if_false]
    exact .add ((insertLower_perm _ _).map _)

/-- It is the removal of the pending entries that is undefined. -/
theorem removeTimeout_eq_none_iff (hs : s.handles.Nodup) :
    s.removeTimeout handle = none ↔
      handle ∈ s.pendingPeriodicTimeoutAdditions.map PeriodicTimeoutCallback.handle := by
  have hany : ∀ es : List (PeriodicTimeoutCallback κ),
      (es.any fun e => e.handle = handle) = true ↔
        handle ∈ es.map PeriodicTimeoutCallback.handle := by simp [List.any_eq_true]
  rw [handles, stored, List.map_append, List.nodup_append] at hs
  unfold removeTimeout
  by_cases hstored : handle ∈ s.periodicTimeouts.map PeriodicTimeoutCallback.handle
  · rw [if_pos ((hany _).mpr hstored)]
    have hpending : handle ∉ s.pendingPeriodicTimeoutAdditions.map PeriodicTimeoutCallback.handle :=
      fun hin => hs.2.2 _ hstored _ hin rfl
    split_ifs <;> simpa using hpending
  · rw [if_neg fun h => hstored ((hany _).mp h)]
    by_cases hpending :
        handle ∈ s.pendingPeriodicTimeoutAdditions.map PeriodicTimeoutCallback.handle
    · rw [if_pos ((hany _).mpr hpending)]
      exact iff_of_true rfl hpending
    · rw [if_neg fun h => hpending ((hany _).mp h)]
      exact iff_of_false (Option.some_ne_none s) hpending

/-- Where it is defined, no pending entry has the handle, and none changes. -/
theorem removeTimeout_of_some (hs : s.queue.Sound) (h : s.removeTimeout handle = some s') : s' =
    { s with
      periodicTimeouts := if s.processingPeriodicTimeouts then
          s.periodicTimeouts.map fun e =>
            if e.handle = handle then { e with remove := true } else e
        else s.periodicTimeouts.filter fun e => e.handle ≠ handle
      pendingPeriodicTimeoutAdditions :=
        s.pendingPeriodicTimeoutAdditions.filter fun e => e.handle ≠ handle } := by
  have hout : handle ∉
      s.pendingPeriodicTimeoutAdditions.map PeriodicTimeoutCallback.handle := by
    intro hin
    rw [(removeTimeout_eq_none_iff (handles_nodup hs)).mpr hin] at h
    cases h
  rw [removeTimeout_members (handles_nodup hs) h, Keyed.filter_of_not_mem hout]

theorem queue_removeTimeout (hs : s.queue.Sound) (h : s.removeTimeout handle = some s') :
    s.queue.Change none s'.queue ∧ (handle.id < s.nextId → s'.queue.Silenced handle.id) := by
  have hfilter : ∀ es : List (PeriodicTimeoutCallback κ),
      (es.filter fun e => e.handle ≠ handle).map PeriodicTimeoutCallback.mark =
        Queue.without handle.id (es.map PeriodicTimeoutCallback.mark) :=
    Queue.map_filter_eq_without fun e => by
      simp [PeriodicTimeoutCallback.mark, PeriodicTimeoutHandle.id_inj]
  have hmap : ∀ es : List (PeriodicTimeoutCallback κ),
      (es.map fun e => if e.handle = handle then { e with remove := true } else e).map
        PeriodicTimeoutCallback.mark =
          Queue.flagged handle.id (es.map PeriodicTimeoutCallback.mark) :=
    Queue.map_ite_eq_flagged (fun e => PeriodicTimeoutHandle.id_inj.symm) fun e => rfl
  obtain rfl := removeTimeout_of_some hs h
  cases hp : s.processingPeriodicTimeouts with
  | true =>
    simp only [queue, if_true, hfilter, hmap]
    exact ⟨.flag handle.id, fun hk => Queue.silenced_flag (q := s.queue) hk⟩
  | false =>
    simp only [queue, Bool.false_eq_true, if_false, hfilter]
    exact ⟨.erase handle.id, fun hk => Queue.silenced_erase (q := s.queue) hk⟩

theorem map_mark_resetProcessed (now : TimeType) (es : List (PeriodicTimeoutCallback κ)) :
    (resetProcessed now es).map PeriodicTimeoutCallback.mark =
      es.map PeriodicTimeoutCallback.mark := by
  induction es with
  | nil => rfl
  | cons e es ih =>
    unfold resetProcessed
    split_ifs
    · rw [List.map_cons, List.map_cons, ih]
      rfl
    · rfl

/-- What a pass keeps was not flagged, and what was pending joins it. -/
theorem queue_endPass {now : TimeType} {order : List ℕ}
    (horder : IsSortOrder PeriodicTimeoutCallback.timeout (s.rescheduled now) order) (p : Pass)
    (o : SettimeOutcome) : s.queue.Change none (s.endPass p now order o).2.queue ∧
      ∀ k, s.queue.Silenced k → (s.endPass p now order o).2.queue.Gone k := by
  obtain ⟨timer, hend⟩ := s.endPass_members p now order o
  have hkept : ((s.periodicTimeouts.filter fun e => !e.remove).map
      PeriodicTimeoutCallback.mark).Sublist s.queue.entries := List.filter_sublist.map _
  have hflag : ∀ x ∈ (s.periodicTimeouts.filter fun e => !e.remove).map
      PeriodicTimeoutCallback.mark, x.2 = false := Queue.not_flagged_of_mem_filter (fun _ => rfl) _
  have hperm : ((s.merged now order).map PeriodicTimeoutCallback.mark).Perm
      ((s.periodicTimeouts.filter fun e => !e.remove).map PeriodicTimeoutCallback.mark ++
        s.queue.aside) := by
    have hmarks := (merged_perm horder).map PeriodicTimeoutCallback.mark
    rwa [List.map_append, rescheduled, map_mark_resetProcessed] at hmarks
  rw [hend]
  exact ⟨.settle hkept hflag hperm, fun k hk => hk.gone_of_settle hkept hflag hperm⟩

end PeriodicTimeouts

variable {c t : PeriodicTimeoutLoop κ}

theorem queue_periodicIteration (c : PeriodicTimeoutLoop κ) (p : Pass) :
    ∃ called evs, c.members.queue.Change called (periodicIteration c p).members.queue ∧
      (periodicIteration c p).history = c.history ++ evs ∧
      ∀ ev ∈ evs, ∀ k, PeriodicTimeoutEvent.calledId ev = some k → called = some k := by
  have hit := periodicIterates c p
  generalize periodicIteration c p = t at hit ⊢
  cases hit with
  | call e he hflag =>
    have hmark : (c.members.periodicTimeouts.map PeriodicTimeoutCallback.mark)[p.i]? =
        some (e.handle.id, false) := by
      rw [List.getElem?_map, he, Option.map_some, PeriodicTimeoutCallback.mark, hflag]
    -- setting `processed` changes nothing that is seen of the entry
    have hset : (c.members.periodicTimeouts.set p.i { e with processed := true }).map
        PeriodicTimeoutCallback.mark =
          c.members.periodicTimeouts.map PeriodicTimeoutCallback.mark := by
      rw [List.map_set, PeriodicTimeoutCallback.mark, hflag]
      exact Slots.set_of_get hmark
    refine ⟨some e.handle.id, _, ?_, rfl, ?_⟩
    · simp only [PeriodicTimeouts.queue, hset]
      exact .call e.handle.id (List.mem_of_getElem? hmark)
    · intro ev hev k hk
      obtain rfl := List.mem_singleton.mp hev
      exact hk
  | _ => exact ⟨none, [], .same _, (List.append_nil _).symm, by simp⟩

/-- The periodic timeouts implement a queue with deferred removals. -/
theorem periodicTimeouts_implement : Implements (throwingPeriodicTimeoutStep (κ := κ))
    (fun c => c.members.queue) PeriodicTimeoutLoop.history PeriodicTimeoutEvent.calledId := by
  intro c l t hs hl
  cases l with
  | none =>
    have ht : c.callbackThrows = some t := hl
    unfold PeriodicTimeoutLoop.callbackThrows at ht
    cases hp : c.point <;> simp only [hp, reduceCtorEq, Option.some.injEq] at ht
    subst ht
    exact ⟨none, [], .same _, (List.append_nil _).symm, by simp⟩
  | some l =>
    have ht : periodicTimeoutStep c l = some t := hl
    cases l with
    | addPeriodicTimeout period callback now o =>
      obtain ⟨-, rfl⟩ := periodicTimeoutStep_addPeriodicTimeout.mp ht
      exact ⟨none, _, c.members.queue_addPeriodicTimeout period callback now o, rfl,
        by simp [PeriodicTimeoutEvent.calledId]⟩
    | removeTimeout handle =>
      obtain ⟨-, members, hm, rfl⟩ := periodicTimeoutStep_removeTimeout.mp ht
      exact ⟨none, _, (PeriodicTimeouts.queue_removeTimeout hs hm).1, rfl,
        by simp [PeriodicTimeoutEvent.calledId]⟩
    | periodicTimeoutHandle =>
      obtain ⟨-, rfl⟩ := periodicTimeoutStep_periodicTimeoutHandle.mp ht
      exact ⟨none, [], .make _ (Nat.le_succ _), (List.append_nil _).symm, by simp⟩
    | processPeriodicTimeouts now =>
      obtain ⟨-, rfl⟩ := periodicTimeoutStep_processPeriodicTimeouts.mp ht
      exact ⟨none, [], .same _, (List.append_nil _).symm, by simp⟩
    | iterate =>
      obtain ⟨p, -, rfl⟩ := periodicTimeoutStep_iterate.mp ht
      exact queue_periodicIteration c p
    | callbackReturns =>
      obtain ⟨p, -, rfl⟩ := periodicTimeoutStep_callbackReturns.mp ht
      exact ⟨none, [], .same _, (List.append_nil _).symm, by simp⟩
    | finish now order o =>
      obtain ⟨p, -, horder, rfl⟩ := periodicTimeoutStep_finish.mp ht
      exact ⟨none, [], (PeriodicTimeouts.queue_endPass horder p o).1, (List.append_nil _).symm,
        by simp⟩

theorem periodicTimeouts_sound (hc : throwingPeriodicTimeoutStep.Reachable {} c) :
    c.members.queue.Sound :=
  periodicTimeouts_implement.sound_of_reachable hc Queue.sound_init

section Removal

variable {handle : PeriodicTimeoutHandle}

/-- In every run that begins with a removal, the entry is not called. -/
theorem silenced_after_removePeriodicTimeout (hs : c.members.queue.Sound)
    {ls : List (Option (PeriodicTimeoutStep κ))}
    (hrun : throwingPeriodicTimeoutStep.run c (some (.removeTimeout handle) :: ls) = some t) :
    t.members.queue.Silenced handle.id ∧ ∃ evs, t.history = c.history ++ .removed handle :: evs ∧
      ∀ ev ∈ evs, PeriodicTimeoutEvent.calledId ev ≠ some handle.id := by
  obtain ⟨u, hl, hrun⟩ := Machine.run_cons_eq_some.mp hrun
  have hu := periodicTimeouts_implement.sound_step hs hl
  obtain ⟨⟨-, hmade⟩, members, hm, rfl⟩ := periodicTimeoutStep_removeTimeout.mp hl
  obtain ⟨hsilenced, evs, hhist, hevs⟩ := periodicTimeouts_implement.silenced_run hrun hu
    ((PeriodicTimeouts.queue_removeTimeout hs hm).2 hmade)
  exact ⟨hsilenced, evs, by simpa using hhist, hevs⟩

/-- Where `remove_timeout` is defined it does what it does to one-shot timeouts. -/
theorem removesPeriodicTimeout_of_not_pending (hs : c.members.queue.Sound)
    (hout : handle ∉
      c.members.pendingPeriodicTimeoutAdditions.map PeriodicTimeoutCallback.handle) :
    RemovesPeriodicTimeout c handle where
  entry := by
    have hdefined : c.members.removeTimeout handle ≠ none := fun hnone =>
      hout ((PeriodicTimeouts.removeTimeout_eq_none_iff (PeriodicTimeouts.handles_nodup hs)).mp
        hnone)
    obtain ⟨s, hremove⟩ := Option.ne_none_iff_exists'.mp hdefined
    refine ⟨s, hremove, ?_⟩
    obtain rfl := PeriodicTimeouts.removeTimeout_of_some hs hremove
    cases hp : c.members.processingPeriodicTimeouts with
    | true =>
      simp only [if_true]
      apply removesEntry_map <;> exact fun _ => rfl
    | false =>
      simp only [Bool.false_eq_true, if_false]
      exact removesEntry_filter false _ _
  notCalled := by
    intro ls t hrun e he hhandle
    obtain ⟨-, evs, hhist, hevs⟩ := silenced_after_removePeriodicTimeout hs hrun
    rw [hhist, List.drop_left, List.mem_cons] at he
    rcases he with he | he
    · cases he
    · subst hhandle
      exact hevs _ he rfl
  erased := by
    intro ls now order o t hrun hin
    obtain ⟨u, hrun, hl⟩ := Machine.run_append_eq_some.mp hrun
    obtain ⟨hsilenced, -⟩ := silenced_after_removePeriodicTimeout hs hrun
    rw [Machine.run_singleton] at hl
    obtain ⟨p, -, horder, rfl⟩ := periodicTimeoutStep_finish.mp hl
    have hgone := ((PeriodicTimeouts.queue_endPass horder p o).2 handle.id hsilenced).keys
    rw [PeriodicTimeouts.queue_keys] at hgone
    exact hgone (List.mem_map_of_mem hin)

theorem not_removesPeriodicTimeout_of_pending (hs : c.members.queue.Sound)
    (hin : handle ∈
      c.members.pendingPeriodicTimeoutAdditions.map PeriodicTimeoutCallback.handle) :
    ¬ RemovesPeriodicTimeout c handle := by
  intro h
  obtain ⟨s, hremove, -⟩ := h.entry
  rw [(PeriodicTimeouts.removeTimeout_eq_none_iff (PeriodicTimeouts.handles_nodup hs)).mpr hin]
    at hremove
  cases hremove

/-- `remove_timeout` removes exactly the periodic timeout with the handle, unless that one is
pending. -/
theorem removes_periodic_timeout_iff (hc : throwingPeriodicTimeoutStep.Reachable {} c)
    (handle : PeriodicTimeoutHandle) : RemovesPeriodicTimeout c handle ↔
      handle ∉ c.members.pendingPeriodicTimeoutAdditions.map PeriodicTimeoutCallback.handle := by
  have hs := periodicTimeouts_sound hc
  constructor
  · intro h hin
    exact not_removesPeriodicTimeout_of_pending hs hin h
  · exact removesPeriodicTimeout_of_not_pending hs

/-- A periodic timeout that is removed in the callback of another one, in a pass. -/
theorem removes_periodic_timeout_iff_in_pass :
    ∃ c : PeriodicTimeoutLoop ℕ, throwingPeriodicTimeoutStep.run {}
      [some (.addPeriodicTimeout 5 0 0 { now := 0 }), some (.addPeriodicTimeout 6 1 0 { now := 0 }),
        some (.processPeriodicTimeouts 6), some .iterate] = some c ∧
      c.members.processingPeriodicTimeouts = true ∧ RemovesPeriodicTimeout c ⟨1⟩ := by
  refine ⟨_, rfl, rfl, (removes_periodic_timeout_iff ⟨[some (.addPeriodicTimeout 5 0 0 { now := 0 }),
    some (.addPeriodicTimeout 6 1 0 { now := 0 }), some (.processPeriodicTimeouts 6),
    some .iterate], rfl⟩ _).mpr ?_⟩
  show (⟨1⟩ : PeriodicTimeoutHandle) ∉ []
  exact List.not_mem_nil

/-- A callback adds a periodic timeout and removes it again, with the handle that it was returned.
The iterator of `pending_periodic_timeout_additions_` is erased from `periodic_timeouts_`. -/
theorem pending_periodic_timeout_not_removed :
    ∃ c : PeriodicTimeoutLoop ℕ, throwingPeriodicTimeoutStep.run {}
      [some (.addPeriodicTimeout 5 0 0 { now := 0 }), some (.processPeriodicTimeouts 5),
        some .iterate, some (.addPeriodicTimeout 7 1 5 { now := 0 })] = some c ∧
      c.point.userCode = true ∧ c.members.removeTimeout ⟨1⟩ = none ∧
      ¬ RemovesPeriodicTimeout c ⟨1⟩ := by
  have hnone : ∀ c : PeriodicTimeoutLoop ℕ, c.members.removeTimeout ⟨1⟩ = none →
      ¬ RemovesPeriodicTimeout c ⟨1⟩ := by
    intro c hnone h
    obtain ⟨s, hremove, -⟩ := h.entry
    rw [hnone] at hremove
    cases hremove
  exact ⟨_, rfl, rfl, by decide, hnone _ (by decide)⟩

end Removal

section Addition

variable {period : Int} {callback : κ} {now : TimeType} {o : SettimeOutcome}

theorem not_pending_of_notAside {handle : PeriodicTimeoutHandle}
    (h : c.members.queue.NotAside handle.id) : handle ∉
      c.members.pendingPeriodicTimeoutAdditions.map PeriodicTimeoutCallback.handle := by
  intro hin
  obtain ⟨e, he, rfl⟩ := List.mem_map.mp hin
  exact h.aside (List.mem_map.mpr ⟨e.mark, List.mem_map_of_mem he, rfl⟩)

theorem handle_ne_newEntry (hs : c.members.queue.Sound) {e : PeriodicTimeoutCallback κ}
    (he : e ∈ c.members.stored) :
    e.handle ≠ (c.members.newEntry period callback now).handle := by
  intro heq
  have hmade := hs.made e.handle.id
    (c.members.queue_keys ▸ List.mem_map_of_mem (List.mem_map_of_mem he))
  rw [heq] at hmade
  exact hmade.false

/-- Outside of a pass the new entry is not pending, and never will be. -/
theorem notAside_newEntry (hs : c.members.queue.Sound)
    (hp : c.members.processingPeriodicTimeouts = false) :
    (c.members.addPeriodicTimeout period callback now o).2.queue.NotAside c.members.nextId := by
  obtain ⟨timer, hadd⟩ := c.members.addPeriodicTimeout_members period callback now o
  rw [hadd, hp]
  refine ⟨Nat.lt_succ_self _, fun hin => ?_⟩
  exact (hs.made _ (Queue.mem_keys.mpr (.inr hin))).false

/-- The handle of the entry that `add_periodic_timeout` adds names it if no pass is running. -/
theorem namesPeriodicTimeout_iff (hs : c.members.queue.Sound) (huser : c.point.userCode = true)
    (period : Int) (callback : κ) (now : TimeType) (o : SettimeOutcome) :
    NamesPeriodicTimeout c period callback now o
        (c.members.newEntry period callback now).handle ↔
      c.members.processingPeriodicTimeouts = false := by
  have hl : throwingPeriodicTimeoutStep c (some (.addPeriodicTimeout period callback now o)) =
      some _ := periodicTimeoutStep_addPeriodicTimeout.mpr ⟨huser, rfl⟩
  have hu := periodicTimeouts_implement.sound_step hs hl
  constructor
  · intro h
    -- otherwise the entry is pending, and cannot be removed
    by_contra hp
    rw [Bool.not_eq_false] at hp
    obtain ⟨timer, hadd⟩ := c.members.addPeriodicTimeout_members period callback now o
    refine not_removesPeriodicTimeout_of_pending hu ?_
      (h.cancels [] _ (Machine.run_singleton _ _ ▸ hl))
    simp [hadd, hp]
  · intro hp
    constructor
    case inserted =>
      exact ⟨c.members.newEntry period callback now, rfl, rfl, rfl, rfl, rfl,
        c.members.addPeriodicTimeout_stored_perm period callback now o⟩
    case distinct =>
      intro e he
      exact handle_ne_newEntry hs he
    case cancels =>
      intro ls t hrun
      obtain ⟨u, hl', hrun⟩ := Machine.run_cons_eq_some.mp hrun
      obtain rfl := Option.some.inj (hl.symm.trans hl')
      have hk := periodicTimeouts_implement.notAside_run hrun hu (notAside_newEntry hs hp)
      exact removesPeriodicTimeout_of_not_pending
        (periodicTimeouts_implement.sound_of_reachable ⟨_, hrun⟩ hu) (not_pending_of_notAside hk)

/-- A handle of the first pending entry, if there is one, does not name the new entry. -/
theorem not_namesPeriodicTimeout_of_pending {e : PeriodicTimeoutCallback κ}
    (he : e ∈ c.members.pendingPeriodicTimeoutAdditions) :
    ¬ NamesPeriodicTimeout c period callback now o e.handle :=
  fun h => h.distinct e (List.mem_append_right _ he) rfl

/-- Where `add_periodic_timeout` returns the handle of what it adds. It throws where the timer cannot
be armed. -/
theorem returnsItsPeriodicHandle_iff (hs : c.members.queue.Sound)
    (huser : c.point.userCode = true) : ReturnsItsPeriodicHandle c period callback now o ↔
      c.members.processingPeriodicTimeouts = false ∧
        (c.members.periodicTimeouts ≠ [] ∨ o.errno ≠ none) := by
  have hnames := namesPeriodicTimeout_iff hs huser period callback now o
  have hresult := c.members.addPeriodicTimeout_result period callback now o
  constructor
  · intro h
    have hp : c.members.processingPeriodicTimeouts = false := by
      by_contra hp
      rw [Bool.not_eq_false] at hp
      obtain ⟨handle, hr, hn⟩ := h (some (c.members.newEntry period callback now).handle)
        (by simp [hresult, hp])
      obtain rfl := Option.some.inj hr
      rw [hnames.mp hn] at hp
      cases hp
    refine ⟨hp, ?_⟩
    by_contra! hnot
    obtain ⟨ht, ho⟩ := hnot
    -- what is returned is the handle of the first pending entry
    obtain ⟨handle, hr, hn⟩ := h
      (c.members.pendingPeriodicTimeoutAdditions.head?.map PeriodicTimeoutCallback.handle)
      (by simp [hresult, hp, ht, SettimeOutcome.answer_of_ok ho])
    obtain ⟨e, he, rfl⟩ := Option.map_eq_some_iff.mp hr
    exact not_namesPeriodicTimeout_of_pending (List.mem_of_mem_head? he) hn
  · rintro ⟨hp, hok⟩ r hr
    rw [hresult] at hr
    by_cases ht : c.members.periodicTimeouts = []
    · have ho : o.errno ≠ none := hok.resolve_left fun hne => hne ht
      simp [hp, ht, SettimeOutcome.answer_eq_ok_iff, ho] at hr
    · refine ⟨_, ?_, hnames.mpr hp⟩
      simp only [ht, and_false, if_false] at hr
      split_ifs at hr
      · exact (SettimeOutcome.answer_eq_ok_iff.mp hr).2.symm
      · exact (Except.ok.inj hr).symm

/-- The handle that `add_timeout` returns names the timeout that it adds. The one that
`add_periodic_timeout` returns does so if no pass is running and the vector is not empty. -/
theorem returned_handle_names_timeout_iff {c : TimeoutLoop κ} {d : PeriodicTimeoutLoop κ}
    (hc : throwingTimeoutStep.Reachable {} c) (hd : throwingPeriodicTimeoutStep.Reachable {} d)
    (huser : d.point.userCode = true) :
    (∀ timeout callback o, ReturnsItsHandle c timeout callback o) ∧
    ∀ period callback now o, ReturnsItsPeriodicHandle d period callback now o ↔
      d.members.processingPeriodicTimeouts = false ∧
        (d.members.periodicTimeouts ≠ [] ∨ o.errno ≠ none) := by
  constructor
  · intro timeout callback o
    exact returnsItsHandle (timeouts_sound hc) timeout callback o
  · intro period callback now o
    exact returnsItsPeriodicHandle_iff (periodicTimeouts_sound hd) huser

/-- A second timeout of each kind, of loops that have one. -/
theorem returned_handle_names_timeout_iff_second :
    ∃ (c : TimeoutLoop ℕ) (d : PeriodicTimeoutLoop ℕ),
      throwingTimeoutStep.run {} [some (.addTimeout 5 0 { now := 0 })] = some c ∧
      throwingPeriodicTimeoutStep.run {} [some (.addPeriodicTimeout 5 0 0 { now := 0 })] = some d ∧
      ReturnsItsHandle c 3 1 { now := 0 } ∧ ReturnsItsPeriodicHandle d 3 1 0 { now := 0 } := by
  have h := returned_handle_names_timeout_iff
    (c := (throwingTimeoutStep.run ({} : TimeoutLoop ℕ) [some (.addTimeout 5 0 { now := 0 })]).get rfl)
    (d := (throwingPeriodicTimeoutStep.run ({} : PeriodicTimeoutLoop ℕ)
      [some (.addPeriodicTimeout 5 0 0 { now := 0 })]).get rfl)
    ⟨[some (.addTimeout 5 0 { now := 0 })], rfl⟩
    ⟨[some (.addPeriodicTimeout 5 0 0 { now := 0 })], rfl⟩ rfl
  exact ⟨_, _, rfl, rfl, h.1 3 1 { now := 0 }, (h.2 3 1 0 { now := 0 }).mpr
    ⟨rfl, .inl (List.cons_ne_nil _ _)⟩⟩

/-- The handle of the first periodic timeout is read from the front of an empty vector. -/
theorem first_periodic_timeout_without_its_handle :
    (({} : PeriodicTimeouts ℕ).addPeriodicTimeout 10 7 0 { now := 0 }).1 = .ok none ∧
    ¬ ReturnsItsPeriodicHandle ({} : PeriodicTimeoutLoop ℕ) 10 7 0 { now := 0 } := by
  refine ⟨rfl, fun h => ?_⟩
  obtain ⟨handle, hr, -⟩ := h none rfl
  cases hr

end Addition

end Linuxpp.Ioloop
