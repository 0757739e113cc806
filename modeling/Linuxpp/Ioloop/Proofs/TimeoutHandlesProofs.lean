import Linuxpp.Foundations.Slots
import Linuxpp.Ioloop.Proofs.RegistrationsProofs
import Linuxpp.Ioloop.TimeoutHandles

/-!
# Proofs: the handles of timeouts

Both queues of timeouts implement a queue whose removals are deferred, also where callbacks throw.
What `remove_timeout` does to an entry follows from that, but for the periodic timeouts that are
pending, for which it is undefined.
-/

namespace Linuxpp.Ioloop

open SortedInsert DeferredRemoval

variable {κ : Type}

section RemovesEntry

variable {ε ι : Type} [DecidableEq ι] {handle : ε → ι} {remove : ε → Bool} {k : ι}

/-- The entry is erased. -/
theorem removesEntry_filter (inPass : Bool) (xs ps : List ε) :
    RemovesEntry handle remove k inPass xs ps (xs.filter fun e => handle e ≠ k)
      (ps.filter fun e => handle e ≠ k) where
  others := by rw [List.filter_filter]; simp
  pendingOthers := by rw [List.filter_filter]; simp
  gone := by simp
  flagged := by
    intro e he hk
    simp [hk] at he
  absent := fun hx hp => ⟨Keyed.filter_of_not_mem hx, Keyed.filter_of_not_mem hp⟩

/-- The entry is flagged. -/
theorem removesEntry_map {flag : ε → ε} (hhandle : ∀ e, handle (flag e) = handle e)
    (hremove : ∀ e, remove (flag e) = true) (xs ps : List ε) :
    RemovesEntry handle remove k true xs ps (xs.map fun e => if handle e = k then flag e else e)
      (ps.filter fun e => handle e ≠ k) where
  others := by
    induction xs with
    | nil => rfl
    | cons x xs ih => by_cases hx : handle x = k <;> simp_all
  pendingOthers := by rw [List.filter_filter]; simp
  gone := by simp
  flagged := by
    intro e he hk
    obtain ⟨x, -, rfl⟩ := List.mem_map.mp he
    by_cases hx : handle x = k
    · rw [if_pos hx]
      exact hremove x
    · rw [if_neg hx] at hk
      exact absurd hk hx
  absent := fun hx hp => ⟨Keyed.map_ite_of_not_mem flag hx, Keyed.filter_of_not_mem hp⟩

end RemovesEntry

section Timeouts

/-- The handle of an entry and its flag. -/
def TimeoutCallback.mark (e : TimeoutCallback κ) : ℕ × Bool := (e.handle.id, e.remove)

/-- What is seen of the one-shot timeouts. -/
def Timeouts.queue (s : Timeouts κ) : Queue where
  entries := s.timeouts.map TimeoutCallback.mark
  aside := s.pendingTimeoutAdditions.map TimeoutCallback.mark
  next := s.nextId

/-- The handle whose entry is called. -/
def TimeoutEvent.calledId : TimeoutEvent κ → Option ℕ
  | .called _ e => some e.handle.id
  | _ => none

variable {c t : TimeoutLoop κ} {s : Timeouts κ} {handle : TimeoutHandle}

theorem Timeouts.queue_keys (s : Timeouts κ) :
    s.queue.keys = s.handles.map TimeoutHandle.id := by
  simp only [Queue.keys, queue, handles, stored, ← List.map_append, List.map_map]
  rfl

theorem Timeouts.handles_nodup (hs : s.queue.Sound) : s.handles.Nodup := by
  have hkeys := hs.distinct
  rw [s.queue_keys] at hkeys
  exact hkeys.of_map

theorem TimeoutHandle.id_inj {handle handle' : TimeoutHandle} :
    handle.id = handle'.id ↔ handle = handle' := by
  cases handle
  cases handle'
  simp

theorem Timeouts.queue_addTimeout (s : Timeouts κ) (timeout : TimeType) (callback : κ)
    (o : SettimeOutcome) : s.queue.Change none (s.addTimeout timeout callback o).2.queue := by
  obtain ⟨timer, hadd⟩ := s.addTimeout_members timeout callback o
  rw [hadd]
  cases hp : s.processingTimeouts with
  | true =>
    simp only [queue, if_true, List.map_append, List.map_cons, List.map_nil]
    exact .putAside
  | false =>
    simp only [queue, Bool.false_eq_true, if_false]
    exact .add ((insertLower_perm _ _).map _)

theorem Timeouts.queue_removeTimeout (hs : s.queue.Sound) (handle : TimeoutHandle) :
    s.queue.Change none (s.removeTimeout handle).queue ∧
    (handle.id < s.nextId → (s.removeTimeout handle).queue.Silenced handle.id) := by
  have hfilter : ∀ es : List (TimeoutCallback κ),
      (es.filter fun e => e.handle ≠ handle).map TimeoutCallback.mark =
        Queue.without handle.id (es.map TimeoutCallback.mark) :=
    Queue.map_filter_eq_without fun e => by simp [TimeoutCallback.mark, TimeoutHandle.id_inj]
  have hmap : ∀ es : List (TimeoutCallback κ),
      (es.map fun e => if e.handle = handle then { e with remove := true } else e).map
        TimeoutCallback.mark = Queue.flagged handle.id (es.map TimeoutCallback.mark) :=
    Queue.map_ite_eq_flagged (fun e => TimeoutHandle.id_inj.symm) fun e => rfl
  rw [Timeouts.removeTimeout_members (handles_nodup hs)]
  cases hp : s.processingTimeouts with
  | true =>
    simp only [queue, if_true, hfilter, hmap]
    exact ⟨.flag handle.id, fun hk => Queue.silenced_flag (q := s.queue) hk⟩
  | false =>
    simp only [queue, Bool.false_eq_true, if_false, hfilter]
    exact ⟨.erase handle.id, fun hk => Queue.silenced_erase (q := s.queue) hk⟩

/-- What a pass keeps was not flagged, and what was pending joins it. -/
theorem Timeouts.queue_endPass (s : Timeouts κ) (p : Pass) (o : SettimeOutcome) :
    s.queue.Change none (s.endPass p o).2.queue ∧
    ∀ k, s.queue.Silenced k → (s.endPass p o).2.queue.Gone k := by
  obtain ⟨timer, hend⟩ := s.endPass_members p o
  have hkept : (((s.timeouts.drop p.i).filter fun e => !e.remove).map
      TimeoutCallback.mark).Sublist s.queue.entries :=
    (List.filter_sublist.trans (List.drop_sublist p.i s.timeouts)).map _
  have hflag : ∀ x ∈ ((s.timeouts.drop p.i).filter fun e => !e.remove).map TimeoutCallback.mark,
      x.2 = false := Queue.not_flagged_of_mem_filter (fun _ => rfl) _
  have hperm : ((s.merged p).map TimeoutCallback.mark).Perm
      (((s.timeouts.drop p.i).filter fun e => !e.remove).map TimeoutCallback.mark ++
        s.queue.aside) := by
    rw [queue, ← List.map_append]
    exact ((s.merged_perm p).trans List.perm_append_comm).map _
  rw [hend]
  exact ⟨.settle hkept hflag hperm, fun k hk => hk.gone_of_settle hkept hflag hperm⟩

theorem queue_iteration (c : TimeoutLoop κ) (p : Pass) :
    ∃ called evs, c.members.queue.Change called (iteration c p).members.queue ∧
      (iteration c p).history = c.history ++ evs ∧
      ∀ ev ∈ evs, ∀ k, ev.calledId = some k → called = some k := by
  have hit := iterates c p
  generalize iteration c p = t at hit ⊢
  cases hit with
  | call e he hflag =>
    refine ⟨some e.handle.id, _, .call e.handle.id ?_, rfl, ?_⟩
    · exact List.mem_map.mpr ⟨e, List.mem_of_getElem? he, by rw [TimeoutCallback.mark, hflag]⟩
    · intro ev hev k hk
      obtain rfl := List.mem_singleton.mp hev
      exact hk
  | _ => exact ⟨none, [], .same _, (List.append_nil _).symm, by simp⟩

/-- The one-shot timeouts implement a queue with deferred removals. -/
theorem timeouts_implement : Implements (throwingTimeoutStep (κ := κ))
    (fun c => c.members.queue) TimeoutLoop.history TimeoutEvent.calledId := by
  intro c l t hs hl
  cases l with
  | none =>
    have ht : c.callbackThrows = some t := hl
    unfold TimeoutLoop.callbackThrows at ht
    cases hp : c.point <;> simp only [hp, reduceCtorEq, Option.some.injEq] at ht
    subst ht
    exact ⟨none, [], .same _, (List.append_nil _).symm, by simp⟩
  | some l =>
    have ht : timeoutStep c l = some t := hl
    cases l with
    | addTimeout timeout callback o =>
      obtain ⟨-, rfl⟩ := timeoutStep_addTimeout.mp ht
      exact ⟨none, _, c.members.queue_addTimeout timeout callback o, rfl,
        by simp [TimeoutEvent.calledId]⟩
    | removeTimeout handle =>
      obtain ⟨-, rfl⟩ := timeoutStep_removeTimeout.mp ht
      exact ⟨none, _, (Timeouts.queue_removeTimeout hs handle).1, rfl,
        by simp [TimeoutEvent.calledId]⟩
    | timeoutHandle =>
      obtain ⟨-, rfl⟩ := timeoutStep_timeoutHandle.mp ht
      exact ⟨none, [], .make _ (Nat.le_succ _), (List.append_nil _).symm, by simp⟩
    | processTimeouts now =>
      obtain ⟨-, rfl⟩ := timeoutStep_processTimeouts.mp ht
      exact ⟨none, [], .same _, (List.append_nil _).symm, by simp⟩
    | iterate =>
      obtain ⟨p, -, rfl⟩ := timeoutStep_iterate.mp ht
      exact queue_iteration c p
    | callbackReturns =>
      obtain ⟨p, -, rfl⟩ := timeoutStep_callbackReturns.mp ht
      exact ⟨none, [], .same _, (List.append_nil _).symm, by simp⟩
    | finish o =>
      obtain ⟨p, -, rfl⟩ := timeoutStep_finish.mp ht
      exact ⟨none, [], (c.members.queue_endPass p o).1, (List.append_nil _).symm, by simp⟩

theorem timeouts_sound (hc : throwingTimeoutStep.Reachable {} c) : c.members.queue.Sound :=
  timeouts_implement.sound_of_reachable hc Queue.sound_init

/-- In every run that begins with a removal, the entry is not called. -/
theorem silenced_after_removeTimeout (hs : c.members.queue.Sound) {handle : TimeoutHandle}
    {ls : List (Option (TimeoutStep κ))}
    (hrun : throwingTimeoutStep.run c (some (.removeTimeout handle) :: ls) = some t) :
    t.members.queue.Silenced handle.id ∧ ∃ evs, t.history = c.history ++ .removed handle :: evs ∧
      ∀ ev ∈ evs, ev.calledId ≠ some handle.id := by
  obtain ⟨u, hl, hrun⟩ := Machine.run_cons_eq_some.mp hrun
  have hu := timeouts_implement.sound_step hs hl
  obtain ⟨⟨-, hmade⟩, rfl⟩ := timeoutStep_removeTimeout.mp hl
  obtain ⟨hsilenced, evs, hhist, hevs⟩ :=
    timeouts_implement.silenced_run hrun hu ((Timeouts.queue_removeTimeout hs handle).2 hmade)
  exact ⟨hsilenced, evs, by simpa using hhist, hevs⟩

theorem removesTimeout_of_sound (hs : c.members.queue.Sound) (handle : TimeoutHandle) :
    RemovesTimeout c handle where
  entry := by
    rw [Timeouts.removeTimeout_members (Timeouts.handles_nodup hs)]
    cases hp : c.members.processingTimeouts with
    | true =>
      simp only [if_true]
      apply removesEntry_map <;> exact fun _ => rfl
    | false =>
      simp only [Bool.false_eq_true, if_false]
      exact removesEntry_filter false _ _
  notCalled := by
    intro ls t hrun now e he hhandle
    obtain ⟨-, evs, hhist, hevs⟩ := silenced_after_removeTimeout hs hrun
    rw [hhist, List.drop_left, List.mem_cons] at he
    rcases he with he | he
    · cases he
    · subst hhandle
      exact hevs _ he rfl
  erased := by
    intro ls o t hrun hin
    obtain ⟨u, hrun, hl⟩ := Machine.run_append_eq_some.mp hrun
    obtain ⟨hsilenced, -⟩ := silenced_after_removeTimeout hs hrun
    rw [Machine.run_singleton] at hl
    obtain ⟨p, -, rfl⟩ := timeoutStep_finish.mp hl
    have hgone := ((u.members.queue_endPass p o).2 handle.id hsilenced).keys
    rw [Timeouts.queue_keys] at hgone
    exact hgone (List.mem_map_of_mem hin)

/-- `add_timeout` returns the handle of the entry that it stores. -/
theorem returnsItsHandle (hs : c.members.queue.Sound) (timeout : TimeType) (callback : κ)
    (o : SettimeOutcome) : ReturnsItsHandle c timeout callback o := by
  intro handle hr
  obtain rfl : handle = (c.members.newEntry timeout callback).handle := by
    rw [c.members.addTimeout_result timeout callback o] at hr
    split_ifs at hr
    · exact (SettimeOutcome.answer_eq_ok_iff.mp hr).2.symm
    · exact (Except.ok.inj hr).symm
  constructor
  case inserted =>
    exact ⟨c.members.newEntry timeout callback, rfl, rfl, rfl, rfl,
      c.members.addTimeout_stored_perm timeout callback o⟩
  case distinct =>
    intro e he heq
    have hmade := hs.made e.handle.id
      (c.members.queue_keys ▸ List.mem_map_of_mem (List.mem_map_of_mem he))
    rw [heq] at hmade
    exact hmade.false
  case cancels =>
    intro ls t hrun
    exact removesTimeout_of_sound (timeouts_implement.sound_of_reachable ⟨_, hrun⟩ hs) _

end Timeouts

end Linuxpp.Ioloop
