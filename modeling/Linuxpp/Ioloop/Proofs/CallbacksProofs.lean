import Linuxpp.Ioloop.Callbacks

/-!
# Proofs: the queued callbacks

Two facts are kept by every step. Everything that entered the critical section was run, was taken,
is queued or is about to be queued, in this order. And unless a party is between the two halves of
its work (a call of `add_callback` that has pushed but not written, or the loop that has read but
not taken), a queued callback keeps the eventfd readable.
-/

namespace Linuxpp.Ioloop

variable {κ : Type} {c t : CallbackLoop κ}

/-- A callback was pushed, and the write to the eventfd is still to come. -/
def MutexHolder.unwritten : MutexHolder κ → Bool
  | .adding _ _ .pushed => true
  | _ => false

/-- The eventfd was read, and the callbacks are still to be taken. -/
def LoopPhase.untaken : LoopPhase κ → Bool
  | .afterRead | .locked => true
  | _ => false

/-- The loop holds the mutex in these phases. -/
def LoopPhase.holdsMutex : LoopPhase κ → Bool
  | .locked | .taken _ => true
  | _ => false

/-- The invariant of the reachable states. -/
structure Handoff (c : CallbackLoop κ) : Prop where
  order : c.entered = c.ran ++ c.phase.todo ++ c.newCallbacks ++ c.mutex.inFlight
  calls : c.entered.map QueuedCallback.call = List.range c.entered.length
  exclusion : c.phase.holdsMutex = true ↔ c.mutex = .processing
  readable : c.mutex.unwritten = false → c.phase.untaken = false →
    c.newCallbacks = [] ∨ 0 < c.callbacksEventfd
  pending : c.phase = .dispatching true → 0 < c.callbacksEventfd
  read : c.phase ≠ .readFailed

theorem handoff_init : Handoff ({} : CallbackLoop κ) where
  order := rfl
  calls := rfl
  exclusion := by simp [LoopPhase.holdsMutex]
  readable := by simp
  pending := by simp
  read := by simp

theorem writeEventfd_pos (counter : ℕ) : 0 < writeEventfd counter := by
  unfold writeEventfd maxEventfdCounter
  split_ifs <;> omega

theorem MutexHolder.isFree_iff {m : MutexHolder κ} : m.isFree = true ↔ m = .none := by
  cases m <;> simp [isFree]

section AddCallback

attribute [local simp] addCallbackStep

variable {adder : Adder} {callback : QueuedCallback κ} {stage : AddStage}

theorem addCallbackStep_enter {k : κ} : addCallbackStep c (.enter adder k) = some t ↔
    (c.mutex = .none ∧ (adder = .loop → c.phase.userCode = true)) ∧
      { c with
        mutex := .adding adder ⟨c.entered.length, k⟩ .entered
        entered := c.entered ++ [⟨c.entered.length, k⟩] } = t := by
  simp [MutexHolder.isFree_iff]

theorem addCallbackStep_push : addCallbackStep c .push = some t ↔
    ∃ adder callback, c.mutex = .adding adder callback .entered ∧
      { c with
        newCallbacks := c.newCallbacks ++ [callback]
        mutex := .adding adder callback .pushed } = t := by
  cases hm : c.mutex with
  | adding adder callback stage => cases stage <;> simp [hm]
  | _ => simp [hm]

theorem addCallbackStep_write : addCallbackStep c .write = some t ↔
    ∃ adder callback, c.mutex = .adding adder callback .pushed ∧
      { c with
        callbacksEventfd := writeEventfd c.callbacksEventfd
        mutex := .adding adder callback .written } = t := by
  cases hm : c.mutex with
  | adding adder callback stage => cases stage <;> simp [hm]
  | _ => simp [hm]

theorem addCallbackStep_leave : addCallbackStep c .leave = some t ↔
    ∃ adder callback, c.mutex = .adding adder callback .written ∧
      { c with mutex := .none } = t := by
  cases hm : c.mutex with
  | adding adder callback stage => cases stage <;> simp [hm]
  | _ => simp [hm]

/-- While `add_callback` holds the mutex, the loop does not. -/
theorem Handoff.not_holdsMutex (h : Handoff c) (hm : c.mutex ≠ .processing) :
    c.phase.holdsMutex = false := by
  rw [Bool.eq_false_iff]
  exact fun hp => hm (h.exclusion.mp hp)

/-- A step of `add_callback`. -/
theorem Handoff.addCallbackStep (h : Handoff c) {l : CallbackStep κ}
    (hl : addCallbackStep c l = some t) : Handoff t := by
  have horder := h.order
  cases l with
  | enter adder k =>
    obtain ⟨⟨hm, -⟩, rfl⟩ := addCallbackStep_enter.mp hl
    have hphase := h.not_holdsMutex (by simp [hm])
    refine ⟨?_, ?_, by simp [hphase], fun _ => h.readable (by rw [hm]; rfl), h.pending, h.read⟩
    · simp only [hm, MutexHolder.inFlight, List.append_nil] at horder ⊢
      rw [← horder]
    · simp [h.calls, List.range_succ]
  | push =>
    obtain ⟨adder, callback, hm, rfl⟩ := addCallbackStep_push.mp hl
    have hphase := h.not_holdsMutex (by simp [hm])
    refine ⟨?_, h.calls, by simp [hphase], by simp [MutexHolder.unwritten], h.pending, h.read⟩
    rw [horder, hm]
    simp [MutexHolder.inFlight]
  | write =>
    obtain ⟨adder, callback, hm, rfl⟩ := addCallbackStep_write.mp hl
    have hphase := h.not_holdsMutex (by simp [hm])
    have hpos := writeEventfd_pos c.callbacksEventfd
    refine ⟨?_, h.calls, by simp [hphase], fun _ _ => Or.inr hpos, fun _ => hpos, h.read⟩
    rw [horder, hm]
    rfl
  | leave =>
    obtain ⟨adder, callback, hm, rfl⟩ := addCallbackStep_leave.mp hl
    have hphase := h.not_holdsMutex (by simp [hm])
    refine ⟨?_, h.calls, by simp [hphase], fun _ => h.readable (by rw [hm]; rfl), h.pending, h.read⟩
    rw [horder, hm]
    rfl
  | _ => simp [Ioloop.addCallbackStep] at hl

end AddCallback

section Loop

attribute [local simp] loopStep

theorem loopStep_epollWait {readable : Bool} : loopStep c (.epollWait readable) = some t ↔
    c.phase = .waiting ∧ (readable = true → 0 < c.callbacksEventfd) ∧
      { c with phase := .dispatching readable } = t := by
  cases hp : c.phase <;> simp [hp]

theorem loopStep_read : loopStep c .read = some t ↔ c.phase = .dispatching true ∧
    (if c.callbacksEventfd = 0 then { c with phase := .readFailed }
      else { c with callbacksEventfd := 0, phase := .afterRead }) = t := by
  cases hp : c.phase with
  | dispatching pending =>
    cases pending with
    | false => simp [hp]
    | true =>
      simp only [loopStep, hp, true_and]
      split_ifs <;> exact Option.some_inj
  | _ => simp [hp]

theorem loopStep_lock : loopStep c .lock = some t ↔ c.phase = .afterRead ∧ c.mutex = .none ∧
    { c with mutex := .processing, phase := .locked } = t := by
  cases hp : c.phase <;> simp [hp, MutexHolder.isFree_iff]

theorem loopStep_take : loopStep c .take = some t ↔ c.phase = .locked ∧
    { c with newCallbacks := [], phase := .taken c.newCallbacks } = t := by
  cases hp : c.phase <;> simp [hp]

theorem loopStep_unlock : loopStep c .unlock = some t ↔ ∃ callbacks, c.phase = .taken callbacks ∧
    { c with mutex := .none, phase := .running callbacks false } = t := by
  cases hp : c.phase <;> simp [hp]

theorem loopStep_call : loopStep c .call = some t ↔
    ∃ callback callbacks, c.phase = .running (callback :: callbacks) false ∧
      { c with phase := .running callbacks true, ran := c.ran ++ [callback] } = t := by
  cases hp : c.phase with
  | running callbacks inCallback =>
    cases callbacks <;> cases inCallback <;> simp [hp]
  | _ => simp [hp]

theorem loopStep_callbackReturns : loopStep c .callbackReturns = some t ↔
    ∃ callbacks, c.phase = .running callbacks true ∧
      { c with phase := .running callbacks false } = t := by
  cases hp : c.phase with
  | running callbacks inCallback => cases inCallback <;> simp [hp]
  | _ => simp [hp]

theorem loopStep_processed : loopStep c .processed = some t ↔ c.phase = .running [] false ∧
    { c with phase := .dispatching false } = t := by
  cases hp : c.phase with
  | running callbacks inCallback =>
    cases callbacks <;> cases inCallback <;> simp [hp]
  | _ => simp [hp]

theorem loopStep_endBatch : loopStep c .endBatch = some t ↔ c.phase = .dispatching false ∧
    { c with phase := .waiting } = t := by
  cases hp : c.phase with
  | dispatching pending => cases pending <;> simp [hp]
  | _ => simp [hp]

/-- A step of the loop. -/
theorem Handoff.loopStep (h : Handoff c) {l : CallbackStep κ} (hl : loopStep c l = some t) :
    Handoff t := by
  have horder := h.order
  have hexclusion := h.exclusion
  have hreadable := h.readable
  cases l with
  | epollWait readable =>
    obtain ⟨hp, hpos, rfl⟩ := loopStep_epollWait.mp hl
    rw [hp] at horder hexclusion hreadable
    refine ⟨horder, h.calls, hexclusion, fun hw _ => hreadable hw rfl, ?_, by simp⟩
    rintro ⟨⟩
    exact hpos rfl
  | read =>
    obtain ⟨hp, rfl⟩ := loopStep_read.mp hl
    have hpos := h.pending hp
    rw [if_neg (Nat.pos_iff_ne_zero.mp hpos)]
    rw [hp] at horder hexclusion
    exact ⟨horder, h.calls, hexclusion, by simp [LoopPhase.untaken], by simp, by simp⟩
  | lock =>
    obtain ⟨hp, hm, rfl⟩ := loopStep_lock.mp hl
    rw [hp, hm] at horder
    exact ⟨horder, h.calls, by simp [LoopPhase.holdsMutex], by simp [LoopPhase.untaken], by simp,
      by simp⟩
  | take =>
    obtain ⟨hp, rfl⟩ := loopStep_take.mp hl
    rw [hp] at horder hexclusion
    have hm := hexclusion.mp rfl
    refine ⟨?_, h.calls, ?_, fun _ _ => Or.inl rfl, by simp, by simp⟩
    · simpa [hm, LoopPhase.todo, MutexHolder.inFlight] using horder
    · simp [LoopPhase.holdsMutex, hm]
  | unlock =>
    obtain ⟨callbacks, hp, rfl⟩ := loopStep_unlock.mp hl
    rw [hp] at horder hexclusion hreadable
    have hm := hexclusion.mp rfl
    rw [hm] at horder hreadable
    exact ⟨horder, h.calls, by simp [LoopPhase.holdsMutex], fun _ _ => hreadable rfl rfl, by simp,
      by simp⟩
  | call =>
    obtain ⟨callback, callbacks, hp, rfl⟩ := loopStep_call.mp hl
    rw [hp] at horder hexclusion hreadable
    refine ⟨?_, h.calls, hexclusion, fun hw _ => hreadable hw rfl, by simp, by simp⟩
    simpa [LoopPhase.todo] using horder
  | callbackReturns =>
    obtain ⟨callbacks, hp, rfl⟩ := loopStep_callbackReturns.mp hl
    rw [hp] at horder hexclusion hreadable
    exact ⟨horder, h.calls, hexclusion, fun hw _ => hreadable hw rfl, by simp, by simp⟩
  | processed =>
    obtain ⟨hp, rfl⟩ := loopStep_processed.mp hl
    rw [hp] at horder hexclusion hreadable
    exact ⟨horder, h.calls, hexclusion, fun hw _ => hreadable hw rfl, by simp, by simp⟩
  | endBatch =>
    obtain ⟨hp, rfl⟩ := loopStep_endBatch.mp hl
    rw [hp] at horder hexclusion hreadable
    exact ⟨horder, h.calls, hexclusion, fun hw _ => hreadable hw rfl, by simp, by simp⟩
  | _ => simp [Ioloop.loopStep] at hl

end Loop

/-- Every step keeps the invariant. -/
theorem Handoff.step (h : Handoff c) {l : CallbackStep κ} (hl : callbackStep c l = some t) :
    Handoff t := by
  unfold callbackStep at hl
  split_ifs at hl
  · exact h.addCallbackStep hl
  · exact h.loopStep hl

theorem handoff_of_reachable (hc : callbackStep.Reachable {} c) : Handoff c :=
  hc.invariant (fun _ _ _ h hl => h.step hl) handoff_init

section Drain

/-- The steps of the loop with which it runs everything that it has taken. -/
theorem drain {callbacks : List (QueuedCallback κ)} (hp : c.phase = .running callbacks false)
    (hm : c.mutex = .none) : ∃ ls, (∀ l ∈ ls, l.isAdd = false) ∧ callbackStep.run c ls =
      some { c with phase := .waiting, ran := c.ran ++ callbacks } := by
  induction callbacks generalizing c with
  | nil =>
    refine ⟨[.processed, .endBatch], by simp [CallbackStep.isAdd], ?_⟩
    simp [Machine.run, callbackStep, CallbackStep.isAdd, loopStep, hp, hm, MutexHolder.byLoop]
  | cons callback callbacks ih =>
    obtain ⟨ls, hls, hrun⟩ := ih (c := { c with
      phase := .running callbacks false, ran := c.ran ++ [callback] }) rfl hm
    refine ⟨.call :: .callbackReturns :: ls, ?_, ?_⟩
    · intro l hl
      rcases List.mem_cons.mp hl with rfl | hl
      · rfl
      rcases List.mem_cons.mp hl with rfl | hl
      · rfl
      · exact hls l hl
    · have hcall : callbackStep c .call = some { c with
          phase := .running callbacks true, ran := c.ran ++ [callback] } := by
        simp [callbackStep, CallbackStep.isAdd, loopStep, hp, hm, MutexHolder.byLoop]
      have hreturn : callbackStep { c with
          phase := .running callbacks true, ran := c.ran ++ [callback] } .callbackReturns =
          some { c with phase := .running callbacks false, ran := c.ran ++ [callback] } := by
        simp [callbackStep, CallbackStep.isAdd, loopStep, hm, MutexHolder.byLoop]
      refine Machine.run_cons_eq_some.mpr ⟨_, hcall, Machine.run_cons_eq_some.mpr ⟨_, hreturn, ?_⟩⟩
      rw [hrun]
      simp

/-- A loop that waits while nobody is in `add_callback` runs everything that was queued. -/
theorem Handoff.drains (h : Handoff c) (hp : c.phase = .waiting) (hm : c.mutex = .none) :
    ∃ ls t, (∀ l ∈ ls, l.isAdd = false) ∧ callbackStep.run c ls = some t ∧ t.ran = c.entered := by
  have horder := h.order
  simp only [hp, hm, LoopPhase.todo, MutexHolder.inFlight, List.append_nil] at horder
  rcases h.readable (by simp [hm, MutexHolder.unwritten]) (by simp [hp, LoopPhase.untaken])
    with hnone | hpos
  · refine ⟨[], c, by simp, rfl, ?_⟩
    rw [horder, hnone, List.append_nil]
  · have hstart : callbackStep.run c [.epollWait true, .read, .lock, .take, .unlock] = some { c with
        newCallbacks := [], callbacksEventfd := 0, mutex := .none
        phase := .running c.newCallbacks false } := by
      have hne : c.callbacksEventfd ≠ 0 := Nat.pos_iff_ne_zero.mp hpos
      simp [Machine.run, callbackStep, CallbackStep.isAdd, Ioloop.loopStep, hp, hm, hpos, hne,
        MutexHolder.byLoop, MutexHolder.isFree]
    have hown : ∀ l ∈ [.epollWait true, .read, .lock, .take, .unlock],
        (l : CallbackStep κ).isAdd = false := by
      simp [CallbackStep.isAdd]
    obtain ⟨ls, hls, hrun⟩ := drain (c := { c with
      newCallbacks := [], callbacksEventfd := 0, mutex := .none
      phase := .running c.newCallbacks false }) rfl rfl
    refine ⟨_ ++ ls, _, ?_, Machine.run_append_eq_some.mpr ⟨_, hstart, hrun⟩, horder.symm⟩
    intro l hl
    rcases List.mem_append.mp hl with hl | hl
    · exact hown l hl
    · exact hls l hl

end Drain

/-- **No queued callback is lost, duplicated or reordered.** In every reachable state, the callbacks
that were run, taken, queued and are about to be queued are those of the calls of `add_callback`
that entered the critical section, each once and in that order. When the loop waits and no call is
inside its critical section, nothing is queued or the eventfd is readable, so that the loop runs
everything that was queued. The read of the eventfd never fails. -/
theorem callbacks_never_lost (hc : callbackStep.Reachable {} c) :
    c.entered = c.ran ++ c.phase.todo ++ c.newCallbacks ++ c.mutex.inFlight ∧
    c.entered.map QueuedCallback.call = List.range c.entered.length ∧
    (c.phase = .waiting → c.mutex = .none →
      (c.newCallbacks = [] ∨ 0 < c.callbacksEventfd) ∧
      ∃ ls t, (∀ l ∈ ls, l.isAdd = false) ∧ callbackStep.run c ls = some t ∧ t.ran = c.entered) ∧
    c.phase ≠ .readFailed := by
  have h := handoff_of_reachable hc
  refine ⟨h.order, h.calls, ?_, h.read⟩
  intro hp hm
  refine ⟨h.readable ?_ ?_, h.drains hp hm⟩
  · rw [hm]
    rfl
  · rw [hp]
    rfl

/-- Another thread queues a callback while the loop is between its read and its lock, and the first
callback queues one itself. -/
def queueWhileReading : List (CallbackStep ℕ) :=
  [.enter (.other 1) 10, .push, .write, .leave, .epollWait true, .read, .enter (.other 2) 20, .push,
    .write, .leave, .lock, .take, .unlock, .call, .enter .loop 30, .push, .write, .leave,
    .callbackReturns, .call, .callbackReturns, .processed, .endBatch]

theorem callbacks_never_lost_queueWhileReading : ∃ c : CallbackLoop ℕ,
    callbackStep.run {} queueWhileReading = some c ∧ c.ran = [⟨0, 10⟩, ⟨1, 20⟩] ∧
      c.newCallbacks = [⟨2, 30⟩] ∧ (c.newCallbacks = [] ∨ 0 < c.callbacksEventfd) :=
  ⟨_, rfl, rfl, rfl, ((callbacks_never_lost ⟨queueWhileReading, rfl⟩).2.2.1 rfl rfl).1⟩

end Linuxpp.Ioloop
