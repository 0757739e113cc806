import Linuxpp.Subprocess.Constructions

/-!
# Proofs: concurrent constructors of `popen`

A thread that has blocked the signals holds `clone_mutex` as well, so the mask that is saved is the
one that this thread came with. A child that runs keeps its parent suspended inside both guards, so
that no other thread gets to `child_stack`.
-/

namespace Linuxpp.Subprocess

namespace Stage

/-- The thread has `clone_lock`. -/
def InCloneLock : Stage → Prop
  | outside | cmdline | cloneLock | leave _ => False
  | _ => True

/-- The thread has `signal_lock`. -/
def InSignalLock : Stage → Prop
  | outside | cmdline | cloneLock | signalLock | cloneUnlock _ | leave _ => False
  | _ => True

/-- The thread has seen to it that there is a `child_stack`. -/
def HasStack : Stage → Prop
  | openStdin | openStdout | openStderr | clone => True
  | _ => False

end Stage

variable {c c' : Constructors} {t : ℕ} {stage : Stage} {outcome : Outcome}

/-- What holds of a thread at a stage. -/
structure AtStage (c : Constructors) (t : ℕ) (stage : Stage) : Prop where
  /-- With the signals blocked, the saved mask is the one that this thread came with. -/
  saved : stage.InSignalLock → c.signalMutex.prevSigset = (c.calledWith t).sigset
  /-- Otherwise the thread has that mask itself. -/
  unchanged : stage ≠ .outside → ¬ stage.InSignalLock → c.mask t = c.calledWith t
  stack : stage.HasStack → c.childStack ≠ none

/-- The invariant of the constructors. -/
structure Guarded (c : Constructors) : Prop where
  mutex : Lock.Held Stage.InCloneLock c.stage c.cloneMutex
  threads : ∀ t, AtStage c t (c.stage t)
  /-- The parent of a child that runs is suspended. -/
  parents : ∀ child ∈ c.running, c.stage child.parent = .suspended child.pid
  undisturbed : Undisturbed c

theorem Stage.InSignalLock.inCloneLock (h : stage.InSignalLock) : stage.InCloneLock := by
  cases stage <;> first | exact trivial | exact h

theorem guarded_initial (masks : ℕ → SignalMask) : Guarded { mask := masks } where
  mutex := Lock.held_none fun _ => id
  threads _ := ⟨False.elim, fun _ _ => rfl, False.elim⟩
  parents := by simp
  undisturbed := ⟨by simp, by simp, by simp⟩

section Rules

theorem Guarded.at (h : Guarded c) (hstage : c.stage t = stage) : AtStage c t stage := by
  rw [← hstage]
  exact h.threads t

theorem Undisturbed.congr (h : Undisturbed c) (hrunning : c'.running = c.running)
    (hstack : c'.childStack = c.childStack) (hended : c'.ended = c.ended) : Undisturbed c' := by
  constructor
  · rw [hrunning]
    exact h.oneChild
  · rw [hrunning, hstack]
    exact h.stackKept
  · rw [hended]
    exact h.maskKept

/-- Only the thread that has the clone lock may be inside the signal lock. -/
theorem Guarded.others_not_inSignalLock (h : Guarded c) (ht : (c.stage t).InCloneLock) {u : ℕ}
    (hu : u ≠ t) : ¬ (c.stage u).InSignalLock :=
  fun hin => hu (h.mutex.unique hin.inCloneLock ht)

/-- A thread that is not suspended has no child that runs. -/
theorem Guarded.idle (h : Guarded c) (hstage : c.stage t = stage)
    (hne : ∀ pid, stage ≠ .suspended pid) : ∀ child ∈ c.running, child.parent ≠ t := by
  rintro child hchild rfl
  apply hne child.pid
  rw [← hstage]
  exact h.parents child hchild

/-- With the clone lock in the hands of a thread that is not suspended, no child runs at all. -/
theorem Guarded.nothing_runs (h : Guarded c) (hstage : c.stage t = stage)
    (hne : ∀ pid, stage ≠ .suspended pid) (hinside : stage.InCloneLock) : c.running = [] := by
  rw [List.eq_nil_iff_forall_not_mem]
  intro child hchild
  have hparent : (c.stage child.parent).InCloneLock := by
    rw [h.parents child hchild]
    trivial
  rw [← hstage] at hinside
  exact h.idle hstage hne child hchild (h.mutex.unique hparent hinside)

/-- The mutex, when a thread goes on that has it before and after, or neither. -/
theorem Guarded.move (h : Guarded c) {stage' : Stage} (hstage : c.stage t = stage)
    (hiff : stage'.InCloneLock ↔ stage.InCloneLock) :
    Lock.Held Stage.InCloneLock (Function.update c.stage t stage') c.cloneMutex := by
  rw [← hstage] at hiff
  exact h.mutex.move hiff

theorem parents_goTo (h : Guarded c) (hidle : ∀ child ∈ c.running, child.parent ≠ t) :
    ∀ child ∈ c.running, Function.update c.stage t stage child.parent = .suspended child.pid := by
  intro child hchild
  rw [Function.update_of_ne (hidle child hchild)]
  exact h.parents child hchild

/-- What one thread does, the others being left alone. -/
theorem atStage_of_step (h : ∀ u, AtStage c u (c.stage u))
    (hstage : c'.stage = Function.update c.stage t stage)
    (hmask : ∀ u, u ≠ t → c'.mask u = c.mask u)
    (hcalled : ∀ u, u ≠ t → c'.calledWith u = c.calledWith u)
    (hsaved : ∀ u, u ≠ t → (c.stage u).InSignalLock →
      c'.signalMutex.prevSigset = c.signalMutex.prevSigset)
    (hstack : c.childStack ≠ none → c'.childStack ≠ none) (ht : AtStage c' t stage) :
    ∀ u, AtStage c' u (c'.stage u) := by
  rw [hstage, Function.forall_update_iff c.stage (AtStage c')]
  refine ⟨ht, fun u hu => ?_⟩
  constructor
  · intro hin
    rw [hsaved u hu hin, hcalled u hu]
    exact (h u).saved hin
  · intro hout hin
    rw [hmask u hu, hcalled u hu]
    exact (h u).unchanged hout hin
  · exact fun hst => hstack ((h u).stack hst)

/-- A thread goes on, and its mask and the saved one stay as they are. -/
theorem atStage_goTo (h : ∀ u, AtStage c u (c.stage u))
    (hstage : c'.stage = Function.update c.stage t stage) (hmask : c'.mask = c.mask)
    (hcalled : c'.calledWith = c.calledWith) (hsaved : c'.signalMutex = c.signalMutex)
    (hstack : c.childStack ≠ none → c'.childStack ≠ none) (ht : AtStage c' t stage) :
    ∀ u, AtStage c' u (c'.stage u) := by
  refine atStage_of_step h hstage ?_ ?_ ?_ hstack ht
  · exact fun u _ => congrFun hmask u
  · exact fun u _ => congrFun hcalled u
  · exact fun _ _ _ => congrArg SignalMutex.prevSigset hsaved

end Rules

section Steps

/-- A thread goes on with the guards that it has, and nothing else changes. -/
theorem Guarded.goTo (h : Guarded c) {stage' : Stage} (hstage : c.stage t = stage)
    (hclone : stage'.InCloneLock ↔ stage.InCloneLock)
    (hsignal : stage'.InSignalLock ↔ stage.InSignalLock) (hout : stage ≠ .outside)
    (hstack : stage'.HasStack → c.childStack ≠ none)
    (hidle : ∀ child ∈ c.running, child.parent ≠ t) : Guarded (c.goTo t stage') where
  mutex := h.move hstage hclone
  threads := by
    refine atStage_goTo h.threads rfl rfl rfl rfl id ?_
    constructor
    · exact fun hin => (h.at hstage).saved (hsignal.mp hin)
    · exact fun _ hin => (h.at hstage).unchanged hout fun hin' => hin (hsignal.mpr hin')
    · exact hstack
  parents := parents_goTo h hidle
  undisturbed := h.undisturbed.congr rfl rfl rfl

theorem Guarded.sigmask (h : Guarded c) (hstage : c.stage t = .outside) (mask : SignalMask) :
    Guarded { c with mask := Function.update c.mask t mask } where
  mutex := h.mutex
  threads := by
    have hstays : c.stage = Function.update c.stage t .outside := by
      rw [← hstage, Function.update_eq_self]
    refine atStage_of_step h.threads hstays ?_ (fun _ _ => rfl) (fun _ _ _ => rfl) id
      ⟨False.elim, ?_, False.elim⟩
    · exact fun u hu => Function.update_of_ne hu _ _
    · exact fun hout => absurd rfl hout
  parents := h.parents
  undisturbed := h.undisturbed.congr rfl rfl rfl

theorem Guarded.call (h : Guarded c) (hstage : c.stage t = .outside) : Guarded (c.call t) where
  mutex := h.move hstage Iff.rfl
  threads := by
    refine atStage_of_step h.threads rfl (fun _ _ => rfl) ?_ (fun _ _ _ => rfl) id
      ⟨False.elim, ?_, False.elim⟩
    · exact fun u hu => Function.update_of_ne hu _ _
    · exact fun _ _ => (Function.update_self t (c.mask t) c.calledWith).symm
  parents := parents_goTo h (h.idle hstage (by simp))
  undisturbed := h.undisturbed.congr rfl rfl rfl

theorem Guarded.lockClone (h : Guarded c) (hstage : c.stage t = .cloneLock)
    (hfree : c.cloneMutex = none) :
    Guarded ({ c with cloneMutex := some t }.goTo t .signalLock) where
  mutex := by
    have hmutex := h.mutex
    rw [hfree] at hmutex
    exact hmutex.enter trivial
  threads := by
    refine atStage_goTo h.threads rfl rfl rfl rfl id ⟨False.elim, ?_, False.elim⟩
    exact fun _ _ => (h.at hstage).unchanged (by simp) id
  parents := parents_goTo h (h.idle hstage (by simp))
  undisturbed := h.undisturbed.congr rfl rfl rfl

/-- The mask that is saved is that of the thread that has `clone_mutex`. -/
theorem Guarded.lockSignals (h : Guarded c) (hstage : c.stage t = .signalLock) :
    Guarded (c.lockSignals t) where
  mutex := h.move hstage Iff.rfl
  threads := by
    have hinside : (c.stage t).InCloneLock := by
      rw [hstage]
      trivial
    refine atStage_of_step h.threads rfl ?_ (fun _ _ => rfl) ?_ id ⟨fun _ => ?_, ?_, False.elim⟩
    · exact fun u hu => Function.update_of_ne hu _ _
    · exact fun u hu hin => absurd hin (h.others_not_inSignalLock hinside hu)
    · have hmask : c.mask t = c.calledWith t := (h.at hstage).unchanged (by simp) id
      exact congrArg SignalMask.sigset hmask
    · exact fun _ hin => absurd trivial hin
  parents := parents_goTo h (h.idle hstage (by simp))
  undisturbed := h.undisturbed.congr rfl rfl rfl

/-- The mask that is put back is that of the thread that destroys its guard. -/
theorem Guarded.unlockSignals (h : Guarded c) (hstage : c.stage t = .signalUnlock outcome) :
    Guarded (c.unlockSignals t outcome) where
  mutex := h.move hstage Iff.rfl
  threads := by
    refine atStage_of_step h.threads rfl ?_ (fun _ _ => rfl) (fun _ _ _ => rfl) id
      ⟨False.elim, fun _ _ => ?_, False.elim⟩
    · exact fun u hu => Function.update_of_ne hu _ _
    · show Function.update c.mask t (SignalMask.ofSigset c.signalMutex.prevSigset) t = _
      rw [Function.update_self, (h.at hstage).saved trivial]
      exact SignalMask.ofSigset_sigset _
  parents := parents_goTo h (h.idle hstage (by simp))
  undisturbed := h.undisturbed.congr rfl rfl rfl

theorem Guarded.unlockClone (h : Guarded c) (hstage : c.stage t = .cloneUnlock outcome) :
    Guarded ({ c with cloneMutex := none }.goTo t (.leave outcome)) where
  mutex := by
    refine h.mutex.leave ?_ id
    rw [hstage]
    trivial
  threads := by
    refine atStage_goTo h.threads rfl rfl rfl rfl id ⟨False.elim, ?_, False.elim⟩
    exact fun _ _ => (h.at hstage).unchanged (by simp) id
  parents := parents_goTo h (h.idle hstage (by simp))
  undisturbed := h.undisturbed.congr rfl rfl rfl

/-- The stack is made while no child runs. -/
theorem Guarded.makeStack (h : Guarded c) (hstage : c.stage t = .makeStack) :
    Guarded (c.makeStack t) where
  mutex := h.move hstage Iff.rfl
  threads := by
    have hmade : some c.stacksMade ≠ none := Option.some_ne_none c.stacksMade
    refine atStage_goTo h.threads rfl rfl rfl rfl (fun _ => hmade) ⟨?_, ?_, fun _ => hmade⟩
    · exact fun _ => (h.at hstage).saved trivial
    · exact fun _ hin => absurd trivial hin
  parents := parents_goTo h (h.idle hstage (by simp))
  undisturbed := by
    have hnothing : c.running = [] := h.nothing_runs hstage (by simp) trivial
    refine ⟨h.undisturbed.oneChild, ?_, h.undisturbed.maskKept⟩
    show ∀ child ∈ c.running, _
    rw [hnothing]
    simp

/-- A child is created while no other runs, on a stack that is there. -/
theorem Guarded.clone (h : Guarded c) (hstage : c.stage t = .clone) : Guarded (c.clone t) where
  mutex := h.move hstage Iff.rfl
  threads := by
    refine atStage_goTo h.threads rfl rfl rfl rfl id ⟨?_, ?_, False.elim⟩
    · exact fun _ => (h.at hstage).saved trivial
    · exact fun _ hin => absurd trivial hin
  parents := by
    intro child hchild
    rcases List.mem_cons.mp hchild with rfl | hchild
    · exact Function.update_self _ _ _
    · exact parents_goTo h (h.idle hstage (by simp)) child hchild
  undisturbed := by
    have hnothing : c.running = [] := h.nothing_runs hstage (by simp) trivial
    have hrunning : (c.clone t).running = [⟨c.childrenMade, t, c.childStack⟩] :=
      congrArg _ hnothing
    refine ⟨?_, ?_, h.undisturbed.maskKept⟩
    · rw [hrunning]
      exact Nat.le_refl 1
    · rw [hrunning]
      intro child hchild
      obtain rfl := List.mem_singleton.mp hchild
      exact ⟨(h.at hstage).stack trivial, rfl⟩

theorem Guarded.leave (h : Guarded c) (hstage : c.stage t = .leave outcome) :
    Guarded (c.leave t outcome) where
  mutex := h.move hstage Iff.rfl
  threads := by
    refine atStage_goTo h.threads rfl rfl rfl rfl id ⟨False.elim, ?_, False.elim⟩
    exact fun hout => absurd rfl hout
  parents := parents_goTo h (h.idle hstage (by simp))
  undisturbed := by
    refine ⟨h.undisturbed.oneChild, h.undisturbed.stackKept, ?_⟩
    intro call hcall
    rcases List.mem_append.mp hcall with hcall | hcall
    · exact h.undisturbed.maskKept call hcall
    · obtain rfl := List.mem_singleton.mp hcall
      exact (h.at hstage).unchanged (by simp) id

theorem Guarded.childEnds (h : Guarded c) (child : RunningChild) (status : ℕ) :
    Guarded (c.childEnds child status) where
  mutex := h.mutex
  threads u := ⟨(h.threads u).saved, (h.threads u).unchanged, (h.threads u).stack⟩
  parents other hother := h.parents other (List.mem_of_mem_erase hother)
  undisturbed := by
    refine ⟨?_, ?_, h.undisturbed.maskKept⟩
    · exact Nat.le_trans List.length_erase_le h.undisturbed.oneChild
    · exact fun other hother => h.undisturbed.stackKept other (List.mem_of_mem_erase hother)

/-- An exception leaves the guards as they are, until they are destroyed. -/
theorem Guarded.throw (h : Guarded c) (hthrow : (c.stage t).unwind = some stage) :
    Guarded (c.goTo t stage) := by
  cases hstage : c.stage t <;> rw [hstage] at hthrow <;> cases hthrow <;>
    exact h.goTo hstage Iff.rfl Iff.rfl (by simp) False.elim (h.idle hstage (by simp))

/-- The statements of the constructor. -/
theorem Guarded.proceed (h : Guarded c) (hproceed : c.proceed t = some c') : Guarded c' := by
  unfold Constructors.proceed at hproceed
  cases hstage : c.stage t <;> rw [hstage] at hproceed <;> dsimp only at hproceed
  case outside => cases hproceed
  case cmdline =>
    obtain rfl := Option.some.inj hproceed
    exact h.goTo hstage Iff.rfl Iff.rfl (by simp) False.elim (h.idle hstage (by simp))
  case cloneLock =>
    by_cases hfree : c.cloneMutex = none
    · rw [if_pos hfree] at hproceed
      obtain rfl := Option.some.inj hproceed
      exact h.lockClone hstage hfree
    · rw [if_neg hfree] at hproceed
      cases hproceed
  case signalLock =>
    obtain rfl := Option.some.inj hproceed
    exact h.lockSignals hstage
  case childStack =>
    obtain rfl := Option.some.inj hproceed
    have hidle := h.idle hstage (by simp)
    by_cases hsome : c.childStack.isSome
    · rw [if_pos hsome]
      exact h.goTo hstage Iff.rfl Iff.rfl (by simp) (fun _ => Option.isSome_iff_ne_none.mp hsome)
        hidle
    · rw [if_neg hsome]
      exact h.goTo hstage Iff.rfl Iff.rfl (by simp) False.elim hidle
  case makeStack =>
    obtain rfl := Option.some.inj hproceed
    exact h.makeStack hstage
  case clone =>
    obtain rfl := Option.some.inj hproceed
    exact h.clone hstage
  case suspended pid =>
    by_cases hended : ∀ child ∈ c.running, child.pid ≠ pid
    · rw [if_pos hended] at hproceed
      obtain rfl := Option.some.inj hproceed
      refine h.goTo hstage Iff.rfl Iff.rfl (by simp) False.elim ?_
      -- the child for which the thread was suspended does not run any more
      rintro child hchild rfl
      have hpid := h.parents child hchild
      rw [hstage] at hpid
      cases hpid
      exact hended child hchild rfl
    · rw [if_neg hended] at hproceed
      cases hproceed
  case childStatus =>
    obtain rfl := Option.some.inj hproceed
    exact h.goTo hstage Iff.rfl Iff.rfl (by simp) False.elim (h.idle hstage (by simp))
  case signalUnlock outcome =>
    obtain rfl := Option.some.inj hproceed
    exact h.unlockSignals hstage
  case cloneUnlock outcome =>
    obtain rfl := Option.some.inj hproceed
    exact h.unlockClone hstage
  case leave outcome =>
    obtain rfl := Option.some.inj hproceed
    exact h.leave hstage
  -- the streams are opened with the stack in place
  all_goals
    obtain rfl := Option.some.inj hproceed
    exact h.goTo hstage Iff.rfl Iff.rfl (by simp) (fun _ => (h.at hstage).stack trivial)
      (h.idle hstage (by simp))

/-- **Step lemma.** -/
theorem Guarded.step (h : Guarded c) (step : ConstructorStep)
    (hstep : constructing c step = some c') : Guarded c' := by
  cases step with
  | sigmask t how set =>
    obtain ⟨hstage, heq⟩ := Option.ite_none_right_eq_some.mp hstep
    obtain rfl := Option.some.inj heq
    exact h.sigmask hstage (pthreadSigmask how set (c.mask t))
  | call t =>
    obtain ⟨hstage, heq⟩ := Option.ite_none_right_eq_some.mp hstep
    obtain rfl := Option.some.inj heq
    exact h.call hstage
  | proceed t => exact h.proceed hstep
  | throw t =>
    obtain ⟨stage, hthrow, rfl⟩ := Option.map_eq_some_iff.mp hstep
    exact h.throw hthrow
  | childEnds child status =>
    obtain ⟨-, heq⟩ := Option.ite_none_right_eq_some.mp hstep
    obtain rfl := Option.some.inj heq
    exact h.childEnds child status

end Steps

section Progress

/-- A thread that has `clone_lock` can go on, or has a child that runs. -/
theorem proceed_of_inCloneLock (hinside : (c.stage t).InCloneLock) :
    (∃ c', c.proceed t = some c') ∨ ∃ child, child ∈ c.running := by
  unfold Constructors.proceed
  cases hstage : c.stage t <;> rw [hstage] at hinside <;> dsimp only
  case suspended pid =>
    by_cases hended : ∀ child ∈ c.running, child.pid ≠ pid
    · exact Or.inl ⟨_, if_pos hended⟩
    · push Not at hended
      obtain ⟨child, hchild, -⟩ := hended
      exact Or.inr ⟨child, hchild⟩
  all_goals first
    | exact Or.inl ⟨_, rfl⟩
    | cases hinside

/-- A thread in the constructor can go on, or the one that it waits for can, or a child. -/
theorem Guarded.goes_on (h : Guarded c) (hin : c.stage t ≠ .outside) :
    (∃ u c', c.proceed u = some c') ∨ ∃ child, child ∈ c.running := by
  by_cases hinside : (c.stage t).InCloneLock
  · rcases proceed_of_inCloneLock hinside with ⟨c', hc'⟩ | hchild
    · exact Or.inl ⟨t, c', hc'⟩
    · exact Or.inr hchild
  by_cases hwaits : c.stage t = .cloneLock
  · cases hmutex : c.cloneMutex with
    | none =>
      refine Or.inl ⟨t, { c with cloneMutex := some t }.goTo t .signalLock, ?_⟩
      simp only [Constructors.proceed, hwaits, hmutex, if_true]
    | some u =>
      -- the holder of the mutex is the one to go on
      rcases proceed_of_inCloneLock ((h.mutex u).mpr hmutex) with ⟨c', hc'⟩ | hchild
      · exact Or.inl ⟨u, c', hc'⟩
      · exact Or.inr hchild
  · left
    refine ⟨t, ?_⟩
    unfold Constructors.proceed
    cases hstage : c.stage t <;> rw [hstage] at hin hinside hwaits <;> dsimp only
    all_goals first
      | exact ⟨_, rfl⟩
      | exact absurd rfl hin
      | exact absurd rfl hwaits
      | exact absurd trivial hinside

/-- **No deadlock.** As long as a thread is in the constructor, a thread can go on, or a child runs,
which can end. -/
theorem constructing_not_stuck {masks : ℕ → SignalMask}
    (hreach : constructing.Reachable { mask := masks } c) (hin : c.stage t ≠ .outside) :
    (∃ u c', constructing c (.proceed u) = some c') ∨
      ∃ child, ∀ status, ∃ c', constructing c (.childEnds child status) = some c' := by
  have hc : Guarded c :=
    hreach.invariant (fun _ step _ hc hstep => hc.step step hstep) (guarded_initial masks)
  rcases hc.goes_on hin with hproceed | ⟨child, hchild⟩
  · exact Or.inl hproceed
  · exact Or.inr ⟨child, fun status => ⟨_, if_pos hchild⟩⟩

end Progress

/-- **The constructors do not interfere**, whatever the threads, the children and the calls that may
throw do, and in whatever order. -/
theorem constructing_undisturbed (masks : ℕ → SignalMask) (steps : List ConstructorStep) :
    constructing.Throughout Undisturbed { mask := masks } steps := by
  have hall : constructing.Along (fun _ _ => True) { mask := masks } steps :=
    Machine.along_of_forall_mem fun _ _ _ => trivial
  refine Machine.throughout_of_along ?_ (fun c hc => hc.undisturbed) hall (guarded_initial masks)
  exact fun c step c' hc _ hstep => hc.step step hstep

/-- The second thread comes while the child of the first runs, and fails to open a stream. Each gets
its own mask back. -/
example :
    let schedule := [[.call 1, .call 2, .proceed 2], List.replicate 9 (.proceed 1),
      [.childEnds ⟨0, 1, some 0⟩ 0], List.replicate 5 (.proceed 1), List.replicate 3 (.proceed 2),
      [.throw 2], List.replicate 3 (.proceed 2)]
    (constructing.run { mask := fun t => .ofSigset (BitVec.twoPow 64 t) } schedule.flatten).map
        (fun c => c.ended.map fun e => (e.thread, e.outcome, e.after.sigset)) =
      some [(1, .returned, BitVec.twoPow 64 1), (2, .threw, BitVec.twoPow 64 2)] := by
  decide

end Linuxpp.Subprocess
