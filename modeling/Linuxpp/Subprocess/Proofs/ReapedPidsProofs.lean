import Linuxpp.Subprocess.Proofs.PopenObjectsProofs

/-!
# Proofs: a pid is not used after its child was reaped

An object gives up its pid when its child is reaped, so the system calls are made for children only,
and an object that has returned the status of an exited child makes none.
-/

namespace Linuxpp.Subprocess

namespace PopenObjects

variable {s t u : PopenObjects} {o o' : ℕ} {popen : PopenObject} {status : Status}

theorem object?_set_ne (h : o' ≠ o) (x : Option PopenObject) :
    (s.objects.set o' x)[o]?.join = s.object? o := by
  rw [List.getElem?_set_ne h]
  rfl

theorem object?_append (h : s.object? o = some popen) (x : Option PopenObject) :
    (s.objects ++ [x])[o]?.join = some popen := by
  have hget := object?_eq_some.mp h
  rw [List.getElem?_append_left (List.getElem?_eq_some_iff.mp hget).1, hget]
  rfl

/-- A pid that an object holds is that of a child. -/
theorem Held.mem_pids (h : Held s) (hpopen : s.object? o = some popen)
    (hhas : popen.hasPid = true) : popen.pid.get ∈ s.process.pids := by
  have hpid : popen.pid.get ≠ invalidPid := of_decide_eq_true hhas
  exact h.child _ hpid (owners_pos_iff.mpr (List.mem_of_getElem? (holders_get hpopen)))

theorem signal_objects {signal : Int} {failure : Option Errno} {result : Except ChildError Unit}
    (h : s.signal o signal failure = some (result, t)) :
    t.objects = s.objects ∧ t.process = s.process := by
  obtain ⟨popen, -, h⟩ := Option.map_eq_some_iff.mp h
  obtain rfl := (Prod.mk.inj h).2
  split_ifs <;> exact ⟨rfl, rfl⟩

/-- The objects that hold a pid have not seen an exit, and the system calls were made for children
that were not reaped. -/
structure PidsUnused (s : PopenObjects) : Prop where
  held : Held s
  running : ∀ popen, some popen ∈ s.objects → popen.hasPid = true → popen.status.exited = false
  calls : ∀ call ∈ s.calls, call.pid ∈ call.unreaped

theorem mem_objects (h : s.object? o = some popen) : some popen ∈ s.objects :=
  List.mem_of_getElem? (object?_eq_some.mp h)

section Apply

variable {options : UInt32} {outcome : WaitidOutcome} {result : Except ChildError Status}

/-- An object after `wait` is an old one, or its child was reaped. -/
theorem objects_wait (h : s.wait o options outcome = some (result, t))
    (hmem : some popen ∈ t.objects) : some popen ∈ s.objects ∨ popen.hasPid = false := by
  obtain ⟨popen', -, ⟨-, -, rfl⟩ | ⟨-, call, -, -, ⟨-, rfl⟩ | ⟨-, status, -, -, rfl⟩⟩⟩ :=
    wait_cases h
  · exact Or.inl hmem
  · exact Or.inl hmem
  · rcases List.mem_or_eq_of_mem_set hmem with hmem | heq
    · exact Or.inl hmem
    · obtain rfl := Option.some.inj heq
      exact Or.inr rfl

/-- An object after an operation is an old one, or it has no pid, or it is new. -/
theorem objects_apply {op : PopenOp} (h : s.apply op = some t) (hmem : some popen ∈ t.objects) :
    some popen ∈ s.objects ∨ popen.hasPid = false ∨ popen.status.exited = false := by
  cases applies_of_apply h with
  | construct streams hfresh =>
    unfold PopenObjects.construct at hmem
    split at hmem
    · rcases List.mem_append.mp hmem with hmem | hmem
      · exact Or.inl hmem
      · obtain rfl := Option.some.inj (List.mem_singleton.mp hmem)
        exact Or.inr (Or.inr rfl)
    · exact Or.inl hmem
    · exact Or.inl hmem
  | defaultConstruct =>
    rcases List.mem_append.mp hmem with hmem | hmem
    · exact Or.inl hmem
    · obtain rfl := Option.some.inj (List.mem_singleton.mp hmem)
      exact Or.inr (Or.inl rfl)
  | moveConstruct hsrc =>
    rcases List.mem_append.mp hmem with hmem | hmem
    · rcases List.mem_or_eq_of_mem_set hmem with hmem | heq
      · exact Or.inl hmem
      · obtain rfl := Option.some.inj heq
        exact Or.inr (Or.inl rfl)
    · obtain rfl := Option.some.inj (List.mem_singleton.mp hmem)
      exact Or.inl (mem_objects hsrc)
  | moveAssign hdst hsrc hleft =>
    rcases List.mem_or_eq_of_mem_set hmem with hmem | heq
    · rcases List.mem_or_eq_of_mem_set hmem with hmem | heq
      · exact Or.inl hmem
      · exact Or.inl (heq ▸ mem_objects hsrc)
    · obtain rfl := Option.some.inj heq
      have hnone : popen.hasPid = false := by
        rw [PopenObject.hasPid, hleft]
        rfl
      exact Or.inr (Or.inl hnone)
  | swap ha hb =>
    rcases List.mem_or_eq_of_mem_set hmem with hmem | heq
    · rcases List.mem_or_eq_of_mem_set hmem with hmem | heq
      · exact Or.inl hmem
      · exact Or.inl (heq ▸ mem_objects hb)
    · exact Or.inl (heq ▸ mem_objects ha)
  | wait hwait | poll hwait => exact (objects_wait hwait hmem).imp_right Or.inl
  | signal | signalNone | terminate => exact Or.inl hmem
  | destroy hpopen hhas =>
    rcases List.mem_or_eq_of_mem_set hmem with hmem | heq
    · exact Or.inl hmem
    · cases heq

/-- The system call of `wait` is made for a child. -/
theorem calls_wait (hheld : Held s) (h : s.wait o options outcome = some (result, t))
    {call : ChildCall} (hcall : call ∈ t.calls) : call ∈ s.calls ∨ call.pid ∈ call.unreaped := by
  obtain ⟨popen, hpopen, hcases⟩ := wait_cases h
  have hnew : ∀ call' : ChildCall, popen.hasPid = true → call'.pid = popen.pid.get →
      call'.unreaped = s.process.pids → t.calls = s.calls ++ [call'] →
      call ∈ s.calls ∨ call.pid ∈ call.unreaped := by
    intro call' hhas hpid hunreaped ht
    rw [ht] at hcall
    rcases List.mem_append.mp hcall with hcall | hcall
    · exact Or.inl hcall
    · right
      rw [List.mem_singleton.mp hcall, hpid, hunreaped]
      exact hheld.mem_pids hpopen hhas
  rcases hcases with ⟨-, -, rfl⟩ | ⟨hhas, call', hpid, hunreaped, ⟨-, rfl⟩ | ⟨-, status, -, -, rfl⟩⟩
  · exact Or.inl hcall
  · exact hnew call' hhas hpid hunreaped rfl
  · exact hnew call' hhas hpid hunreaped rfl

/-- The system calls of an operation are made for children. -/
theorem calls_apply (hheld : Held s) {op : PopenOp} (h : s.apply op = some t) {call : ChildCall}
    (hcall : call ∈ t.calls) : call ∈ s.calls ∨ call.pid ∈ call.unreaped := by
  cases applies_of_apply h with
  | construct streams hfresh =>
    unfold PopenObjects.construct at hcall
    split at hcall
    · exact Or.inl hcall
    · rcases List.mem_append.mp hcall with hcall | hcall
      · exact Or.inl hcall
      · obtain ⟨pid, -, rfl⟩ := List.mem_map.mp hcall
        exact Or.inr List.mem_cons_self
    · exact Or.inl hcall
  | wait hwait | poll hwait => exact calls_wait hheld hwait hcall
  | signal hpopen hhas =>
    rcases List.mem_append.mp hcall with hcall | hcall
    · exact Or.inl hcall
    · obtain rfl := List.mem_singleton.mp hcall
      exact Or.inr (hheld.mem_pids hpopen hhas)
  | _ => exact Or.inl hcall

end Apply

theorem PidsUnused.step (h : PidsUnused s) {op : PopenOp} (hstep : popenStep s op = some t) :
    PidsUnused t := by
  obtain ⟨-, happly⟩ := popenStep_iff.mp hstep
  refine ⟨h.held.step hstep, ?_, ?_⟩
  · intro popen hmem hhas
    rcases objects_apply happly hmem with hmem | hnone | hexited
    · exact h.running popen hmem hhas
    · rw [hnone] at hhas
      cases hhas
    · exact hexited
  · intro call hcall
    rcases calls_apply h.held happly hcall with hcall | hchild
    · exact h.calls call hcall
    · exact hchild

section Exited

/-- The object holds no pid, and it has this status. -/
def HasExited (s : PopenObjects) (o : ℕ) (status : Status) : Prop :=
  ∃ popen, s.object? o = some popen ∧ popen.hasPid = false ∧ popen.status = status

/-- When `wait` returns the status of a child that has exited, the object has it. -/
theorem HasExited.of_wait (h : PidsUnused s) {options : UInt32} {outcome : WaitidOutcome}
    (hwait : s.wait o options outcome = some (.ok status, t)) (hexited : status.exited = true) :
    HasExited t o status := by
  obtain ⟨popen, hpopen, hcases⟩ := wait_cases hwait
  rcases hcases with ⟨hhas, hok, rfl⟩ |
    ⟨hhas, call, -, -, ⟨hresult, rfl⟩ | ⟨-, status', -, hok, rfl⟩⟩
  · exact ⟨popen, hpopen, hhas, (Except.ok.inj hok).symm⟩
  · rcases hresult with ⟨e, herror⟩ | hok
    · cases herror
    · have hrunning := h.running popen (mem_objects hpopen) hhas
      rw [← Except.ok.inj hok, hexited] at hrunning
      cases hrunning
  · obtain rfl := Except.ok.inj hok
    have hlt := (List.getElem?_eq_some_iff.mp (object?_eq_some.mp hpopen)).1
    exact ⟨_, object?_eq_some.mpr (List.getElem?_set_self hlt), rfl, rfl⟩

/-- `wait` and `poll` of any object leave it alone. -/
theorem HasExited.wait (h : HasExited s o status) {options : UInt32} {outcome : WaitidOutcome}
    {result : Except ChildError Status} (hwait : s.wait o' options outcome = some (result, t)) :
    HasExited t o status := by
  obtain ⟨popen, hpopen, hhas, hstatus⟩ := h
  obtain ⟨popen', hpopen', hcases⟩ := wait_cases hwait
  rcases hcases with ⟨-, -, rfl⟩ | ⟨hhas', call, -, -, ⟨-, rfl⟩ | ⟨-, status', -, -, rfl⟩⟩
  · exact ⟨popen, hpopen, hhas, hstatus⟩
  · exact ⟨popen, hpopen, hhas, hstatus⟩
  · have hne : o' ≠ o := by
      rintro rfl
      obtain rfl := Option.some.inj (hpopen.symm.trans hpopen')
      rw [hhas] at hhas'
      cases hhas'
    exact ⟨popen, (object?_set_ne hne _).trans hpopen, hhas, hstatus⟩

theorem HasExited.apply (h : HasExited s o status) {op : PopenOp} (halone : LeavesAlone o op)
    (happly : s.apply op = some t) : HasExited t o status := by
  obtain ⟨popen, hpopen, hhas, hstatus⟩ := h
  cases applies_of_apply happly with
  | construct streams hfresh =>
    unfold PopenObjects.construct
    split
    · exact ⟨popen, object?_append hpopen _, hhas, hstatus⟩
    · exact ⟨popen, hpopen, hhas, hstatus⟩
    · exact ⟨popen, hpopen, hhas, hstatus⟩
  | defaultConstruct => exact ⟨popen, object?_append hpopen _, hhas, hstatus⟩
  | @moveConstruct src popen' hsrc =>
    have hset : ({ s with objects := s.objects.set src (some {}) } : PopenObjects).object? o =
        some popen := (object?_set_ne halone _).trans hpopen
    exact ⟨popen, object?_append hset _, hhas, hstatus⟩
  | @moveAssign dst src popen₁ popen₂ left hdst hsrc hleft =>
    have hset : ({ s with objects := s.objects.set dst (some popen₂) } : PopenObjects).object? o =
        some popen := (object?_set_ne halone.1 _).trans hpopen
    exact ⟨popen, (object?_set_ne halone.2 _).trans hset, hhas, hstatus⟩
  | @swap a b popen₁ popen₂ ha hb =>
    have hset : ({ s with objects := s.objects.set a (some popen₂) } : PopenObjects).object? o =
        some popen := (object?_set_ne halone.1 _).trans hpopen
    exact ⟨popen, (object?_set_ne halone.2 _).trans hset, hhas, hstatus⟩
  | wait hwait | poll hwait => exact HasExited.wait ⟨popen, hpopen, hhas, hstatus⟩ hwait
  | signal | signalNone | terminate => exact ⟨popen, hpopen, hhas, hstatus⟩
  | destroy => exact ⟨popen, (object?_set_ne halone _).trans hpopen, hhas, hstatus⟩

/-- An object whose child was reaped makes no system call. -/
theorem HasExited.wait_eq (h : HasExited s o status) (options : UInt32) (outcome : WaitidOutcome) :
    s.wait o options outcome = some (.ok status, s) := by
  obtain ⟨popen, hpopen, hhas, rfl⟩ := h
  have hsame : s.objects.set o (some popen) = s.objects :=
    Slots.set_of_get (object?_eq_some.mp hpopen)
  unfold PopenObjects.wait
  rw [hpopen, Option.bind_some, PopenObject.wait_of_not_hasPid hhas]
  simp only [hhas, hsame, Bool.false_eq_true, not_false_eq_true, if_true]

theorem HasExited.signal_eq (h : HasExited s o status) (signal : Int) (failure : Option Errno) :
    s.signal o signal failure = some (.error .pidNotSet, s) := by
  obtain ⟨popen, hpopen, hhas, -⟩ := h
  unfold PopenObjects.signal PopenObject.signal
  rw [hpopen, Option.map_some, hhas]
  rfl

end Exited

end PopenObjects

open PopenObjects

/-- **Reaped pids.** In every run the system calls are made for children that were not reaped and no
pid has two holders; a member that throws leaves the objects as they are; and an object that has
returned the status of an exited child returns it again, without a system call, until something is
moved to or from it. -/
theorem reaped_pid_not_used_again (table : FdTable) (opened : ℕ) {ops : List PopenOp}
    {s : PopenObjects} (hrun : popenStep.run (init table opened) ops = some s) :
    (∀ call ∈ s.calls, call.pid ∈ call.unreaped) ∧ s.process.pids.Nodup ∧
    (∀ pid, pid ≠ invalidPid → s.owners pid ≤ 1) ∧
    (∀ o options outcome e t, s.wait o options outcome = some (.error e, t) →
      t.objects = s.objects) ∧
    (∀ o signal failure e t, s.signal o signal failure = some (.error e, t) →
      t.objects = s.objects) ∧
    ∀ o options outcome status t, s.wait o options outcome = some (.ok status, t) →
      status.exited = true → ∀ later u, popenStep.run t later = some u →
        (∀ op ∈ later, LeavesAlone o op) →
        (∀ options outcome, u.wait o options outcome = some (.ok status, u)) ∧
        (u.object? o).map PopenObject.status = some status ∧
        ∀ signal failure, u.signal o signal failure = some (.error .pidNotSet, u) := by
  have hstep : ∀ s op t, PidsUnused s → popenStep s op = some t → PidsUnused t :=
    fun _ _ _ h => h.step
  have hinit : PidsUnused (init table opened) := ⟨held_init table opened, by simp [init],
    by simp [init]⟩
  have h := Machine.run_invariant hstep hrun hinit
  refine ⟨h.calls, h.held.nodup, h.held.one, ?_,
    fun o signal failure e t hsignal => (signal_objects hsignal).1, ?_⟩
  · intro o options outcome e t hwait
    obtain ⟨popen, -, hcases⟩ := wait_cases hwait
    rcases hcases with ⟨-, -, rfl⟩ | ⟨-, call, -, -, ⟨-, rfl⟩ | ⟨-, status, -, hok, -⟩⟩
    · rfl
    · rfl
    · cases hok
  · intro o options outcome status t hwait hexited later u hlater halone
    have hlaterStep : ∀ s op t, HasExited s o status → LeavesAlone o op →
        popenStep s op = some t → HasExited t o status :=
      fun _ _ _ h halone hstep => h.apply halone (popenStep_iff.mp hstep).2
    have hu := Machine.run_invariant_along hlaterStep hlater
      (Machine.along_of_forall_mem fun _ => halone) (HasExited.of_wait h hwait hexited)
    refine ⟨hu.wait_eq, ?_, hu.signal_eq⟩
    obtain ⟨popen, hpopen, -, rfl⟩ := hu
    rw [hpopen, Option.map_some]

/-- A child that gets a signal and is still running when it is polled. -/
def signalAndPoll : List PopenOp :=
  [.construct {} (callsFor 100), .signal 0 15 none, .poll 0 .stillRunning]

theorem reaped_pid_not_used_again_killed : ∃ s t u,
    popenStep.run (init standardParent.table 3) signalAndPoll = some s ∧
    s.wait 0 WEXITED (.exited 15 CLD_KILLED) = some (.ok ⟨15, true, false, true, false⟩, t) ∧
    popenStep.run t [.defaultConstruct, .wait 0 .stillRunning] = some u ∧
    s.calls.length = 2 ∧ u.calls.length = 3 ∧
    u.signal 0 15 none = some (.error .pidNotSet, u) := by
  obtain ⟨s, hs⟩ : ∃ s, popenStep.run (init standardParent.table 3) signalAndPoll = some s :=
    ⟨_, rfl⟩
  have h := (reaped_pid_not_used_again _ _ hs).2.2.2.2.2
  obtain rfl := Option.some.inj hs
  have hsignal := (h 0 WEXITED (.exited 15 CLD_KILLED) _ _ rfl rfl
    [.defaultConstruct, .wait 0 .stillRunning] _ rfl (by simp [LeavesAlone])).2.2 15 none
  exact ⟨_, _, _, rfl, rfl, rfl, rfl, rfl, hsignal⟩

end Linuxpp.Subprocess
