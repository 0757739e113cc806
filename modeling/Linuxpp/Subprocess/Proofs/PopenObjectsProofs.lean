import Mathlib.Data.List.Nodup
import Linuxpp.Foundations.Slots
import Linuxpp.Subprocess.PopenObjects
import Linuxpp.Subprocess.Proofs.ChildStreamsProofs
import Linuxpp.Subprocess.Proofs.PopenFailureProofs

/-!
# Proofs: `popen` objects and their children

Every operation is described by what it does to a ledger: the pids that it hands to an object, those
that it reaps, and those that it loses. Only a move assignment loses one.
-/

namespace Linuxpp.Subprocess

section Clone

variable {streams : Streams} {calls : SystemCalls} {p p' : Process} {popen : Popen}

theorem openStreams_children (streams : Streams) (calls : SystemCalls) (p : Process) :
    (openStreams streams calls p).2.children = p.children := by
  rw [openStreams_snd]
  exact (openAll_keeps _ p).children

/-- A constructor that does not throw has the new child. -/
theorem clone_ok_children (h : clone streams calls p = (.ok popen, p')) :
    calls.clone = .ok popen.pid ∧ p'.children = popen.pid :: p.children := by
  have hopens := openStreams_children streams calls p
  unfold clone at h
  generalize openStreams streams calls p = opened at h hopens
  obtain ⟨_ | d, p₁⟩ := opened
  · cases h
  · dsimp only at h hopens
    cases hclone : calls.clone with
    | error errno =>
      rw [hclone] at h
      cases h
    | ok pid =>
      rw [hclone] at h
      dsimp only at h
      cases hstatus : childStatus d calls p₁.table with
      | some execStatus =>
        rw [hstatus] at h
        cases h
      | none =>
        rw [hstatus] at h
        obtain ⟨hpopen, rfl⟩ := Prod.mk.inj h
        obtain rfl := Except.ok.inj hpopen
        exact ⟨rfl, congrArg (pid :: ·) hopens⟩

/-- A constructor that throws leaves the children, and at most one that could not be waited for. -/
theorem clone_error_children {e : PopenError} (h : clone streams calls p = (.error e, p')) :
    p'.children = p.children ∨
      ∃ pid, calls.clone = .ok pid ∧ p'.children = pid :: p.children := by
  have hopens := openStreams_children streams calls p
  unfold clone at h
  generalize openStreams streams calls p = opened at h hopens
  obtain ⟨_ | d, p₁⟩ := opened
  · obtain ⟨-, rfl⟩ := Prod.mk.inj h
    exact Or.inl hopens
  · dsimp only at h hopens
    cases hclone : calls.clone with
    | error errno =>
      rw [hclone] at h
      obtain ⟨-, rfl⟩ := Prod.mk.inj h
      exact Or.inl hopens
    | ok pid =>
      rw [hclone] at h
      dsimp only at h
      cases hstatus : childStatus d calls p₁.table with
      | none =>
        rw [hstatus] at h
        cases h
      | some execStatus =>
        rw [hstatus] at h
        obtain ⟨-, rfl⟩ := Prod.mk.inj h
        cases calls.waitid with
        | some errno => exact Or.inr ⟨pid, rfl, congrArg (pid :: ·) hopens⟩
        | none =>
          left
          show (pid :: p₁.children).erase pid = p.children
          rw [List.erase_cons_head, hopens]

end Clone

namespace Process

variable {p : Process} {pid : Int}

theorem mem_pids : pid ∈ p.pids ↔ ∃ child ∈ p.children, (child : Int) = pid := List.mem_map

theorem pids_nodup : p.pids.Nodup ↔ p.children.Nodup :=
  List.nodup_map_iff fun _ _ h => Int.ofNat_inj.mp h

end Process

/-- A status made from `siginfo` is that of a child that has exited. -/
theorem Status.ofSiginfo_ok (siginfo : Siginfo) (h : siginfo.siPid ≠ 0) :
    ∃ status, Status.ofSiginfo siginfo = .ok status ∧ status.exited = true := by
  unfold Status.ofSiginfo
  rw [if_neg h]
  exact ⟨_, rfl, rfl⟩

namespace PopenObject

variable {popen : PopenObject}

theorem wait_of_not_hasPid (h : popen.hasPid = false) (o : WaitidOutcome) :
    popen.wait o = (.ok popen.status, popen) := by
  unfold wait
  rw [if_pos (by simp [h])]

/-- When the child has exited, the pid is given up and the status is kept. -/
theorem wait_exited (h : popen.hasPid = true) (hpos : 0 < popen.pid.get) (siStatus siCode : Int) :
    ∃ status : Status, status.exited = true ∧ popen.wait (.exited siStatus siCode) =
      (.ok status, { popen with pid := {}, status := status }) := by
  have hne : popen.pid.get ≠ 0 := by omega
  obtain ⟨status, hstatus, hexited⟩ :=
    Status.ofSiginfo_ok ⟨popen.pid.get, siStatus, siCode⟩ hne
  refine ⟨status, hexited, ?_⟩
  unfold wait
  rw [if_neg (not_not_intro h)]
  simp only [Subprocess.waitid, WaitidOutcome.siginfo, hne, ne_eq, not_false_eq_true, decide_true,
    hstatus]
  rfl

theorem wait_stillRunning (h : popen.hasPid = true) :
    popen.wait .stillRunning = (.ok popen.status, popen) := by
  unfold wait
  rw [if_neg (not_not_intro h)]
  rfl

theorem wait_fails (h : popen.hasPid = true) (errno : Errno) :
    popen.wait (.fails errno) = (.error (.waitidFailed errno), popen) := by
  unfold wait
  rw [if_neg (not_not_intro h)]
  rfl

end PopenObject

namespace PopenObjects

variable {s t : PopenObjects} {o : ℕ} {popen : PopenObject} {pid : Int}

theorem object?_eq_some : s.object? o = some popen ↔ s.objects[o]? = some (some popen) := by
  simp [object?, Option.join_eq_some_iff]

theorem holders_get (h : s.object? o = some popen) : s.holders[o]? = some (some popen.pid) := by
  rw [holders, List.getElem?_map, object?_eq_some.mp h]
  rfl

theorem owners_pos_iff : 0 < s.owners pid ↔ some (⟨pid⟩ : Pid) ∈ s.holders := List.count_pos_iff

theorem count_pids (hpid : pid ≠ invalidPid) (popen : PopenObject) :
    popen.pids.count pid = if popen.pid = ⟨pid⟩ then 1 else 0 := by
  obtain ⟨⟨pid'⟩, -, -, -, -⟩ := popen
  unfold PopenObject.pids PopenObject.hasPid IntDescriptor.get
  by_cases heq : pid' = pid
  · subst heq
    simp [hpid]
  · by_cases hinvalid : pid' = invalidPid
    · simp [hinvalid, hpid.symm]
    · simp [heq, hinvalid]

/-- What an operation does: the pids that it hands to a new object, those that it reaps, and those
that it takes from an object and drops. -/
structure Ledger (s t : PopenObjects) (new reaped lost : List Int) : Prop where
  owned : ∀ pid, pid ≠ invalidPid →
    t.owners pid + reaped.count pid + lost.count pid = s.owners pid + new.count pid
  starts : t.started = s.started ++ new
  reaps : t.reaped = s.reaped ++ reaped
  fresh : ∀ pid ∈ new, pid ∉ s.process.pids
  one : new.length ≤ 1
  news : new ⊆ t.process.pids
  kept : ∀ pid ∈ s.process.pids, pid ∉ reaped → pid ∈ t.process.pids
  nodup : s.process.pids.Nodup → t.process.pids.Nodup

/-- The pids that an operation drops: the one of the target of a move assignment. -/
def lost (s : PopenObjects) : PopenOp → List Int
  | .moveAssign dst _ => ((s.object? dst).map PopenObject.pids).getD []
  | _ => []

/-- An operation that only moves pids between objects, or drops them. -/
theorem Ledger.of_frame {lost : List Int} (hchildren : t.process.children = s.process.children)
    (hstarted : t.started = s.started) (hreaped : t.reaped = s.reaped)
    (howned : ∀ pid, pid ≠ invalidPid → t.owners pid + lost.count pid = s.owners pid) :
    Ledger s t [] [] lost where
  owned := fun pid hpid => howned pid hpid
  starts := hstarted.trans (List.append_nil _).symm
  reaps := hreaped.trans (List.append_nil _).symm
  fresh := by simp
  one := by simp
  news := by simp
  kept := fun pid hmem _ => by rwa [Process.pids, hchildren]
  nodup := fun hnodup => by rwa [Process.pids, hchildren]

theorem blank_ne (hpid : pid ≠ invalidPid) : ({} : Pid) ≠ ⟨pid⟩ := by
  intro heq
  exact hpid (congrArg IntDescriptor.get heq).symm

/-- The owners of a pid after the object `o` was overwritten. -/
theorem count_set_object (h : s.object? o = some popen) (popen' : PopenObject) (pid : Int) :
    ((s.objects.set o (some popen')).map (Option.map PopenObject.pid)).count (some ⟨pid⟩) +
        (if popen.pid = ⟨pid⟩ then 1 else 0) =
      s.owners pid + (if popen'.pid = ⟨pid⟩ then 1 else 0) := by
  have hset := Slots.count_set_add_of_get (holders_get h) (some (⟨pid⟩ : Pid)) (some popen'.pid)
  simpa only [List.map_set, holders, owners, Option.map_some, beq_iff_eq, Option.some.injEq] using
    hset

theorem count_append_object (s : PopenObjects) (popen : PopenObject) (pid : Int) :
    ((s.objects ++ [some popen]).map (Option.map PopenObject.pid)).count (some ⟨pid⟩) =
      s.owners pid + (if popen.pid = ⟨pid⟩ then 1 else 0) := by
  rw [List.map_append, List.count_append]
  simp only [holders, owners, List.map_cons, List.map_nil, List.count_singleton, Option.map_some,
    beq_iff_eq, Option.some.injEq]

/-- A self-assignment, too, loses the pid of its target. -/
theorem count_moveAssign {dst src : ℕ} {popen' left : PopenObject}
    (hdst : s.object? dst = some popen) (hsrc : s.object? src = some popen')
    (hleft : left.pid = {}) (hpid : pid ≠ invalidPid) :
    (((s.objects.set dst (some popen')).set src (some left)).map
        (Option.map PopenObject.pid)).count (some ⟨pid⟩) + popen.pids.count pid = s.owners pid := by
  have hmove := Slots.count_move (holders_get hdst) (holders_get hsrc)
    fun heq => blank_ne hpid (Option.some.inj heq)
  rw [count_pids hpid]
  simpa only [List.map_set, holders, owners, Option.map_some, hleft, beq_iff_eq,
    Option.some.injEq] using hmove

section Wait

variable {options : UInt32} {outcome : WaitidOutcome} {result : Except ChildError Status}

/-- `wait` reaps the child, or it leaves the object as it is. -/
theorem wait_cases (h : s.wait o options outcome = some (result, t)) :
    ∃ popen, s.object? o = some popen ∧
      ((popen.hasPid = false ∧ result = .ok popen.status ∧ t = s) ∨
      popen.hasPid = true ∧ ∃ call : ChildCall, call.pid = popen.pid.get ∧
        call.unreaped = s.process.pids ∧
        (((∃ e, result = .error e) ∨ result = .ok popen.status) ∧
            t = { s with calls := s.calls ++ [call] } ∨
          popen.pid.get ∈ s.process.pids ∧ ∃ status : Status, status.exited = true ∧
            result = .ok status ∧ t = { s with
              objects := s.objects.set o (some { popen with pid := {}, status := status })
              process := { s.process with
                children := s.process.children.erase popen.pid.get.toNat }
              reaped := s.reaped ++ [popen.pid.get]
              calls := s.calls ++ [call] })) := by
  obtain ⟨popen, hpopen, h⟩ := Option.bind_eq_some_iff.mp h
  refine ⟨popen, hpopen, ?_⟩
  have hsame : s.objects.set o (some popen) = s.objects :=
    Slots.set_of_get (object?_eq_some.mp hpopen)
  cases hhas : popen.hasPid with
  | false =>
    rw [PopenObject.wait_of_not_hasPid hhas] at h
    simp only [hhas, hsame, Bool.false_eq_true, not_false_eq_true, if_true, Option.some.injEq,
      Prod.mk.injEq] at h
    exact Or.inl ⟨rfl, h.1.symm, h.2.symm⟩
  | true =>
    refine Or.inr ⟨rfl, ⟨.waitid options, popen.pid.get, s.process.pids⟩, rfl, rfl, ?_⟩
    simp only [hhas, not_true_eq_false, if_false, Option.ite_none_right_eq_some,
      Option.some.injEq, Prod.mk.injEq] at h
    obtain ⟨hpossible, rfl, rfl⟩ := h
    cases outcome with
    | exited siStatus siCode =>
      obtain ⟨status, hexited, hwait⟩ := PopenObject.wait_exited hhas hpossible.1 siStatus siCode
      refine Or.inr ⟨hpossible.2, status, hexited, ?_, ?_⟩
      · rw [hwait]
      · rw [hwait]
        rfl
    | stillRunning =>
      rw [PopenObject.wait_stillRunning hhas]
      exact Or.inl ⟨Or.inr rfl, by simp only [hsame]; rfl⟩
    | fails errno =>
      rw [PopenObject.wait_fails hhas]
      exact Or.inl ⟨Or.inl ⟨_, rfl⟩, by simp only [hsame]; rfl⟩

theorem wait_terminated (h : s.wait o options outcome = some (result, t)) :
    t.terminated = s.terminated := by
  obtain ⟨popen, -, ⟨-, -, rfl⟩ | ⟨-, call, -, -, ⟨-, rfl⟩ | ⟨-, status, -, -, rfl⟩⟩⟩ :=
    wait_cases h
  all_goals rfl

end Wait

/-- What an operation requires and does. -/
inductive Applies (s : PopenObjects) : PopenOp → PopenObjects → Prop
  | construct (streams : Streams) {calls : SystemCalls} (hfresh : s.FreshPid calls) :
      Applies s (.construct streams calls) (s.construct streams calls)
  | defaultConstruct : Applies s .defaultConstruct { s with objects := s.objects ++ [some {}] }
  | moveConstruct {src : ℕ} {popen : PopenObject} (hsrc : s.object? src = some popen) :
      Applies s (.moveConstruct src)
        { s with objects := s.objects.set src (some {}) ++ [some popen] }
  | moveAssign {dst src : ℕ} {popen popen' left : PopenObject} (hdst : s.object? dst = some popen)
      (hsrc : s.object? src = some popen') (hleft : left.pid = {}) :
      Applies s (.moveAssign dst src)
        { s with objects := (s.objects.set dst (some popen')).set src (some left) }
  | swap {a b : ℕ} {popen popen' : PopenObject} (ha : s.object? a = some popen)
      (hb : s.object? b = some popen') : Applies s (.swap a b)
        { s with objects := (s.objects.set a (some popen')).set b (some popen) }
  | wait {o : ℕ} {outcome : WaitidOutcome} {result : Except ChildError Status} {t : PopenObjects}
      (hwait : s.wait o WEXITED outcome = some (result, t)) : Applies s (.wait o outcome) t
  | poll {o : ℕ} {outcome : WaitidOutcome} {result : Except ChildError Status} {t : PopenObjects}
      (hwait : s.wait o (WEXITED ||| WNOHANG) outcome = some (result, t)) :
      Applies s (.poll o outcome) t
  | signal {o : ℕ} {signal : Int} {failure : Option Errno} {popen : PopenObject}
      (hpopen : s.object? o = some popen) (hhas : popen.hasPid = true) :
      Applies s (.signal o signal failure)
        { s with calls := s.calls ++ [⟨.kill signal, popen.pid.get, s.process.pids⟩] }
  | signalNone {o : ℕ} {signal : Int} {failure : Option Errno} {popen : PopenObject}
      (hpopen : s.object? o = some popen) (hhas : popen.hasPid = false) :
      Applies s (.signal o signal failure) s
  | terminate {o : ℕ} {popen : PopenObject} (hpopen : s.object? o = some popen)
      (hhas : popen.hasPid = true) : Applies s (.destroy o) { s with terminated := true }
  | destroy {o : ℕ} {popen : PopenObject} (hpopen : s.object? o = some popen)
      (hhas : popen.hasPid = false) : Applies s (.destroy o) { s with
        objects := s.objects.set o none
        process := { s.process with
          table := popen.closes.foldl DescriptorTable.close s.process.table } }

theorem applies_of_apply {op : PopenOp} (h : s.apply op = some t) : Applies s op t := by
  cases op with
  | construct streams calls =>
    obtain ⟨hfresh, heq⟩ := Option.ite_none_right_eq_some.mp h
    obtain rfl := Option.some.inj heq
    exact .construct streams hfresh
  | defaultConstruct =>
    obtain rfl := Option.some.inj h
    exact .defaultConstruct
  | moveConstruct src =>
    obtain ⟨popen, hsrc, rfl⟩ := Option.map_eq_some_iff.mp h
    exact .moveConstruct hsrc
  | moveAssign dst src =>
    obtain ⟨popen, hdst, h⟩ := Option.bind_eq_some_iff.mp h
    obtain ⟨popen', hsrc, rfl⟩ := Option.map_eq_some_iff.mp h
    exact .moveAssign hdst hsrc rfl
  | swap a b =>
    obtain ⟨popen, ha, h⟩ := Option.bind_eq_some_iff.mp h
    obtain ⟨popen', hb, rfl⟩ := Option.map_eq_some_iff.mp h
    exact .swap ha hb
  | wait o outcome =>
    obtain ⟨⟨result, t'⟩, hwait, rfl⟩ := Option.map_eq_some_iff.mp h
    exact .wait hwait
  | poll o outcome =>
    obtain ⟨⟨result, t'⟩, hwait, rfl⟩ := Option.map_eq_some_iff.mp h
    exact .poll hwait
  | signal o signal failure =>
    obtain ⟨⟨result, t'⟩, hsignal, rfl⟩ := Option.map_eq_some_iff.mp h
    obtain ⟨popen, hpopen, hsignal⟩ := Option.map_eq_some_iff.mp hsignal
    obtain rfl := (Prod.mk.inj hsignal).2
    dsimp only
    split_ifs with hhas
    · exact .signal hpopen hhas
    · exact .signalNone hpopen (Bool.not_eq_true _ ▸ hhas)
  | destroy o =>
    obtain ⟨popen, hpopen, rfl⟩ := Option.map_eq_some_iff.mp h
    split_ifs with hhas
    · exact .terminate hpopen hhas
    · exact .destroy hpopen (Bool.not_eq_true _ ▸ hhas)

section Steps

/-- A constructor that throws leaves the objects. A child that it leaves behind belongs to none. -/
theorem Ledger.construct_error {streams : Streams} {calls : SystemCalls} {e : PopenError}
    {p : Process} (hclone : clone streams calls s.process = (.error e, p))
    (hfresh : s.FreshPid calls) (hobjects : t.objects = s.objects)
    (hstarted : t.started = s.started) (hreaped : t.reaped = s.reaped) (hprocess : t.process = p) :
    Ledger s t [] [] [] := by
  have hchildren := clone_error_children hclone
  constructor
  case owned =>
    intro pid _
    simp only [owners, holders, hobjects, List.count_nil, Nat.add_zero]
  case starts => rw [hstarted, List.append_nil]
  case reaps => rw [hreaped, List.append_nil]
  case kept =>
    intro pid hpid _
    rw [hprocess]
    rw [Process.mem_pids] at hpid ⊢
    obtain ⟨child, hchild, rfl⟩ := hpid
    refine ⟨child, ?_, rfl⟩
    rcases hchildren with h | ⟨pid, -, h⟩
    · rwa [h]
    · rw [h]
      exact List.mem_cons_of_mem _ hchild
  case nodup =>
    intro hnodup
    rw [hprocess]
    rw [Process.pids_nodup] at hnodup ⊢
    rcases hchildren with h | ⟨pid, hpid, h⟩
    · rwa [h]
    · rw [h]
      exact List.nodup_cons.mpr ⟨(hfresh pid (by rw [hpid]; rfl)).2, hnodup⟩
  all_goals simp

/-- A constructor that does not throw hands the new pid to one object. -/
theorem Ledger.construct (streams : Streams) {calls : SystemCalls} (hfresh : s.FreshPid calls) :
    ∃ new, Ledger s (s.construct streams calls) new [] [] := by
  unfold PopenObjects.construct
  rcases hclone : clone streams calls s.process with ⟨e | popen, p⟩
  · refine ⟨[], ?_⟩
    cases e <;> exact .construct_error hclone hfresh rfl rfl rfl rfl
  · obtain ⟨hpid, hchildren⟩ := clone_ok_children hclone
    have hnew := (hfresh popen.pid (by rw [hpid]; rfl)).2
    have hpids : p.pids = (popen.pid : Int) :: s.process.pids := by
      rw [Process.pids, hchildren, List.map_cons, Process.pids]
    refine ⟨[(popen.pid : Int)], ?_, rfl, (List.append_nil _).symm, ?_, by simp, ?_, ?_, ?_⟩
    · intro pid hvalid
      have happend := count_append_object s (.ofPopen popen) pid
      have hone : (if (PopenObject.ofPopen popen).pid = ⟨pid⟩ then 1 else 0) =
          [(popen.pid : Int)].count pid := by
        rw [List.count_singleton]
        simp [PopenObject.ofPopen]
      rw [hone] at happend
      exact happend
    · intro pid hmem
      rw [List.mem_singleton.mp hmem, Process.mem_pids]
      rintro ⟨child, hchild, heq⟩
      exact hnew (Int.ofNat_inj.mp heq ▸ hchild)
    · intro pid hmem
      show pid ∈ p.pids
      rw [List.mem_singleton.mp hmem, hpids]
      exact List.mem_cons_self
    · intro pid hmem _
      show pid ∈ p.pids
      rw [hpids]
      exact List.mem_cons_of_mem _ hmem
    · intro hnodup
      show p.pids.Nodup
      rw [Process.pids_nodup] at hnodup ⊢
      rw [hchildren]
      exact List.nodup_cons.mpr ⟨hnew, hnodup⟩

/-- `wait` and `poll` reap the child of the object, or nothing. -/
theorem Ledger.wait {options : UInt32} {outcome : WaitidOutcome}
    {result : Except ChildError Status} (h : s.wait o options outcome = some (result, t)) :
    ∃ reaped, Ledger s t [] reaped [] := by
  obtain ⟨popen, hpopen, ⟨-, -, rfl⟩ | ⟨hhas, call, -, -, ⟨-, rfl⟩ | ⟨hchild, status, -, -,
    rfl⟩⟩⟩ := wait_cases h
  · exact ⟨[], Ledger.of_frame rfl rfl rfl fun _ _ => rfl⟩
  · exact ⟨[], Ledger.of_frame rfl rfl rfl fun _ _ => rfl⟩
  · refine ⟨[popen.pid.get], ?_, (List.append_nil _).symm, rfl, by simp, by simp, by simp, ?_, ?_⟩
    · intro pid hvalid
      have hset := count_set_object hpopen { popen with pid := {}, status := status } pid
      have hone : (if popen.pid = ⟨pid⟩ then 1 else 0) = [popen.pid.get].count pid := by
        rw [← count_pids hvalid, PopenObject.pids, if_pos hhas]
      rw [hone, if_neg (blank_ne hvalid)] at hset
      exact hset
    · intro pid hpid hne
      rw [Process.mem_pids] at hpid hchild ⊢
      obtain ⟨child, hmem, rfl⟩ := hpid
      obtain ⟨reaped, -, hreaped⟩ := hchild
      refine ⟨child, (List.mem_erase_of_ne ?_).mpr hmem, rfl⟩
      rw [List.mem_singleton] at hne
      omega
    · intro hnodup
      rw [Process.pids_nodup] at hnodup ⊢
      exact hnodup.erase _

theorem popenStep_iff {op : PopenOp} :
    popenStep s op = some t ↔ s.terminated = false ∧ s.apply op = some t := by
  unfold popenStep
  cases s.terminated <;> simp

/-- **One step.** An operation changes the ledger by the pid that it hands out, the one that it
reaps and the ones that it loses. -/
theorem Ledger.apply {op : PopenOp} (h : s.apply op = some t) :
    ∃ new reaped, Ledger s t new reaped (s.lost op) := by
  cases applies_of_apply h with
  | construct streams hfresh =>
    obtain ⟨new, hledger⟩ := Ledger.construct streams hfresh
    exact ⟨new, [], hledger⟩
  | defaultConstruct =>
    refine ⟨[], [], Ledger.of_frame rfl rfl rfl fun pid hpid => ?_⟩
    have happend := count_append_object s {} pid
    rw [if_neg (blank_ne hpid)] at happend
    exact happend
  | @moveConstruct src popen hsrc =>
    refine ⟨[], [], Ledger.of_frame rfl rfl rfl fun pid hpid => ?_⟩
    have hset := count_set_object hsrc {} pid
    rw [if_neg (blank_ne hpid)] at hset
    have happend := count_append_object { s with objects := s.objects.set src (some {}) } popen pid
    exact happend.trans hset
  | @moveAssign dst src popen popen' left hdst hsrc hleft =>
    refine ⟨[], [], Ledger.of_frame rfl rfl rfl fun pid hpid => ?_⟩
    have hlost : s.lost (.moveAssign dst src) = popen.pids := by simp [lost, hdst]
    rw [hlost]
    exact count_moveAssign hdst hsrc hleft hpid
  | swap ha hb =>
    refine ⟨[], [], Ledger.of_frame rfl rfl rfl fun pid hpid => ?_⟩
    have hswap := Slots.count_exchange (holders_get ha) (holders_get hb) (some (⟨pid⟩ : Pid))
    simpa [List.map_set, holders, owners, lost] using hswap
  | wait hwait =>
    obtain ⟨reaped, hledger⟩ := Ledger.wait hwait
    exact ⟨[], reaped, hledger⟩
  | poll hwait =>
    obtain ⟨reaped, hledger⟩ := Ledger.wait hwait
    exact ⟨[], reaped, hledger⟩
  | signal | signalNone | terminate =>
    exact ⟨[], [], Ledger.of_frame rfl rfl rfl fun _ _ => rfl⟩
  | @destroy o popen hpopen hhas =>
    refine ⟨[], [], Ledger.of_frame rfl rfl rfl fun pid hpid => ?_⟩
    have hset := Slots.count_set_add_of_get (holders_get hpopen) (some (⟨pid⟩ : Pid)) none
    have hcount := count_pids hpid popen
    rw [PopenObject.pids, if_neg (by simp [hhas])] at hcount
    have hne : ¬ popen.pid = ⟨pid⟩ := by
      intro heq
      rw [if_pos heq] at hcount
      cases hcount
    simpa [List.map_set, holders, owners, lost, hne] using hset

end Steps

/-- A pid that an object holds is that of a child that was not waited for, and no other object holds
it. -/
structure Held (s : PopenObjects) : Prop where
  one : ∀ pid, pid ≠ invalidPid → s.owners pid ≤ 1
  child : ∀ pid, pid ≠ invalidPid → 0 < s.owners pid → pid ∈ s.process.pids
  nodup : s.process.pids.Nodup

/-- The ledger of an operation keeps this, whatever is lost. -/
theorem Held.of_ledger (h : Held s) {new reaped lost : List Int}
    (hledger : Ledger s t new reaped lost) : Held t := by
  refine ⟨?_, ?_, hledger.nodup h.nodup⟩
  · intro pid hpid
    have howned := hledger.owned pid hpid
    have hone := h.one pid hpid
    by_cases hnew : pid ∈ new
    · have hnone : s.owners pid = 0 := by
        by_contra hpos
        exact hledger.fresh pid hnew (h.child pid hpid (Nat.pos_of_ne_zero hpos))
      have hcount : new.count pid ≤ new.length := List.count_le_length
      have hlen := hledger.one
      omega
    · have hcount : new.count pid = 0 := List.count_eq_zero.mpr hnew
      omega
  · intro pid hpid hpos
    have howned := hledger.owned pid hpid
    have hone := h.one pid hpid
    by_cases hnew : pid ∈ new
    · exact hledger.news hnew
    · have hcount : new.count pid = 0 := List.count_eq_zero.mpr hnew
      -- its one owner has kept it, so it was not reaped
      have hnot : pid ∉ reaped := by
        intro hreaped
        have hpos' : 0 < reaped.count pid := List.count_pos_iff.mpr hreaped
        omega
      exact hledger.kept pid (h.child pid hpid (by omega)) hnot

theorem Held.step {op : PopenOp} (h : Held s) (hstep : popenStep s op = some t) : Held t := by
  obtain ⟨-, happly⟩ := popenStep_iff.mp hstep
  obtain ⟨new, reaped, hledger⟩ := Ledger.apply happly
  exact h.of_ledger hledger

/-- Only a destructor ends the program. -/
theorem apply_terminated {op : PopenOp} (h : s.apply op = some t) (hop : ∀ o, op ≠ .destroy o) :
    t.terminated = s.terminated := by
  cases applies_of_apply h with
  | construct streams hfresh =>
    unfold PopenObjects.construct
    split <;> rfl
  | wait hwait | poll hwait => exact wait_terminated hwait
  | terminate | destroy => exact absurd rfl (hop _)
  | _ => rfl

theorem lost_eq_nil_iff {op : PopenOp} :
    (∀ pid, pid ≠ invalidPid → (s.lost op).count pid = 0) ↔ NotOntoChild s op := by
  constructor
  · rintro h dst src popen rfl hdst
    by_contra hhas
    rw [Bool.not_eq_false] at hhas
    have hpid : popen.pid.get ≠ invalidPid := of_decide_eq_true hhas
    have hnone := h popen.pid.get hpid
    simp [lost, hdst, PopenObject.pids, hhas] at hnone
  · intro h pid hpid
    cases op with
    | moveAssign dst src =>
      cases hdst : s.object? dst with
      | none => simp [lost, hdst]
      | some popen =>
        have hhas := h dst src popen rfl hdst
        simp [lost, hdst, PopenObject.pids, hhas]
    | _ => rfl

/-- **Step lemma.** An operation keeps the children exactly when it is not a move assignment onto an
object that holds a pid. -/
theorem childrenKept_step {op : PopenOp} (hheld : Held s) (h : ChildrenKept s)
    (hstep : popenStep s op = some t) : ChildrenKept t ↔ NotOntoChild s op := by
  obtain ⟨hterminated, happly⟩ := popenStep_iff.mp hstep
  obtain ⟨new, reaped, hledger⟩ := Ledger.apply happly
  have hheld' := hheld.of_ledger hledger
  have haccount := h.resolve_left (by simp [hterminated])
  by_cases hdestroy : ∃ o, op = .destroy o
  · obtain ⟨o, rfl⟩ := hdestroy
    refine iff_of_true ?_ (by simp [NotOntoChild])
    right
    intro pid hpid
    have howned := hledger.owned pid hpid
    have hacc := (haccount pid hpid).2
    refine ⟨hheld'.one pid hpid, ?_⟩
    rw [hledger.starts, hledger.reaps, List.count_append, List.count_append]
    simp only [lost, List.count_nil] at howned
    omega
  · have ht : t.terminated = false := by
      rw [apply_terminated happly (fun o ho => hdestroy ⟨o, ho⟩), hterminated]
    rw [← lost_eq_nil_iff]
    unfold ChildrenKept
    rw [ht, or_iff_right Bool.false_ne_true, hledger.starts, hledger.reaps]
    simp only [List.count_append]
    refine forall₂_congr fun pid hpid => ?_
    have howned := hledger.owned pid hpid
    have hacc := (haccount pid hpid).2
    have hone := hheld'.one pid hpid
    omega

end PopenObjects

/-- The program before its first `popen` object. -/
def PopenObjects.init (table : FdTable) (opened : ℕ) : PopenObjects where
  process := { table := table, opened := opened }

open PopenObjects

theorem held_init (table : FdTable) (opened : ℕ) : Held (init table opened) :=
  ⟨fun _ _ => by simp [init, owners, holders], fun _ _ h => by simp [init, owners, holders] at h,
    List.nodup_nil⟩

/-- **Children.** Every child is held by one object or was reaped, all along a run, exactly when no
operation of the run is a move assignment onto an object that holds a pid. -/
theorem children_kept_iff_no_assign_onto_child (table : FdTable) (opened : ℕ) (ops : List PopenOp)
    {s : PopenObjects} (hrun : popenStep.run (init table opened) ops = some s) :
    popenStep.Throughout ChildrenKept (init table opened) ops ↔
      popenStep.Along NotOntoChild (init table opened) ops := by
  have hinv : ∀ s op t, Held s → popenStep s op = some t → Held t := fun _ _ _ h => h.step
  have hstep : ∀ s op t, Held s → ChildrenKept s → popenStep s op = some t →
      (ChildrenKept t ↔ NotOntoChild s op) := fun _ _ _ => childrenKept_step
  refine Machine.throughout_iff_along_of_invariant hinv hstep hrun (held_init table opened) ?_
  exact Or.inr fun pid _ => by simp [init, owners, holders]

/-- Every system call succeeds, and the new child has this pid. -/
def callsFor (pid : ℕ) : SystemCalls := { succeedingCalls with clone := .ok pid }

/-- An object of a vector gets a child from a temporary object, which is destroyed; the child is
polled and waited for. -/
def assignedFromTemporary : List PopenOp :=
  [.defaultConstruct, .construct {} (callsFor 100), .moveAssign 0 1, .destroy 1,
    .poll 0 .stillRunning, .wait 0 (.exited 3 CLD_EXITED), .destroy 0]

theorem children_kept_iff_no_assign_onto_child_vector :
    popenStep.Throughout ChildrenKept (init standardParent.table 3) assignedFromTemporary := by
  refine (children_kept_iff_no_assign_onto_child _ _ _ rfl).mpr ?_
  refine ⟨by simp [NotOntoChild], fun s hs => ⟨by simp [NotOntoChild], fun s' hs' => ⟨?_,
    fun _ _ => Machine.along_of_forall_mem (by simp [NotOntoChild])⟩⟩⟩
  obtain rfl := Option.some.inj hs
  obtain rfl := Option.some.inj hs'
  intro dst src popen hop hdst
  obtain ⟨rfl, rfl⟩ := PopenOp.moveAssign.inj hop
  -- the target was made by the default constructor
  obtain rfl := Option.some.inj hdst
  rfl

/-- The running child of the first object is neither held nor reaped once the second object is moved
over it; the objects are destroyed without `std::terminate`. -/
theorem assign_onto_child_loses_it : ∃ s,
    popenStep.run (init standardParent.table 3) [.construct {} (callsFor 100), .defaultConstruct,
      .moveAssign 0 1, .destroy 0, .destroy 1] = some s ∧
    s.terminated = false ∧ s.process.pids = [100] ∧ s.started = [100] ∧ s.reaped = [] ∧
    s.owners 100 = 0 ∧ ¬ ChildrenKept s := by
  refine ⟨_, rfl, rfl, rfl, rfl, rfl, rfl, ?_⟩
  rintro (hterminated | hkept)
  · exact Bool.false_ne_true hterminated
  · exact absurd (hkept 100 (by decide)).2 (by decide)

end Linuxpp.Subprocess
