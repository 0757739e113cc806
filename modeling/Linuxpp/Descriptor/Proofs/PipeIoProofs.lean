import Linuxpp.Descriptor.PipeIo
import Mathlib.Tactic.Basic

/-!
# Proofs: which results of a pipe's reads and writes tell what the call did

The results take whatever `errno` holds. A failed call sets it, so that the failure is reported; a
call that succeeds is reported as a failure unless `errno` was zero before it.
-/

namespace Linuxpp

section Outcome

variable {o : IoOutcome} {errno : ℤ}

@[simp] theorem ret_fails (e : Errno) : (IoOutcome.fails e).ret = -1 := rfl

@[simp] theorem ret_transfers (n : ℕ) : (IoOutcome.transfers n).ret = n := rfl

@[simp] theorem errnoAfter_fails (e : Errno) : (IoOutcome.fails e).errnoAfter errno = e.value := rfl

@[simp] theorem errnoAfter_transfers (n : ℕ) :
    (IoOutcome.transfers n).errnoAfter errno = errno := rfl

/-- The count that a call returns is never taken for a failure. -/
theorem ret_eq_neg_one_iff : o.ret = -1 ↔ o.IsFailure := by
  cases o with
  | fails e => exact ⟨fun _ => trivial, fun _ => rfl⟩
  | transfers n =>
    have hn : (n : ℤ) ≠ -1 := by omega
    exact ⟨fun h => absurd h hn, False.elim⟩

theorem errnoAfter_ne_zero (h : o.IsFailure) : o.errnoAfter errno ≠ 0 := by
  cases o with
  | fails e =>
    have hpos := e.pos
    show (e.value : ℤ) ≠ 0
    omega
  | transfers n => exact absurd h id

/-- `errno` is zero behind a call exactly if the call left the zero there. -/
theorem errnoAfter_eq_zero_iff : o.errnoAfter errno = 0 ↔ ¬ o.IsFailure ∧ errno = 0 := by
  by_cases h : o.IsFailure
  · have hne : o.errnoAfter errno ≠ 0 := errnoAfter_ne_zero h
    exact ⟨fun h0 => absurd h0 hne, fun h0 => absurd h h0.1⟩
  · cases o with
    | fails e => exact absurd trivial h
    | transfers n => exact ⟨fun h0 => ⟨h, h0⟩, fun h0 => h0.2⟩

end Outcome

section Calls

variable {B : Type} {call : IoCall B} {fd : Int} {buf : B} {size : ℕ} {errno : ℤ}
  {what what' : String}

theorem callThrowing_of_ne_zero (h : (call fd buf size).errnoAfter errno ≠ 0) :
    Pipe.callThrowing call what fd buf size errno =
      (.error ⟨(call fd buf size).errnoAfter errno, what⟩, (call fd buf size).errnoAfter errno) := by
  have hgood : ¬ (Pipe.callNothrow call fd buf size errno).1.good = true := by
    rw [SyscallReturn.good_eq_true]
    exact h
  show (if (Pipe.callNothrow call fd buf size errno).1.good = true then _ else _) = _
  rw [if_neg hgood]

theorem callThrowing_of_eq_zero (h : (call fd buf size).errnoAfter errno = 0) :
    Pipe.callThrowing call what fd buf size errno =
      (.ok (toSize (call fd buf size).ret), (call fd buf size).errnoAfter errno) := by
  have hgood : (Pipe.callNothrow call fd buf size errno).1.good = true := by
    rw [SyscallReturn.good_eq_true]
    exact h
  show (if (Pipe.callNothrow call fd buf size errno).1.good = true then _ else _) = _
  rw [if_pos hgood]

/-- Both forms of a call tell what it did if it fails or `errno` was zero before it, and only
then. -/
theorem toldApart_iff :
    ToldApart (call fd buf size) (Pipe.callNothrow call fd buf size errno).1
      (Pipe.callThrowing call what fd buf size errno).1 (fdCall call what' fd buf size errno).1 ↔
      (call fd buf size).IsFailure ∨ errno = 0 := by
  by_cases hfail : (call fd buf size).IsFailure
  · have hne : (call fd buf size).errnoAfter errno ≠ 0 := errnoAfter_ne_zero hfail
    have hret := ret_eq_neg_one_iff.mpr hfail
    refine ⟨fun _ => Or.inl hfail, fun _ => ⟨?_, rfl, ?_, ?_⟩⟩
    · rw [SyscallReturn.good_eq_true]
      exact ⟨fun h => absurd h hne, fun h => absurd hret h⟩
    · rw [callThrowing_of_ne_zero hne]
      exact ⟨fun _ => hret, fun _ => ⟨_, rfl⟩⟩
    · rw [callThrowing_of_ne_zero hne, fdCall, if_pos hret]
      rfl
  · have hret : (call fd buf size).ret ≠ -1 := fun h => hfail (ret_eq_neg_one_iff.mp h)
    constructor
    · intro h
      have h0 := SyscallReturn.good_eq_true.mp (h.good.mpr hret)
      exact Or.inr (errnoAfter_eq_zero_iff.mp h0).2
    · intro h
      have h0 : (call fd buf size).errnoAfter errno = 0 :=
        errnoAfter_eq_zero_iff.mpr ⟨hfail, h.resolve_left hfail⟩
      refine ⟨?_, rfl, ?_, ?_⟩
      · rw [SyscallReturn.good_eq_true]
        exact ⟨fun _ => hret, fun _ => h0⟩
      · rw [callThrowing_of_eq_zero h0]
        exact ⟨fun ⟨e, he⟩ => absurd he (by simp), fun h => absurd h hret⟩
      · rw [callThrowing_of_eq_zero h0, fdCall, if_neg hret]

/-- The `std::nothrow` write of a pipe is that of its descriptor in the same cases. -/
theorem writeNothrow_eq_iff (p : Pipe) :
    p.writeNothrow call buf size errno = writeNothrow call p.writeFd.get buf size errno ↔
      (call p.writeFd.get buf size).IsFailure ∨ errno = 0 := by
  unfold writeNothrow Pipe.writeNothrow Pipe.callNothrow
  by_cases hfail : (call p.writeFd.get buf size).IsFailure
  · rw [if_pos (ret_eq_neg_one_iff.mpr hfail)]
    exact ⟨fun _ => Or.inl hfail, fun _ => rfl⟩
  · have hret : (call p.writeFd.get buf size).ret ≠ -1 :=
      fun h => hfail (ret_eq_neg_one_iff.mp h)
    rw [if_neg hret]
    constructor
    · intro h
      have h0 := congrArg (fun r => r.1.errnoValue) h
      exact Or.inr (errnoAfter_eq_zero_iff.mp h0).2
    · intro h
      have h0 : (call p.writeFd.get buf size).errnoAfter errno = 0 :=
        errnoAfter_eq_zero_iff.mpr ⟨hfail, h.resolve_left hfail⟩
      simp [h0, SyscallReturn.ofReturnValue]

/-- Whatever the form, only the call itself sets `errno`. -/
theorem callThrowing_errno :
    (Pipe.callThrowing call what fd buf size errno).2 = (call fd buf size).errnoAfter errno := by
  by_cases h : (call fd buf size).errnoAfter errno = 0
  · rw [callThrowing_of_eq_zero h]
  · rw [callThrowing_of_ne_zero h]

theorem fdCall_errno :
    (fdCall call what fd buf size errno).2 = (call fd buf size).errnoAfter errno := by
  unfold fdCall
  by_cases h : (call fd buf size).ret = -1
  · rw [if_pos h]
  · rw [if_neg h]

end Calls

section Runs

theorem errnoAfterCalls_cons (errno : ℤ) (o : IoOutcome) (calls : List IoOutcome) :
    errnoAfterCalls errno (o :: calls) = errnoAfterCalls (o.errnoAfter errno) calls := rfl

/-- No call takes back what is in `errno`. -/
theorem errnoAfterCalls_ne_zero_of_ne_zero {errno : ℤ} {calls : List IoOutcome} (h : errno ≠ 0) :
    errnoAfterCalls errno calls ≠ 0 := by
  induction calls generalizing errno with
  | nil => exact h
  | cons o calls ih =>
    rw [errnoAfterCalls_cons]
    exact ih fun h0 => h (errnoAfter_eq_zero_iff.mp h0).2

theorem errnoAfterCalls_ne_zero {errno : ℤ} {calls : List IoOutcome}
    (h : ∃ o ∈ calls, o.IsFailure) : errnoAfterCalls errno calls ≠ 0 := by
  obtain ⟨o, ho, hfail⟩ := h
  obtain ⟨before, after, rfl⟩ := List.append_of_mem ho
  unfold errnoAfterCalls
  rw [List.foldl_append, List.foldl_cons]
  exact errnoAfterCalls_ne_zero_of_ne_zero (errnoAfter_ne_zero hfail)

/-- Once some call of the thread has failed, a write of a pipe that succeeds is not told from one
that fails, however many calls lie between them. -/
theorem not_writeToldApart_after_failure {B : Type} {call : IoCall B} {p : Pipe} {buf : B}
    {size : ℕ} {errno : ℤ} {calls : List IoOutcome} (h : ∃ o ∈ calls, o.IsFailure)
    (hsucceeds : ¬ (call p.writeFd.get buf size).IsFailure) :
    ¬ WriteToldApart call p buf size (errnoAfterCalls errno calls) := by
  intro htold
  rcases (writeNothrow_eq_iff p).mp htold.2 with hfail | h0
  · exact hsucceeds hfail
  · exact errnoAfterCalls_ne_zero h h0

end Runs

/-- **A pipe tells success from failure as long as `errno` is zero.** For every `errno` on entry,
buffer, size and outcome of the call, the forms of `pipe::write` tell what the call did, and agree
with those of `linuxpp::write`, if and only if the call fails or `errno` was zero before it; and
`pipe::read` likewise. -/
theorem pipe_told_apart_iff {B : Type} (call : IoCall B) (p : Pipe) (buf : B) (size : ℕ)
    (errno : ℤ) :
    (WriteToldApart call p buf size errno ↔
      (call p.writeFd.get buf size).IsFailure ∨ errno = 0) ∧
    (ReadToldApart call p buf size errno ↔
      (call p.readFd.get buf size).IsFailure ∨ errno = 0) := by
  constructor
  · constructor
    · intro h
      exact (writeNothrow_eq_iff p).mp h.2
    · intro h
      exact ⟨toldApart_iff.mpr h, (writeNothrow_eq_iff p).mpr h⟩
  · exact toldApart_iff

/-- After some call has failed with `EINTR`, a write that transfers its two bytes is reported as
failed with that error. -/
theorem pipe_write_reports_stale_errno :
    let p : Pipe := ⟨.ofFd 3, .ofFd 4⟩
    let call : IoCall (List UInt8) := fun _ _ size => .transfers size
    (p.write call [97, 98] 2 4).1 = .error ⟨4, "write system call failed"⟩ ∧
      (write call p.writeFd.get [97, 98] 2 4).1 = .ok 2 ∧
      ¬ WriteToldApart call p [97, 98] 2 4 ∧ ¬ ReadToldApart call p [97, 98] 2 4 := by
  refine ⟨by decide, by decide, ?_, ?_⟩
  · intro h
    have hgood := h.1.good.mpr (by decide)
    revert hgood
    decide
  · intro h
    have hgood := h.good.mpr (by decide)
    revert hgood
    decide

end Linuxpp
