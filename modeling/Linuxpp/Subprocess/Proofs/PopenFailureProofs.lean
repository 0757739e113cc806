import Linuxpp.Subprocess.Proofs.StreamsProofs

/-!
# Proofs: a constructor of `popen` that throws

The descriptors of the streams are plain numbers until the members of `popen` are reset to them,
which is the last thing the constructor does. Whatever throws before leaves them open.
-/

namespace Linuxpp.Subprocess

/-- The process after the streams were opened, up to the first that fails. -/
def openAll : List (Option Stream × Option Errno) → Process → Process
  | [], p => p
  | (s, failure) :: rest, p =>
    match openStream s p failure with
    | (.error _, p) => p
    | (.ok _, p) => openAll rest p

/-- The process has all the descriptors it had, and its children. -/
structure Keeps (p p' : Process) : Prop where
  table : p.table.Extends p'.table
  children : p'.children = p.children

variable {streams : Streams} {calls : SystemCalls} {p p' : Process} {failure : Option Errno}

theorem Keeps.refl (p : Process) : Keeps p p := ⟨.refl _, rfl⟩

theorem Keeps.trans {p'' : Process} (h : Keeps p p') (h' : Keeps p' p'') : Keeps p p'' :=
  ⟨h.table.trans h'.table, h'.children.trans h.children⟩

section OpenStream

variable {s : Option Stream}

theorem openStream_of_not_opens (p : Process) (failure : Option Errno) (h : opensSome s = false) :
    ∃ d, openStream s p failure = (.ok d, p) := by
  cases s with
  | none => exact ⟨_, rfl⟩
  | some st =>
    cases st with
    | fdStream readFd writeFd => exact ⟨_, rfl⟩
    | _ => cases h

theorem openStream_of_failure (p : Process) (h : opensSome s = true) (errno : Errno) :
    ∃ e, openStream s p (some errno) = (.error e, p) := by
  cases s with
  | none => cases h
  | some st =>
    cases st with
    | fdStream readFd writeFd => cases h
    | _ => exact ⟨_, rfl⟩

/-- A stream that opens something takes a number that was free. -/
theorem openStream_of_opens (p : Process) (h : opensSome s = true) :
    ∃ d p', openStream s p none = (.ok d, p') ∧ Keeps p p' ∧
      ∃ fd, p.table.get fd = none ∧ p'.table.get fd ≠ none := by
  have hpath : ∀ path, ∃ d p', openPath path p none = (.ok d, p') ∧ Keeps p p' ∧
      ∃ fd, p.table.get fd = none ∧ p'.table.get fd ≠ none := fun path =>
    ⟨_, _, rfl, ⟨DescriptorTable.extends_insert _ _, rfl⟩, _, p.table.get_lowestFree, by simp⟩
  cases s with
  | none => cases h
  | some st =>
    cases st with
    | fdStream readFd writeFd => cases h
    | pathStream path => exact hpath path
    | nullStream => exact hpath "/dev/null"
    | pipeStream =>
      have hgrows := DescriptorTable.extends_insert (p.table.insert (.pipeRead p.opened))
        (.pipeWrite p.opened)
      refine ⟨_, _, rfl, ⟨(DescriptorTable.extends_insert _ _).trans hgrows, rfl⟩, _,
        p.table.get_lowestFree, hgrows.get_ne_none ?_⟩
      simp

theorem openStream_keeps (s : Option Stream) (p : Process) (failure : Option Errno) :
    Keeps p (openStream s p failure).2 := by
  cases hopens : opensSome s with
  | false =>
    obtain ⟨d, hd⟩ := openStream_of_not_opens p failure hopens
    rw [hd]
    exact .refl p
  | true =>
    cases failure with
    | some errno =>
      obtain ⟨e, he⟩ := openStream_of_failure p hopens errno
      rw [he]
      exact .refl p
    | none =>
      obtain ⟨d, p', hp', hkeeps, -⟩ := openStream_of_opens p hopens
      rw [hp']
      exact hkeeps

end OpenStream

theorem openStreams_snd (streams : Streams) (calls : SystemCalls) (p : Process) :
    (openStreams streams calls p).2 = openAll (openCalls streams calls) p := by
  unfold openStreams openCalls
  simp only [openAll]
  rcases openStream streams.stdin p calls.openStdin with ⟨_ | _, p⟩
  · rfl
  · dsimp only
    rcases openStream streams.stdout p calls.openStdout with ⟨_ | _, p⟩
    · rfl
    · dsimp only
      rcases openStream streams.stderr p calls.openStderr with ⟨_ | _, p⟩ <;> rfl

theorem openAll_keeps (opens : List (Option Stream × Option Errno)) (p : Process) :
    Keeps p (openAll opens p) := by
  induction opens generalizing p with
  | nil => exact .refl p
  | cons o opens ih =>
    obtain ⟨s, failure⟩ := o
    have hfirst := openStream_keeps s p failure
    rw [openAll]
    generalize openStream s p failure = o at hfirst ⊢
    obtain ⟨_ | _, q⟩ := o
    · exact hfirst
    · exact hfirst.trans (ih q)

/-- Opening the streams leaves the table as it was exactly when nothing was opened. -/
theorem openAll_table_iff {opens : List (Option Stream × Option Errno)} :
    (openAll opens p).table.get = p.table.get ↔ NothingOpened opens := by
  induction opens with
  | nil => simp [openAll, NothingOpened]
  | cons o opens ih =>
    obtain ⟨s, failure⟩ := o
    rw [openAll, NothingOpened]
    cases hopens : opensSome s with
    | false =>
      obtain ⟨d, hd⟩ := openStream_of_not_opens p failure hopens
      rw [hd, if_neg Bool.false_ne_true]
      exact ih
    | true =>
      rw [if_pos rfl]
      cases failure with
      | some errno =>
        obtain ⟨e, he⟩ := openStream_of_failure p hopens errno
        simp [he]
      | none =>
        obtain ⟨d, q, hq, -, fd, hfree, htaken⟩ := openStream_of_opens p hopens
        rw [hq]
        refine iff_of_false ?_ (not_not_intro rfl)
        intro heq
        apply (openAll_keeps opens q).table.get_ne_none htaken
        dsimp only at heq
        rw [heq, hfree]

/-- Nothing behind the opening of the streams changes the table of a constructor that throws, and a
child is waited for. -/
theorem clone_error {e : PopenError} (h : clone streams calls p = (.error e, p')) :
    p'.table = (openAll (openCalls streams calls) p).table ∧
      (calls.waitid = none → p'.children = (openAll (openCalls streams calls) p).children) := by
  rw [← openStreams_snd]
  unfold clone at h
  split at h
  · rename_i q hopen
    obtain ⟨-, rfl⟩ := Prod.mk.inj h
    rw [hopen]
    exact ⟨rfl, fun _ => rfl⟩
  · rename_i d q hopen
    rw [hopen]
    split at h
    · obtain ⟨-, rfl⟩ := Prod.mk.inj h
      exact ⟨rfl, fun _ => rfl⟩
    · rename_i pid hpid
      dsimp only at h
      split at h
      · obtain ⟨-, rfl⟩ := Prod.mk.inj h
        constructor
        · cases calls.waitid <;> rfl
        · intro hwaitid
          rw [hwaitid]
          exact List.erase_cons_head pid q.children
      · cases h

/-- A constructor that throws leaves the descriptors and the children of the process as they were
exactly when it had opened nothing. -/
theorem throwing_constructor_leaks_nothing_iff {e : PopenError}
    (hthrows : clone streams calls p = (.error e, p')) (hwaitid : calls.waitid = none) :
    (p'.table.get = p.table.get ∧ p'.children = p.children) ↔
      NothingOpened (openCalls streams calls) := by
  obtain ⟨htable, hchildren⟩ := clone_error hthrows
  have hkept : p'.children = p.children :=
    (hchildren hwaitid).trans (openAll_keeps (openCalls streams calls) p).children
  rw [and_iff_left hkept, htable]
  exact openAll_table_iff

/-- `execve` fails, and nothing else does. -/
def failingExecve : SystemCalls where
  clone := .ok 100
  scan := .entries [none, none, some 0, some 1, some 2, some 3] none
  getrlimit := .ok 1024
  execve := some .ENOENT

/-- `stdin` is a pipe, and there are no descriptors left for it. -/
theorem throwing_constructor_leaks_nothing_iff_no_pipe : ∃ e p',
    clone ⟨some .pipeStream, none, none⟩ { failingExecve with openStdin := some .EMFILE }
        ⟨⟨[some (.file 0), some (.file 1), some (.file 2)]⟩, 3, []⟩ = (.error e, p') ∧
      p'.table.get = (⟨[some (.file 0), some (.file 1), some (.file 2)]⟩ : FdTable).get ∧
      p'.children = [] := by
  obtain ⟨e, p', h⟩ : ∃ e p',
      clone ⟨some .pipeStream, none, none⟩ { failingExecve with openStdin := some .EMFILE }
        ⟨⟨[some (.file 0), some (.file 1), some (.file 2)]⟩, 3, []⟩ = (.error e, p') :=
    ⟨_, _, rfl⟩
  obtain ⟨htable, hchildren⟩ :=
    (throwing_constructor_leaks_nothing_iff h rfl).mpr (Option.some_ne_none _)
  exact ⟨e, p', h, htable, hchildren⟩

/-- `stdin` is a pipe, and `execve` fails: both ends of the pipe stay open in the parent. -/
theorem failing_execve_leaks_pipe : ∃ e p',
    clone ⟨some .pipeStream, none, none⟩ failingExecve
      ⟨⟨[some (.file 0), some (.file 1), some (.file 2)]⟩, 3, []⟩ = (.error e, p') ∧
    p'.table.get 3 = some (.pipeRead 3) ∧ p'.table.get 4 = some (.pipeWrite 3) ∧
    p'.table.get ≠ (⟨[some (.file 0), some (.file 1), some (.file 2)]⟩ : FdTable).get := by
  refine ⟨_, _, rfl, by decide, by decide, ?_⟩
  intro h
  exact absurd (congrFun h 3) (by decide)

end Linuxpp.Subprocess
