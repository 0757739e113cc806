import Linuxpp.Subprocess.PopenSystem
import Linuxpp.Subprocess.Proofs.ChildStreamsProofs
import Linuxpp.Subprocess.Proofs.PopenFailureProofs
import Linuxpp.Subprocess.Proofs.PopenObjectsProofs

/-!
# Proofs: who has the ends of the pipes

A constructor opens the ends of a pipe, hands one of them to the child, and closes its own descriptor
for that one. Nothing else hands an end over, so the steps are those of a custody.
-/

namespace Linuxpp.Subprocess

theorem PipeEnd.file_inj {e e' : PipeEnd} (h : e.file = e'.file) : e = e' := by
  cases e <;> cases e' <;> cases h <;> rfl

theorem PipeEnd.isPipeEnd_file (e : PipeEnd) : e.file.isPipeEnd = true := by
  cases e <;> rfl

theorem PipeEnd.file_ne_file (e : PipeEnd) (id : ℕ) : e.file ≠ .file id := by
  cases e <;> nofun

variable {streams : Streams} {calls : SystemCalls} {p p' p₁ : Process} {d : SubprocessDescriptor}
  {popen : Popen} {e : PipeEnd} {failure : Option Errno} {s : Option Stream}

section Opening

/-- The process has at most one descriptor for each end of a pipe, and has opened the pipe. -/
structure EndsOnce (p : Process) : Prop where
  once : ∀ e : PipeEnd, p.table.RefersOnce e.file
  numbered : ∀ e : PipeEnd, p.table.Refers e.file → e.id < p.opened

/-- What the process opens in addition are ends of pipes that are new. -/
structure OpensPipes (p p' : Process) : Prop where
  ends : EndsOnce p → EndsOnce p'
  opened : p.opened ≤ p'.opened
  new : ∀ e : PipeEnd, p'.table.Refers e.file → p.table.Refers e.file ∨ p.opened ≤ e.id

theorem OpensPipes.refl (p : Process) : OpensPipes p p := ⟨id, Nat.le_refl _, fun _ => Or.inl⟩

theorem OpensPipes.trans (h : OpensPipes p p₁) (h' : OpensPipes p₁ p') : OpensPipes p p' := by
  refine ⟨fun hp => h'.ends (h.ends hp), Nat.le_trans h.opened h'.opened, fun e he => ?_⟩
  rcases h'.new e he with he | hnew
  · exact h.new e he
  · exact Or.inr (Nat.le_trans h.opened hnew)

/-- A process that closes descriptors has at most the ends that it had. -/
theorem OpensPipes.of_extends (htable : p'.table.Extends p.table) (hopened : p'.opened = p.opened) :
    OpensPipes p p' := by
  refine ⟨fun hp => ⟨fun e => htable.refersOnce (hp.once e), fun e he => ?_⟩, Nat.le_of_eq hopened.symm,
    fun e he => Or.inl (htable.refers he)⟩
  rw [hopened]
  exact hp.numbered e (htable.refers he)

theorem openPath_opens (path : String) (p : Process) (failure : Option Errno) :
    OpensPipes p (openPath path p failure).2 := by
  cases failure with
  | some errno => exact .refl p
  | none =>
    have hends : ∀ e : PipeEnd, (p.table.insert (.file p.opened)).Refers e.file →
        p.table.Refers e.file := fun e he =>
      (DescriptorTable.refers_insert.mp he).resolve_left (e.file_ne_file _)
    refine ⟨fun hp => ⟨fun e => ?_, fun e he => ?_⟩, Nat.le_succ _, fun e he => Or.inl (hends e he)⟩
    · exact (hp.once e).insert fun heq => absurd heq (e.file_ne_file _)
    · exact Nat.lt_succ_of_lt (hp.numbered e (hends e he))

theorem pipeFd_opens (p : Process) (failure : Option Errno) :
    OpensPipes p (pipeFd p failure).2 := by
  cases failure with
  | some errno => exact .refl p
  | none =>
    set u := p.table.insert (.pipeRead p.opened) with hu
    have hnew : ∀ e : PipeEnd, (u.insert (.pipeWrite p.opened)).Refers e.file →
        p.table.Refers e.file ∨ p.opened = e.id := by
      intro e he
      rcases DescriptorTable.refers_insert.mp he with heq | he
      · exact Or.inr (congrArg PipeEnd.id (PipeEnd.file_inj (e := .write p.opened) heq.symm))
      · rcases DescriptorTable.refers_insert.mp he with heq | he
        · exact Or.inr (congrArg PipeEnd.id (PipeEnd.file_inj (e := .read p.opened) heq.symm))
        · exact Or.inl he
    refine ⟨fun hp => ⟨fun e => ?_, fun e he => ?_⟩, Nat.le_succ _, fun e he => ?_⟩
    · have hread : u.RefersOnce e.file := (hp.once e).insert fun heq he => by
        obtain rfl : e = .read p.opened := PipeEnd.file_inj heq
        exact Nat.lt_irrefl _ (hp.numbered _ he)
      refine hread.insert fun heq he => ?_
      obtain rfl : e = .write p.opened := PipeEnd.file_inj heq
      rcases DescriptorTable.refers_insert.mp he with hread | he
      · cases hread
      · exact Nat.lt_irrefl _ (hp.numbered _ he)
    · rcases hnew e he with he | heq
      · exact Nat.lt_succ_of_lt (hp.numbered e he)
      · exact heq ▸ Nat.lt_succ_self _
    · exact (hnew e he).imp_right Nat.le_of_eq

theorem openStream_opens (s : Option Stream) (p : Process) (failure : Option Errno) :
    OpensPipes p (openStream s p failure).2 := by
  cases s with
  | none => exact .refl p
  | some st =>
    cases st with
    | pipeStream => exact pipeFd_opens p failure
    | pathStream path => exact openPath_opens path p failure
    | nullStream => exact openPath_opens "/dev/null" p failure
    | fdStream readFd writeFd => exact .refl p

theorem openAll_opens (opens : List (Option Stream × Option Errno)) (p : Process) :
    OpensPipes p (openAll opens p) := by
  induction opens generalizing p with
  | nil => exact .refl p
  | cons o opens ih =>
    obtain ⟨s, failure⟩ := o
    have hfirst := openStream_opens s p failure
    rw [openAll]
    generalize openStream s p failure = o at hfirst ⊢
    obtain ⟨_ | _, q⟩ := o
    · exact hfirst
    · exact hfirst.trans (ih q)

theorem openStreams_opens (streams : Streams) (calls : SystemCalls) (p : Process) :
    OpensPipes p (openStreams streams calls p).2 := by
  rw [openStreams_snd]
  exact openAll_opens _ p

end Opening

section Constructor

/-- The parent closes the descriptors that were meant for the child. -/
theorem keepParentEnd_closes (stream : StreamDescriptors) (parentFd childFd : Int) (t : FdTable) :
    (keepParentEnd stream parentFd childFd t).2.Extends t ∧
      (stream.toBool = true → (keepParentEnd stream parentFd childFd t).2.get childFd = none) := by
  unfold keepParentEnd
  cases stream.toBool with
  | false => exact ⟨.refl t, nofun⟩
  | true =>
    have hclosed : (t.close childFd).get childFd = none := by
      rw [DescriptorTable.get_close, if_pos rfl]
    exact ⟨DescriptorTable.extends_close t childFd, fun _ => hclosed⟩

theorem get_eq_none_of_extends {t u : FdTable} {fd : Int} (h : t.Extends u)
    (hclosed : u.get fd = none) : t.get fd = none := by
  by_contra hopen
  exact h.get_ne_none hopen hclosed

theorem keepParentEnds_closes (d : SubprocessDescriptor) (pid : ℕ) (p : Process) :
    (keepParentEnds d pid p).2.table.Extends p.table ∧
      ∀ s, (d.get s).toBool = true → (keepParentEnds d pid p).2.table.get (d.childFd s) = none := by
  have hin := keepParentEnd_closes d.stdin d.stdin.writeFd d.stdin.readFd p.table
  have hout := keepParentEnd_closes d.stdout d.stdout.readFd d.stdout.writeFd
  have herr := keepParentEnd_closes d.stderr d.stderr.readFd d.stderr.writeFd
  refine ⟨(herr _).1.trans ((hout _).1.trans hin.1), fun s hs => ?_⟩
  cases s with
  | stdin => exact get_eq_none_of_extends ((herr _).1.trans (hout _).1) (hin.2 hs)
  | stdout => exact get_eq_none_of_extends (herr _).1 ((hout _).2 hs)
  | stderr => exact (herr _).2 hs

/-- What the child has at a descriptor that it has set up comes from a descriptor that was meant
for it. -/
theorem exists_childFd_of_get {t t' : FdTable} (hexec : cloneHandler d calls t = .ok t')
    (he : (FdTable.execve d t').Refers e.file) :
    ∃ s, (d.get s).toBool = true ∧ t.get (d.childFd s) = some e.file := by
  obtain ⟨fd, hfd⟩ := he
  unfold FdTable.execve at hfd
  rw [DescriptorTable.get_closeWhere, Option.filter_eq_some_iff] at hfd
  obtain ⟨hget, hkept⟩ := hfd
  have hset : d.setsUp fd = true := by
    simpa [e.isPipeEnd_file] using hkept
  obtain ⟨s, hs, rfl⟩ : ∃ s : StdStream, (d.get s).toBool = true ∧ s.fileno = fd := by
    unfold SubprocessDescriptor.setsUp at hset
    simp only [Bool.or_eq_true, Bool.and_eq_true, decide_eq_true_eq] at hset
    rcases hset with (⟨hb, rfl⟩ | ⟨hb, rfl⟩) | ⟨hb, rfl⟩
    · exact ⟨.stdin, hb, rfl⟩
    · exact ⟨.stdout, hb, rfl⟩
    · exact ⟨.stderr, hb, rfl⟩
  obtain ⟨u, hu, hstd⟩ := cloneHandler_ok hexec
  rw [hstd s] at hget
  have htargets : ∀ r ∈ d.redirections, 0 ≤ r.target := by
    intro r hr
    obtain ⟨s, -, rfl⟩ := List.mem_map.mp hr
    exact s.fileno_nonneg
  rcases DescriptorTable.get_of_redirectAll htargets hu hget with ⟨r, hr, howned⟩ | ⟨hnot, -⟩
  · obtain ⟨s', hs', rfl⟩ := List.mem_map.mp hr
    exact ⟨s', (List.mem_filter.mp hs').2, howned⟩
  · refine absurd (List.mem_map.mpr ⟨d.redirection s, ?_, rfl⟩) hnot
    exact List.mem_map_of_mem (List.mem_filter.mpr ⟨s.mem_all, hs⟩)

/-- What the constructor does to the process, and the table that the child starts with. -/
theorem clone_cases (streams : Streams) (calls : SystemCalls) (p : Process) :
    (executedTable streams calls p = none ∧ OpensPipes p (clone streams calls p).2) ∨
    ∃ popen p' d p₁ pid t', clone streams calls p = (.ok popen, p') ∧
      openStreams streams calls p = (.ok d, p₁) ∧
      keepParentEnds d pid { p₁ with children := pid :: p₁.children } = (popen, p') ∧
      cloneHandler d calls p₁.table = .ok t' ∧
      executedTable streams calls p = some (FdTable.execve d t') := by
  have hopens := openStreams_opens streams calls p
  unfold clone executedTable
  cases hopen : openStreams streams calls p with
  | mk result p₁ =>
    rw [hopen] at hopens
    cases result with
    | error e => exact Or.inl ⟨rfl, hopens⟩
    | ok d =>
      dsimp only
      cases hpid : calls.clone with
      | error errno => exact Or.inl ⟨rfl, hopens⟩
      | ok pid =>
        dsimp only
        have hthrown : ∀ status : Errno, OpensPipes p
            (Process.waitid { p₁ with children := pid :: p₁.children } pid calls.waitid) := by
          intro status
          cases calls.waitid <;> exact hopens.trans (.of_extends (.refl _) rfl)
        cases hchild : cloneHandler d calls p₁.table with
        | error failure =>
          obtain ⟨code, errno⟩ := failure
          have hstatus : childStatus d calls p₁.table = some errno := by
            unfold childStatus
            rw [hchild]
          rw [hstatus]
          exact Or.inl ⟨by simp [Except.toOption], hthrown errno⟩
        | ok t' =>
          have hstatus : childStatus d calls p₁.table = calls.execve := by
            unfold childStatus
            rw [hchild]
          rw [hstatus]
          cases hexecve : calls.execve with
          | some errno => exact Or.inl ⟨by simp, hthrown errno⟩
          | none =>
            refine Or.inr ⟨_, _, d, p₁, pid, t', rfl, rfl, rfl, hchild, ?_⟩
            simp [Except.toOption]

end Constructor

theorem ofPopen_stream (popen : Popen) (s : StdStream) :
    ((PopenObject.ofPopen popen).stream s).get = popen.get s := by
  cases s <;> rfl

section Program

open PopenObjects

variable {s t : PopenObjects}

theorem construct_process (s : PopenObjects) (streams : Streams) (calls : SystemCalls) :
    (s.construct streams calls).process = (clone streams calls s.process).2 ∧
      (s.construct streams calls).terminated = s.terminated := by
  unfold PopenObjects.construct
  split
  · rename_i hclone
    rw [hclone]
    exact ⟨rfl, rfl⟩
  · rename_i hclone
    rw [hclone]
    exact ⟨rfl, rfl⟩
  · rename_i hclone
    rw [hclone]
    exact ⟨rfl, rfl⟩

theorem closeAll_opens (s : PopenObjects) (fds : List Int) :
    OpensPipes s.process (s.closeAll fds).process :=
  .of_extends (DescriptorTable.extends_foldl_close fds s.process.table) rfl

/-- An operation on `popen` objects other than a constructor opens nothing. -/
theorem apply_opens {op : PopenOp} (h : s.apply op = some t)
    (hop : ∀ streams calls, op ≠ .construct streams calls) : OpensPipes s.process t.process := by
  have hwait : ∀ {o options outcome result}, s.wait o options outcome = some (result, t) →
      OpensPipes s.process t.process := by
    intro o options outcome result hwait
    obtain ⟨popen, -, ⟨-, -, rfl⟩ | ⟨-, call, -, -, ⟨-, rfl⟩ | ⟨-, status, -, -, rfl⟩⟩⟩ :=
      wait_cases hwait
    · exact .refl _
    · exact .refl _
    · exact .of_extends (.refl _) rfl
  cases applies_of_apply h with
  | construct streams hfresh => exact absurd rfl (hop _ _)
  | wait h => exact hwait h
  | poll h => exact hwait h
  | destroy hpopen hhas =>
    exact .of_extends (DescriptorTable.extends_foldl_close _ s.process.table) rfl
  | _ => exact .refl _

theorem perform_opens {op : ProgramOp} (h : s.perform op = some t) :
    OpensPipes s.process t.process ∧ t.terminated = s.terminated := by
  cases op with
  | reset o stream fd =>
    obtain ⟨popen, -, rfl⟩ := Option.map_eq_some_iff.mp h
    exact ⟨closeAll_opens (s.setStream o popen stream _) _, rfl⟩
  | release o stream =>
    obtain ⟨popen, -, rfl⟩ := Option.map_eq_some_iff.mp h
    exact ⟨.refl _, rfl⟩
  | openPath path failure =>
    obtain rfl := Option.some.inj h
    exact ⟨openPath_opens path s.process failure, rfl⟩
  | openPipe failure =>
    obtain rfl := Option.some.inj h
    exact ⟨pipeFd_opens s.process failure, rfl⟩
  | close fd =>
    obtain rfl := Option.some.inj h
    exact ⟨closeAll_opens s [fd], rfl⟩

end Program

namespace PopenSystem

variable {c t : PopenSystem} {program : PopenObjects} {children : List ChildProcess}

/-- The program has at most one descriptor for each end of a pipe, and the pipes were opened. -/
structure Piped (c : PopenSystem) : Prop where
  ends : EndsOnce c.program.process
  known : ∀ child ∈ c.children, ∀ e : PipeEnd, child.table.Refers e.file → c.Made e

theorem Piped.made (h : Piped c) (holder : Holder) (e : PipeEnd) (he : c.HeldBy holder e) :
    c.Made e := by
  cases holder with
  | program => exact h.ends.numbered e he.2
  | child k =>
    obtain ⟨child, hchild, -, he⟩ := he
    exact h.known child hchild e he

section Steps

/-- The program opens or closes descriptors, and hands nothing over. -/
theorem passes_of_opens (h : OpensPipes c.program.process program.process)
    (hrunning : program.terminated = false → c.program.terminated = false) (receiver : Holder) :
    Passes c.Made .program receiver c.HeldBy (HeldBy ⟨program, c.children⟩) := by
  intro holder e he
  cases holder with
  | program =>
    rcases h.new e he.2 with hold | hnew
    · exact Or.inl ⟨hrunning he.1, hold⟩
    · exact Or.inr (Or.inl ⟨rfl, Nat.not_lt.mpr hnew⟩)
  | child k => exact Or.inl he

theorem Piped.of_opens (hc : Piped c) (h : OpensPipes c.program.process program.process) :
    Piped ⟨program, c.children⟩ :=
  ⟨h.ends hc.ends, fun child hchild e he => Nat.lt_of_lt_of_le (hc.known child hchild e he) h.opened⟩

/-- Every process was there before, or has come from one that was, and has no other end. -/
def ComeFrom (children children' : List ChildProcess) : Prop :=
  ∀ child' ∈ children', ∃ child ∈ children, child.origin = child'.origin ∧
    ∀ e : PipeEnd, child'.table.Refers e.file → child.table.Refers e.file

theorem passes_of_comeFrom (h : ComeFrom c.children children) (receiver : Holder) :
    Passes c.Made .program receiver c.HeldBy (HeldBy ⟨c.program, children⟩) := by
  refine passes_of_drops fun holder e he => ?_
  cases holder with
  | program => exact he
  | child k =>
    obtain ⟨child', hchild', rfl, he⟩ := he
    obtain ⟨child, hchild, horigin, hends⟩ := h child' hchild'
    exact ⟨child, hchild, horigin, hends e he⟩

theorem Piped.of_comeFrom (hc : Piped c) (h : ComeFrom c.children children) :
    Piped ⟨c.program, children⟩ := by
  refine ⟨hc.ends, fun child' hchild' e he => ?_⟩
  obtain ⟨child, hchild, -, hends⟩ := h child' hchild'
  exact hc.known child hchild e (hends e he)

theorem comeFrom_set {i : ℕ} {child : ChildProcess} {table : FdTable}
    (hi : c.children[i]? = some child)
    (h : ∀ e : PipeEnd, table.Refers e.file → child.table.Refers e.file) :
    ComeFrom c.children (c.children.set i { child with table := table }) := by
  intro child' hchild'
  rcases List.mem_or_eq_of_mem_set hchild' with hmem | rfl
  · exact ⟨child', hmem, rfl, fun _ => id⟩
  · exact ⟨child, List.mem_of_getElem? hi, rfl, h⟩

/-- A child hands nothing to anyone but its own descendants. -/
theorem childStep_comeFrom {i : ℕ} {op : ChildOp} (h : c.childStep i op = some t) :
    t.program = c.program ∧ ComeFrom c.children t.children := by
  obtain ⟨child, hi, h⟩ := Option.bind_eq_some_iff.mp h
  cases op with
  | openFile id =>
    obtain rfl := Option.some.inj h
    exact ⟨rfl, comeFrom_set hi fun e he =>
      (DescriptorTable.refers_insert.mp he).resolve_left (e.file_ne_file id)⟩
  | dup2 source target =>
    obtain ⟨table, htable, rfl⟩ := Option.map_eq_some_iff.mp h
    exact ⟨rfl, comeFrom_set hi fun e => DescriptorTable.refers_of_dup2 htable⟩
  | close fd =>
    obtain rfl := Option.some.inj h
    exact ⟨rfl, comeFrom_set hi fun e => (DescriptorTable.extends_close _ fd).refers⟩
  | fork =>
    obtain rfl := Option.some.inj h
    refine ⟨rfl, fun child' hchild' => ?_⟩
    rcases List.mem_append.mp hchild' with hmem | hmem
    · exact ⟨child', hmem, rfl, fun _ => id⟩
    · obtain rfl := List.mem_singleton.mp hmem
      exact ⟨child', List.mem_of_getElem? hi, rfl, fun _ => id⟩
  | exit =>
    obtain rfl := Option.some.inj h
    exact ⟨rfl, fun child' hchild' => ⟨child', List.mem_of_mem_eraseIdx hchild', rfl, fun _ => id⟩⟩

theorem executed_construct (c : PopenSystem) (streams : Streams) (calls : SystemCalls) :
    c.executed (.construct streams calls) =
      (executedTable streams calls c.program.process).toList.map fun table =>
        ⟨c.program.started.length, table⟩ := rfl

/-- A constructor hands ends of pipes to the child, and keeps no descriptor for them. -/
theorem construct_passes (hc : Piped c) (hrunning : c.program.terminated = false)
    (streams : Streams) (calls : SystemCalls)
    (ht : t = ⟨c.program.construct streams calls,
      c.children ++ c.executed (.construct streams calls)⟩) :
    Passes c.Made .program (.child c.program.started.length) c.HeldBy t.HeldBy ∧ Piped t ∧
      c.program.process.opened ≤ t.program.process.opened := by
  subst ht
  obtain ⟨hprocess, hterminated⟩ := construct_process c.program streams calls
  rcases clone_cases streams calls c.program.process with
    ⟨hnone, hopens⟩ | ⟨popen, p', d, p₁, pid, t', hclone, hopen, hkeep, hexec, hsome⟩
  · have hexecuted : c.executed (.construct streams calls) = [] := by
      rw [executed_construct, hnone]
      rfl
    rw [hexecuted, List.append_nil]
    rw [← hprocess] at hopens
    exact ⟨passes_of_opens hopens (fun h => hterminated ▸ h) _, hc.of_opens hopens, hopens.opened⟩
  · have hexecuted : c.executed (.construct streams calls) =
        [⟨c.program.started.length, FdTable.execve d t'⟩] := by
      rw [executed_construct, hsome]
      rfl
    have hopens := openStreams_opens streams calls c.program.process
    rw [hopen] at hopens
    have hcloses := keepParentEnds_closes d pid { p₁ with children := pid :: p₁.children }
    rw [hkeep] at hcloses
    obtain ⟨hfewer, hclosed⟩ := hcloses
    have hopened : p'.opened = p₁.opened := (congrArg (fun x => x.2.opened) hkeep).symm
    rw [hclone] at hprocess
    have hall : OpensPipes c.program.process (c.program.construct streams calls).process := by
      rw [hprocess]
      exact hopens.trans (.of_extends hfewer hopened)
    -- what the child has was at a descriptor that the program has closed
    have hchild : ∀ e : PipeEnd, (FdTable.execve d t').Refers e.file →
        p₁.table.Refers e.file ∧ ¬ p'.table.Refers e.file := by
      intro e he
      obtain ⟨s, hs, hget⟩ := exists_childFd_of_get hexec he
      exact ⟨⟨_, hget⟩, ((hopens.ends hc.ends).once e).not_refers hget hfewer (hclosed s hs)⟩
    rw [hexecuted]
    refine ⟨?_, ?_, hall.opened⟩
    · intro holder e he
      cases holder with
      | program =>
        exact passes_of_opens hall (fun h => hterminated ▸ h) _ .program e he
      | child k =>
        obtain ⟨child, hmem, rfl, he⟩ := he
        rcases List.mem_append.mp hmem with hmem | hmem
        · exact Or.inl ⟨child, hmem, rfl, he⟩
        · obtain rfl := List.mem_singleton.mp hmem
          obtain ⟨hhad, hgone⟩ := hchild e he
          have hnot : ¬ HeldBy ⟨c.program.construct streams calls, c.children ++
              [⟨c.program.started.length, FdTable.execve d t'⟩]⟩ .program e := by
            rintro ⟨-, hkept⟩
            rw [hprocess] at hkept
            exact hgone hkept
          refine Or.inr (Or.inr ⟨rfl, ?_, hnot⟩)
          rcases hopens.new e hhad with hold | hnew
          · exact Or.inl ⟨hrunning, hold⟩
          · exact Or.inr (Nat.not_lt.mpr hnew)
    · refine ⟨hall.ends hc.ends, fun child hmem e he => ?_⟩
      rcases List.mem_append.mp hmem with hmem | hmem
      · exact Nat.lt_of_lt_of_le (hc.known child hmem e he) hall.opened
      · obtain rfl := List.mem_singleton.mp hmem
        have hlt := (hopens.ends hc.ends).numbered e (hchild e he).1
        show e.id < (c.program.construct streams calls).process.opened
        rw [hprocess]
        exact hopened ▸ hlt

theorem started_of_apply {s t : PopenObjects} {op : PopenOp} (h : s.apply op = some t) :
    s.started.length ≤ t.started.length := by
  obtain ⟨new, reaped, hledger⟩ := PopenObjects.Ledger.apply h
  rw [hledger.starts, List.length_append]
  exact Nat.le_add_right _ _

theorem started_of_perform {s t : PopenObjects} {op : ProgramOp} (h : s.perform op = some t) :
    t.started = s.started := by
  cases op with
  | reset o stream fd | release o stream =>
    obtain ⟨popen, -, rfl⟩ := Option.map_eq_some_iff.mp h
    rfl
  | openPath path failure | openPipe failure =>
    obtain rfl := Option.some.inj h
    rfl
  | close fd =>
    obtain rfl := Option.some.inj h
    rfl

/-- What a step does: it hands ends of pipes to no one but a child that it starts. -/
structure HandsToNewChild (c t : PopenSystem) : Prop where
  passes : Passes c.Made .program (.child c.program.started.length) c.HeldBy t.HeldBy
  piped : Piped t
  opened : c.program.process.opened ≤ t.program.process.opened
  started : c.program.started.length ≤ t.program.started.length

theorem system_step (hc : Piped c) {l : SystemStep} (h : systemStep c l = some t) :
    HandsToNewChild c t := by
  cases l with
  | popen op =>
    obtain ⟨program, hprogram, rfl⟩ := Option.map_eq_some_iff.mp h
    obtain ⟨hrunning, happly⟩ := PopenObjects.popenStep_iff.mp hprogram
    have hstarted := started_of_apply happly
    by_cases hop : ∃ streams calls, op = .construct streams calls
    · obtain ⟨streams, calls, rfl⟩ := hop
      cases PopenObjects.applies_of_apply happly with
      | construct streams hfresh =>
        obtain ⟨hpasses, hpiped, hopened⟩ := construct_passes hc hrunning streams calls rfl
        exact ⟨hpasses, hpiped, hopened, hstarted⟩
    · push Not at hop
      have hnone : c.executed op = [] := by
        cases op with
        | construct streams calls => exact absurd rfl (hop streams calls)
        | _ => rfl
      have hopens := apply_opens happly hop
      rw [hnone, List.append_nil]
      exact ⟨passes_of_opens hopens (fun _ => hrunning) _, hc.of_opens hopens, hopens.opened,
        hstarted⟩
  | program op =>
    obtain ⟨-, h⟩ := Option.ite_none_left_eq_some.mp h
    obtain ⟨program, hprogram, rfl⟩ := Option.map_eq_some_iff.mp h
    obtain ⟨hopens, hterm⟩ := perform_opens hprogram
    have hstarted : program.started = c.program.started := started_of_perform hprogram
    exact ⟨passes_of_opens hopens (fun h => hterm ▸ h) _, hc.of_opens hopens, hopens.opened,
      Nat.le_of_eq (congrArg List.length hstarted.symm)⟩
  | child i op =>
    obtain ⟨hprogram, hcome⟩ := childStep_comeFrom h
    have heq : t = ⟨c.program, t.children⟩ := by rw [← hprogram]
    rw [heq]
    exact ⟨passes_of_comeFrom hcome _, hc.of_comeFrom hcome, Nat.le_refl _, Nat.le_refl _⟩

theorem keepsCustody : KeepsCustody systemStep Made HeldBy .program Piped where
  inv := fun _ _ _ hc h => (system_step hc h).piped
  known := fun _ hc => hc.made
  stays := fun _ _ _ hc h _ he => Nat.lt_of_lt_of_le he (system_step hc h).opened
  passes := fun _ _ _ hc h => ⟨_, (system_step hc h).passes⟩

end Steps

section Runs

variable {table : FdTable} {opened : ℕ} {ls ks : List SystemStep} {u : PopenSystem}

theorem piped_init (hnew : NoPipes table) (opened : ℕ) : Piped (init table opened) := by
  refine ⟨⟨fun e fd _ hfd _ => absurd ⟨fd, hfd⟩ (hnew e), fun e he => absurd he (hnew e)⟩, ?_⟩
  intro child hchild
  cases hchild

theorem custody_init (hnew : NoPipes table) (opened : ℕ) :
    Custody (init table opened).Made (init table opened).HeldBy := by
  have hnone : ∀ h e, ¬ (init table opened).HeldBy h e := by
    intro h e he
    cases h with
    | program => exact hnew e he.2
    | child k =>
      obtain ⟨child, hchild, -⟩ := he
      cases hchild
  exact ⟨fun e h _ hh => absurd hh (hnone h e), fun h e hh => absurd hh (hnone h e)⟩

theorem piped_of_run (hnew : NoPipes table) (hrun : systemStep.run (init table opened) ls = some c) :
    Piped c :=
  Machine.run_invariant keepsCustody.inv hrun (piped_init hnew opened)

theorem custody_of_run (hnew : NoPipes table)
    (hrun : systemStep.run (init table opened) ls = some c) : Custody c.Made c.HeldBy :=
  keepsCustody.custody hrun (piped_init hnew opened) (custody_init hnew opened)

/-- **One holder.** In every run of the program and its children, each end of each pipe belongs to
the program alone, or to one child and its descendants alone. -/
theorem pipe_ends_have_one_holder (hnew : NoPipes table)
    (hrun : systemStep.run (init table opened) ls = some c) : c.EndsHaveOneHolder :=
  (custody_of_run hnew hrun).sole

/-- A table of files has no pipes. -/
theorem noPipes_of_all (h : table.slots.all (fun slot => slot.all fun x => !x.isPipeEnd) = true) :
    NoPipes table := by
  rintro e ⟨fd, hfd⟩
  unfold DescriptorTable.get at hfd
  split_ifs at hfd
  have hmem := List.mem_of_getElem? (Option.join_eq_some_iff.mp hfd)
  have hslot := List.all_eq_true.mp h _ hmem
  simp [e.isPipeEnd_file] at hslot

/-- A child is started with pipes, reads from the one and forks. -/
def startAndFork : List SystemStep :=
  [.popen (.construct pipesInOut succeedingCalls), .child 0 .fork, .child 1 (.close 1)]

theorem pipe_ends_have_one_holder_forked : ∃ c,
    systemStep.run (init standardParent.table 3) startAndFork = some c ∧
      c.HeldBy (.child 0) (.read 3) ∧ c.HeldBy .program (.write 3) ∧ c.EndsHaveOneHolder := by
  have hrun : systemStep.run (init standardParent.table 3) startAndFork = some _ := rfl
  have hnew : NoPipes standardParent.table := noPipes_of_all rfl
  exact ⟨_, hrun, ⟨_, List.mem_cons_self, rfl, 0, rfl⟩, ⟨rfl, 4, rfl⟩,
    pipe_ends_have_one_holder hnew hrun⟩

section Closing

variable {popen : PopenObject} {o : ℕ} {stream : StdStream} {l : SystemStep}

theorem mem_reset {u : UniqueFd} (h : u.get ≠ closedFd) (fd : Int) : u.get ∈ (u.reset fd).2 := by
  have hcloses : (u.reset fd).2 = [u.get] := if_pos h
  rw [hcloses]
  exact List.mem_singleton_self _

/-- An object that lets go of a stream closes its descriptor, or the program is terminated; the
children have no part in it. -/
theorem closed_of_letsGo (hl : LetsGo o stream l) (hstep : systemStep c l = some t)
    (hpopen : c.program.object? o = some popen)
    (hopen : c.program.process.table.get (popen.stream stream).get ≠ none) :
    t.children = c.children ∧ c.program.terminated = false ∧
      t.program.process.table.Extends c.program.process.table ∧
      (t.program.terminated = false →
        t.program.process.table.get (popen.stream stream).get = none) := by
  have hfd : (popen.stream stream).get ≠ closedFd := by
    intro heq
    rw [heq] at hopen
    exact hopen (DescriptorTable.get_of_neg (by decide))
  cases hl with
  | reset fd =>
    obtain ⟨hrunning, hstep⟩ := Option.ite_none_left_eq_some.mp hstep
    obtain ⟨program, hprogram, rfl⟩ := Option.map_eq_some_iff.mp hstep
    obtain ⟨popen', hpopen', rfl⟩ := Option.map_eq_some_iff.mp hprogram
    obtain rfl := Option.some.inj (hpopen.symm.trans hpopen')
    exact ⟨rfl, Bool.eq_false_iff.mpr hrunning, DescriptorTable.extends_foldl_close _ _,
      fun _ => DescriptorTable.get_foldl_close_eq_none _ _ (mem_reset hfd fd)⟩
  | destroy =>
    obtain ⟨program, hprogram, rfl⟩ := Option.map_eq_some_iff.mp hstep
    obtain ⟨hrunning, happly⟩ := PopenObjects.popenStep_iff.mp hprogram
    refine ⟨List.append_nil _, hrunning, ?_⟩
    cases PopenObjects.applies_of_apply happly with
    | terminate hpopen' hhas => exact ⟨.refl _, nofun⟩
    | destroy hpopen' hhas =>
      obtain rfl := Option.some.inj (hpopen.symm.trans hpopen')
      refine ⟨DescriptorTable.extends_foldl_close _ _, fun _ => ?_⟩
      apply DescriptorTable.get_foldl_close_eq_none
      unfold PopenObject.closes
      have hmem := mem_reset hfd closedFd
      cases stream with
      | stdin => exact List.mem_append_right _ hmem
      | stdout => exact List.mem_append_left _ (List.mem_append_right _ hmem)
      | stderr => exact List.mem_append_left _ (List.mem_append_left _ hmem)

/-- **Ends that are given up.** When a `popen` object lets go of its end of a pipe, and when the
processes of the child that has an end are gone, then nobody has a descriptor for the end, in no later
state either: who waits at the other end of the pipe finds out. -/
theorem ends_given_up_stay_closed (hnew : NoPipes table)
    (hrun : systemStep.run (init table opened) ls = some c) (e : PipeEnd) :
    (∀ o stream popen l t, c.program.object? o = some popen →
      c.program.process.table.get (popen.stream stream).get = some e.file →
      LetsGo o stream l → systemStep c l = some t →
      ∀ ks u, systemStep.run t ks = some u → u.Closed e) ∧
    ∀ k, c.HeldBy (.child k) e → ∀ ks t, systemStep.run c ks = some t →
      (∀ child ∈ t.children, child.origin ≠ k) →
      ∀ ks u, systemStep.run t ks = some u → u.Closed e := by
  have hc := piped_of_run hnew hrun
  have hsole := (custody_of_run hnew hrun).sole
  constructor
  · intro o stream popen l t hpopen hget hl hstep ks u hks
    have hopen : c.program.process.table.get (popen.stream stream).get ≠ none := by
      rw [hget]
      exact Option.some_ne_none _
    obtain ⟨hchildren, hrunning, hfewer, hclosed⟩ := closed_of_letsGo hl hstep hpopen hopen
    have hheld : c.HeldBy .program e := ⟨hrunning, _, hget⟩
    have hnone : t.Closed e := by
      intro holder hholder
      cases holder with
      | program =>
        exact (hc.ends.once e).not_refers hget hfewer (hclosed hholder.1) hholder.2
      | child k =>
        obtain ⟨child, hchild, hk⟩ := hholder
        rw [hchildren] at hchild
        have hold : c.HeldBy (.child k) e := ⟨child, hchild, hk⟩
        cases hsole e _ _ hheld hold
    have ht := system_step hc hstep
    exact keepsCustody.unheld hks ht.piped (Nat.lt_of_lt_of_le (hc.made _ e hheld) ht.opened) hnone
  · intro k hk ks t hks hgone ks' u hks'
    have hmade := hc.made _ e hk
    have hne : Holder.child k ≠ .program := by
      intro heq
      cases heq
    have hnone : t.Closed e := by
      intro holder hholder
      have honly := keepsCustody.only hks hc hmade hne (fun h' hh' => hsole e h' _ hh' hk) hholder
      subst honly
      obtain ⟨child, hchild, horigin, -⟩ := hholder
      exact hgone child hchild horigin
    obtain ⟨ht, hmade⟩ := keepsCustody.made_of_run hks hc hmade
    exact keepsCustody.unheld hks' ht hmade hnone

theorem ends_given_up_stay_closed_reset : ∃ c t,
    systemStep.run (init standardParent.table 3) startAndFork = some c ∧
      systemStep c (.program (.reset 0 .stdin closedFd)) = some t ∧ t.Closed (.write 3) := by
  have hrun : systemStep.run (init standardParent.table 3) startAndFork = some _ := rfl
  have hnew : NoPipes standardParent.table := noPipes_of_all rfl
  exact ⟨_, _, hrun, rfl, (ends_given_up_stay_closed hnew hrun (.write 3)).1 0 .stdin _ _ _ rfl rfl
    (.reset closedFd) rfl [] _ rfl⟩

end Closing
end Runs
end PopenSystem

end Linuxpp.Subprocess
