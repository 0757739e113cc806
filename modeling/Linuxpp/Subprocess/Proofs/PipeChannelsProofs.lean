import Linuxpp.Subprocess.Proofs.PipeEndsProofs

/-!
# Proofs: a pipe stream is a channel of its own

The child finds its end of the pipe at the standard descriptor, and the new object has the other. No
other process ever gets the child's end, and the child never gets the object's.
-/

namespace Linuxpp.Subprocess.PopenSystem

variable {c t u : PopenSystem} {streams : Streams} {calls : SystemCalls} {d : SubprocessDescriptor}
  {p₁ : Process} {table started : FdTable} {opened : ℕ} {ls ks : List SystemStep} {s : StdStream}
  {e : PipeEnd} {k : ℕ}

/-- A child that was started is handed nothing any more. -/
theorem never_handed (hc : Piped c) (hrun : systemStep.run c ks = some u) (hmade : c.Made e)
    (hk : k < c.program.started.length) (hnot : ¬ c.HeldBy (.child k) e) :
    ¬ u.HeldBy (.child k) e := by
  have hstep : ∀ s l t, Piped s ∧ s.Made e ∧ k < s.program.started.length ∧
      ¬ s.HeldBy (.child k) e → systemStep s l = some t → Piped t ∧ t.Made e ∧
      k < t.program.started.length ∧ ¬ t.HeldBy (.child k) e := by
    rintro s l t ⟨hs, hmade, hk, hnot⟩ hl
    have ht := system_step hs hl
    refine ⟨ht.piped, Nat.lt_of_lt_of_le hmade ht.opened, Nat.lt_of_lt_of_le hk ht.started, ?_⟩
    intro hheld
    rcases ht.passes _ _ hheld with hold | ⟨heq, -⟩ | ⟨heq, -⟩
    · exact hnot hold
    · cases heq
    · exact Nat.ne_of_lt hk (Holder.child.inj heq)
  exact (Machine.run_invariant hstep hrun ⟨hc, hmade, hk, hnot⟩).2.2.2

/-- `execve` leaves what the child has set up. -/
theorem get_execve_of_setsUp {fd : Int} (h : d.setsUp fd = true) :
    (FdTable.execve d table).get fd = table.get fd := by
  unfold FdTable.execve
  rw [DescriptorTable.get_closeWhere, h]
  cases table.get fd <;> simp

theorem setsUp_fileno (h : (d.get s).toBool = true) : d.setsUp s.fileno = true := by
  unfold SubprocessDescriptor.setsUp
  cases s <;> simp_all [SubprocessDescriptor.get, StdStream.fileno]

/-- The descriptor of a pipe stream for the child is for the child's end. -/
theorem get_childFd_of_pipe (h : StreamsOpened streams table started d)
    (hs : streams.get s = some .pipeStream) :
    ∃ id, started.get (d.childFd s) = some (s.childEnd id).file := by
  obtain ⟨id, hread, hwrite⟩ := h.pipe s hs
  refine ⟨id, ?_⟩
  cases s with
  | stdin => exact hread
  | stdout => exact hwrite
  | stderr => exact hwrite

theorem opposite_childEnd (s : StdStream) (id : ℕ) :
    (s.childEnd id).file.opposite = some (s.childEnd id).other.file := by
  cases s <;> rfl

/-- A constructor that executes a child. -/
theorem construct_of_executes (hexecutes : executedTable streams calls c.program.process =
      some started) (hstep : systemStep c (.popen (.construct streams calls)) = some t) :
    ∃ popen d p₁ pid t', clone streams calls c.program.process = (.ok popen, t.program.process) ∧
      openStreams streams calls c.program.process = (.ok d, p₁) ∧
      keepParentEnds d pid { p₁ with children := pid :: p₁.children } =
        (popen, t.program.process) ∧
      cloneHandler d calls p₁.table = .ok t' ∧ started = FdTable.execve d t' ∧
      c.program.terminated = false ∧ t.program.terminated = false ∧
      t.program.objects = c.program.objects ++ [some (.ofPopen popen)] ∧
      t.program.started = c.program.started ++ [(popen.pid : Int)] ∧
      t.children = c.children ++ [⟨c.program.started.length, started⟩] := by
  obtain ⟨program, hprogram, rfl⟩ := Option.map_eq_some_iff.mp hstep
  obtain ⟨hrunning, happly⟩ := PopenObjects.popenStep_iff.mp hprogram
  cases PopenObjects.applies_of_apply happly with
  | construct _ hfresh =>
    rcases clone_cases streams calls c.program.process with
      ⟨hnone, -⟩ | ⟨popen, p', d, p₁, pid, t', hclone, hopen, hkeep, hexec, hsome⟩
    · cases hexecutes.symm.trans hnone
    have hstarted : started = FdTable.execve d t' :=
      Option.some.inj (hexecutes.symm.trans hsome)
    have hconstruct : c.program.construct streams calls = { c.program with
        objects := c.program.objects ++ [some (.ofPopen popen)]
        process := p'
        started := c.program.started ++ [(popen.pid : Int)] } := by
      unfold PopenObjects.construct
      rw [hclone]
    have hchildren : c.executed (.construct streams calls) =
        [⟨c.program.started.length, started⟩] := by
      rw [executed_construct, hexecutes]
      rfl
    refine ⟨popen, d, p₁, pid, t', ?_, hopen, ?_, hexec, hstarted, hrunning, ?_, ?_, ?_, ?_⟩
    · rw [hconstruct]
      exact hclone
    · rw [hconstruct]
      exact hkeep
    · rw [hconstruct]
      exact hrunning
    · rw [hconstruct]
    · rw [hconstruct]
    · rw [hchildren]

/-- The constructor connects the new object with the child. -/
theorem construct_connects (hopen : openStreams streams calls c.program.process = (.ok d, p₁))
    (hover : streams.OverOpen c.program.process.table)
    (hund : StreamsUndisturbed streams c.program.process.table d)
    (hexecutes : executedTable streams calls c.program.process = some started)
    (hstep : systemStep c (.popen (.construct streams calls)) = some t)
    (hs : streams.get s = some .pipeStream) :
    ∃ id popen, started.get s.fileno = some (s.childEnd id).file ∧
      t.program.object? c.program.objects.length = some popen ∧
      t.program.process.table.get (popen.stream s).get = some (s.childEnd id).other.file := by
  obtain ⟨popen, d', p', pid, t', hclone, hopen', hkeep, hexec, rfl, -, -, hobjects, -, -⟩ :=
    construct_of_executes hexecutes hstep
  obtain ⟨hd, rfl⟩ := Prod.mk.inj (hopen.symm.trans hopen')
  obtain rfl := Except.ok.inj hd
  have hopened := StreamsOpened.of_openStreams hopen hover
  obtain ⟨id, hchildFd⟩ := get_childFd_of_pipe hopened hs
  have hsome : (streams.get s).isSome = true := by
    rw [hs]
    rfl
  refine ⟨id, .ofPopen popen, ?_, ?_, ?_⟩
  · have hset : d.setsUp s.fileno = true := setsUp_fileno ((hopened.toBool s).trans hsome)
    have hwired := (wired_iff_undisturbed hover hopen hexec).mpr hund s
    rw [if_pos hsome, hchildFd] at hwired
    exact (get_execve_of_setsUp hset).trans hwired
  · rw [PopenObjects.object?_eq_some, hobjects, List.getElem?_append_right (Nat.le_refl _),
      Nat.sub_self]
    rfl
  · obtain ⟨childEnd, parentEnd, hend, hopposite, hkept⟩ :=
      keepsPipeEnds hover hopen popen _ hclone s hs
    obtain rfl := Option.some.inj (hchildFd.symm.trans hend)
    obtain rfl := Option.some.inj ((opposite_childEnd s id).symm.trans hopposite)
    rw [ofPopen_stream]
    exact hkept

/-- **Private channels.** In any state that the program and its children reach, let a constructor
execute a child. If the streams do not disturb each other, each pipe stream connects the new object
with the child: the child has its end at the standard descriptor, the object has the other end. In
no later state does anyone but the child and its descendants have the one, or do they have the
other. -/
theorem pipe_stream_is_private (hnew : NoPipes table)
    (hrun : systemStep.run (init table opened) ls = some c)
    (hopen : openStreams streams calls c.program.process = (.ok d, p₁))
    (hover : streams.OverOpen c.program.process.table)
    (hund : StreamsUndisturbed streams c.program.process.table d)
    (hexecutes : executedTable streams calls c.program.process = some started)
    (hstep : systemStep c (.popen (.construct streams calls)) = some t)
    (hs : streams.get s = some .pipeStream) :
    ∃ id popen, ⟨c.program.started.length, started⟩ ∈ t.children ∧
      started.get s.fileno = some (s.childEnd id).file ∧
      t.program.object? c.program.objects.length = some popen ∧
      t.program.process.table.get (popen.stream s).get = some (s.childEnd id).other.file ∧
      ∀ ks u, systemStep.run t ks = some u →
        (∀ h, u.HeldBy h (s.childEnd id) → h = .child c.program.started.length) ∧
        ¬ u.HeldBy (.child c.program.started.length) (s.childEnd id).other := by
  obtain ⟨id, popen, hchild, hobject, hkept⟩ :=
    construct_connects hopen hover hund hexecutes hstep hs
  obtain ⟨popen', -, -, -, -, -, -, -, -, -, -, hrunning, -, hstarted, hchildren⟩ :=
    construct_of_executes hexecutes hstep
  have hmem : (⟨c.program.started.length, started⟩ : ChildProcess) ∈ t.children := by
    rw [hchildren]
    exact List.mem_append_right _ (List.mem_singleton_self _)
  refine ⟨id, popen, hmem, hchild, hobject, hkept, fun ks u hks => ?_⟩
  have hrun' : systemStep.run (init table opened)
      (ls ++ [.popen (.construct streams calls)]) = some t :=
    Machine.run_append_eq_some.mpr ⟨c, hrun, (Machine.run_singleton _ _).trans hstep⟩
  have ht := piped_of_run hnew hrun'
  have hsole := (custody_of_run hnew hrun').sole
  have hends : t.HeldBy (.child c.program.started.length) (s.childEnd id) :=
    ⟨_, hmem, rfl, _, hchild⟩
  have hother : t.HeldBy .program (s.childEnd id).other := ⟨hrunning, _, hkept⟩
  constructor
  · intro h hh
    have hne : Holder.child c.program.started.length ≠ .program := by
      intro heq
      cases heq
    exact keepsCustody.only hks ht (ht.made _ _ hends) hne
      (fun h' hh' => hsole _ h' _ hh' hends) hh
  · have hlt : c.program.started.length < t.program.started.length := by
      rw [hstarted, List.length_append]
      exact Nat.lt_succ_self _
    refine never_handed ht hks (ht.made _ _ hother) hlt fun hboth => ?_
    cases hsole _ _ _ hother hboth

theorem pipe_stream_is_private_stdin : ∃ id t,
    systemStep (init standardParent.table 3) (.popen (.construct pipesInOut succeedingCalls)) =
      some t ∧ ∀ ks u, systemStep.run t ks = some u →
        (∀ h, u.HeldBy h (.read id) → h = .child 0) ∧ ¬ u.HeldBy (.child 0) (.write id) := by
  have hnew : NoPipes standardParent.table := noPipes_of_all rfl
  have hrun : systemStep.run (init standardParent.table 3) [] = some _ := rfl
  obtain ⟨d, p₁, hd, hopen⟩ : ∃ d p₁, d = ⟨⟨3, 4⟩, ⟨5, 6⟩, {}⟩ ∧
    openStreams pipesInOut succeedingCalls standardParent = (.ok d, p₁) := ⟨_, _, rfl, rfl⟩
  have hover : pipesInOut.OverOpen standardParent.table := by
    rintro (_ | _ | _) st hst <;> cases hst <;> trivial
  have hund : StreamsUndisturbed pipesInOut standardParent.table d := by
    subst hd
    refine ⟨?_, ?_, ?_⟩
    · rintro (_ | _ | _) <;> decide
    · rintro (_ | _ | _) (_ | _ | _) <;> decide
    · rintro (_ | _ | _) (_ | _ | _) <;> decide
  have hexecutes : executedTable pipesInOut succeedingCalls standardParent = some _ := rfl
  have hstep : systemStep (init standardParent.table 3)
      (.popen (.construct pipesInOut succeedingCalls)) = some _ := rfl
  have hs : pipesInOut.get .stdin = some .pipeStream := rfl
  obtain ⟨id, popen, -, -, -, -, hprivate⟩ :=
    pipe_stream_is_private hnew hrun hopen hover hund hexecutes hstep hs
  exact ⟨id, _, hstep, hprivate⟩

end Linuxpp.Subprocess.PopenSystem
