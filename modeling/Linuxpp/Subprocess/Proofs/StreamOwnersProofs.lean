import Linuxpp.Subprocess.Proofs.PipeEndsProofs
import Linuxpp.Subprocess.Proofs.ReapedPidsProofs

/-!
# Proofs: whose descriptor it is

A step closes only what no object has afterwards, and what it gives to an object was nobody's. So a
descriptor that an object has is not closed, and its number is not used again, behind its back.
-/

namespace Linuxpp.Subprocess

theorem PopenObject.mem_fds {popen : PopenObject} {fd : Int} :
    fd ∈ popen.fds ↔ fd ≠ closedFd ∧ ∃ stream, (popen.stream stream).get = fd := by
  unfold PopenObject.fds
  rw [List.mem_filter]
  simp only [List.mem_cons, List.not_mem_nil, or_false, decide_eq_true_eq]
  constructor
  · rintro ⟨h | h | h, hne⟩
    · exact ⟨hne, .stdin, h.symm⟩
    · exact ⟨hne, .stdout, h.symm⟩
    · exact ⟨hne, .stderr, h.symm⟩
  · rintro ⟨hne, stream, h⟩
    cases stream with
    | stdin => exact ⟨Or.inl h.symm, hne⟩
    | stdout => exact ⟨Or.inr (Or.inl h.symm), hne⟩
    | stderr => exact ⟨Or.inr (Or.inr h.symm), hne⟩

theorem UniqueFd.mem_reset_iff {u : UniqueFd} {fd fd' : Int} :
    fd' ∈ (u.reset fd).2 ↔ fd' ≠ closedFd ∧ u.get = fd' := by
  have hcloses : (u.reset fd).2 = if u.get ≠ closedFd then [u.get] else [] := rfl
  rw [hcloses]
  by_cases hclosed : u.get = closedFd
  · rw [if_neg (not_not_intro hclosed)]
    refine iff_of_false List.not_mem_nil ?_
    rintro ⟨hne, rfl⟩
    exact hne hclosed
  · rw [if_pos hclosed, List.mem_singleton]
    constructor
    · rintro rfl
      exact ⟨hclosed, rfl⟩
    · rintro ⟨-, rfl⟩
      rfl

theorem PopenObject.mem_closes {popen : PopenObject} {fd : Int} :
    fd ∈ popen.closes ↔ fd ∈ popen.fds := by
  rw [PopenObject.mem_fds]
  unfold PopenObject.closes
  rw [List.mem_append, List.mem_append, UniqueFd.mem_reset_iff, UniqueFd.mem_reset_iff,
    UniqueFd.mem_reset_iff]
  constructor
  · rintro ((⟨hne, h⟩ | ⟨hne, h⟩) | ⟨hne, h⟩)
    · exact ⟨hne, .stderr, h⟩
    · exact ⟨hne, .stdout, h⟩
    · exact ⟨hne, .stdin, h⟩
  · rintro ⟨hne, stream, h⟩
    cases stream with
    | stdin => exact Or.inr ⟨hne, h⟩
    | stdout => exact Or.inl (Or.inr ⟨hne, h⟩)
    | stderr => exact Or.inl (Or.inl ⟨hne, h⟩)

namespace PopenObjects

variable {s t : PopenObjects} {o : ℕ} {popen popen' : PopenObject} {fd : Int}

section Counting

theorem fdOwners_set (h : s.object? o = some popen) (popen' : Option PopenObject) (fd : Int) :
    fdOwners { s with objects := s.objects.set o popen' } fd + popen.fds.count fd =
      s.fdOwners fd + (popen'.elim [] PopenObject.fds).count fd :=
  Slots.sum_map_set_add (object?_eq_some.mp h) _ popen'

theorem fdOwners_append (s : PopenObjects) (popen : PopenObject) (fd : Int) :
    fdOwners { s with objects := s.objects ++ [some popen] } fd =
      s.fdOwners fd + popen.fds.count fd := by
  unfold fdOwners
  rw [List.map_append, List.sum_append_nat]
  exact congrArg (_ + ·) (Nat.add_zero _)

theorem count_fds_le (h : s.object? o = some popen) (fd : Int) :
    popen.fds.count fd ≤ s.fdOwners fd :=
  Slots.le_sum_map (object?_eq_some.mp h) fun popen => (popen.elim [] PopenObject.fds).count fd

theorem fdOwners_pos (h : s.object? o = some popen) (hfd : fd ∈ popen.fds) : 0 < s.fdOwners fd :=
  Nat.lt_of_lt_of_le (List.count_pos_iff.mpr hfd) (count_fds_le h fd)

end Counting

/-- What a step does to the descriptors: `new` are given to objects, `gone` taken from them, and
`closes` closed. -/
structure FdLedger (s t : PopenObjects) (new gone closes : List Int) : Prop where
  owners : ∀ fd, t.fdOwners fd + gone.count fd = s.fdOwners fd + new.count fd
  closed : ∀ fd ∈ closes, t.fdOwners fd = 0
  kept : ∀ fd x, s.process.table.get fd = some x → fd ∉ closes →
    t.process.table.get fd = some x
  nodup : new.Nodup
  fresh : ∀ fd ∈ new, s.fdOwners fd = 0 ∧ t.process.table.get fd ≠ none

/-- **Step rule.** The streams go on having descriptors for themselves. -/
theorem FdLedger.streamsOwn {new gone closes : List Int} (h : FdLedger s t new gone closes)
    (hs : s.StreamsOwn) : t.StreamsOwn := by
  constructor
  · intro fd
    have howners := h.owners fd
    have hone := hs.one fd
    by_cases hnew : fd ∈ new
    · have hzero := (h.fresh fd hnew).1
      have hcount := List.nodup_iff_count_le_one.mp h.nodup fd
      omega
    · have hcount := List.count_eq_zero.mpr hnew
      omega
  · intro fd hpos
    have hnot : fd ∉ closes := fun hmem => Nat.ne_of_gt hpos (h.closed fd hmem)
    by_cases hnew : fd ∈ new
    · exact (h.fresh fd hnew).2
    · have howners := h.owners fd
      have hcount := List.count_eq_zero.mpr hnew
      obtain ⟨x, hx⟩ := Option.ne_none_iff_exists'.mp (hs.isOpen fd (by omega))
      rw [h.kept fd x hx hnot]
      exact Option.some_ne_none x

/-- A step that only moves descriptors between objects, or drops them. -/
theorem FdLedger.of_objects {gone : List Int} (hprocess : t.process.table = s.process.table)
    (howners : ∀ fd, t.fdOwners fd + gone.count fd = s.fdOwners fd) : FdLedger s t [] gone [] where
  owners := fun fd => howners fd
  closed := by simp
  kept := fun fd x hx _ => by rwa [hprocess]
  nodup := List.nodup_nil
  fresh := by simp

/-- A step that closes descriptors that no object has afterwards. -/
theorem FdLedger.of_closes {gone closes : List Int} (u : PopenObjects)
    (hprocess : u.process = s.process)
    (howners : ∀ fd, u.fdOwners fd + gone.count fd = s.fdOwners fd)
    (hclosed : ∀ fd ∈ closes, u.fdOwners fd = 0) : FdLedger s (u.closeAll closes) [] gone closes where
  owners := fun fd => howners fd
  closed := hclosed
  kept := by
    intro fd x hx hnot
    show (closes.foldl DescriptorTable.close u.process.table).get fd = some x
    rw [hprocess, DescriptorTable.get_foldl_close_of_not_mem hnot, hx]
  nodup := List.nodup_nil
  fresh := by simp

end PopenObjects

section Constructor

variable {streams : Streams} {calls : SystemCalls} {p p' p₁ : Process} {d : SubprocessDescriptor}
  {s s' : StdStream} {fd fd' : Int}

/-- The tables before and after each of the streams was opened. -/
theorem openStreams_tables (hopen : openStreams streams calls p = (.ok d, p₁))
    (hover : streams.OverOpen p.table) : ∃ before after : StdStream → FdTable,
    (∀ s, Opened (streams.get s) (before s) (after s) (d.get s)) ∧
    (∀ s s', s.fileno < s'.fileno → (after s).Extends (before s')) ∧
    (∀ s, p.table.Extends (before s)) := by
  obtain ⟨q, q', hstdin, hstdout, hstderr⟩ := openStreams_ok hopen
  have hin := Opened.of_openStream hstdin (hover .stdin)
  have hout := Opened.of_openStream hstdout fun st hst => (hover .stdout st hst).mono hin.grows
  have herr := Opened.of_openStream hstderr fun st hst =>
    (hover .stderr st hst).mono (hin.grows.trans hout.grows)
  refine ⟨StdStream.rec p.table q.table q'.table, StdStream.rec q.table q'.table p₁.table,
    ?_, ?_, ?_⟩
  · intro s
    cases s with
    | stdin => exact hin
    | stdout => exact hout
    | stderr => exact herr
  · intro s s' hlt
    cases s <;> cases s' <;> first
      | exact absurd hlt (by decide)
      | exact .refl _
      | exact hout.grows
  · intro s
    cases s with
    | stdin => exact .refl _
    | stdout => exact hin.grows
    | stderr => exact hin.grows.trans hout.grows

variable {program : PopenObjects}

/-- A descriptor of a stream is new, or it is one that the program has given away. -/
theorem uses_new_or_given (hopen : openStreams streams calls p = (.ok d, p₁))
    (hover : streams.OverOpen p.table) (hs : streams.get s ≠ none) (hfd : (d.get s).Uses fd) :
    p.table.get fd = none ∨ ∃ readFd writeFd,
      streams.get s = some (.fdStream readFd writeFd) ∧ (fd = readFd ∨ fd = writeFd) := by
  obtain ⟨before, after, hopened, -, hgrows⟩ := openStreams_tables hopen hover
  obtain ⟨st, hst⟩ := Option.ne_none_iff_exists'.mp hs
  cases hopens : st.opens with
  | true => exact Or.inl (get_eq_none_of_extends (hgrows s) ((hopened s).fresh st hst hopens fd hfd))
  | false =>
    cases st with
    | fdStream readFd writeFd =>
      rw [(hopened s).given readFd writeFd hst] at hfd
      exact Or.inr ⟨readFd, writeFd, hst, hfd⟩
    | _ => cases hopens

/-- What a stream opens is no descriptor of another stream. -/
theorem uses_ne_of_opens (hopen : openStreams streams calls p = (.ok d, p₁))
    (hover : streams.OverOpen p.table) (hne : s ≠ s') {st : Stream}
    (hst : streams.get s = some st) (hopens : st.opens = true) (hs' : streams.get s' ≠ none)
    (hfd : (d.get s).Uses fd) (hfd' : (d.get s').Uses fd') : fd' ≠ fd := by
  obtain ⟨before, after, hopened, hlater, hgrows⟩ := openStreams_tables hopen hover
  have hfresh := (hopened s).fresh st hst hopens fd hfd
  have hfileno : s.fileno ≠ s'.fileno := fun heq => hne (StdStream.fileno_inj heq)
  rcases Int.lt_or_gt_of_ne hfileno with hlt | hgt
  · obtain ⟨st', hst'⟩ := Option.ne_none_iff_exists'.mp hs'
    have hconfigured : streams.get s ≠ none := by
      rw [hst]
      exact Option.some_ne_none _
    cases hopens' : st'.opens with
    | true =>
      have hopen := (hlater s s' hlt).get_ne_none ((hopened s).usable hconfigured fd hfd)
      exact (DescriptorTable.ne_of_get hopen ((hopened s').fresh st' hst' hopens' fd' hfd')).symm
    | false =>
      cases st' with
      | fdStream readFd writeFd =>
        rw [(hopened s').given readFd writeFd hst'] at hfd'
        have hboth := hover s' _ hst'
        have hopen : p.table.get fd' ≠ none := by
          rcases hfd' with rfl | rfl
          · exact hboth.1
          · exact hboth.2
        exact DescriptorTable.ne_of_get ((hgrows s).get_ne_none hopen) hfresh
      | _ => cases hopens'
  · have hopen := (hlater s' s hgt).get_ne_none ((hopened s').usable hs' fd' hfd')
    exact DescriptorTable.ne_of_get hopen hfresh

theorem PopenObjects.GivesAway.overOpen (h : program.GivesAway streams) :
    streams.OverOpen program.process.table := by
  intro s st hst
  cases st with
  | fdStream readFd writeFd =>
    obtain ⟨hread, hwrite⟩ := h.spare s readFd writeFd hst
    exact ⟨hread.isOpen, hwrite.isOpen⟩
  | _ => trivial

/-- The streams have no descriptor in common. -/
theorem uses_apart (hgives : program.GivesAway streams)
    (hopen : openStreams streams calls program.process = (.ok d, p₁)) (hne : s ≠ s')
    (hs : streams.get s ≠ none) (hs' : streams.get s' ≠ none) (hfd : (d.get s).Uses fd)
    (hfd' : (d.get s').Uses fd') : fd ≠ fd' := by
  have hover := hgives.overOpen
  obtain ⟨st, hst⟩ := Option.ne_none_iff_exists'.mp hs
  obtain ⟨st', hst'⟩ := Option.ne_none_iff_exists'.mp hs'
  cases hopens : st.opens with
  | true => exact (uses_ne_of_opens hopen hover hne hst hopens hs' hfd hfd').symm
  | false =>
    cases hopens' : st'.opens with
    | true => exact uses_ne_of_opens hopen hover hne.symm hst' hopens' hs hfd' hfd
    | false =>
      cases st with
      | fdStream readFd writeFd =>
        cases st' with
        | fdStream readFd' writeFd' =>
          obtain ⟨before, after, hopened, -, -⟩ := openStreams_tables hopen hover
          rw [(hopened s).given _ _ hst] at hfd
          rw [(hopened s').given _ _ hst'] at hfd'
          obtain ⟨hrr, hrw, hwr, hww⟩ := hgives.apart s s' _ _ _ _ hne hst hst'
          rcases hfd with rfl | rfl <;> rcases hfd' with rfl | rfl <;> assumption
        | _ => cases hopens'
      | _ => cases hopens

/-- Nobody has a descriptor of a stream before the constructor returns. -/
theorem fdOwners_of_uses (hown : program.StreamsOwn) (hgives : program.GivesAway streams)
    (hopen : openStreams streams calls program.process = (.ok d, p₁))
    (hs : streams.get s ≠ none) (hfd : (d.get s).Uses fd) : program.fdOwners fd = 0 := by
  rcases uses_new_or_given hopen hgives.overOpen hs hfd with hnew | ⟨readFd, writeFd, hst, hgiven⟩
  · by_contra hpos
    exact hown.isOpen fd (Nat.pos_of_ne_zero hpos) hnew
  · obtain ⟨hread, hwrite⟩ := hgives.spare s readFd writeFd hst
    rcases hgiven with rfl | rfl
    · exact hread.unowned
    · exact hwrite.unowned

theorem keepParentEnd_get_eq {stream : StreamDescriptors} (parentFd childFd : Int) (t : FdTable) :
    (keepParentEnd stream parentFd childFd t).1.get =
      if stream.toBool = true ∧ parentFd ≠ childFd then parentFd else closedFd := by
  unfold keepParentEnd
  by_cases hb : stream.toBool = true
  · rw [if_pos hb]
    by_cases hne : parentFd ≠ childFd
    · rw [if_pos ⟨hb, hne⟩]
      exact if_pos hne
    · rw [if_neg fun h => hne h.2]
      exact if_neg hne
  · rw [if_neg hb, if_neg fun h => hb h.1]
    rfl

/-- What the new object has is the other descriptor of a stream. -/
theorem keepParentEnds_get_eq (d : SubprocessDescriptor) (pid : ℕ) (p : Process) (s : StdStream) :
    (keepParentEnds d pid p).1.get s =
      if (d.get s).toBool = true ∧ d.otherFd s ≠ d.childFd s then d.otherFd s else closedFd := by
  cases s <;> exact keepParentEnd_get_eq _ _ _

theorem PopenObject.fds_nodup {popen : PopenObject}
    (h : ∀ stream stream', stream ≠ stream' → (popen.stream stream).get ≠ closedFd →
      (popen.stream stream).get ≠ (popen.stream stream').get) : popen.fds.Nodup := by
  unfold PopenObject.fds List.Nodup
  rw [List.pairwise_filter]
  have hne : ∀ stream stream', stream ≠ stream' →
      decide ((popen.stream stream).get ≠ closedFd) = true →
      decide ((popen.stream stream').get ≠ closedFd) = true →
      (popen.stream stream).get ≠ (popen.stream stream').get :=
    fun stream stream' hne hopen _ => h stream stream' hne (of_decide_eq_true hopen)
  refine List.pairwise_cons.mpr ⟨?_, List.pairwise_cons.mpr ⟨?_, List.pairwise_singleton _ _⟩⟩
  · intro fd hfd
    rcases List.mem_pair.mp hfd with rfl | rfl
    · exact hne .stdin .stdout (by decide)
    · exact hne .stdin .stderr (by decide)
  · intro fd hfd
    obtain rfl := List.mem_singleton.mp hfd
    exact hne .stdout .stderr (by decide)

/-- The constructor gives the new object what it has opened or was given, and closes what was meant
for the child. -/
theorem construct_ledger (hown : program.StreamsOwn) (hgives : program.GivesAway streams)
    (calls : SystemCalls) :
    ∃ new closes, PopenObjects.FdLedger program (program.construct streams calls) new [] closes := by
  have hover := hgives.overOpen
  have hprocess := (construct_process program streams calls).1
  cases hclone : clone streams calls program.process with
  | mk result p' =>
    rw [hclone] at hprocess
    cases result with
    | error e =>
      refine ⟨[], [], ?_⟩
      have hobjects : (program.construct streams calls).objects = program.objects := by
        unfold PopenObjects.construct
        rw [hclone]
        cases e <;> rfl
      have howners : ∀ fd, (program.construct streams calls).fdOwners fd = program.fdOwners fd := by
        intro fd
        unfold PopenObjects.fdOwners
        rw [hobjects]
      refine ⟨fun fd => howners fd, nofun, fun fd x hx _ => ?_, List.nodup_nil, nofun⟩
      rw [hprocess, (clone_error hclone).1]
      exact (openAll_keeps _ _).table fd x hx
    | ok popen =>
      obtain ⟨d, p₁, pid, hopen, hkeep⟩ := clone_ok hclone
      have hopened := StreamsOpened.of_openStreams hopen hover
      have hconfigured : ∀ s, (d.get s).toBool = true ↔ streams.get s ≠ none := fun s => by
        rw [hopened.toBool s, Option.isSome_iff_ne_none]
      have hpopen : (keepParentEnds d pid { p₁ with children := pid :: p₁.children }).1 = popen :=
        congrArg Prod.fst hkeep
      have hp' : (keepParentEnds d pid { p₁ with children := pid :: p₁.children }).2 = p' :=
        congrArg Prod.snd hkeep
      -- what the object gets
      have hgets : ∀ s, popen.get s ≠ closedFd → streams.get s ≠ none ∧
          d.otherFd s ≠ d.childFd s ∧ popen.get s = d.otherFd s := by
        intro s hne
        have hget := keepParentEnds_get_eq d pid { p₁ with children := pid :: p₁.children } s
        rw [hpopen] at hget
        split_ifs at hget with hb
        · exact ⟨(hconfigured s).mp hb.1, hb.2, hget⟩
        · exact absurd hget hne
      have hnotChild : ∀ s s', popen.get s ≠ closedFd → streams.get s' ≠ none →
          popen.get s ≠ d.childFd s' := by
        intro s s' hne hs'
        obtain ⟨hs, hother, hget⟩ := hgets s hne
        rw [hget]
        by_cases heq : s = s'
        · exact heq ▸ hother
        · exact uses_apart hgives hopen heq hs hs' (uses_otherFd d s) (uses_childFd d s')
      have hmem : ∀ fd ∈ (PopenObject.ofPopen popen).fds, ∃ s, popen.get s ≠ closedFd ∧
          popen.get s = fd := by
        intro fd hfd
        obtain ⟨hne, s, hs⟩ := PopenObject.mem_fds.mp hfd
        rw [ofPopen_stream] at hs
        exact ⟨s, hs ▸ hne, hs⟩
      have howners : ∀ fd, (program.construct streams calls).fdOwners fd =
          program.fdOwners fd + (PopenObject.ofPopen popen).fds.count fd := by
        intro fd
        rw [← PopenObjects.fdOwners_append]
        unfold PopenObjects.construct
        rw [hclone]
        rfl
      refine ⟨(PopenObject.ofPopen popen).fds,
        (StdStream.all.filter fun s => (d.get s).toBool).map d.childFd, ?_, ?_, ?_, ?_, ?_⟩
      · exact fun fd => howners fd
      · intro fd hfd
        obtain ⟨s, hs, rfl⟩ := List.mem_map.mp hfd
        have hs' := (hconfigured s).mp (List.mem_filter.mp hs).2
        rw [howners, fdOwners_of_uses hown hgives hopen hs' (uses_childFd d s), Nat.zero_add,
          List.count_eq_zero]
        intro hchild
        obtain ⟨s', hne, heq⟩ := hmem _ hchild
        exact hnotChild s' s hne hs' heq
      · intro fd x hx hnot
        rw [hprocess, ← hp', keepParentEnds_table]
        · exact hopened.grows fd x hx
        · rintro s hs rfl
          exact hnot (List.mem_map_of_mem (List.mem_filter.mpr ⟨s.mem_all, hs⟩))
      · refine PopenObject.fds_nodup fun s s' hne hfd heq => ?_
        rw [ofPopen_stream] at hfd
        rw [ofPopen_stream, ofPopen_stream] at heq
        obtain ⟨hs, -, hget⟩ := hgets s hfd
        obtain ⟨hs', -, hget'⟩ := hgets s' (heq ▸ hfd)
        rw [hget, hget'] at heq
        exact uses_apart hgives hopen hne hs hs' (uses_otherFd d s) (uses_otherFd d s') heq
      · intro fd hfd
        obtain ⟨s, hne, rfl⟩ := hmem fd hfd
        obtain ⟨hs, -, hget⟩ := hgets s hne
        constructor
        · rw [hget]
          exact fdOwners_of_uses hown hgives hopen hs (uses_otherFd d s)
        · rw [hprocess, ← hp', keepParentEnds_table]
          · rw [hget]
            exact hopened.usable s hs _ (uses_otherFd d s)
          · intro s' hs'
            exact hnotChild s s' hne ((hconfigured s').mp hs')

end Constructor

namespace PopenObjects

variable {s t : PopenObjects} {o : ℕ} {popen : PopenObject}

section Operations

theorem fds_eq (popen : PopenObject) : popen.fds = FdObjects.descriptors popen.stdin.get ++
    (FdObjects.descriptors popen.stdout.get ++ FdObjects.descriptors popen.stderr.get) := by
  have hone : ∀ fd : Int, [fd].filter (· ≠ closedFd) = FdObjects.descriptors fd := by
    intro fd
    unfold FdObjects.descriptors
    by_cases hclosed : fd = closedFd <;> simp [hclosed]
  show ([popen.stdin.get] ++ ([popen.stdout.get] ++ [popen.stderr.get])).filter _ = _
  rw [List.filter_append, List.filter_append, hone, hone, hone]

/-- An assignment to a stream takes the old descriptor from the object and gives it the new one. -/
theorem count_withStream (popen : PopenObject) (stream : StdStream) (u : UniqueFd) (fd : Int) :
    (popen.withStream stream u).fds.count fd +
        (FdObjects.descriptors (popen.stream stream).get).count fd =
      popen.fds.count fd + (FdObjects.descriptors u.get).count fd := by
  rw [fds_eq, fds_eq]
  simp only [List.count_append]
  cases stream <;> simp only [PopenObject.withStream, PopenObject.stream] <;> omega

theorem fdOwners_setStream (hpopen : s.object? o = some popen) (stream : StdStream) (u : UniqueFd)
    (fd : Int) : (s.setStream o popen stream u).fdOwners fd +
        (FdObjects.descriptors (popen.stream stream).get).count fd =
      s.fdOwners fd + (FdObjects.descriptors u.get).count fd := by
  have hset : (s.setStream o popen stream u).fdOwners fd + popen.fds.count fd =
      s.fdOwners fd + (popen.withStream stream u).fds.count fd :=
    fdOwners_set hpopen (some (popen.withStream stream u)) fd
  have hcount := count_withStream popen stream u fd
  omega

theorem fdOwners_blank (popen : PopenObject) (h : popen.fds = []) (fd : Int) :
    ((some popen).elim [] PopenObject.fds).count fd = 0 := by
  show popen.fds.count fd = 0
  rw [h]
  rfl

theorem wait_ledger {options : UInt32} {outcome : WaitidOutcome}
    {result : Except ChildError Status} (h : s.wait o options outcome = some (result, t)) :
    FdLedger s t [] [] [] := by
  obtain ⟨popen, hpopen, ⟨-, -, rfl⟩ | ⟨-, call, -, -, ⟨-, rfl⟩ | ⟨-, status, -, -, rfl⟩⟩⟩ :=
    wait_cases h
  · exact .of_objects rfl fun fd => rfl
  · exact .of_objects rfl fun fd => rfl
  · refine .of_objects rfl fun fd => ?_
    have hset := fdOwners_set hpopen (some { popen with pid := {}, status := status }) fd
    have hfds : (some ({ popen with pid := {}, status := status } : PopenObject)).elim []
        PopenObject.fds = popen.fds := rfl
    rw [hfds] at hset
    exact Nat.add_right_cancel hset

/-- **Operations on objects.** -/
theorem apply_ledger (hown : s.StreamsOwn) {op : PopenOp} (h : s.apply op = some t)
    (hgives : ∀ streams calls, op = .construct streams calls → s.GivesAway streams) :
    ∃ new gone closes, FdLedger s t new gone closes := by
  cases op with
  | construct streams calls =>
    cases applies_of_apply h with
    | construct streams hfresh =>
      obtain ⟨new, closes, hledger⟩ := construct_ledger hown (hgives streams calls rfl) calls
      exact ⟨new, [], closes, hledger⟩
  | defaultConstruct =>
    obtain rfl := Option.some.inj h
    exact ⟨[], [], [], .of_objects rfl fun fd => fdOwners_append s {} fd⟩
  | moveConstruct src =>
    obtain ⟨popen, hsrc, rfl⟩ := Option.map_eq_some_iff.mp h
    refine ⟨[], [], [], .of_objects rfl fun fd => ?_⟩
    have hset := fdOwners_set hsrc (some {}) fd
    rw [fdOwners_blank {} rfl] at hset
    exact (fdOwners_append { s with objects := s.objects.set src (some {}) } popen fd).trans hset
  | moveAssign dst src =>
    obtain ⟨popen, hdst, h⟩ := Option.bind_eq_some_iff.mp h
    obtain ⟨popen', hsrc, rfl⟩ := Option.map_eq_some_iff.mp h
    refine ⟨[], popen.fds, [], .of_objects rfl fun fd => ?_⟩
    exact Slots.sum_map_move (object?_eq_some.mp hdst) (object?_eq_some.mp hsrc) _
      (fdOwners_blank _ rfl fd)
  | swap a b =>
    obtain ⟨popen, ha, h⟩ := Option.bind_eq_some_iff.mp h
    obtain ⟨popen', hb, rfl⟩ := Option.map_eq_some_iff.mp h
    refine ⟨[], [], [], .of_objects rfl fun fd => ?_⟩
    exact Slots.sum_map_exchange (object?_eq_some.mp ha) (object?_eq_some.mp hb) _
  | wait o outcome | poll o outcome =>
    obtain ⟨⟨result, t'⟩, hwait, rfl⟩ := Option.map_eq_some_iff.mp h
    exact ⟨[], [], [], wait_ledger hwait⟩
  | signal o signal failure =>
    obtain ⟨⟨result, t'⟩, hsignal, rfl⟩ := Option.map_eq_some_iff.mp h
    obtain ⟨hobjects, hprocess⟩ := signal_objects hsignal
    refine ⟨[], [], [], .of_objects (congrArg Process.table hprocess) fun fd => ?_⟩
    unfold fdOwners
    rw [hobjects]
    rfl
  | destroy o =>
    cases applies_of_apply h with
    | terminate hpopen hhas => exact ⟨[], [], [], .of_objects rfl fun fd => rfl⟩
    | @destroy _ popen hpopen hhas =>
      have hset : ∀ fd, fdOwners { s with objects := s.objects.set o none } fd +
          popen.fds.count fd = s.fdOwners fd := fun fd => fdOwners_set hpopen none fd
      refine ⟨[], popen.fds, popen.closes,
        .of_closes { s with objects := s.objects.set o none } rfl hset fun fd hfd => ?_⟩
      have hcount := List.count_pos_iff.mpr (PopenObject.mem_closes.mp hfd)
      have hone := hown.one fd
      have howners := hset fd
      omega

theorem mem_descriptors {fd fd' : Int} :
    fd ∈ FdObjects.descriptors fd' ↔ fd ≠ closedFd ∧ fd = fd' := by
  unfold FdObjects.descriptors
  by_cases hclosed : fd' = closedFd
  · rw [if_pos hclosed]
    refine iff_of_false List.not_mem_nil ?_
    rintro ⟨hne, rfl⟩
    exact hne hclosed
  · rw [if_neg hclosed, List.mem_singleton]
    constructor
    · rintro rfl
      exact ⟨hclosed, rfl⟩
    · exact And.right

/-- `reset` closes the old descriptor of the stream, and gives the object the new one. -/
theorem reset_ledger (hown : s.StreamsOwn) (hpopen : s.object? o = some popen)
    (stream : StdStream) (fd : Int) (hfd : fd = closedFd ∨ s.Spare fd) :
    FdLedger s
      ((s.setStream o popen stream ((popen.stream stream).reset fd).1).closeAll
        ((popen.stream stream).reset fd).2)
      (FdObjects.descriptors fd) (FdObjects.descriptors (popen.stream stream).get)
      ((popen.stream stream).reset fd).2 := by
  have howners := fdOwners_setStream hpopen stream ((popen.stream stream).reset fd).1
  have hzero : ∀ fd' ∈ FdObjects.descriptors fd, s.Spare fd' := by
    intro fd' hmem
    obtain ⟨hne, rfl⟩ := mem_descriptors.mp hmem
    exact hfd.resolve_left hne
  have hclosed : ∀ fd' ∈ ((popen.stream stream).reset fd).2,
      (s.setStream o popen stream ((popen.stream stream).reset fd).1).fdOwners fd' = 0 := by
    intro fd' hmem
    obtain ⟨hne, hold⟩ := UniqueFd.mem_reset_iff.mp hmem
    have hpos : 0 < s.fdOwners fd' := fdOwners_pos hpopen (PopenObject.mem_fds.mpr ⟨hne, stream, hold⟩)
    have hone := hown.one fd'
    have hgone : 0 < (FdObjects.descriptors (popen.stream stream).get).count fd' :=
      List.count_pos_iff.mpr (mem_descriptors.mpr ⟨hne, hold.symm⟩)
    have hnew : (FdObjects.descriptors fd).count fd' = 0 := by
      rw [List.count_eq_zero]
      intro hmem'
      exact Nat.ne_of_gt hpos (hzero fd' hmem').unowned
    have hset : _ = s.fdOwners fd' + (FdObjects.descriptors fd).count fd' := howners fd'
    omega
  refine ⟨fun fd' => howners fd', hclosed, ?_, ?_, fun fd' hmem => ⟨(hzero fd' hmem).unowned, ?_⟩⟩
  · intro fd' x hx hnot
    exact (DescriptorTable.get_foldl_close_of_not_mem hnot).trans hx
  · unfold FdObjects.descriptors
    split_ifs
    · exact List.nodup_nil
    · exact List.nodup_singleton fd
  · have hspare := hzero fd' hmem
    have hnot : fd' ∉ ((popen.stream stream).reset fd).2 := by
      intro hmem'
      obtain ⟨hne, hold⟩ := UniqueFd.mem_reset_iff.mp hmem'
      have hpos := fdOwners_pos hpopen (PopenObject.mem_fds.mpr ⟨hne, stream, hold⟩)
      exact Nat.ne_of_gt hpos hspare.unowned
    exact (DescriptorTable.get_foldl_close_of_not_mem hnot).symm ▸ hspare.isOpen

/-- **The other operations of the program.** -/
theorem perform_ledger (hown : s.StreamsOwn) {op : ProgramOp} (h : s.perform op = some t)
    (hreset : ∀ o stream fd, op = .reset o stream fd → fd = closedFd ∨ s.Spare fd)
    (hclose : ∀ fd, op = .close fd → s.fdOwners fd = 0) :
    ∃ new gone closes, FdLedger s t new gone closes := by
  have hopens : ∀ p : Process, Keeps s.process p → FdLedger s (s.withProcess p) [] [] [] :=
    fun p hp => ⟨fun fd => rfl, nofun, fun fd x hx _ => hp.table fd x hx, List.nodup_nil, nofun⟩
  cases op with
  | reset o stream fd =>
    obtain ⟨popen, hpopen, rfl⟩ := Option.map_eq_some_iff.mp h
    exact ⟨_, _, _, reset_ledger hown hpopen stream fd (hreset o stream fd rfl)⟩
  | release o stream =>
    obtain ⟨popen, hpopen, rfl⟩ := Option.map_eq_some_iff.mp h
    exact ⟨[], _, [], .of_objects rfl (fdOwners_setStream hpopen stream _)⟩
  | openPath path failure =>
    obtain rfl := Option.some.inj h
    exact ⟨[], [], [], hopens _ (openStream_keeps (some (.pathStream path)) s.process failure)⟩
  | openPipe failure =>
    obtain rfl := Option.some.inj h
    exact ⟨[], [], [], hopens _ (openStream_keeps (some .pipeStream) s.process failure)⟩
  | close fd =>
    obtain rfl := Option.some.inj h
    refine ⟨[], [], [fd], .of_closes s rfl (fun fd => rfl) fun fd' hmem => ?_⟩
    obtain rfl := List.mem_singleton.mp hmem
    exact hclose _ rfl

end Operations

section Alone

/-- An operation that leaves an object alone leaves it its streams. -/
theorem object?_apply {op : PopenOp} (h : s.apply op = some t) (halone : LeavesAlone o op)
    (hpopen : s.object? o = some popen) :
    ∃ popen', t.object? o = some popen' ∧ ∀ stream, popen'.stream stream = popen.stream stream := by
  have hwait : ∀ {o' options outcome result}, s.wait o' options outcome = some (result, t) →
      ∃ popen', t.object? o = some popen' ∧
        ∀ stream, popen'.stream stream = popen.stream stream := by
    intro o' options outcome result hwait
    obtain ⟨popen', hpopen', ⟨-, -, rfl⟩ | ⟨-, call, -, -, ⟨-, rfl⟩ | ⟨-, status, -, -, rfl⟩⟩⟩ :=
      wait_cases hwait
    · exact ⟨popen, hpopen, fun _ => rfl⟩
    · exact ⟨popen, hpopen, fun _ => rfl⟩
    · by_cases heq : o' = o
      · subst heq
        obtain rfl := Option.some.inj (hpopen.symm.trans hpopen')
        have hlt := (List.getElem?_eq_some_iff.mp (object?_eq_some.mp hpopen)).1
        refine ⟨{ popen with pid := {}, status := status }, ?_, fun stream => by cases stream <;> rfl⟩
        exact object?_eq_some.mpr (List.getElem?_set_self hlt)
      · exact ⟨popen, (object?_set_ne heq _).trans hpopen, fun _ => rfl⟩
  cases applies_of_apply h with
  | construct streams hfresh =>
    unfold PopenObjects.construct
    split
    · exact ⟨popen, object?_append hpopen _, fun _ => rfl⟩
    · exact ⟨popen, hpopen, fun _ => rfl⟩
    · exact ⟨popen, hpopen, fun _ => rfl⟩
  | defaultConstruct => exact ⟨popen, object?_append hpopen _, fun _ => rfl⟩
  | @moveConstruct src popen' hsrc =>
    have hset : ({ s with objects := s.objects.set src (some {}) } : PopenObjects).object? o =
        some popen := (object?_set_ne halone _).trans hpopen
    exact ⟨popen, object?_append hset _, fun _ => rfl⟩
  | @moveAssign dst src popen₁ popen₂ left hdst hsrc hleft =>
    have hset : ({ s with objects := s.objects.set dst (some popen₂) } : PopenObjects).object? o =
        some popen := (object?_set_ne halone.1 _).trans hpopen
    exact ⟨popen, (object?_set_ne halone.2 _).trans hset, fun _ => rfl⟩
  | @swap a b popen₁ popen₂ ha hb =>
    have hset : ({ s with objects := s.objects.set a (some popen₂) } : PopenObjects).object? o =
        some popen := (object?_set_ne halone.1 _).trans hpopen
    exact ⟨popen, (object?_set_ne halone.2 _).trans hset, fun _ => rfl⟩
  | wait h | poll h => exact hwait h
  | signal | signalNone | terminate => exact ⟨popen, hpopen, fun _ => rfl⟩
  | destroy => exact ⟨popen, (object?_set_ne halone _).trans hpopen, fun _ => rfl⟩

theorem object?_perform {op : ProgramOp} (h : s.perform op = some t)
    (halone : SystemStep.Spares o (.program op)) (hpopen : s.object? o = some popen) :
    t.object? o = some popen := by
  cases op with
  | reset o' stream fd | release o' stream =>
    obtain ⟨popen', -, rfl⟩ := Option.map_eq_some_iff.mp h
    exact (object?_set_ne halone _).trans hpopen
  | openPath path failure | openPipe failure =>
    obtain rfl := Option.some.inj h
    exact hpopen
  | close fd =>
    obtain rfl := Option.some.inj h
    exact hpopen

end Alone

end PopenObjects

namespace PopenSystem

variable {c t u : PopenSystem} {l : SystemStep} {ls ks : List SystemStep} {table : FdTable}
  {opened o : ℕ} {popen : PopenObject} {stream : StdStream} {f : OpenFile}

/-- What a step does to the descriptors of the program. -/
theorem system_ledger (hown : c.program.StreamsOwn) (hkeeps : KeepsToItsOwn c l)
    (h : systemStep c l = some t) :
    ∃ new gone closes, PopenObjects.FdLedger c.program t.program new gone closes := by
  cases l with
  | popen op =>
    obtain ⟨program, hprogram, rfl⟩ := Option.map_eq_some_iff.mp h
    obtain ⟨-, happly⟩ := PopenObjects.popenStep_iff.mp hprogram
    refine PopenObjects.apply_ledger hown happly fun streams calls heq => ?_
    subst heq
    exact hkeeps
  | program op =>
    obtain ⟨-, h⟩ := Option.ite_none_left_eq_some.mp h
    obtain ⟨program, hprogram, rfl⟩ := Option.map_eq_some_iff.mp h
    refine PopenObjects.perform_ledger hown hprogram (fun o stream fd heq => ?_) fun fd heq => ?_
    · subst heq
      exact hkeeps
    · subst heq
      exact hkeeps
  | child i op =>
    obtain ⟨hprogram, -⟩ := childStep_comeFrom h
    rw [hprogram]
    exact ⟨[], [], [], .of_objects rfl fun fd => rfl⟩

theorem streamsOwn_step (hown : c.program.StreamsOwn) (hkeeps : KeepsToItsOwn c l)
    (h : systemStep c l = some t) : t.program.StreamsOwn := by
  obtain ⟨new, gone, closes, hledger⟩ := system_ledger hown hkeeps h
  exact hledger.streamsOwn hown

/-- The object has the stream with the descriptor of `u`, which refers to `f`. -/
def StreamIs (o : ℕ) (stream : StdStream) (u : UniqueFd) (f : OpenFile) (c : PopenSystem) : Prop :=
  ∃ popen, c.program.object? o = some popen ∧ popen.stream stream = u ∧
    c.program.process.table.get u.get = some f

/-- A step that spares the object spares its streams, and what they refer to. -/
theorem StreamIs.step {v : UniqueFd} (his : StreamIs o stream v f c) (hown : c.program.StreamsOwn)
    (hkeeps : KeepsToItsOwn c l) (hspares : l.Spares o) (h : systemStep c l = some t) :
    StreamIs o stream v f t := by
  obtain ⟨popen, hpopen, hstream, hget⟩ := his
  obtain ⟨popen', hpopen', hstream'⟩ : ∃ popen', t.program.object? o = some popen' ∧
      popen'.stream stream = v := by
    cases l with
    | popen op =>
      obtain ⟨program, hprogram, rfl⟩ := Option.map_eq_some_iff.mp h
      obtain ⟨-, happly⟩ := PopenObjects.popenStep_iff.mp hprogram
      obtain ⟨popen', hpopen', hsame⟩ := PopenObjects.object?_apply happly hspares hpopen
      exact ⟨popen', hpopen', (hsame stream).trans hstream⟩
    | program op =>
      obtain ⟨-, h⟩ := Option.ite_none_left_eq_some.mp h
      obtain ⟨program, hprogram, rfl⟩ := Option.map_eq_some_iff.mp h
      exact ⟨popen, PopenObjects.object?_perform hprogram hspares hpopen, hstream⟩
    | child i op =>
      obtain ⟨hprogram, -⟩ := childStep_comeFrom h
      exact ⟨popen, hprogram ▸ hpopen, hstream⟩
  obtain ⟨new, gone, closes, hledger⟩ := system_ledger hown hkeeps h
  refine ⟨popen', hpopen', hstream', hledger.kept _ f hget fun hclosed => ?_⟩
  -- the object still has it
  have hopen : v.get ≠ closedFd := by
    intro heq
    rw [heq, DescriptorTable.get_of_neg (by decide)] at hget
    cases hget
  have hmem : v.get ∈ popen'.fds :=
    PopenObject.mem_fds.mpr ⟨hopen, stream, congrArg UniqueFd.get hstream'⟩
  exact Nat.ne_of_gt (PopenObjects.fdOwners_pos hpopen' hmem) (hledger.closed _ hclosed)

theorem streamsOwn_init (table : FdTable) (opened : ℕ) : (init table opened).program.StreamsOwn :=
  ⟨fun _ => Nat.zero_le _, fun _ hpos => absurd hpos (Nat.lt_irrefl 0)⟩

/-- **Descriptors of their own.** In every run in which the program gives away and closes only
descriptors that no object has, no two streams of `popen` objects share a descriptor and all of them
are open; and a stream keeps its descriptor, and the descriptor the file that it refers to, through
any further such run that does not touch the object. -/
theorem streams_keep_their_descriptors
    (hrun : systemStep.run (init table opened) ls = some c)
    (hkeeps : systemStep.Along KeepsToItsOwn (init table opened) ls) :
    c.program.StreamsOwn ∧
    ∀ o popen stream f, c.program.object? o = some popen →
      c.program.process.table.get (popen.stream stream).get = some f →
      ∀ ks u, systemStep.run c ks = some u → systemStep.Along KeepsToItsOwn c ks →
      (∀ l ∈ ks, l.Spares o) → StreamIs o stream (popen.stream stream) f u := by
  have hown : c.program.StreamsOwn := Machine.run_invariant_along
    (fun _ _ _ hown hkeeps hl => streamsOwn_step hown hkeeps hl) hrun hkeeps
    (streamsOwn_init table opened)
  refine ⟨hown, fun o popen stream f hpopen hget ks u hks hkeeps hspares => ?_⟩
  have halong : systemStep.Along (fun s l => KeepsToItsOwn s l ∧ l.Spares o) c ks :=
    hkeeps.and (Machine.along_of_forall_mem fun _ => hspares)
  have hstep : ∀ s l t, s.program.StreamsOwn ∧ StreamIs o stream (popen.stream stream) f s →
      KeepsToItsOwn s l ∧ l.Spares o → systemStep s l = some t →
      t.program.StreamsOwn ∧ StreamIs o stream (popen.stream stream) f t :=
    fun s l t hs hl h => ⟨streamsOwn_step hs.1 hl.1 h, hs.2.step hs.1 hl.1 hl.2 h⟩
  exact (Machine.run_invariant_along hstep hks halong ⟨hown, popen, hpopen, rfl, hget⟩).2

theorem streams_keep_their_descriptors_forked : ∃ c,
    systemStep.run (init standardParent.table 3) startAndFork = some c ∧ c.program.StreamsOwn ∧
      ∀ ks u, systemStep.run c ks = some u → systemStep.Along KeepsToItsOwn c ks →
        (∀ l ∈ ks, l.Spares 0) → StreamIs 0 .stdout (.ofFd 5) (.pipeRead 4) u := by
  have hrun : systemStep.run (init standardParent.table 3) startAndFork = some _ := rfl
  have hgives : (init standardParent.table 3).program.GivesAway pipesInOut := by
    constructor
    · rintro (_ | _ | _) readFd writeFd h <;> cases h
    · rintro (_ | _ | _) stream' readFd writeFd readFd' writeFd' - h <;> cases h
  have hkeeps : systemStep.Along KeepsToItsOwn (init standardParent.table 3) startAndFork :=
    ⟨hgives, fun _ _ => ⟨trivial, fun _ _ => ⟨trivial, fun _ _ => trivial⟩⟩⟩
  obtain ⟨hown, hkept⟩ := streams_keep_their_descriptors hrun hkeeps
  exact ⟨_, hrun, hown, hkept 0 _ .stdout _ rfl rfl⟩

end PopenSystem

end Linuxpp.Subprocess
