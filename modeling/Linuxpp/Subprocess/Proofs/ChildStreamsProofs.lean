import Linuxpp.Foundations.Redirections
import Linuxpp.Subprocess.Proofs.StreamsProofs

/-!
# Proofs: the standard streams of the child

`clone_handler` is a sequence of at most three redirections, followed by steps that leave the
standard descriptors alone.
-/

namespace Linuxpp.Subprocess

def StdStream.all : List StdStream := [.stdin, .stdout, .stderr]

theorem StdStream.mem_all (s : StdStream) : s ∈ StdStream.all := by
  cases s <;> decide

theorem StdStream.fileno_nonneg (s : StdStream) : 0 ≤ s.fileno := by
  cases s <;> decide

theorem StdStream.fileno_inj {s s' : StdStream} (h : s.fileno = s'.fileno) : s = s' := by
  cases s <;> cases s' <;> first | rfl | (exact absurd h (by decide))

/-- The redirection that `clone_handler` makes for a stream. -/
def SubprocessDescriptor.redirection (d : SubprocessDescriptor) (s : StdStream) : Redirection where
  owned := d.childFd s
  other := d.otherFd s
  target := s.fileno

/-- The redirections of `clone_handler`. -/
def SubprocessDescriptor.redirections (d : SubprocessDescriptor) : List Redirection :=
  (StdStream.all.filter fun s => (d.get s).toBool).map d.redirection

variable {streams : Streams} {calls : SystemCalls} {p p₁ : Process} {d : SubprocessDescriptor}

section Opening

/-- What the three calls of `open` do to the table. -/
structure StreamsOpened (streams : Streams) (t t' : FdTable) (d : SubprocessDescriptor) : Prop where
  grows : t.Extends t'
  new : ∀ fd, t.get fd = none → t'.get fd ≠ none →
    ∃ s, streams.get s ≠ none ∧ (d.get s).Uses fd
  usable : ∀ s, streams.get s ≠ none → ∀ fd, (d.get s).Uses fd → t'.get fd ≠ none
  toBool : ∀ s, (d.get s).toBool = (streams.get s).isSome
  pipe : ∀ s, streams.get s = some .pipeStream → ∃ id,
    t'.get (d.get s).readFd = some (.pipeRead id) ∧ t'.get (d.get s).writeFd = some (.pipeWrite id)
  apart : ∀ s s', s ≠ s' → streams.get s = some .pipeStream → streams.get s' ≠ none →
    ∀ fd fd', (d.get s).Uses fd → (d.get s').Uses fd' → fd' ≠ fd

theorem openStreams_ok (h : openStreams streams calls p = (.ok d, p₁)) : ∃ q q',
    openStream streams.stdin p calls.openStdin = (.ok d.stdin, q) ∧
    openStream streams.stdout q calls.openStdout = (.ok d.stdout, q') ∧
    openStream streams.stderr q' calls.openStderr = (.ok d.stderr, p₁) := by
  unfold openStreams at h
  split at h
  · cases h
  · rename_i stdin q hstdin
    split at h
    · cases h
    · rename_i stdout q' hstdout
      split at h
      · cases h
      · rename_i stderr q'' hstderr
        obtain ⟨hd, rfl⟩ := Prod.mk.inj h
        obtain rfl := Except.ok.inj hd
        exact ⟨q, q', hstdin, hstdout, hstderr⟩

theorem StreamsOpened.of_openStreams (h : openStreams streams calls p = (.ok d, p₁))
    (hover : streams.OverOpen p.table) : StreamsOpened streams p.table p₁.table d := by
  obtain ⟨q, q', hstdin, hstdout, hstderr⟩ := openStreams_ok h
  have hin := Opened.of_openStream hstdin (hover .stdin)
  have hout := Opened.of_openStream hstdout fun st hst => (hover .stdout st hst).mono hin.grows
  have herr := Opened.of_openStream hstderr fun st hst =>
    (hover .stderr st hst).mono (hin.grows.trans hout.grows)
  refine ⟨(hin.grows.trans hout.grows).trans herr.grows, ?_, ?_, ?_, ?_, ?_⟩
  · intro fd hfd hfd'
    by_cases hq : q.table.get fd = none
    · by_cases hq' : q'.table.get fd = none
      · obtain ⟨hs, hd⟩ := herr.new fd hq' hfd'
        exact ⟨.stderr, hs, hd⟩
      · obtain ⟨hs, hd⟩ := hout.new fd hq hq'
        exact ⟨.stdout, hs, hd⟩
    · obtain ⟨hs, hd⟩ := hin.new fd hfd hq
      exact ⟨.stdin, hs, hd⟩
  · intro s hs fd hfd
    cases s with
    | stdin => exact herr.grows.get_ne_none (hout.grows.get_ne_none (hin.usable hs fd hfd))
    | stdout => exact herr.grows.get_ne_none (hout.usable hs fd hfd)
    | stderr => exact herr.usable hs fd hfd
  · intro s
    cases s with
    | stdin => exact hin.toBool_eq
    | stdout => exact hout.toBool_eq
    | stderr => exact herr.toBool_eq
  · intro s hs
    cases s with
    | stdin =>
      obtain ⟨id, hread, hwrite⟩ := hin.pipe hs
      exact ⟨id, herr.grows _ _ (hout.grows _ _ hread), herr.grows _ _ (hout.grows _ _ hwrite)⟩
    | stdout =>
      obtain ⟨id, hread, hwrite⟩ := hout.pipe hs
      exact ⟨id, herr.grows _ _ hread, herr.grows _ _ hwrite⟩
    | stderr => exact herr.pipe hs
  · intro s s' hne hs hs' fd fd' hfd hfd'
    obtain ⟨st, hst⟩ := Option.ne_none_iff_exists'.mp hs'
    have hst' := hover s' st hst
    cases s <;> cases s' <;> simp only [ne_eq, not_true_eq_false, Streams.get] at hne hs hs' hst
    · rw [hs] at hin
      rw [hst] at hout
      exact hin.apart_later hout hst' (.refl _) (.refl _) hfd hfd'
    · rw [hs] at hin
      rw [hst] at herr
      exact hin.apart_later herr hst' (.refl _) hout.grows hfd hfd'
    · rw [hs] at hout
      exact hout.apart_earlier hin hs' (.refl _) hfd hfd'
    · rw [hs] at hout
      rw [hst] at herr
      exact hout.apart_later herr hst' hin.grows (.refl _) hfd hfd'
    · rw [hs] at herr
      exact herr.apart_earlier hin hs' hout.grows hfd hfd'
    · rw [hs] at herr
      exact herr.apart_earlier hout hs' (.refl _) hfd hfd'

end Opening

section CloneHandler

variable {t t' u : FdTable} {failure : Option Errno}

theorem bind_ok {ε α β : Type} {x : Except ε α} {f : α → Except ε β} {b : β}
    (h : x >>= f = .ok b) : ∃ a, x = .ok a ∧ f a = .ok b := by
  cases x with
  | error e => cases h
  | ok a => exact ⟨a, rfl, h⟩

theorem ok_bind {ε α β : Type} (a : α) (f : α → Except ε β) : ((.ok a : Except ε α) >>= f) = f a :=
  rfl

/-- `handle_child_stream` is a redirection that may fail for a reason of its own. -/
theorem handleChildStream_ok {ownedFd otherFd newFd : Int} :
    handleChildStream ownedFd otherFd newFd failure t = .ok t' ↔
      failure = none ∧ t.redirect ⟨ownedFd, otherFd, newFd⟩ = some t' := by
  unfold handleChildStream DescriptorTable.redirect
  cases failure with
  | some errno => simp
  | none =>
    dsimp only
    cases (if otherFd ≠ ownedFd then t.close otherFd else t).dup2 ownedFd newFd <;> simp

/-- A stream in `clone_handler` is a redirection, when it is configured. -/
theorem setUpStream_ok {stream : StreamDescriptors} {ownedFd otherFd newFd : Int} {code : ℕ} :
    setUpStream stream ownedFd otherFd newFd code failure t = .ok t' ↔
      (stream.toBool = true → failure = none) ∧
      t.redirectAll (if stream.toBool = true then [⟨ownedFd, otherFd, newFd⟩] else []) =
        some t' := by
  unfold setUpStream
  cases hb : stream.toBool with
  | false => simp [DescriptorTable.redirectAll]
  | true =>
    have hstep : handleChildStream ownedFd otherFd newFd failure t = .ok t' ↔ _ :=
      handleChildStream_ok
    simp only [if_true, DescriptorTable.redirectAll_singleton, forall_const]
    rw [← hstep]
    cases handleChildStream ownedFd otherFd newFd failure t <;> simp

theorem closeEntry_get {dirfd fd : Int} {entry : Option Int} (hfd : fd = 0 ∨ fd = 1 ∨ fd = 2) :
    (closeEntry dirfd t entry).get fd = t.get fd := by
  cases entry with
  | none => rfl
  | some fd' =>
    simp only [closeEntry]
    split_ifs with hne
    · rw [DescriptorTable.get_close, if_neg (by omega)]
    · rfl

theorem closeDescriptor_get {i : ℕ} {fd : Int} (hfd : fd = 0 ∨ fd = 1 ∨ fd = 2) :
    (closeDescriptor t i).get fd = t.get fd := by
  unfold closeDescriptor
  split_ifs with hi
  · rfl
  · rw [DescriptorTable.get_close, if_neg (by omega)]

theorem foldl_get {α : Type} {f : FdTable → α → FdTable} {fd : Int}
    (hf : ∀ t a, (f t a).get fd = t.get fd) (as : List α) (t : FdTable) :
    (as.foldl f t).get fd = t.get fd := by
  induction as generalizing t with
  | nil => rfl
  | cons a as ih => rw [List.foldl_cons, ih, hf]

/-- The scan leaves the standard descriptors alone, also when the directory got the number of one
of them. -/
theorem closeAllDescriptorsViaProc_get (t : FdTable) (scan : ProcScan) {fd : Int}
    (hfd : fd = 0 ∨ fd = 1 ∨ fd = 2) :
    (closeAllDescriptorsViaProc t scan).2.get fd = t.get fd := by
  have hdir : ∀ v : FdTable, v.get fd = (t.insert .procSelfFd).get fd →
      (v.close t.lowestFree).get fd = t.get fd := by
    intro v hv
    rw [DescriptorTable.get_close, hv, DescriptorTable.get_insert]
    split_ifs with heq
    · rw [heq, DescriptorTable.get_lowestFree]
    · rfl
  cases scan with
  | opendirFails errno => rfl
  | dirfdFails errno => exact hdir _ rfl
  | entries names ending =>
    unfold closeAllDescriptorsViaProc
    dsimp only
    split
    · exact hdir _ rfl
    · exact hdir _ rfl
    · exact hdir _ (foldl_get (fun _ _ => closeEntry_get hfd) _ _)

theorem closeByForce_get (t : FdTable) (rlimCur : ℕ) {fd : Int} (hfd : fd = 0 ∨ fd = 1 ∨ fd = 2) :
    (closeByForce t rlimCur).get fd = t.get fd :=
  foldl_get (fun _ _ => closeDescriptor_get hfd) _ _

theorem closeDescriptors_get {fd : Int} (h : closeDescriptors calls t = .ok t')
    (hfd : fd = 0 ∨ fd = 1 ∨ fd = 2) : t'.get fd = t.get fd := by
  have hscan := closeAllDescriptorsViaProc_get t calls.scan hfd
  unfold closeDescriptors at h
  split at h
  · rename_i v hv
    obtain rfl := Except.ok.inj h
    rw [← hscan, hv]
  · rename_i v hv
    rw [hv] at hscan
    split at h
    · cases h
    · obtain rfl := Except.ok.inj h
      split_ifs
      · rw [closeByForce_get _ _ hfd, hscan]
      · exact hscan

theorem redirections_eq (d : SubprocessDescriptor) : d.redirections =
    (if d.stdin.toBool = true then [d.redirection .stdin] else []) ++
      ((if d.stdout.toBool = true then [d.redirection .stdout] else []) ++
        if d.stderr.toBool = true then [d.redirection .stderr] else []) := by
  unfold SubprocessDescriptor.redirections StdStream.all
  simp only [List.filter_cons, SubprocessDescriptor.get]
  cases d.stdin.toBool <;> cases d.stdout.toBool <;> cases d.stderr.toBool <;> rfl

/-- A child that gets to `exec` has made its redirections, and then closed other descriptors. -/
theorem cloneHandler_closes (h : cloneHandler d calls t = .ok t') :
    ∃ u, t.redirectAll d.redirections = some u ∧ closeDescriptors calls u = .ok t' := by
  obtain ⟨t₁, hstdin, h⟩ := bind_ok h
  obtain ⟨t₂, hstdout, h⟩ := bind_ok h
  obtain ⟨u, hstderr, h⟩ := bind_ok h
  obtain ⟨v, hclose, h⟩ := bind_ok h
  refine ⟨u, ?_, ?_⟩
  · have hin := (setUpStream_ok.mp hstdin).2
    have hout := (setUpStream_ok.mp hstdout).2
    have herr := (setUpStream_ok.mp hstderr).2
    rw [redirections_eq]
    exact DescriptorTable.redirectAll_append.mpr
      ⟨t₁, hin, DescriptorTable.redirectAll_append.mpr ⟨t₂, hout, herr⟩⟩
  · cases hmask : calls.pthreadSigmask with
    | none =>
      rw [hmask] at h
      rw [hclose, Except.ok.inj h]
    | some errno =>
      rw [hmask] at h
      cases h

/-- Nothing but the redirections has changed what the standard descriptors refer to. -/
theorem cloneHandler_ok (h : cloneHandler d calls t = .ok t') :
    ∃ u, t.redirectAll d.redirections = some u ∧
      ∀ s : StdStream, t'.get s.fileno = u.get s.fileno := by
  obtain ⟨u, hu, hclose⟩ := cloneHandler_closes h
  refine ⟨u, hu, fun s => ?_⟩
  have hs : s.fileno = 0 ∨ s.fileno = 1 ∨ s.fileno = 2 := by cases s <;> decide
  exact closeDescriptors_get hclose hs

theorem closeDescriptors_succeeds (hcalls : calls.ChildSucceeds) (t : FdTable) :
    ∃ t', closeDescriptors calls t = .ok t' := by
  obtain ⟨rlimCur, hlimit⟩ := hcalls.getrlimit
  unfold closeDescriptors
  rcases closeAllDescriptorsViaProc t calls.scan with ⟨_ | errno, u⟩
  · exact ⟨u, rfl⟩
  · rw [hlimit]
    exact ⟨_, rfl⟩

/-- The child gets to `exec` when its redirections succeed. -/
theorem cloneHandler_of_redirectAll (hcalls : calls.ChildSucceeds)
    (hu : t.redirectAll d.redirections = some u) : ∃ t', cloneHandler d calls t = .ok t' := by
  rw [redirections_eq, DescriptorTable.redirectAll_append] at hu
  obtain ⟨t₁, hin, hrest⟩ := hu
  obtain ⟨t₂, hout, herr⟩ := DescriptorTable.redirectAll_append.mp hrest
  obtain ⟨t', hclose⟩ := closeDescriptors_succeeds hcalls u
  have hstdin : setUpStream d.stdin d.stdin.readFd d.stdin.writeFd 0 2 calls.dup2Stdin t =
      .ok t₁ := setUpStream_ok.mpr ⟨fun _ => hcalls.dup2Stdin, hin⟩
  have hstdout : setUpStream d.stdout d.stdout.writeFd d.stdout.readFd 1 3 calls.dup2Stdout t₁ =
      .ok t₂ := setUpStream_ok.mpr ⟨fun _ => hcalls.dup2Stdout, hout⟩
  have hstderr : setUpStream d.stderr d.stderr.writeFd d.stderr.readFd 2 4 calls.dup2Stderr t₂ =
      .ok u := setUpStream_ok.mpr ⟨fun _ => hcalls.dup2Stderr, herr⟩
  refine ⟨t', ?_⟩
  rw [cloneHandler, hstdin, ok_bind, hstdout, ok_bind, hstderr, ok_bind, hclose, ok_bind,
    hcalls.pthreadSigmask]

end CloneHandler

section Parent

variable {popen : Popen} {p' : Process} {pid : ℕ}

theorem keepParentEnd_table {stream : StreamDescriptors} {childFd fd : Int} (parentFd : Int)
    (t : FdTable) (hfd : stream.toBool = true → fd ≠ childFd) :
    (keepParentEnd stream parentFd childFd t).2.get fd = t.get fd := by
  unfold keepParentEnd
  split_ifs with hb
  · exact DescriptorTable.get_close.trans (if_neg (hfd hb))
  · rfl

theorem keepParentEnd_fst {stream : StreamDescriptors} {parentFd childFd : Int} {t : FdTable}
    (hb : stream.toBool = true) (hne : parentFd ≠ childFd) :
    (keepParentEnd stream parentFd childFd t).1.get = parentFd := by
  unfold keepParentEnd
  rw [if_pos hb]
  exact if_pos hne

/-- The parent closes only descriptors that were meant for the child. -/
theorem keepParentEnds_table {fd : Int} (pid : ℕ) (p : Process)
    (hfd : ∀ s, (d.get s).toBool = true → fd ≠ d.childFd s) :
    (keepParentEnds d pid p).2.table.get fd = p.table.get fd := by
  have hin := keepParentEnd_table d.stdin.writeFd p.table (hfd .stdin)
  have hout := fun t => keepParentEnd_table d.stdout.readFd t (hfd .stdout)
  have herr := fun t => keepParentEnd_table d.stderr.readFd t (hfd .stderr)
  exact (herr _).trans ((hout _).trans hin)

theorem keepParentEnds_get (pid : ℕ) (p : Process) {s : StdStream}
    (hs : (d.get s).toBool = true) (hne : d.otherFd s ≠ d.childFd s) :
    (keepParentEnds d pid p).1.get s = d.otherFd s := by
  cases s <;> exact keepParentEnd_fst hs hne

theorem clone_ok (h : clone streams calls p = (.ok popen, p')) : ∃ d p₁ pid,
    openStreams streams calls p = (.ok d, p₁) ∧
    keepParentEnds d pid { p₁ with children := pid :: p₁.children } = (popen, p') := by
  unfold clone at h
  split at h
  · cases h
  · rename_i d p₁ hopen
    split at h
    · cases h
    · rename_i pid hpid
      dsimp only at h
      split at h
      · cases h
      · obtain ⟨hpopen, hp'⟩ := Prod.mk.inj h
        exact ⟨d, p₁, pid, hopen, Prod.ext (Except.ok.inj hpopen) hp'⟩

end Parent

section Wiring

theorem closes_redirection {s : StdStream} {fd : Int} :
    (d.redirection s).Closes fd ↔ (d.get s).Uses fd := by
  cases s with
  | stdin => rfl
  | stdout => exact or_comm
  | stderr => exact or_comm

theorem uses_childFd (d : SubprocessDescriptor) (s : StdStream) : (d.get s).Uses (d.childFd s) := by
  rw [← closes_redirection]
  exact Or.inl rfl

theorem uses_otherFd (d : SubprocessDescriptor) (s : StdStream) : (d.get s).Uses (d.otherFd s) := by
  rw [← closes_redirection]
  exact Or.inr rfl

theorem StdStream.pairwise_all {R : StdStream → StdStream → Prop} :
    StdStream.all.Pairwise R ↔ ∀ s s', s.fileno < s'.fileno → R s s' := by
  constructor
  · intro h s s' hlt
    have h' : (R stdin stdout ∧ R stdin stderr) ∧ R stdout stderr := by
      simpa [StdStream.all] using h
    obtain ⟨⟨hinout, hinerr⟩, houterr⟩ := h'
    cases s <;> cases s' <;> first | assumption | exact absurd hlt (by decide)
  · intro h
    have hlt : StdStream.all.Pairwise fun s s' => s.fileno < s'.fileno := by decide
    exact hlt.imp fun {s s'} => h s s'

theorem redirections_nodup (d : SubprocessDescriptor) :
    (d.redirections.map Redirection.target).Nodup := by
  have hall : (StdStream.all.map StdStream.fileno).Nodup := by decide
  have htarget : d.redirections.map Redirection.target =
      (StdStream.all.filter fun s => (d.get s).toBool).map StdStream.fileno := by
    rw [SubprocessDescriptor.redirections, List.map_map]
    rfl
  rw [htarget]
  exact hall.sublist (List.filter_sublist.map _)

section Opened

variable {before opened : FdTable} (h : StreamsOpened streams before opened d)
include h

theorem mem_redirections {r : Redirection} :
    r ∈ d.redirections ↔ ∃ s, streams.get s ≠ none ∧ d.redirection s = r := by
  simp [SubprocessDescriptor.redirections, StdStream.mem_all, h.toBool, Option.isSome_iff_ne_none]

theorem targets_nonneg : ∀ r ∈ d.redirections, 0 ≤ r.target := by
  intro r hr
  obtain ⟨s, -, rfl⟩ := (mem_redirections h).mp hr
  exact s.fileno_nonneg

theorem owned_usable : ∀ r ∈ d.redirections, opened.get r.owned ≠ none := by
  intro r hr
  obtain ⟨s, hs, rfl⟩ := (mem_redirections h).mp hr
  exact h.usable s hs _ (uses_childFd d s)

theorem pairwise_redirections_iff {R : Redirection → Redirection → Prop} :
    d.redirections.Pairwise R ↔
      ∀ s s', streams.get s ≠ none → streams.get s' ≠ none → s.fileno < s'.fileno →
        R (d.redirection s) (d.redirection s') := by
  rw [SubprocessDescriptor.redirections, List.pairwise_map, List.pairwise_filter,
    StdStream.pairwise_all]
  simp only [h.toBool, Option.isSome_iff_ne_none]
  constructor
  · intro hpairs s s' hs hs' hlt
    exact hpairs s s' hlt hs hs'
  · intro hpairs s s' hlt hs hs'
    exact hpairs s s' hs hs' hlt

theorem redirections_undisturbed_iff : Redirection.Undisturbed d.redirections ↔
    (∀ s, streams.get s ≠ none → d.childFd s ≠ s.fileno) ∧
    ∀ s s', streams.get s ≠ none → streams.get s' ≠ none → s.fileno < s'.fileno →
      ¬ (d.get s').Uses s.fileno := by
  unfold Redirection.Undisturbed
  rw [pairwise_redirections_iff h]
  simp only [closes_redirection]
  refine and_congr ⟨?_, ?_⟩ Iff.rfl
  · intro hown s hs
    exact hown _ ((mem_redirections h).mpr ⟨s, hs, rfl⟩)
  · intro hown r hr
    obtain ⟨s, hs, rfl⟩ := (mem_redirections h).mp hr
    exact hown s hs

/-- The configured streams are wired exactly when the redirections are undisturbed. -/
theorem configured_wired_iff {u : FdTable} (hu : opened.redirectAll d.redirections = some u) :
    (∀ s, streams.get s ≠ none → u.get s.fileno = opened.get (d.childFd s)) ↔
      Redirection.Undisturbed d.redirections := by
  rw [← DescriptorTable.redirectAll_reaches_iff (targets_nonneg h) (redirections_nodup d)
    (owned_usable h) hu]
  constructor
  · intro hwired r hr
    obtain ⟨s, hs, rfl⟩ := (mem_redirections h).mp hr
    exact hwired s hs
  · intro hreached s hs
    exact hreached _ ((mem_redirections h).mpr ⟨s, hs, rfl⟩)

/-- A standard descriptor that is not configured is left alone exactly when no stream uses it or it
was not open. -/
theorem unconfigured_wired_iff {u : FdTable} (hu : opened.redirectAll d.redirections = some u)
    {s : StdStream} (hs : streams.get s = none) :
    u.get s.fileno = before.get s.fileno ↔
      ∀ s', streams.get s' ≠ none → (d.get s').Uses s.fileno → before.get s.fileno = none := by
  have hnot : s.fileno ∉ d.redirections.map Redirection.target := by
    intro hmem
    obtain ⟨r, hr, heq⟩ := List.mem_map.mp hmem
    obtain ⟨s', hs', rfl⟩ := (mem_redirections h).mp hr
    obtain rfl : s' = s := StdStream.fileno_inj heq
    exact hs' hs
  have hcloses : (∃ r ∈ d.redirections, r.Closes s.fileno) ↔
      ∃ s', streams.get s' ≠ none ∧ (d.get s').Uses s.fileno := by
    constructor
    · rintro ⟨r, hr, hc⟩
      obtain ⟨s', hs', rfl⟩ := (mem_redirections h).mp hr
      exact ⟨s', hs', closes_redirection.mp hc⟩
    · rintro ⟨s', hs', hc⟩
      exact ⟨_, (mem_redirections h).mpr ⟨s', hs', rfl⟩, closes_redirection.mpr hc⟩
  rw [DescriptorTable.get_redirectAll_of_not_target (targets_nonneg h) hu hnot]
  by_cases hused : ∃ s', streams.get s' ≠ none ∧ (d.get s').Uses s.fileno
  · rw [if_pos (hcloses.mpr hused)]
    obtain ⟨s', hs', hc⟩ := hused
    constructor
    · intro heq _ _ _
      exact heq.symm
    · intro hall
      exact (hall s' hs' hc).symm
  · rw [if_neg (fun hc => hused (hcloses.mp hc))]
    refine iff_of_true ?_ (fun s' hs' hc => absurd ⟨s', hs', hc⟩ hused)
    -- a number that no stream uses is open after the streams were opened if it was before
    cases hbefore : before.get s.fileno with
    | some f => exact h.grows _ _ hbefore
    | none =>
      by_contra hopened
      exact hused (h.new _ hbefore hopened)

end Opened

/-- The parent's end of a pipe is kept, whatever the other streams are. -/
theorem keepsPipeEnds (hover : streams.OverOpen p.table)
    (hopen : openStreams streams calls p = (.ok d, p₁)) :
    KeepsPipeEnds streams calls p p₁.table d := by
  intro popen p' hclone s hs
  have h := StreamsOpened.of_openStreams hopen hover
  obtain ⟨d', q, pid, hopen', hkeep⟩ := clone_ok hclone
  obtain ⟨hd, rfl⟩ := Prod.mk.inj (hopen.symm.trans hopen')
  obtain rfl := Except.ok.inj hd
  obtain rfl : _ = popen := congrArg Prod.fst hkeep
  obtain rfl : _ = p' := congrArg Prod.snd hkeep
  have hsome : (streams.get s).isSome = true := by rw [hs]; rfl
  obtain ⟨id, hread, hwrite⟩ := h.pipe s hs
  have hends : ∃ childEnd parentEnd, p₁.table.get (d.childFd s) = some childEnd ∧
      childEnd.opposite = some parentEnd ∧ p₁.table.get (d.otherFd s) = some parentEnd := by
    cases s with
    | stdin => exact ⟨_, _, hread, rfl, hwrite⟩
    | stdout => exact ⟨_, _, hwrite, rfl, hread⟩
    | stderr => exact ⟨_, _, hwrite, rfl, hread⟩
  obtain ⟨childEnd, parentEnd, hchild, hopposite, hother⟩ := hends
  have hne : d.otherFd s ≠ d.childFd s := by
    intro heq
    rw [heq, hchild] at hother
    obtain rfl := Option.some.inj hother
    cases childEnd <;> simp [OpenFile.opposite] at hopposite
  refine ⟨childEnd, parentEnd, hchild, hopposite, ?_⟩
  rw [keepParentEnds_get _ _ ((h.toBool s).trans hsome) hne, keepParentEnds_table]
  · exact hother
  · intro s' hs'
    by_cases heq : s = s'
    · rw [← heq]
      exact hne
    · have hs'' : streams.get s' ≠ none := by
        rw [← Option.isSome_iff_ne_none, ← h.toBool]
        exact hs'
      exact (h.apart s s' heq hs hs'' _ _ (uses_otherFd d s) (uses_childFd d s')).symm

/-- When the child gets to `exec`, its standard streams are wired as configured exactly when the
redirections do not disturb each other, themselves or what is to be left alone. -/
theorem wired_iff_undisturbed {t : FdTable} (hover : streams.OverOpen p.table)
    (hopen : openStreams streams calls p = (.ok d, p₁))
    (hexec : cloneHandler d calls p₁.table = .ok t) :
    Wired streams p.table p₁.table d t ↔ StreamsUndisturbed streams p.table d := by
  have h := StreamsOpened.of_openStreams hopen hover
  obtain ⟨u, hu, hstd⟩ := cloneHandler_ok hexec
  have hwired : Wired streams p.table p₁.table d t ↔
      (∀ s, streams.get s ≠ none → u.get s.fileno = p₁.table.get (d.childFd s)) ∧
      ∀ s, streams.get s = none → u.get s.fileno = p.table.get s.fileno := by
    unfold Wired
    simp only [hstd]
    constructor
    · intro hall
      refine ⟨fun s hs => ?_, fun s hs => ?_⟩
      · rw [hall s, if_pos (Option.isSome_iff_ne_none.mpr hs)]
      · rw [hall s, hs]
        rfl
    · rintro ⟨hsome, hnone⟩ s
      split_ifs with hs
      · exact hsome s (Option.isSome_iff_ne_none.mp hs)
      · exact hnone s (Option.not_isSome_iff_eq_none.mp hs)
  rw [hwired, configured_wired_iff h hu, redirections_undisturbed_iff h]
  constructor
  · rintro ⟨⟨hown, hearlier⟩, hnone⟩
    exact ⟨hown, hearlier, fun s s' hs => (unconfigured_wired_iff h hu hs).mp (hnone s hs) s'⟩
  · intro hall
    refine ⟨⟨hall.own, hall.earlier⟩, ?_⟩
    intro s hs
    exact (unconfigured_wired_iff h hu hs).mpr fun s' => hall.unconfigured s s' hs

/-- A child whose redirections are undisturbed gets to `exec` unless a stream is to use a descriptor
of an earlier one, which is closed by then. -/
theorem child_reaches_exec_iff (hover : streams.OverOpen p.table)
    (hopen : openStreams streams calls p = (.ok d, p₁)) (hcalls : calls.ChildSucceeds)
    (hund : StreamsUndisturbed streams p.table d) :
    (∃ t, cloneHandler d calls p₁.table = .ok t) ↔
      StreamsApart streams d := by
  have h := StreamsOpened.of_openStreams hopen hover
  have hreaches : (∃ t, cloneHandler d calls p₁.table = .ok t) ↔
      (p₁.table.redirectAll d.redirections).isSome = true := by
    rw [Option.isSome_iff_exists]
    constructor
    · rintro ⟨t, ht⟩
      obtain ⟨u, hu, -⟩ := cloneHandler_ok ht
      exact ⟨u, hu⟩
    · rintro ⟨u, hu⟩
      exact cloneHandler_of_redirectAll hcalls hu
  have hund' : Redirection.Undisturbed d.redirections :=
    (redirections_undisturbed_iff h).mpr ⟨hund.own, hund.earlier⟩
  rw [hreaches, DescriptorTable.redirectAll_isSome_iff (targets_nonneg h) hund',
    and_iff_right (owned_usable h), pairwise_redirections_iff h]
  simp only [closes_redirection]
  rfl

/-- **The child's standard streams.** A child that gets to `exec` has its streams wired as
configured exactly when the redirections are undisturbed; the parent keeps its ends of pipes in
every case. A child whose system calls do not fail for a reason of their own gets to `exec` with its
streams wired exactly when, moreover, no stream is to use a descriptor that an earlier one has
closed. -/
theorem child_streams_wired_iff_undisturbed (hover : streams.OverOpen p.table)
    (hopen : openStreams streams calls p = (.ok d, p₁)) :
    (∀ t, cloneHandler d calls p₁.table = .ok t →
      ((Wired streams p.table p₁.table d t ∧ KeepsPipeEnds streams calls p p₁.table d) ↔
        StreamsUndisturbed streams p.table d)) ∧
    (calls.ChildSucceeds →
      ((∃ t, cloneHandler d calls p₁.table = .ok t ∧ Wired streams p.table p₁.table d t) ↔
        StreamsUndisturbed streams p.table d ∧ StreamsApart streams d)) := by
  constructor
  · intro t hexec
    rw [and_iff_left (keepsPipeEnds hover hopen)]
    exact wired_iff_undisturbed hover hopen hexec
  · intro hcalls
    constructor
    · rintro ⟨t, hexec, hwired⟩
      have hund := (wired_iff_undisturbed hover hopen hexec).mp hwired
      exact ⟨hund, (child_reaches_exec_iff hover hopen hcalls hund).mp ⟨t, hexec⟩⟩
    · rintro ⟨hund, hapart⟩
      obtain ⟨t, hexec⟩ := (child_reaches_exec_iff hover hopen hcalls hund).mpr hapart
      exact ⟨t, hexec, (wired_iff_undisturbed hover hopen hexec).mpr hund⟩

/-- Every system call succeeds; the scan finds the directory and the standard descriptors. -/
def succeedingCalls : SystemCalls where
  clone := .ok 100
  scan := .entries [none, none, some 0, some 1, some 2] none
  getrlimit := .ok 1024

/-- A parent whose standard descriptors are open. -/
def standardParent : Process := ⟨⟨[some (.file 0), some (.file 1), some (.file 2)]⟩, 3, []⟩

/-- `stdin` and `stdout` are pipes. -/
def pipesInOut : Streams := ⟨some .pipeStream, some .pipeStream, none⟩

theorem child_streams_wired_iff_undisturbed_pipes : ∃ d p₁ t,
    openStreams pipesInOut succeedingCalls standardParent = (.ok d, p₁) ∧
    cloneHandler d succeedingCalls p₁.table = .ok t ∧
    Wired pipesInOut standardParent.table p₁.table d t := by
  have hover : pipesInOut.OverOpen standardParent.table := by
    rintro (_ | _ | _) st hst <;> cases hst <;> trivial
  obtain ⟨d, p₁, hd, hopen⟩ : ∃ d p₁, d = ⟨⟨3, 4⟩, ⟨5, 6⟩, {}⟩ ∧
    openStreams pipesInOut succeedingCalls standardParent = (.ok d, p₁) := ⟨_, _, rfl, rfl⟩
  have hund : StreamsUndisturbed pipesInOut standardParent.table d := by
    subst hd
    refine ⟨?_, ?_, ?_⟩
    · rintro (_ | _ | _) <;> decide
    · rintro (_ | _ | _) (_ | _ | _) <;> decide
    · rintro (_ | _ | _) (_ | _ | _) <;> decide
  have hapart : StreamsApart pipesInOut d := by
    subst hd
    rintro (_ | _ | _) (_ | _ | _) <;> decide
  have hcalls : succeedingCalls.ChildSucceeds := ⟨rfl, rfl, rfl, ⟨_, rfl⟩, rfl⟩
  obtain ⟨hreached, hwired⟩ := child_streams_wired_iff_undisturbed hover hopen
  obtain ⟨t, hexec, -⟩ := (hwired hcalls).mpr ⟨hund, hapart⟩
  exact ⟨d, p₁, t, hopen, hexec, ((hreached t hexec).mpr hund).1⟩

/-- The parent's descriptor `0` is closed, and `stdin` is `/dev/null`: the child's `stdin` is
closed when it calls `exec`. -/
theorem null_stdin_lost : ∃ d p₁ t popen p',
    openStreams ⟨some .nullStream, none, none⟩ succeedingCalls
      ⟨⟨[none, some (.file 1), some (.file 2)]⟩, 3, []⟩ = (.ok d, p₁) ∧
    cloneHandler d succeedingCalls p₁.table = .ok t ∧
    clone ⟨some .nullStream, none, none⟩ succeedingCalls
      ⟨⟨[none, some (.file 1), some (.file 2)]⟩, 3, []⟩ = (.ok popen, p') ∧
    p₁.table.get (d.childFd .stdin) = some (.file 3) ∧ t.get 0 = none ∧
    ¬ Wired ⟨some .nullStream, none, none⟩ ⟨[none, some (.file 1), some (.file 2)]⟩
      p₁.table d t := by
  refine ⟨_, _, _, _, _, rfl, rfl, rfl, by decide, by decide, ?_⟩
  intro h
  exact absurd (h .stdin) (by decide)

end Wiring

end Linuxpp.Subprocess
