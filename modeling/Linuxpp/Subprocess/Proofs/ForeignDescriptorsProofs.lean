import Linuxpp.Subprocess.Proofs.ChildStreamsProofs

/-!
# Proofs: the descriptors that the executed program gets

The child closes what the scan of `/proc/self/fd` lists and, when the scan does not come to its end,
what is below the limit. What is in neither survives.
-/

namespace Linuxpp.Subprocess

variable {calls : SystemCalls} {d : SubprocessDescriptor} {t t' u : FdTable} {fd : Int}

section Loops

/-- The loop over the entries closes the descriptors that have one, but for the directory. -/
theorem get_foldl_closeEntry (hstd : fd ≠ 0 ∧ fd ≠ 1 ∧ fd ≠ 2) {dirfd : Int} (hdir : fd ≠ dirfd)
    (names : List (Option Int)) (t : FdTable) :
    (names.foldl (closeEntry dirfd) t).get fd = if some fd ∈ names then none else t.get fd := by
  induction names generalizing t with
  | nil => rfl
  | cons name names ih =>
    have hentry : (closeEntry dirfd t name).get fd =
        if some fd = name then none else t.get fd := by
      cases name with
      | none => rfl
      | some fd' =>
        simp only [closeEntry, Option.some.injEq]
        by_cases heq : fd = fd'
        · subst heq
          rw [if_pos ⟨hstd.1, hstd.2.1, hstd.2.2, hdir⟩, if_pos rfl, DescriptorTable.get_close,
            if_pos rfl]
        · rw [if_neg heq]
          split_ifs
          · rw [DescriptorTable.get_close, if_neg heq]
          · rfl
    rw [List.foldl_cons, ih, hentry]
    by_cases hmem : some fd ∈ names <;> simp [hmem, eq_comm]

/-- The brute force closes what is below its bound. -/
theorem get_foldl_closeDescriptor (hstd : fd ≠ 0 ∧ fd ≠ 1 ∧ fd ≠ 2) (n : ℕ) (t : FdTable) :
    ((List.range n).foldl closeDescriptor t).get fd =
      if 0 ≤ fd ∧ fd < n then none else t.get fd := by
  induction n with
  | zero =>
    rw [if_neg (by omega)]
    rfl
  | succ n ih =>
    rw [List.range_succ, List.foldl_append, List.foldl_cons, List.foldl_nil, closeDescriptor]
    by_cases heq : fd = n
    · have hn : ¬ (n = 0 ∨ n = 1 ∨ n = 2) := by omega
      rw [if_neg hn, DescriptorTable.get_close, if_pos heq, if_pos (by omega)]
    · have hiff : (0 ≤ fd ∧ fd < n) ↔ 0 ≤ fd ∧ fd < ↑(n + 1) := by omega
      simp only [← hiff, ← ih]
      split_ifs
      · rfl
      · rw [DescriptorTable.get_close, if_neg heq]

end Loops

section Closing

/-- The scan closes the descriptors that have an entry; the directory is closed with it. -/
theorem get_closeAllDescriptorsViaProc (hstd : fd ≠ 0 ∧ fd ≠ 1 ∧ fd ≠ 2) (t : FdTable)
    (scan : ProcScan) : (closeAllDescriptorsViaProc t scan).2.get fd =
      if some fd ∈ scan.names then none else t.get fd := by
  have hdir : ∀ names : List (Option Int),
      ((names.foldl (closeEntry t.lowestFree) (t.insert .procSelfFd)).close t.lowestFree).get fd =
        if some fd ∈ names then none else t.get fd := by
    intro names
    rw [DescriptorTable.get_close]
    by_cases heq : fd = t.lowestFree
    · rw [if_pos heq, heq, DescriptorTable.get_lowestFree, ite_self]
    · rw [if_neg heq, get_foldl_closeEntry hstd heq, DescriptorTable.get_insert, if_neg heq]
  cases scan with
  | opendirFails errno => rfl
  | dirfdFails errno => exact hdir []
  | entries names ending =>
    unfold closeAllDescriptorsViaProc
    dsimp only
    split
    · exact hdir []
    · exact hdir []
    · exact hdir _

/-- The scan returns no error exactly when it is complete. -/
theorem closeAllDescriptorsViaProc_eq_none_iff (t : FdTable) (scan : ProcScan) :
    (closeAllDescriptorsViaProc t scan).1 = none ↔ scan.Complete := by
  cases scan with
  | opendirFails errno => simp [closeAllDescriptorsViaProc, ProcScan.Complete]
  | dirfdFails errno => simp [closeAllDescriptorsViaProc, ProcScan.Complete]
  | entries names ending =>
    cases names <;> cases ending <;> simp [closeAllDescriptorsViaProc, ProcScan.Complete]

/-- The brute force closes nothing when there is no limit. -/
theorem get_closeByForce (hstd : fd ≠ 0 ∧ fd ≠ 1 ∧ fd ≠ 2) (t : FdTable) (rlimCur : ℕ) :
    (if rlimCur ≠ RLIM_INFINITY then closeByForce t rlimCur else t).get fd =
      if 0 ≤ fd ∧ fd < Int.bmod rlimCur 0x100000000 then none else t.get fd := by
  by_cases hinf : rlimCur = RLIM_INFINITY
  · have hneg : Int.bmod rlimCur 0x100000000 = -1 := by rw [hinf]; decide
    rw [if_neg (not_not_intro hinf), hneg, if_neg (by omega)]
  · have hiff : (0 ≤ fd ∧ fd < ((Int.bmod rlimCur 0x100000000).toNat : Int)) ↔
        0 ≤ fd ∧ fd < Int.bmod rlimCur 0x100000000 := by omega
    rw [if_pos hinf, closeByForce, get_foldl_closeDescriptor hstd]
    simp only [hiff]

/-- What is open after a complete scan, and after a scan that is not followed by brute force. -/
theorem get_closeDescriptors (hstd : fd ≠ 0 ∧ fd ≠ 1 ∧ fd ≠ 2)
    (h : closeDescriptors calls t = .ok t') :
    (calls.scan.Complete ∧ t'.get fd = if some fd ∈ calls.scan.names then none else t.get fd) ∨
    (¬ calls.scan.Complete ∧ ∃ rlimCur, calls.getrlimit = .ok rlimCur ∧
      t'.get fd = if 0 ≤ fd ∧ fd < Int.bmod rlimCur 0x100000000 then none
        else if some fd ∈ calls.scan.names then none else t.get fd) := by
  have hget := get_closeAllDescriptorsViaProc hstd t calls.scan
  have hcomplete := closeAllDescriptorsViaProc_eq_none_iff t calls.scan
  unfold closeDescriptors at h
  split at h
  · rename_i v hv
    obtain rfl := Except.ok.inj h
    rw [hv] at hget hcomplete
    exact Or.inl ⟨hcomplete.mp rfl, hget⟩
  · rename_i errno v hv
    rw [hv] at hget hcomplete
    split at h
    · cases h
    · rename_i rlimCur hlimit
      obtain rfl := Except.ok.inj h
      refine Or.inr ⟨fun hc => ?_, rlimCur, hlimit, ?_⟩
      · cases hcomplete.mpr hc
      · rw [get_closeByForce hstd, hget]

end Closing

section Executed

/-- A redirection of a stream that is configured. -/
theorem exists_of_mem_redirections {r : Redirection} (hr : r ∈ d.redirections) :
    ∃ s, (d.get s).toBool = true ∧ d.redirection s = r := by
  obtain ⟨s, hs, rfl⟩ := List.mem_map.mp hr
  exact ⟨s, (List.mem_filter.mp hs).2, rfl⟩

/-- The redirections leave of the other descriptors exactly the foreign ones. -/
theorem foreign_iff_of_redirectAll (hu : t.redirectAll d.redirections = some u)
    (hstd : fd ≠ 0 ∧ fd ≠ 1 ∧ fd ≠ 2) : u.get fd ≠ none ↔ Foreign d t fd := by
  have htargets : ∀ r ∈ d.redirections, 0 ≤ r.target := by
    intro r hr
    obtain ⟨s, -, rfl⟩ := exists_of_mem_redirections hr
    exact s.fileno_nonneg
  have hnot : fd ∉ d.redirections.map Redirection.target := by
    intro hmem
    obtain ⟨r, hr, rfl⟩ := List.mem_map.mp hmem
    obtain ⟨s, -, rfl⟩ := exists_of_mem_redirections hr
    cases s
    · exact hstd.1 rfl
    · exact hstd.2.1 rfl
    · exact hstd.2.2 rfl
  have hcloses : (∃ r ∈ d.redirections, r.Closes fd) ↔
      ∃ s, (d.get s).toBool = true ∧ (d.get s).Uses fd := by
    constructor
    · rintro ⟨r, hr, hc⟩
      obtain ⟨s, hs, rfl⟩ := exists_of_mem_redirections hr
      exact ⟨s, hs, closes_redirection.mp hc⟩
    · rintro ⟨s, hs, hc⟩
      exact ⟨d.redirection s, List.mem_map_of_mem (List.mem_filter.mpr ⟨s.mem_all, hs⟩),
        closes_redirection.mpr hc⟩
  rw [DescriptorTable.get_redirectAll_of_not_target htargets hu hnot]
  by_cases hused : ∃ s, (d.get s).toBool = true ∧ (d.get s).Uses fd
  · rw [if_pos (hcloses.mpr hused)]
    obtain ⟨s, hs, hc⟩ := hused
    exact iff_of_false (fun hne => hne rfl) fun hforeign => hforeign.notStream s hs hc
  · rw [if_neg fun hc => hused (hcloses.mp hc)]
    constructor
    · intro hopen
      exact ⟨hopen, hstd, fun s hs hc => hused ⟨s, hs, hc⟩⟩
    · exact Foreign.isOpen

/-- The foreign descriptors that are open when the child calls `exec`. -/
theorem foreign_survives_iff (hexec : cloneHandler d calls t = .ok t')
    (hstd : fd ≠ 0 ∧ fd ≠ 1 ∧ fd ≠ 2) : t'.get fd ≠ none ↔
      Foreign d t fd ∧ some fd ∉ calls.scan.names ∧ (calls.scan.Complete ∨
        ∃ rlimCur, calls.getrlimit = .ok rlimCur ∧ Int.bmod rlimCur 0x100000000 ≤ fd) := by
  obtain ⟨u, hu, hclose⟩ := cloneHandler_closes hexec
  rw [← foreign_iff_of_redirectAll hu hstd]
  have hnonneg : u.get fd ≠ none → 0 ≤ fd := by
    intro hopen
    by_contra hneg
    exact hopen (DescriptorTable.get_of_neg (by omega))
  rcases get_closeDescriptors hstd hclose with
    ⟨hcomplete, hget⟩ | ⟨hcomplete, rlimCur, hlimit, hget⟩
  · rw [hget]
    by_cases hlisted : some fd ∈ calls.scan.names <;> simp [hlisted, hcomplete]
  · rw [hget, hlimit]
    by_cases hlisted : some fd ∈ calls.scan.names
    · simp [hlisted]
    · by_cases hbelow : 0 ≤ fd ∧ fd < Int.bmod rlimCur 0x100000000
      · have hlt := hbelow.2
        simp [hbelow, hlisted, hcomplete]
      · simp only [if_neg hbelow, if_neg hlisted]
        constructor
        · intro hopen
          have hle := hnonneg hopen
          exact ⟨hopen, hlisted, Or.inr ⟨rlimCur, rfl, by omega⟩⟩
        · exact And.left

/-- **Foreign descriptors.** When a complete scan lists every open descriptor, a child that calls
`exec` has no descriptor but the standard ones exactly when the scan is complete or the limit is
above every foreign descriptor that it has not listed. -/
theorem only_standard_open_iff_listed_or_below_limit (hlists : calls.scan.ListsOpen d t)
    (hexec : cloneHandler d calls t = .ok t') :
    OnlyStandardOpen t' ↔ calls.scan.Complete ∨ UnlistedBelowLimit calls d t := by
  constructor
  · intro honly
    rw [or_iff_not_imp_left]
    intro hcomplete rlimCur hlimit fd hforeign hunlisted
    by_contra hnotBelow
    have hopen := (foreign_survives_iff hexec hforeign.notStd).mpr
      ⟨hforeign, hunlisted, Or.inr ⟨rlimCur, hlimit, Int.not_lt.mp hnotBelow⟩⟩
    have hstd := hforeign.notStd
    rcases honly fd hopen with h | h | h
    · exact hstd.1 h
    · exact hstd.2.1 h
    · exact hstd.2.2 h
  · intro hcond fd hopen
    by_contra hstd
    rw [not_or, not_or] at hstd
    obtain ⟨hforeign, hunlisted, hsurvives⟩ := (foreign_survives_iff hexec hstd).mp hopen
    by_cases hcomplete : calls.scan.Complete
    · exact hunlisted (hlists hcomplete fd hforeign)
    · obtain ⟨rlimCur, hlimit, hle⟩ := hsurvives.resolve_left hcomplete
      have hlt := hcond.resolve_left hcomplete rlimCur hlimit fd hforeign hunlisted
      omega

/-- A child with one descriptor beyond the standard ones. -/
def childWithForeign : FdTable :=
  ⟨[some (.file 0), some (.file 1), some (.file 2), none, none, some (.file 3)]⟩

/-- A scan that lists the child's descriptors and that of the directory. -/
def scanLists : SystemCalls where
  clone := .ok 100
  scan := .entries [none, none, some 0, some 1, some 2, some 3, some 5] none
  getrlimit := .ok 1024

theorem only_standard_open_iff_listed_or_below_limit_listed : ∃ t',
    cloneHandler {} scanLists childWithForeign = .ok t' ∧ OnlyStandardOpen t' := by
  have hlists : scanLists.scan.ListsOpen {} childWithForeign := by
    intro _ fd hforeign
    obtain ⟨hopen, ⟨hin, hout, herr⟩, -⟩ := hforeign
    by_cases hnumber : fd = 3 ∨ fd = 4 ∨ fd = 5
    · rcases hnumber with rfl | rfl | rfl
      · decide
      · exact absurd rfl hopen
      · decide
    · -- beyond its slots nothing is open
      have hnone : childWithForeign.get fd = none := by
        by_cases hneg : fd < 0
        · exact DescriptorTable.get_of_neg hneg
        · have hlength : childWithForeign.slots.length ≤ fd.toNat := by
            show 6 ≤ fd.toNat
            omega
          unfold DescriptorTable.get
          rw [List.getElem?_eq_none hlength, Option.join_none, ite_self]
      exact absurd hnone hopen
  have hexec : ∃ t', cloneHandler {} scanLists childWithForeign = .ok t' := ⟨_, rfl⟩
  obtain ⟨t', ht'⟩ := hexec
  exact ⟨t', ht', (only_standard_open_iff_listed_or_below_limit hlists ht').mpr
    (Or.inl ⟨by decide, rfl⟩)⟩

/-- `/proc` is not available. -/
def noProc (rlimCur : ℕ) : SystemCalls where
  clone := .ok 100
  scan := .opendirFails .ENOENT
  getrlimit := .ok rlimCur

/-- Without `/proc`, the descriptor survives when there is no limit or the limit is below it. -/
theorem foreign_survives_brute_force :
    (∃ t', cloneHandler {} (noProc RLIM_INFINITY) childWithForeign = .ok t' ∧
      t'.get 5 = some (.file 3) ∧ ¬ OnlyStandardOpen t') ∧
    ∃ t', cloneHandler {} (noProc 4) childWithForeign = .ok t' ∧
      t'.get 5 = some (.file 3) ∧ ¬ OnlyStandardOpen t' := by
  have hsurvives : ∀ t' : FdTable, t'.get 5 = some (.file 3) → ¬ OnlyStandardOpen t' := by
    intro t' hget honly
    have hstd := honly 5 (by rw [hget]; exact Option.some_ne_none _)
    omega
  exact ⟨⟨childWithForeign, rfl, rfl, hsurvives _ rfl⟩, childWithForeign, rfl, rfl,
    hsurvives _ rfl⟩

end Executed

end Linuxpp.Subprocess
