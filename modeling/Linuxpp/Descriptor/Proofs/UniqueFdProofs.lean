import Linuxpp.Foundations.Slots
import Linuxpp.Descriptor.UniqueFd

/-!
# Proofs: ownership of descriptors by `unique_fd` objects

Every operation keeps the balance between what was handed over and what is owned, released or
closed, except a move assignment, which loses the descriptor its target owned.
-/

namespace Linuxpp

@[simp] theorem UniqueFd.ofFd_get (u : UniqueFd) : UniqueFd.ofFd u.get = u := rfl

theorem UniqueFd.ofFd_inj {fd fd' : Int} : UniqueFd.ofFd fd = UniqueFd.ofFd fd' ↔ fd = fd' := by
  simp [UniqueFd.ofFd]

theorem UniqueFd.eq_ofFd_iff {u : UniqueFd} {fd : Int} : u = UniqueFd.ofFd fd ↔ u.get = fd := by
  rw [← UniqueFd.ofFd_get u, UniqueFd.ofFd_inj, UniqueFd.ofFd_get]

@[simp] theorem UniqueFd.empty_get : ({} : UniqueFd).get = closedFd := rfl

namespace FdObjects

variable {s : FdObjects} {o : Nat} {u : UniqueFd} {fd fd' : Int}

theorem object?_eq_some : s.object? o = some u ↔ s.objects[o]? = some (some u) := by
  simp [object?, Option.join_eq_some_iff]

/-- The owners of `fd` after object `o` is overwritten by `x`. -/
theorem count_set_object (h : s.object? o = some u) (x : Option UniqueFd) (fd : Int) :
    (s.objects.set o x).count (some (UniqueFd.ofFd fd)) + (if u.get = fd then 1 else 0) =
      s.owners fd + (if x = some (UniqueFd.ofFd fd) then 1 else 0) := by
  have hset := Slots.count_set_add_of_get (object?_eq_some.mp h) (some (UniqueFd.ofFd fd)) x
  simpa only [owners, beq_iff_eq, Option.some.injEq, UniqueFd.eq_ofFd_iff] using hset

/-- An object whose descriptor is blanked gives up that descriptor. -/
theorem count_blank_object (h : s.object? o = some u) (hfd : fd ≠ closedFd) :
    (s.objects.set o (some {})).count (some (UniqueFd.ofFd fd)) + (if u.get = fd then 1 else 0) =
      s.owners fd := by
  have hset := count_set_object h (some {}) fd
  simpa [UniqueFd.eq_ofFd_iff, hfd.symm] using hset

/-- An object that is destroyed gives up its descriptor. -/
theorem count_destroy_object (h : s.object? o = some u) (fd : Int) :
    (s.objects.set o none).count (some (UniqueFd.ofFd fd)) + (if u.get = fd then 1 else 0) =
      s.owners fd := by
  have hset := count_set_object h none fd
  simpa using hset

theorem count_append_object (s : FdObjects) (u : UniqueFd) (fd : Int) :
    (s.objects ++ [some u]).count (some (UniqueFd.ofFd fd)) =
      s.owners fd + (if u.get = fd then 1 else 0) := by
  rw [List.count_append, List.count_singleton]
  simp only [owners, beq_iff_eq, Option.some.injEq, UniqueFd.eq_ofFd_iff]

theorem count_descriptors (hfd : fd ≠ closedFd) (fd' : Int) :
    (descriptors fd').count fd = if fd' = fd then 1 else 0 := by
  unfold descriptors
  split_ifs with h h' h'
  · exact absurd (h'.symm.trans h) hfd
  · rfl
  · simp [h']
  · simp [h']

/-- What `reset` closes is the descriptor the object owned. -/
theorem count_reset_closes (hfd : fd ≠ closedFd) (u : UniqueFd) (fd' : Int) :
    (u.reset fd').2.count fd = if u.get = fd then 1 else 0 := by
  rw [← count_descriptors hfd u.get]
  simp only [UniqueFd.reset, UniqueFd.get, descriptors]
  split_ifs <;> simp_all

/-- The descriptor that the operation loses: the one a move assignment overwrites. -/
def lost (s : FdObjects) : FdOp → Int → Nat
  | .moveAssign dst _, fd => if (s.object? dst).map UniqueFd.get = some fd then 1 else 0
  | _, _ => 0

/-- A self-assignment, too, loses exactly the descriptor of its target. -/
theorem count_moveAssign {dst src : Nat} {ud us : UniqueFd} (hd : s.object? dst = some ud)
    (hs : s.object? src = some us) (hfd : fd ≠ closedFd) :
    ((s.objects.set dst (some us)).set src (some {})).count (some (UniqueFd.ofFd fd)) +
      (if ud.get = fd then 1 else 0) = s.owners fd := by
  have hne : some ({} : UniqueFd) ≠ some (UniqueFd.ofFd fd) := by
    intro heq
    exact hfd (UniqueFd.eq_ofFd_iff.mp (Option.some.inj heq)).symm
  have hmove := Slots.count_move (object?_eq_some.mp hd) (object?_eq_some.mp hs) hne
  simpa only [owners, beq_iff_eq, Option.some.injEq, UniqueFd.eq_ofFd_iff] using hmove

/-- Handing over a descriptor is the only way the number of its owners grows, and it is allowed only
when there is none. -/
theorem owners_le_of_fresh (hfresh : s.Fresh fd') (hfd : fd ≠ closedFd) (hle : s.owners fd ≤ 1) :
    s.owners fd + (if fd' = fd then 1 else 0) ≤ 1 := by
  by_cases h : fd' = fd
  · subst h
    rcases hfresh with h0 | h0
    · exact absurd h0 hfd
    · simp [h0]
  · simpa [h] using hle

/-- **The balance.** After an operation, what is owned, released and closed, and what was lost,
makes up what was owned, released and closed before and what was handed over. -/
theorem balance {t : FdObjects} {op : FdOp} (h : fdStep s op = some t) (hfd : fd ≠ closedFd) :
    t.owners fd + t.released.count fd + t.closed.count fd + s.handed.count fd + s.lost op fd =
      s.owners fd + s.released.count fd + s.closed.count fd + t.handed.count fd := by
  cases op with
  | construct =>
    simp only [fdStep, Option.some.injEq] at h
    subst h
    have hnew := count_append_object s {} fd
    have hne : ({} : UniqueFd).get ≠ fd := fun h => hfd h.symm
    simp only [owners, lost, hne, if_false] at hnew ⊢
    omega
  | constructFrom fd' =>
    simp only [fdStep, Option.ite_none_right_eq_some, Option.some.injEq] at h
    obtain ⟨-, rfl⟩ := h
    have hnew := count_append_object s (UniqueFd.ofFd fd') fd
    have hget : (UniqueFd.ofFd fd').get = fd' := rfl
    simp only [owners, lost, List.count_append, count_descriptors hfd, hget] at hnew ⊢
    omega
  | moveConstruct src =>
    simp only [fdStep, Option.map_eq_some_iff] at h
    obtain ⟨us, hs, rfl⟩ := h
    have hblank := count_blank_object hs hfd
    simp only [owners, lost, List.count_append, List.count_singleton, beq_iff_eq,
      Option.some.injEq, UniqueFd.eq_ofFd_iff] at hblank ⊢
    omega
  | moveAssign dst src =>
    simp only [fdStep, Option.bind_eq_some_iff, Option.map_eq_some_iff] at h
    obtain ⟨ud, hd, us, hs, rfl⟩ := h
    have hmove := count_moveAssign hd hs hfd
    simp only [owners, lost, hd, Option.map_some, Option.some.injEq] at hmove ⊢
    omega
  | reset o fd' =>
    simp only [fdStep, Option.bind_eq_some_iff, Option.ite_none_right_eq_some,
      Option.some.injEq] at h
    obtain ⟨u, ho, -, rfl⟩ := h
    have hset := count_set_object ho (some (u.reset fd').1) fd
    have hcl := count_reset_closes hfd u fd'
    have hget : (u.reset fd').1.get = fd' := rfl
    simp only [Option.some.injEq, UniqueFd.eq_ofFd_iff, hget] at hset
    simp only [owners, lost, List.count_append, count_descriptors hfd] at hset hcl ⊢
    omega
  | release o =>
    simp only [fdStep, Option.map_eq_some_iff] at h
    obtain ⟨u, ho, rfl⟩ := h
    have hblank := count_blank_object ho hfd
    have hrel : u.release = (u.get, {}) := rfl
    simp only [owners, lost, hrel, List.count_append, count_descriptors hfd] at hblank ⊢
    omega
  | swap a b =>
    simp only [fdStep, Option.bind_eq_some_iff, Option.map_eq_some_iff] at h
    obtain ⟨ua, ha, ub, hb, rfl⟩ := h
    have hswap := Slots.count_exchange (object?_eq_some.mp ha) (object?_eq_some.mp hb)
      (some (UniqueFd.ofFd fd))
    simp only [owners, lost] at hswap ⊢
    omega
  | destroy o =>
    simp only [fdStep, Option.map_eq_some_iff] at h
    obtain ⟨u, ho, rfl⟩ := h
    have hdes := count_destroy_object ho fd
    have hcl := count_reset_closes hfd u closedFd
    simp only [owners, lost, List.count_append] at hdes hcl ⊢
    omega

/-- The records only grow, and only by one descriptor that nobody owns is handed over. -/
theorem fdStep_records {t : FdObjects} {op : FdOp} (h : fdStep s op = some t) :
    ∃ fd' r c, s.Fresh fd' ∧ t.handed = s.handed ++ descriptors fd' ∧
      t.released = s.released ++ r ∧ t.closed = s.closed ++ c := by
  have hnone : s.Fresh closedFd := Or.inl rfl
  have hdesc : descriptors closedFd = [] := rfl
  cases op with
  | construct =>
    simp only [fdStep, Option.some.injEq] at h
    subst h
    exact ⟨closedFd, [], [], hnone, by simp [hdesc]⟩
  | constructFrom fd' =>
    simp only [fdStep, Option.ite_none_right_eq_some, Option.some.injEq] at h
    obtain ⟨hfresh, rfl⟩ := h
    exact ⟨fd', [], [], hfresh, by simp⟩
  | moveConstruct src =>
    simp only [fdStep, Option.map_eq_some_iff] at h
    obtain ⟨-, -, rfl⟩ := h
    exact ⟨closedFd, [], [], hnone, by simp [hdesc]⟩
  | moveAssign dst src =>
    simp only [fdStep, Option.bind_eq_some_iff, Option.map_eq_some_iff] at h
    obtain ⟨-, -, -, -, rfl⟩ := h
    exact ⟨closedFd, [], [], hnone, by simp [hdesc]⟩
  | reset o fd' =>
    simp only [fdStep, Option.bind_eq_some_iff, Option.ite_none_right_eq_some,
      Option.some.injEq] at h
    obtain ⟨u, -, hfresh, rfl⟩ := h
    exact ⟨fd', [], (u.reset fd').2, hfresh, by simp⟩
  | release o =>
    simp only [fdStep, Option.map_eq_some_iff] at h
    obtain ⟨u, -, rfl⟩ := h
    exact ⟨closedFd, descriptors u.release.1, [], hnone, by simp [hdesc]⟩
  | swap a b =>
    simp only [fdStep, Option.bind_eq_some_iff, Option.map_eq_some_iff] at h
    obtain ⟨-, -, -, -, rfl⟩ := h
    exact ⟨closedFd, [], [], hnone, by simp [hdesc]⟩
  | destroy o =>
    simp only [fdStep, Option.map_eq_some_iff] at h
    obtain ⟨u, -, rfl⟩ := h
    exact ⟨closedFd, [], u.reset.2, hnone, by simp [hdesc]⟩

/-- No operation gives a descriptor a second owner. -/
theorem owners_le_one {t : FdObjects} {op : FdOp} (h : fdStep s op = some t) (hfd : fd ≠ closedFd)
    (hle : s.owners fd ≤ 1) : t.owners fd ≤ 1 := by
  obtain ⟨fd', r, c, hfresh, hh, hr, hc⟩ := fdStep_records h
  have hbal := balance h hfd
  have hnew := owners_le_of_fresh hfresh hfd hle
  rw [hh, hr, hc, List.count_append, List.count_append, List.count_append,
    count_descriptors hfd] at hbal
  omega

/-- An operation loses no descriptor exactly if it is not a move assignment onto an owner. -/
theorem lost_eq_zero_iff {op : FdOp} :
    (∀ fd, fd ≠ closedFd → s.lost op fd = 0) ↔ NotOntoOwner s op := by
  constructor
  · rintro h dst src u rfl hd
    by_contra hu
    have := h u.get hu
    simp [lost, hd] at this
  · intro h fd hfd
    cases op with
    | moveAssign dst src =>
      cases hd : s.object? dst with
      | none => simp [lost, hd]
      | some u =>
        have hu := h dst src u rfl hd
        simp [lost, hd, hu, hfd.symm]
    | _ => rfl

/-- What the two records of a state in the balance say, without the end of the objects. -/
theorem ownershipExact_iff : OwnershipExact s ↔ ∀ fd, fd ≠ closedFd → s.owners fd ≤ 1 ∧
    s.handed.count fd = s.owners fd + s.released.count fd + s.closed.count fd := by
  constructor
  · exact fun h fd hfd => ⟨h.owner fd hfd, h.account fd hfd⟩
  · intro h
    refine ⟨fun fd hfd => (h fd hfd).1, fun fd hfd => (h fd hfd).2, fun hend fd hfd => ?_⟩
    have hzero : s.owners fd = 0 := by
      rw [owners, List.count_eq_zero]
      exact fun hmem => Option.some_ne_none _ (hend _ hmem)
    have := (h fd hfd).2
    omega

/-- **Step lemma.** From a state in which every descriptor is accounted for, the operation leads to
another such state exactly if it is not a move assignment onto an owner. -/
theorem ownershipExact_step {t : FdObjects} {op : FdOp} (hs : OwnershipExact s)
    (h : fdStep s op = some t) : OwnershipExact t ↔ NotOntoOwner s op := by
  rw [ownershipExact_iff, ← lost_eq_zero_iff]
  constructor
  · intro ht fd hfd
    have hbal := balance h hfd
    have hact := (ht fd hfd).2
    have hacs := hs.account fd hfd
    omega
  · intro hlost fd hfd
    have hbal := balance h hfd
    have hacs := hs.account fd hfd
    have hl := hlost fd hfd
    exact ⟨owners_le_one h hfd (hs.owner fd hfd), by omega⟩

end FdObjects

theorem ownershipExact_init : OwnershipExact {} :=
  ⟨fun _ _ => by simp [FdObjects.owners], fun _ _ => by simp [FdObjects.owners],
    fun _ _ _ => by simp⟩

/-- A descriptor is in exactly one of the three places all along a run of operations exactly if no
operation of the run is a move assignment onto an object that owns a descriptor. -/
theorem ownership_exact_iff_no_assign_onto_owner (ops : List FdOp) (s : FdObjects)
    (h : fdStep.run {} ops = some s) :
    fdStep.Throughout OwnershipExact {} ops ↔ fdStep.Along NotOntoOwner {} ops :=
  Machine.throughout_iff_along (fun _ _ _ hs hl => FdObjects.ownershipExact_step hs hl) h
    ownershipExact_init

/-- The iterated use of one object: descriptors 5 and 6 pass through `reset`, `swap` and the
destructors without a loss. -/
theorem ownership_exact_reset_swap_destroy :
    fdStep.Throughout OwnershipExact {}
      [.constructFrom 5, .construct, .reset 0 6, .swap 0 1, .destroy 0, .destroy 1] := by
  refine (ownership_exact_iff_no_assign_onto_owner _ _ rfl).mpr ?_
  simp [Machine.Along, NotOntoOwner]

/-- Descriptor 5 is neither owned, released nor closed once descriptor 6 is moved over it. -/
theorem move_assign_onto_owner_loses :
    ¬ fdStep.Throughout OwnershipExact {}
      [.constructFrom 5, .constructFrom 6, .moveAssign 0 1] := by
  intro h
  have hend := (((h.2 _ rfl).2 _ rfl).2 _ rfl).account 5 (by decide)
  exact absurd hend (by decide)

end Linuxpp
