import Linuxpp.Foundations.Redirections

/-!
# What a descriptor table refers to

Closing takes references away, a new descriptor adds the one that it is made for, and a copy adds
none to anything new. So what a sequence of redirections leaves at its targets was referred to by an
owned descriptor before.
-/

namespace DescriptorTable

variable {φ : Type*}

/-- Some descriptor refers to `x`. -/
def Refers (t : DescriptorTable φ) (x : φ) : Prop := ∃ fd, t.get fd = some x

/-- At most one descriptor refers to `x`. -/
def RefersOnce (t : DescriptorTable φ) (x : φ) : Prop :=
  ∀ fd fd', t.get fd = some x → t.get fd' = some x → fd = fd'

/-- The descriptors that meet the condition are closed. -/
def closeWhere (t : DescriptorTable φ) (condition : Int → φ → Bool) : DescriptorTable φ :=
  ⟨t.slots.mapIdx fun i slot => slot.filter fun x => !condition i x⟩

variable {t t' u : DescriptorTable φ} {fd fd' : Int} {x y : φ}

theorem get_closeWhere {condition : Int → φ → Bool} :
    (t.closeWhere condition).get fd = (t.get fd).filter fun x => !condition fd x := by
  unfold closeWhere get
  by_cases hfd : 0 ≤ fd
  · have hnumber : ((fd.toNat : ℕ) : Int) = fd := Int.toNat_of_nonneg hfd
    rw [if_pos hfd, if_pos hfd, List.getElem?_mapIdx, hnumber]
    cases t.slots[fd.toNat]? <;> rfl
  · rw [if_neg hfd, if_neg hfd]
    rfl

section Fewer

theorem extends_close (t : DescriptorTable φ) (fd : Int) : (t.close fd).Extends t := by
  intro fd' x hx
  rw [get_close] at hx
  split_ifs at hx
  exact hx

theorem extends_foldl_close (fds : List Int) (t : DescriptorTable φ) :
    (fds.foldl close t).Extends t := by
  induction fds generalizing t with
  | nil => exact .refl t
  | cons fd fds ih => exact (ih _).trans (extends_close t fd)

theorem get_foldl_close_eq_none (fds : List Int) (t : DescriptorTable φ) (h : fd ∈ fds) :
    (fds.foldl close t).get fd = none := by
  induction fds generalizing t with
  | nil => cases h
  | cons fd' fds ih =>
    rcases List.mem_cons.mp h with rfl | h
    · by_contra hopen
      obtain ⟨x, hx⟩ := Option.ne_none_iff_exists'.mp hopen
      have hclosed := extends_foldl_close fds _ fd x hx
      rw [get_close, if_pos rfl] at hclosed
      cases hclosed
    · exact ih _ h

theorem get_foldl_close_of_not_mem {fds : List Int} (h : fd ∉ fds) :
    (fds.foldl close t).get fd = t.get fd := by
  induction fds generalizing t with
  | nil => rfl
  | cons fd' fds ih =>
    rw [List.mem_cons, not_or] at h
    rw [List.foldl_cons, ih h.2, get_close, if_neg h.1]

theorem Extends.refers (h : t.Extends t') (hx : t.Refers x) : t'.Refers x := by
  obtain ⟨fd, hfd⟩ := hx
  exact ⟨fd, h fd x hfd⟩

theorem Extends.refersOnce (h : t.Extends t') (hx : t'.RefersOnce x) : t.RefersOnce x :=
  fun fd fd' hfd hfd' => hx fd fd' (h fd x hfd) (h fd' x hfd')

/-- Closing the one descriptor that refers to it takes away the last reference. -/
theorem RefersOnce.not_refers (h : t.RefersOnce x) (hfd : t.get fd = some x) (hu : u.Extends t)
    (hclosed : u.get fd = none) : ¬ u.Refers x := by
  rintro ⟨fd', hfd'⟩
  obtain rfl := h fd' fd (hu fd' x hfd') hfd
  rw [hclosed] at hfd'
  cases hfd'

end Fewer

section More

theorem refers_insert : (t.insert y).Refers x ↔ x = y ∨ t.Refers x := by
  constructor
  · rintro ⟨fd, hfd⟩
    rw [get_insert] at hfd
    split_ifs at hfd
    · exact Or.inl (Option.some.inj hfd).symm
    · exact Or.inr ⟨fd, hfd⟩
  · rintro (rfl | hx)
    · exact ⟨t.lowestFree, by rw [get_insert, if_pos rfl]⟩
    · exact (extends_insert t y).refers hx

theorem RefersOnce.insert (h : t.RefersOnce x) (hnew : x = y → ¬ t.Refers x) :
    (t.insert y).RefersOnce x := by
  intro fd fd' hfd hfd'
  rw [get_insert] at hfd hfd'
  by_cases hlow : fd = t.lowestFree <;> by_cases hlow' : fd' = t.lowestFree
  · rw [hlow, hlow']
  · rw [if_pos hlow] at hfd
    rw [if_neg hlow'] at hfd'
    exact absurd ⟨fd', hfd'⟩ (hnew (Option.some.inj hfd).symm)
  · rw [if_neg hlow] at hfd
    rw [if_pos hlow'] at hfd'
    exact absurd ⟨fd, hfd⟩ (hnew (Option.some.inj hfd').symm)
  · rw [if_neg hlow] at hfd
    rw [if_neg hlow'] at hfd'
    exact h fd fd' hfd hfd'

theorem refers_of_dup2 {source target : Int} (h : t.dup2 source target = some t')
    (hx : t'.Refers x) : t.Refers x := by
  obtain ⟨y, hy, rfl⟩ := dup2_eq_some.mp h
  obtain ⟨fd, hfd⟩ := hx
  by_cases htarget : 0 ≤ target
  · rw [get_put htarget] at hfd
    split_ifs at hfd
    · exact ⟨source, hfd ▸ hy⟩
    · exact ⟨fd, hfd⟩
  · unfold put at hfd
    rw [if_neg htarget] at hfd
    exact ⟨fd, hfd⟩

/-- What a redirection leaves at its target was at the owned descriptor. -/
theorem get_of_redirect {r : Redirection} (htarget : 0 ≤ r.target) (h : t.redirect r = some u)
    (hx : u.get fd = some x) :
    fd = r.target ∧ t.get r.owned = some x ∨ fd ≠ r.target ∧ t.get fd = some x := by
  rw [get_redirect htarget h] at hx
  split_ifs at hx with howned heq hother
  · exact Or.inl ⟨heq, hx⟩
  · exact Or.inr ⟨heq, hx⟩

/-- What a sequence of redirections leaves at a target was at an owned descriptor. -/
theorem get_of_redirectAll {rs : List Redirection} (htargets : ∀ r ∈ rs, 0 ≤ r.target)
    (h : t.redirectAll rs = some u) (hx : u.get fd = some x) :
    (∃ r ∈ rs, t.get r.owned = some x) ∨ fd ∉ rs.map Redirection.target ∧ t.get fd = some x := by
  induction rs generalizing t with
  | nil =>
    obtain rfl := Option.some.inj h
    exact Or.inr ⟨List.not_mem_nil, hx⟩
  | cons r rs ih =>
    obtain ⟨v, hv, h⟩ := redirectAll_cons.mp h
    rw [List.forall_mem_cons] at htargets
    rcases ih htargets.2 h with ⟨r', hr', howned⟩ | ⟨hnot, hfd⟩
    · rcases get_of_redirect htargets.1 hv howned with ⟨-, hr⟩ | ⟨-, hr⟩
      · exact Or.inl ⟨r, List.mem_cons_self, hr⟩
      · exact Or.inl ⟨r', List.mem_cons_of_mem _ hr', hr⟩
    · rcases get_of_redirect htargets.1 hv hfd with ⟨-, hr⟩ | ⟨hne, hr⟩
      · exact Or.inl ⟨r, List.mem_cons_self, hr⟩
      · exact Or.inr ⟨List.not_mem_cons_of_ne_of_not_mem hne hnot, hr⟩

end More

end DescriptorTable
