import Mathlib.Data.List.Pairwise
import Linuxpp.Foundations.DescriptorTable

/-!
# Sequences of redirections

A redirection makes a target refer to what an owned descriptor refers to, and gives up the owned
descriptor and another one with it. A sequence of redirections reaches its aim when every target
refers in the end to what its owned descriptor referred to in the beginning. All of them work on one
table, so a later one can undo an earlier one, and one can undo itself.
-/

/-- `target` shall refer to what `owned` refers to; `owned` and `other` are closed. -/
structure Redirection where
  owned : Int
  other : Int
  target : Int
deriving DecidableEq, Repr

namespace Redirection

/-- The descriptors that are closed. -/
def Closes (r : Redirection) (fd : Int) : Prop := fd = r.owned ∨ fd = r.other

instance (r : Redirection) (fd : Int) : Decidable (r.Closes fd) := by
  unfold Closes
  infer_instance

/-- No redirection is onto its own descriptor, and none closes the target of an earlier one. -/
def Undisturbed (rs : List Redirection) : Prop :=
  (∀ r ∈ rs, r.owned ≠ r.target) ∧ rs.Pairwise fun r r' => ¬ r'.Closes r.target

end Redirection

namespace DescriptorTable

variable {φ : Type*}

/-- One redirection. The other descriptor is closed first, unless it is the owned one. -/
def redirect (t : DescriptorTable φ) (r : Redirection) : Option (DescriptorTable φ) :=
  ((if r.other ≠ r.owned then t.close r.other else t).dup2 r.owned r.target).map fun t =>
    t.close r.owned

/-- The redirections one after the other. -/
def redirectAll (t : DescriptorTable φ) : List Redirection → Option (DescriptorTable φ)
  | [] => some t
  | r :: rs => (t.redirect r).bind fun t => t.redirectAll rs

variable {t t' : DescriptorTable φ} {r : Redirection} {rs : List Redirection} {fd : Int}

/-- The owned descriptor is still open when it is duplicated. -/
theorem get_owned_of_closed_other :
    (if r.other ≠ r.owned then t.close r.other else t).get r.owned = t.get r.owned := by
  split_ifs with h
  · rw [get_close, if_neg (Ne.symm h)]
  · rfl

theorem redirect_isSome : (t.redirect r).isSome = (t.get r.owned).isSome := by
  unfold redirect dup2
  rw [Option.isSome_map, Option.isSome_map, get_owned_of_closed_other]

theorem get_redirect (htarget : 0 ≤ r.target) (h : t.redirect r = some t') :
    t'.get fd = if fd = r.owned then none else if fd = r.target then t.get r.owned
      else if fd = r.other then none else t.get fd := by
  obtain ⟨u, hu, rfl⟩ := Option.map_eq_some_iff.mp h
  obtain ⟨x, hx, rfl⟩ := dup2_eq_some.mp hu
  rw [get_owned_of_closed_other] at hx
  rw [get_close, get_put htarget, hx]
  by_cases howned : fd = r.owned
  · rw [if_pos howned, if_pos howned]
  · rw [if_neg howned, if_neg howned]
    by_cases ht : fd = r.target
    · rw [if_pos ht, if_pos ht]
    · rw [if_neg ht, if_neg ht]
      by_cases heq : r.other = r.owned
      · rw [if_neg (not_not_intro heq), if_neg (fun ho => howned (ho.trans heq))]
      · rw [if_pos heq, get_close]

/-- What is no target is closed or untouched. -/
theorem get_redirect_of_ne (htarget : 0 ≤ r.target) (h : t.redirect r = some t')
    (hfd : fd ≠ r.target) : t'.get fd = if r.Closes fd then none else t.get fd := by
  rw [get_redirect htarget h, if_neg hfd]
  unfold Redirection.Closes
  by_cases howned : fd = r.owned <;> by_cases hother : fd = r.other <;> simp [howned, hother]

theorem redirectAll_cons : t.redirectAll (r :: rs) = some t' ↔
    ∃ u, t.redirect r = some u ∧ u.redirectAll rs = some t' := by
  rw [redirectAll, Option.bind_eq_some_iff]

theorem redirectAll_singleton : t.redirectAll [r] = t.redirect r := by
  cases h : t.redirect r <;> simp [redirectAll, h]

/-- A sequence is cut where its list is cut. -/
theorem redirectAll_append {rs' : List Redirection} : t.redirectAll (rs ++ rs') = some t' ↔
    ∃ u, t.redirectAll rs = some u ∧ u.redirectAll rs' = some t' := by
  induction rs generalizing t with
  | nil => simp [redirectAll]
  | cons r rs ih =>
    rw [List.cons_append, redirectAll_cons]
    constructor
    · rintro ⟨v, hv, h⟩
      obtain ⟨u, hu, h⟩ := ih.mp h
      exact ⟨u, redirectAll_cons.mpr ⟨v, hv, hu⟩, h⟩
    · rintro ⟨u, hu, h⟩
      obtain ⟨v, hv, hu⟩ := redirectAll_cons.mp hu
      exact ⟨v, hv, ih.mpr ⟨u, hu, h⟩⟩

section Run

variable (htargets : ∀ r ∈ rs, 0 ≤ r.target)
include htargets

/-- The descriptors that are no target, after a sequence of redirections. -/
theorem get_redirectAll_of_not_target (h : t.redirectAll rs = some t')
    (hfd : fd ∉ rs.map Redirection.target) :
    t'.get fd = if ∃ r ∈ rs, r.Closes fd then none else t.get fd := by
  induction rs generalizing t with
  | nil =>
    obtain rfl : t = t' := Option.some.inj h
    simp
  | cons r rs ih =>
    obtain ⟨u, hu, h⟩ := redirectAll_cons.mp h
    rw [List.forall_mem_cons] at htargets
    rw [List.map_cons, List.mem_cons, not_or] at hfd
    rw [ih htargets.2 h hfd.2, get_redirect_of_ne htargets.1 hu hfd.1]
    by_cases hr : r.Closes fd <;> by_cases hrs : ∃ r ∈ rs, r.Closes fd <;> simp [hr, hrs]

/-- What the target of the first redirection refers to in the end. -/
theorem get_target_redirectAll_cons {u : DescriptorTable φ} (hr : 0 ≤ r.target)
    (hnodup : ((r :: rs).map Redirection.target).Nodup) (hu : t.redirect r = some u)
    (h : u.redirectAll rs = some t') :
    t'.get r.target = if (∃ r' ∈ rs, r'.Closes r.target) ∨ r.owned = r.target then none
      else t.get r.owned := by
  rw [List.map_cons, List.nodup_cons] at hnodup
  rw [get_redirectAll_of_not_target htargets h hnodup.1, get_redirect hr hu]
  by_cases hclosed : ∃ r' ∈ rs, r'.Closes r.target
  · rw [if_pos hclosed, if_pos (Or.inl hclosed)]
  · rw [if_neg hclosed]
    by_cases hown : r.owned = r.target
    · rw [if_pos hown.symm, if_pos (Or.inr hown)]
    · rw [if_neg (Ne.symm hown), if_pos rfl, if_neg (by simp [hclosed, hown])]

/-- When all targets are open in the end, the redirections did not disturb each other. -/
theorem undisturbed_of_targets_open (hnodup : (rs.map Redirection.target).Nodup)
    (h : t.redirectAll rs = some t') (hopen : ∀ r ∈ rs, t'.get r.target ≠ none) :
    Redirection.Undisturbed rs := by
  induction rs generalizing t with
  | nil => exact ⟨by simp, List.Pairwise.nil⟩
  | cons r rs ih =>
    obtain ⟨u, hu, h⟩ := redirectAll_cons.mp h
    rw [List.forall_mem_cons] at htargets hopen
    obtain ⟨howned, hpairs⟩ := ih htargets.2 (List.nodup_cons.mp hnodup).2 h hopen.2
    have hget := get_target_redirectAll_cons htargets.2 htargets.1 hnodup hu h
    have hr : ¬ ((∃ r' ∈ rs, r'.Closes r.target) ∨ r.owned = r.target) := by
      intro hr
      rw [if_pos hr] at hget
      exact hopen.1 hget
    push Not at hr
    refine ⟨List.forall_mem_cons.mpr ⟨hr.2, howned⟩, List.pairwise_cons.mpr ⟨?_, hpairs⟩⟩
    exact hr.1

/-- Undisturbed redirections reach their aim. -/
theorem get_target_of_undisturbed (hnodup : (rs.map Redirection.target).Nodup)
    (h : t.redirectAll rs = some t') (hrs : Redirection.Undisturbed rs) :
    ∀ r ∈ rs, t'.get r.target = t.get r.owned ∧ t.get r.owned ≠ none := by
  induction rs generalizing t with
  | nil => simp
  | cons r rs ih =>
    obtain ⟨u, hu, h⟩ := redirectAll_cons.mp h
    obtain ⟨howned, hpairs⟩ := hrs
    rw [List.forall_mem_cons] at htargets howned
    rw [List.pairwise_cons] at hpairs
    have hget := get_target_redirectAll_cons htargets.2 htargets.1 hnodup hu h
    have hopen : t.get r.owned ≠ none := by
      have hsome := redirect_isSome (t := t) (r := r)
      rw [hu] at hsome
      exact Option.isSome_iff_ne_none.mp hsome.symm
    rw [List.forall_mem_cons]
    constructor
    · rw [if_neg] at hget
      · exact ⟨hget, hopen⟩
      · rintro (⟨r', hr', hcloses⟩ | heq)
        · exact hpairs.1 r' hr' hcloses
        · exact howned.1 heq
    · intro r' hr'
      -- a later descriptor is not the target of `r`, and it is open when it is duplicated
      obtain ⟨htarget, hopen'⟩ :=
        ih htargets.2 (List.nodup_cons.mp hnodup).2 h ⟨howned.2, hpairs.2⟩ r' hr'
      have hne : r'.owned ≠ r.target := fun heq => hpairs.1 r' hr' (Or.inl heq.symm)
      have hu' := get_redirect_of_ne htargets.1 hu hne
      by_cases hcloses : r.Closes r'.owned
      · rw [if_pos hcloses] at hu'
        exact absurd hu' hopen'
      · rw [if_neg hcloses] at hu'
        rw [← hu']
        exact ⟨htarget, hopen'⟩

/-- **Exactness.** Redirections of open descriptors that all succeed reach their aim exactly when
they do not disturb each other. -/
theorem redirectAll_reaches_iff (hnodup : (rs.map Redirection.target).Nodup)
    (hopen : ∀ r ∈ rs, t.get r.owned ≠ none) (h : t.redirectAll rs = some t') :
    (∀ r ∈ rs, t'.get r.target = t.get r.owned) ↔ Redirection.Undisturbed rs := by
  constructor
  · intro hreached
    apply undisturbed_of_targets_open htargets hnodup h
    intro r hr
    rw [hreached r hr]
    exact hopen r hr
  · intro hrs r hr
    exact (get_target_of_undisturbed htargets hnodup h hrs r hr).1

/-- Undisturbed redirections of open descriptors succeed exactly when none needs what an earlier
one closed. -/
theorem redirectAll_isSome_iff (hrs : Redirection.Undisturbed rs) :
    (t.redirectAll rs).isSome = true ↔
      (∀ r ∈ rs, t.get r.owned ≠ none) ∧ rs.Pairwise fun r r' => ¬ r.Closes r'.owned := by
  induction rs generalizing t with
  | nil => simp [redirectAll]
  | cons r rs ih =>
    obtain ⟨howned, hpairs⟩ := hrs
    rw [List.forall_mem_cons] at htargets howned
    rw [List.pairwise_cons] at hpairs
    rw [List.forall_mem_cons, List.pairwise_cons, redirectAll, Option.isSome_bind]
    have hsome := redirect_isSome (t := t) (r := r)
    cases hu : t.redirect r with
    | none =>
      rw [hu] at hsome
      have hnone : t.get r.owned = none := Option.not_isSome_iff_eq_none.mp (by simp [← hsome])
      simp [hnone]
    | some u =>
      rw [hu] at hsome
      have hopen : t.get r.owned ≠ none := Option.isSome_iff_ne_none.mp hsome.symm
      -- what the first redirection leaves of the others' descriptors
      have hlater : (∀ r' ∈ rs, u.get r'.owned ≠ none) ↔
          (∀ r' ∈ rs, t.get r'.owned ≠ none) ∧ ∀ r' ∈ rs, ¬ r.Closes r'.owned := by
        rw [← forall₂_and]
        refine forall₂_congr fun r' hr' => ?_
        have hne : r'.owned ≠ r.target := fun heq => hpairs.1 r' hr' (Or.inl heq.symm)
        rw [get_redirect_of_ne htargets.1 hu hne]
        by_cases hcloses : r.Closes r'.owned <;> simp [hcloses]
      rw [Option.any_some, ih htargets.2 ⟨howned.2, hpairs.2⟩, hlater]
      constructor
      · rintro ⟨⟨hrest, hhead⟩, htail⟩
        exact ⟨⟨hopen, hrest⟩, hhead, htail⟩
      · rintro ⟨⟨-, hrest⟩, hhead, htail⟩
        exact ⟨⟨hrest, hhead⟩, htail⟩

end Run

end DescriptorTable
