import Mathlib.Data.List.Induction
import Mathlib.Data.List.Sort
import Mathlib.Order.WithBot
import Linuxpp.Foundations.SortedInsert

/-!
# Sorting that is not stable

What a sort that is not stable makes of a list is given by the order in which it puts the old
positions. Every list has such an order.
-/

namespace SortOrder

open SortedInsert

variable {ε τ : Type*}

/-- The elements at these positions. -/
def permute (xs : List ε) (order : List ℕ) : List ε := order.filterMap fun i => xs[i]?

/-- A sort by the key may put the positions in this order. -/
def IsSortOrder [LinearOrder τ] (key : ε → τ) (xs : List ε) (order : List ℕ) : Prop :=
  order.Perm (List.range xs.length) ∧ SortedBy key (permute xs order)

instance [LinearOrder τ] (key : ε → τ) (xs : List ε) (order : List ℕ) :
    Decidable (IsSortOrder key xs order) := inferInstanceAs (Decidable (_ ∧ _))

theorem permute_range (xs : List ε) : permute xs (List.range xs.length) = xs := by
  induction xs using List.reverseRecOn with
  | nil => rfl
  | append_singleton xs x ih =>
    have hsame : (List.range xs.length).filterMap (fun i => (xs ++ [x])[i]?) =
        (List.range xs.length).filterMap fun i => xs[i]? := by
      refine List.filterMap_congr fun i hi => ?_
      rw [List.getElem?_append_left (List.mem_range.mp hi)]
    unfold permute at ih ⊢
    rw [List.length_append, List.length_singleton, List.range_succ, List.filterMap_append, hsame,
      ih]
    simp

theorem permute_perm {xs : List ε} {order : List ℕ} (h : order.Perm (List.range xs.length)) :
    (permute xs order).Perm xs := by
  have hperm := h.filterMap fun i => xs[i]?
  have hrange : (List.range xs.length).filterMap (fun i => xs[i]?) = xs := permute_range xs
  rwa [hrange] at hperm

/-- There is an order for every list. -/
theorem exists_isSortOrder [LinearOrder τ] (key : ε → τ) (xs : List ε) :
    ∃ order, IsSortOrder key xs order := by
  let rank : ℕ → WithBot τ := fun i => (xs[i]?).map key
  let r : ℕ → ℕ → Prop := fun i j => rank i ≤ rank j
  have : DecidableRel r := fun i j => inferInstanceAs (Decidable (rank i ≤ rank j))
  have : Std.Total r := ⟨fun i j => le_total (rank i) (rank j)⟩
  have : IsTrans ℕ r := ⟨fun _ _ _ => le_trans⟩
  refine ⟨(List.range xs.length).insertionSort r, List.perm_insertionSort r _, ?_⟩
  refine List.pairwise_filterMap.mpr ((List.pairwise_insertionSort r _).imp ?_)
  intro i j hle a ha b hb
  have ha' : rank i = key a := by
    show (xs[i]?).map key = some (key a)
    rw [ha, Option.map_some]
  have hb' : rank j = key b := by
    show (xs[j]?).map key = some (key b)
    rw [hb, Option.map_some]
  have hle' : rank i ≤ rank j := hle
  rw [ha', hb'] at hle'
  exact WithBot.coe_le_coe.mp hle'

end SortOrder
