import Mathlib.Data.List.Sort
import Mathlib.Data.List.InsertIdx

/-!
# Insertion at the lower bound of a key

A list sorted by a key stays sorted when an element is inserted before the first element whose key
is not less than its own. The insertion is Mathlib's `orderedInsert` for the order of the keys.
-/

namespace SortedInsert

variable {ε τ : Type*} [LinearOrder τ] (key : ε → τ)

/-- The list is sorted by its keys. -/
abbrev SortedBy (xs : List ε) : Prop := xs.Pairwise fun a b => key a ≤ key b

/-- The position of the first element whose key is not less than `t`; the length if there is none.
On a list sorted by `key` this is what a binary search for `t` returns. -/
def lowerBound (xs : List ε) (t : τ) : Nat := (xs.takeWhile fun x => key x < t).length

/-- Insertion before the lower bound of the key of the new element. -/
def insertLower (xs : List ε) (e : ε) : List ε := xs.insertIdx (lowerBound key xs (key e)) e

variable {key}

theorem insertLower_eq_orderedInsert (xs : List ε) (e : ε) :
    insertLower key xs e = xs.orderedInsert (fun a b => key a ≤ key b) e := by
  unfold insertLower lowerBound
  induction xs with
  | nil => rfl
  | cons x xs ih =>
    rw [List.orderedInsert_cons]
    by_cases hx : key x < key e
    · have hle : ¬ key e ≤ key x := not_le.mpr hx
      rw [List.takeWhile_cons_of_pos (by simpa using hx), List.length_cons,
        List.insertIdx_succ_cons, ih, if_neg hle]
    · rw [List.takeWhile_cons_of_neg (by simpa using hx), List.length_nil, List.insertIdx_zero,
        if_pos (not_lt.mp hx)]

theorem insertLower_perm (xs : List ε) (e : ε) : (insertLower key xs e).Perm (e :: xs) := by
  rw [insertLower_eq_orderedInsert]
  exact List.perm_orderedInsert _ _ _

theorem insertLower_ne_self (xs : List ε) (e : ε) : insertLower key xs e ≠ xs := by
  intro hsame
  have hlength : (insertLower key xs e).length = (e :: xs).length :=
    (insertLower_perm xs e).length_eq
  rw [hsame, List.length_cons] at hlength
  omega

theorem SortedBy.insertLower {xs : List ε} (h : SortedBy key xs) (e : ε) :
    SortedBy key (insertLower key xs e) := by
  have : Std.Total fun a b : ε => key a ≤ key b := ⟨fun a b => le_total (key a) (key b)⟩
  have : IsTrans ε fun a b : ε => key a ≤ key b := ⟨fun _ _ _ => le_trans⟩
  rw [insertLower_eq_orderedInsert]
  exact List.Pairwise.orderedInsert e xs h

/-- Inserting elements one after another keeps the list sorted. -/
theorem SortedBy.foldl_insertLower {xs : List ε} (h : SortedBy key xs) (es : List ε) :
    SortedBy key (es.foldl (SortedInsert.insertLower key) xs) := by
  induction es generalizing xs with
  | nil => exact h
  | cons e es ih => exact ih (h.insertLower e)

/-- Inserting elements one after another adds exactly them. -/
theorem foldl_insertLower_perm (xs es : List ε) :
    (es.foldl (insertLower key) xs).Perm (es ++ xs) := by
  induction es generalizing xs with
  | nil => exact List.Perm.refl _
  | cons e es ih =>
    refine (ih (insertLower key xs e)).trans ?_
    exact ((insertLower_perm xs e).append_left es).trans List.perm_middle

theorem mem_insertLower {xs : List ε} {a e : ε} : a ∈ insertLower key xs e ↔ a = e ∨ a ∈ xs := by
  rw [(insertLower_perm xs e).mem_iff, List.mem_cons]

theorem mem_foldl_insertLower {xs es : List ε} {a : ε} :
    a ∈ es.foldl (insertLower key) xs ↔ a ∈ es ∨ a ∈ xs := by
  rw [(foldl_insertLower_perm xs es).mem_iff, List.mem_append]

/-- An element with no later key than the front becomes the front. -/
theorem insertLower_cons_of_le {x e : ε} (h : key e ≤ key x) (xs : List ε) :
    insertLower key (x :: xs) e = e :: x :: xs := by
  rw [insertLower_eq_orderedInsert, List.orderedInsert_cons, if_pos h]

/-- An element with no earlier key than the front leaves the key of the front as it is. -/
theorem head?_map_insertLower_cons {x e : ε} (h : key x ≤ key e) (xs : List ε) :
    (insertLower key (x :: xs) e).head?.map key = some (key x) := by
  rw [insertLower_eq_orderedInsert, List.orderedInsert_cons]
  split_ifs with hle
  · exact congrArg some (le_antisymm hle h)
  · rfl

/-- The front has become earlier exactly if the element has an earlier key. -/
theorem head?_any_lt_insertLower_cons (x e : ε) (xs : List ε) :
    ((insertLower key (x :: xs) e).head?.any fun y => key y < key x) = decide (key e < key x) := by
  by_cases hlt : key e < key x
  · rw [insertLower_cons_of_le hlt.le]
    simp [hlt]
  · obtain ⟨y, hy, heq⟩ := Option.map_eq_some_iff.mp (head?_map_insertLower_cons (not_lt.mp hlt) xs)
    simp [hy, heq, hlt]

/-- The front of a part of a sorted list is not before the front of the list. -/
theorem SortedBy.front_le_of_subset {xs ys : List ε} (h : SortedBy key xs) (hsub : ys ⊆ xs) :
    ∀ k' ∈ ys.head?.map key, ∃ k ∈ xs.head?.map key, k ≤ k' := by
  intro k' hk'
  obtain ⟨y, hy, rfl⟩ := Option.mem_map.mp hk'
  have hin : y ∈ xs := hsub (List.mem_of_mem_head? hy)
  cases xs with
  | nil => cases hin
  | cons x xs =>
    refine ⟨key x, rfl, ?_⟩
    rcases List.mem_cons.mp hin with rfl | hin
    · exact le_rfl
    · exact (List.pairwise_cons.mp h).1 y hin

end SortedInsert
