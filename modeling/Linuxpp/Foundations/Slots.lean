import Mathlib.Algebra.GroupWithZero.Nat
import Mathlib.Data.List.Basic

/-!
# Counting the holders of a value in a list of slots

A list of slots records which holder has which value. Overwriting a slot moves one unit of the
count from the old value to the new one, and exchanging two slots changes no count. The same holds
of sums over the slots, when a slot has a weight.
-/

namespace Slots

variable {β : Type*} [BEq β] [LawfulBEq β]

/-- Overwriting slot `i` takes one from the count of its old value and gives one to the new one. -/
theorem count_set_add (l : List β) (i : Nat) (h : i < l.length) (a b : β) :
    (l.set i b).count a + (if l[i] == a then 1 else 0) = l.count a + (if b == a then 1 else 0) := by
  rw [List.count_set h]
  by_cases hi : l[i] == a
  · have hpos : 0 < l.count a := List.count_pos_iff.mpr (beq_iff_eq.mp hi ▸ List.getElem_mem h)
    simp only [hi, if_true]
    omega
  · simp [hi]

/-- The same, for a slot given by what is read from it. -/
theorem count_set_add_of_get {l : List β} {i : Nat} {x : β} (h : l[i]? = some x) (a b : β) :
    (l.set i b).count a + (if x == a then 1 else 0) = l.count a + (if b == a then 1 else 0) := by
  obtain ⟨hi, rfl⟩ := List.getElem?_eq_some_iff.mp h
  exact count_set_add l i hi a b

/-- Overwriting a slot with what it has changes nothing. -/
theorem set_of_get {β : Type*} {l : List β} {i : Nat} {x : β} (h : l[i]? = some x) :
    l.set i x = l := by
  obtain ⟨hi, rfl⟩ := List.getElem?_eq_some_iff.mp h
  exact List.set_getElem_self hi

/-- Exchanging two slots, possibly the same one, changes no count. -/
theorem count_exchange {l : List β} {i j : Nat} {x y : β} (hx : l[i]? = some x)
    (hy : l[j]? = some y) (a : β) : ((l.set i y).set j x).count a = l.count a := by
  have hfst := count_set_add_of_get hx a y
  by_cases hij : i = j
  · subst hij
    have hxy : x = y := Option.some.inj (hx.symm.trans hy)
    subst hxy
    rw [List.set_set]
    omega
  · have hj : (l.set i y)[j]? = some y := by rw [List.getElem?_set_ne hij, hy]
    have hsnd := count_set_add_of_get hj a x
    omega

/-- Moving a value from slot `j` to slot `i`, possibly the same one, takes one from the count of
what slot `i` had. -/
theorem count_move {l : List β} {i j : Nat} {x y blank a : β} (hx : l[i]? = some x)
    (hy : l[j]? = some y) (hblank : blank ≠ a) :
    ((l.set i y).set j blank).count a + (if x == a then 1 else 0) = l.count a := by
  have hne : (blank == a) = false := beq_false_of_ne hblank
  by_cases hij : i = j
  · subst hij
    have hset := count_set_add_of_get hx a blank
    rw [List.set_set]
    simpa [hne] using hset
  · have hfst := count_set_add_of_get hx a y
    have hj : (l.set i y)[j]? = some y := by rw [List.getElem?_set_ne hij, hy]
    have hsnd := count_set_add_of_get hj a blank
    rw [hne] at hsnd
    simp only [Bool.false_eq_true, if_false] at hsnd
    omega

section Weights

variable {β : Type*} {l : List β} {i j : Nat} {x y : β}

/-- Overwriting a slot takes the weight of its old value from the sum and gives it that of the new
one. -/
theorem sum_map_set_add (hx : l[i]? = some x) (f : β → Nat) (y : β) :
    ((l.set i y).map f).sum + f x = (l.map f).sum + f y := by
  induction l generalizing i with
  | nil => cases hx
  | cons z l ih =>
    cases i with
    | zero =>
      obtain rfl := Option.some.inj hx
      simp only [List.set_cons_zero, List.map_cons, List.sum_cons]
      omega
    | succ i =>
      have hrest := ih (i := i) hx
      simp only [List.set_cons_succ, List.map_cons, List.sum_cons]
      omega

theorem le_sum_map (hx : l[i]? = some x) (f : β → Nat) : f x ≤ (l.map f).sum := by
  induction l generalizing i with
  | nil => cases hx
  | cons z l ih =>
    cases i with
    | zero =>
      obtain rfl := Option.some.inj hx
      exact Nat.le_add_right _ _
    | succ i => exact Nat.le_trans (ih (i := i) hx) (Nat.le_add_left _ _)

/-- Exchanging two slots, possibly the same one, changes no sum. -/
theorem sum_map_exchange (hx : l[i]? = some x) (hy : l[j]? = some y) (f : β → Nat) :
    (((l.set i y).set j x).map f).sum = (l.map f).sum := by
  have hfst := sum_map_set_add hx f y
  by_cases hij : i = j
  · subst hij
    obtain rfl := Option.some.inj (hx.symm.trans hy)
    rw [List.set_set]
    omega
  · have hj : (l.set i y)[j]? = some y := by rw [List.getElem?_set_ne hij, hy]
    have hsnd := sum_map_set_add hj f x
    omega

/-- Moving a value from slot `j` to slot `i`, possibly the same one, takes the weight of what slot
`i` had from the sum. -/
theorem sum_map_move {blank : β} (hx : l[i]? = some x) (hy : l[j]? = some y) (f : β → Nat)
    (hblank : f blank = 0) :
    (((l.set i y).set j blank).map f).sum + f x = (l.map f).sum := by
  by_cases hij : i = j
  · subst hij
    have hset := sum_map_set_add hx f blank
    rw [List.set_set]
    omega
  · have hfst := sum_map_set_add hx f y
    have hj : (l.set i y)[j]? = some y := by rw [List.getElem?_set_ne hij, hy]
    have hsnd := sum_map_set_add hj f blank
    omega

end Weights

end Slots
