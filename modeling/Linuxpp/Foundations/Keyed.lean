import Mathlib.Data.List.Nodup

/-!
# Lists with distinct keys

In a list whose elements have distinct keys, erasing or changing the first element with a key is the
same as filtering by the key, or mapping where the key is met.
-/

namespace Keyed

variable {ε ι : Type*} [DecidableEq ι] {key : ε → ι} {xs : List ε}

theorem eraseP_eq_filter (h : (xs.map key).Nodup) (k : ι) :
    xs.eraseP (fun e => key e = k) = xs.filter fun e => key e ≠ k := by
  induction xs with
  | nil => rfl
  | cons x xs ih =>
    rw [List.map_cons, List.nodup_cons] at h
    by_cases hx : key x = k
    · have hrest : ∀ e ∈ xs, key e ≠ k := fun e he hk =>
        h.1 (hx.trans hk.symm ▸ List.mem_map_of_mem he)
      rw [List.eraseP_cons_of_pos (by simpa using hx), List.filter_cons_of_neg (by simpa using hx),
        List.filter_eq_self.mpr (by simpa using hrest)]
    · rw [List.eraseP_cons_of_neg (by simpa using hx), List.filter_cons_of_pos (by simpa using hx),
        ih h.2]

theorem filter_of_not_mem {k : ι} (h : k ∉ xs.map key) :
    xs.filter (fun e => key e ≠ k) = xs := by
  rw [List.filter_eq_self]
  intro e he
  simp only [decide_eq_true_eq]
  rintro rfl
  exact h (List.mem_map_of_mem he)

theorem length_filter_of_mem (h : (xs.map key).Nodup) {e : ε} (he : e ∈ xs) :
    (xs.filter fun e' => key e' ≠ key e).length = xs.length - 1 := by
  rw [← eraseP_eq_filter h]
  exact List.length_eraseP_of_mem he (decide_eq_true rfl)

theorem find?_of_mem (h : (xs.map key).Nodup) {e : ε} (he : e ∈ xs) :
    xs.find? (fun e' => key e' = key e) = some e := by
  induction xs with
  | nil => cases he
  | cons x xs ih =>
    rw [List.map_cons, List.nodup_cons] at h
    rcases List.mem_cons.mp he with rfl | he
    · simp
    · have hx : key x ≠ key e := fun hk => h.1 (hk ▸ List.mem_map_of_mem he)
      rw [List.find?_cons_of_neg (by simpa using hx), ih h.2 he]

theorem map_ite_of_not_mem {k : ι} (f : ε → ε) (h : k ∉ xs.map key) :
    xs.map (fun e => if key e = k then f e else e) = xs := by
  have hid : ∀ e ∈ xs, (if key e = k then f e else e) = id e := by
    intro e he
    have hk : key e ≠ k := fun hk => h (hk ▸ List.mem_map_of_mem he)
    rw [if_neg hk, id]
  rw [List.map_congr_left hid, List.map_id]

/-- Replacing the first element with a key maps every element with that key, there being one. -/
theorem replaceF_eq_map (h : (xs.map key).Nodup) (f : ε → ε) (k : ι) :
    xs.replaceF (fun e => if key e = k then some (f e) else none) =
      xs.map fun e => if key e = k then f e else e := by
  induction xs with
  | nil => rfl
  | cons x xs ih =>
    rw [List.map_cons, List.nodup_cons] at h
    by_cases hx : key x = k
    · have hp : (if key x = k then some (f x) else none) = some (f x) := if_pos hx
      rw [List.replaceF_cons_of_some (fun e => if key e = k then some (f e) else none) hp,
        List.map_cons, if_pos hx, map_ite_of_not_mem f (hx ▸ h.1)]
    · have hp : (if key x = k then some (f x) else none) = none := if_neg hx
      rw [List.replaceF_cons_of_none (fun e => if key e = k then some (f e) else none) hp,
        List.map_cons, if_neg hx, ih h.2]

/-- Changing the element at a position maps every element with its key, there being one. -/
theorem set_eq_map (h : (xs.map key).Nodup) (f : ε → ε) {i : ℕ} {x : ε} (hx : xs[i]? = some x) :
    xs.set i (f x) = xs.map fun e => if key e = key x then f e else e := by
  induction xs generalizing i with
  | nil => simp at hx
  | cons y ys ih =>
    rw [List.map_cons, List.nodup_cons] at h
    cases i with
    | zero =>
      obtain rfl : y = x := by simpa using hx
      rw [List.set_cons_zero, List.map_cons, if_pos rfl, map_ite_of_not_mem f h.1]
    | succ i =>
      have hx' : ys[i]? = some x := by simpa using hx
      have hne : key y ≠ key x := fun heq =>
        h.1 (heq ▸ List.mem_map_of_mem (List.mem_of_getElem? hx'))
      rw [List.set_cons_succ, List.map_cons, if_neg hne, ih h.2 hx']

end Keyed
