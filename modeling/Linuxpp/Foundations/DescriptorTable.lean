import Mathlib.Data.List.Basic
import Mathlib.Tactic.Push

/-!
# Tables of descriptors

A table says what the descriptors of a process refer to. A new descriptor gets the lowest number
that is free, a closed one gives its number back, and a descriptor can be made to refer to what
another one refers to. What is beyond the end of the list of slots is free.
-/

/-- The slots of the descriptors `0`, `1`, … -/
structure DescriptorTable (φ : Type*) where
  slots : List (Option φ) := []
deriving DecidableEq, Repr

namespace DescriptorTable

variable {φ : Type*}

/-- What a descriptor refers to; a negative number is never open. -/
def get (t : DescriptorTable φ) (fd : Int) : Option φ :=
  if 0 ≤ fd then t.slots[fd.toNat]?.join else none

/-- The lowest number that is free. -/
def lowestFree (t : DescriptorTable φ) : ℕ := t.slots.findIdx Option.isNone

/-- The slot of `fd` is overwritten. -/
def put (t : DescriptorTable φ) (fd : Int) (x : Option φ) : DescriptorTable φ :=
  if 0 ≤ fd then
    ⟨(t.slots ++ List.replicate (fd.toNat + 1 - t.slots.length) none).set fd.toNat x⟩
  else t

/-- A new descriptor for `x`. -/
def insert (t : DescriptorTable φ) (x : φ) : DescriptorTable φ := t.put t.lowestFree (some x)

/-- `fd` is free afterwards. -/
def close (t : DescriptorTable φ) (fd : Int) : DescriptorTable φ := t.put fd none

/-- `target` refers to what `source` refers to, unless `source` is not open. -/
def dup2 (t : DescriptorTable φ) (source target : Int) : Option (DescriptorTable φ) :=
  (t.get source).map fun x => t.put target (some x)

/-- What is open in `t` is open in `t'`, for the same. -/
def Extends (t t' : DescriptorTable φ) : Prop := ∀ fd x, t.get fd = some x → t'.get fd = some x

variable {t t' t'' : DescriptorTable φ} {fd fd' : Int} {x y : φ}

theorem get_of_neg (h : fd < 0) : t.get fd = none := by
  unfold get
  rw [if_neg (by omega)]

theorem get_put (h : 0 ≤ fd) (x : Option φ) :
    (t.put fd x).get fd' = if fd' = fd then x else t.get fd' := by
  unfold put get
  rw [if_pos h]
  dsimp only
  by_cases hfd' : 0 ≤ fd'
  · rw [if_pos hfd', if_pos hfd']
    by_cases heq : fd' = fd
    · subst heq
      have hlen : fd'.toNat < (t.slots ++
          List.replicate (fd'.toNat + 1 - t.slots.length) none).length := by
        rw [List.length_append, List.length_replicate]
        omega
      rw [if_pos rfl, List.getElem?_set_self hlen, Option.join_some]
    · have hne : fd.toNat ≠ fd'.toNat := by omega
      rw [if_neg heq, List.getElem?_set_ne hne]
      by_cases hin : fd'.toNat < t.slots.length
      · rw [List.getElem?_append_left hin]
      · rw [List.getElem?_append_right (by omega), List.getElem?_eq_none (by omega : _ ≤ fd'.toNat)]
        rw [List.getElem?_replicate]
        split_ifs <;> rfl
  · have hne : fd' ≠ fd := by omega
    rw [if_neg hfd', if_neg hfd', if_neg hne]

@[simp] theorem get_close : (t.close fd).get fd' = if fd' = fd then none else t.get fd' := by
  unfold close
  by_cases h : 0 ≤ fd
  · exact get_put h none
  · unfold put
    rw [if_neg h]
    split_ifs with heq
    · rw [heq, get_of_neg (by omega)]
    · rfl

@[simp] theorem get_insert :
    (t.insert x).get fd = if fd = t.lowestFree then some x else t.get fd :=
  get_put (by omega) (some x)

theorem get_lowestFree : t.get t.lowestFree = none := by
  unfold get lowestFree
  rw [if_pos (by omega), Int.toNat_natCast]
  by_cases h : t.slots.findIdx Option.isNone < t.slots.length
  · have hnone := List.findIdx_getElem (w := h)
    rw [List.getElem?_eq_getElem h, Option.isNone_iff_eq_none.mp hnone]
    rfl
  · rw [List.getElem?_eq_none (by omega)]
    rfl

theorem dup2_eq_some {source target : Int} : t.dup2 source target = some t' ↔
    ∃ x, t.get source = some x ∧ t.put target (some x) = t' := by
  simp [dup2]

theorem Extends.refl (t : DescriptorTable φ) : t.Extends t := fun _ _ h => h

theorem Extends.trans (h : t.Extends t') (h' : t'.Extends t'') : t.Extends t'' :=
  fun fd x hx => h' fd x (h fd x hx)

theorem Extends.get_ne_none (h : t.Extends t') (hfd : t.get fd ≠ none) : t'.get fd ≠ none := by
  obtain ⟨x, hx⟩ := Option.ne_none_iff_exists'.mp hfd
  rw [h fd x hx]
  exact Option.some_ne_none x

theorem extends_insert (t : DescriptorTable φ) (x : φ) : t.Extends (t.insert x) := by
  intro fd y hy
  have hne : fd ≠ t.lowestFree := by
    rintro rfl
    rw [get_lowestFree] at hy
    cases hy
  rw [get_insert, if_neg hne, hy]

/-- The only number that is newly taken is the lowest that was free. -/
theorem eq_lowestFree_of_insert (h : t.get fd = none) (h' : (t.insert x).get fd ≠ none) :
    fd = t.lowestFree := by
  by_contra hne
  rw [get_insert, if_neg hne] at h'
  exact h' h

/-- Two descriptors of which only one is open are different. -/
theorem ne_of_get (h : t.get fd ≠ none) (h' : t.get fd' = none) : fd ≠ fd' := by
  rintro rfl
  exact h h'

end DescriptorTable
