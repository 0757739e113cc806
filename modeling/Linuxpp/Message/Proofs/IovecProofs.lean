import Linuxpp.Message.Iovec

/-!
# Proofs: ranges of `iovec`

The copies and resizes of the library's vectors, and `accumulate`. The accumulator is an
`unsigned int`, so that the result is the total reduced to 32 bits, and it is the total exactly if
that fits.
-/

namespace Linuxpp

section Lists

variable {α : Type}

theorem copyTo_one (src rest : List α) (x : α) (h : rest.length = src.length) :
    copyTo src (x :: rest) 1 = x :: src := by
  unfold copyTo
  rw [Nat.add_comm 1, List.drop_succ_cons, ← h, List.drop_length]
  simp

/-- A copy to the front leaves the elements behind it. -/
theorem copyTo_zero (src dst : List α) : copyTo src dst 0 = src ++ dst.drop src.length := by
  simp [copyTo]

theorem length_resize (xs : List α) (n : ℕ) (value : α) : (resize xs n value).length = n := by
  unfold resize
  rw [List.length_append, List.length_take, List.length_replicate]
  omega

end Lists

section Accumulate

theorem totalLength_append (front back : List Iovec) :
    totalLength (front ++ back) = totalLength front + totalLength back := by
  simp [totalLength]

theorem totalLength_ofRegion (regions : List (List UInt8)) :
    totalLength (regions.map Iovec.ofRegion) = regions.flatten.length := by
  show ((regions.map Iovec.ofRegion).map Iovec.iovLen).sum = _
  rw [List.map_map, List.length_flatten]
  rfl

/-- The fold, started at any value of the accumulator. -/
theorem foldl_accumulate (entries : List Iovec) (val : ℕ) :
    entries.foldl (fun val iovec => (val + iovec.iovLen) % 2 ^ 64 % 2 ^ 32) (val % 2 ^ 32) =
      (val + totalLength entries) % 2 ^ 32 := by
  induction entries generalizing val with
  | nil => rfl
  | cons v vs ih =>
    have hval : (val % 2 ^ 32 + v.iovLen) % 2 ^ 64 % 2 ^ 32 = (val + v.iovLen) % 2 ^ 32 := by
      omega
    rw [List.foldl_cons, hval, ih, totalLength, totalLength, List.map_cons, List.sum_cons,
      Nat.add_assoc]

/-- The total, reduced to 32 bits. -/
theorem accumulate_eq (entries : List Iovec) :
    accumulate entries = totalLength entries % 2 ^ 32 := by
  have hfold := foldl_accumulate entries 0
  rw [Nat.zero_add] at hfold
  exact hfold

theorem accumulate_lt (entries : List Iovec) : accumulate entries < 2 ^ 32 := by
  rw [accumulate_eq]
  exact Nat.mod_lt _ (by decide)

/-- A total that fits in an `unsigned int` is not changed. -/
theorem accumulate_of_lt {entries : List Iovec} (h : totalLength entries < 2 ^ 32) :
    accumulate entries = totalLength entries := by
  rw [accumulate_eq, Nat.mod_eq_of_lt h]

theorem accumulate_ofRegion (regions : List (List UInt8)) :
    accumulate (regions.map Iovec.ofRegion) = regions.flatten.length % 2 ^ 32 := by
  rw [accumulate_eq, totalLength_ofRegion]

/-- **`accumulate` is exact as far as an `unsigned int` reaches.** For every range of entries, the
result is the total of their lengths, the sum of the results for any two parts, and the same for
every other range with that total, if and only if the total is less than 2^32. -/
theorem accumulate_exact_iff (entries : List Iovec) :
    AccumulateExact entries ↔ totalLength entries < 2 ^ 32 := by
  constructor
  · intro h
    have hlt := accumulate_lt entries
    rw [h.total] at hlt
    exact hlt
  · intro hlt
    have htotal := accumulate_of_lt hlt
    refine ⟨htotal, ?_, ?_⟩
    · intro front back hparts
      have hsum := totalLength_append front back
      rw [← hparts] at hsum
      rw [htotal, accumulate_of_lt (by omega), accumulate_of_lt (by omega), hsum]
    · intro others hothers
      rw [accumulate_eq, accumulate_eq, hothers]

/-- Two entries of 2 GiB each add up to nothing. -/
theorem accumulate_drops_carry :
    totalLength [⟨.region [], 2 ^ 31⟩, ⟨.region [], 2 ^ 31⟩] < 2 ^ 64 ∧
      accumulate [⟨.region [], 2 ^ 31⟩, ⟨.region [], 2 ^ 31⟩] = 0 ∧
      ¬ AccumulateExact [⟨.region [], 2 ^ 31⟩, ⟨.region [], 2 ^ 31⟩] := by
  refine ⟨by decide, by decide, fun h => ?_⟩
  have htotal := h.total
  revert htotal
  decide

end Accumulate
end Linuxpp
