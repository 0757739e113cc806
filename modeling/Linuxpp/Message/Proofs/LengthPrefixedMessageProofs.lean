import Linuxpp.Message.LengthPrefixedMessage
import Linuxpp.Message.Proofs.IovecProofs

/-!
# Proofs: the length-prefix encoders

The buffer always describes the frame of its payload. The vector, constructed or refilled, does so
exactly if the total fits in an `unsigned int`. The array does so exactly if it has no buffers,
because the copy of the buffers starts at the entry for the length.
-/

namespace Linuxpp

open LengthPrefixedMessage

section Denotation

variable {size : ℕ} {nbo : NetworkByteOrder size} {lengths : ObjectId → ℕ}

@[simp] theorem bytes_ofRegion (region : List UInt8) :
    (Iovec.ofRegion region).bytes nbo lengths = region := by
  simp [Iovec.bytes, Iovec.ofRegion]

@[simp] theorem flatMap_bytes_ofRegion (regions : List (List UInt8)) :
    (regions.map Iovec.ofRegion).flatMap (Iovec.bytes nbo lengths) = regions.flatten := by
  rw [List.flatMap_def, List.map_map]
  congr 1
  exact (List.map_congr_left fun region _ => bytes_ofRegion region).trans (List.map_id regions)

/-- The entry for the `length_` member describes the big-endian length. -/
theorem bytes_lengthIovec {this : ObjectId} (h : lengths this < 256 ^ size) :
    (lengthIovec size this).bytes nbo lengths = BigEndian.encode size (lengths this) := by
  show (nbo.object (lengths this)).take (size * 1) = _
  rw [Nat.mul_one, nbo.object_eq _ h]
  exact List.take_of_length_le (BigEndian.length_encode _ _).le

theorem castTo_lt (size v : ℕ) : castTo size v < 256 ^ size :=
  Nat.mod_lt _ (Nat.pow_pos (by decide))

/-- A message that starts with the entry for its length, and describes the payload behind it,
describes the frame of the payload exactly if the length is right. -/
theorem denotes_frame_iff {msg : LengthPrefixedMessage} {payload : List UInt8} {rest : List Iovec}
    (hiovec : msg.iovec = lengthIovec size msg.this :: rest)
    (hrest : ∀ lengths, rest.flatMap (Iovec.bytes nbo lengths) = payload)
    (hlength : msg.length < 256 ^ size) (hfit : payload.length < 256 ^ size) :
    msg.Denotes nbo (frame size payload) ↔ msg.length = payload.length := by
  have hbytes : ∀ lengths : ObjectId → ℕ, lengths msg.this = msg.length →
      msg.bytes nbo lengths = BigEndian.encode size msg.length ++ payload := by
    intro lengths hl
    rw [LengthPrefixedMessage.bytes, hiovec, List.flatMap_cons, hrest,
      bytes_lengthIovec (hl ▸ hlength), hl]
  constructor
  · intro h
    have heq := h (fun _ => msg.length) rfl
    rw [hbytes _ rfl, frame, List.append_cancel_right_eq] at heq
    exact BigEndian.encode_inj hlength hfit heq
  · intro heq lengths hl
    rw [hbytes lengths hl, heq, frame]

theorem iovec_vector (this : ObjectId) (buffers : List Iovec) :
    (vector size this buffers).iovec = lengthIovec size this :: buffers :=
  copyTo_one _ _ _ (by simp)

/-- A refilled vector has no trace of what it held before. -/
theorem iovec_fill (msg : LengthPrefixedMessage) (buffers : List Iovec) :
    (fill size msg buffers).iovec = lengthIovec size msg.this :: buffers := by
  have hlen := length_resize msg.iovec (buffers.length + 1) {}
  unfold fill
  cases hr : resize msg.iovec (buffers.length + 1) {} with
  | nil => simp [hr] at hlen
  | cons front rest =>
    refine copyTo_one _ _ _ ?_
    simpa [hr] using hlen

/-- The cast to `T` does not change a total that fits, so only the accumulator does. -/
theorem castTo_accumulate {regions : List (List UInt8)}
    (hfit : regions.flatten.length < 256 ^ size) :
    castTo size (accumulate (regions.map Iovec.ofRegion)) = regions.flatten.length ↔
      regions.flatten.length < 2 ^ 32 := by
  rw [accumulate_ofRegion, castTo,
    Nat.mod_eq_of_lt (lt_of_le_of_lt (Nat.mod_le _ _) hfit)]
  exact ⟨fun h => h ▸ Nat.mod_lt _ (by decide), Nat.mod_eq_of_lt⟩

variable {regions : List (List UInt8)}

theorem vector_denotes_iff (this : ObjectId) (hfit : regions.flatten.length < 256 ^ size) :
    (vector size this (regions.map Iovec.ofRegion)).Denotes nbo (frame size regions.flatten) ↔
      regions.flatten.length < 2 ^ 32 := by
  rw [denotes_frame_iff (iovec_vector _ _) (fun _ => flatMap_bytes_ofRegion _) (castTo_lt _ _) hfit]
  exact castTo_accumulate hfit

theorem fill_denotes_iff (earlier : LengthPrefixedMessage)
    (hfit : regions.flatten.length < 256 ^ size) :
    (fill size earlier (regions.map Iovec.ofRegion)).Denotes nbo (frame size regions.flatten) ↔
      regions.flatten.length < 2 ^ 32 := by
  rw [denotes_frame_iff (iovec_fill _ _) (fun _ => flatMap_bytes_ofRegion _) (castTo_lt _ _) hfit]
  exact castTo_accumulate hfit

theorem buffer_denotes (this : ObjectId) {payload : List UInt8}
    (hfit : payload.length < 256 ^ size) :
    (buffer size this payload payload.length).Denotes nbo (frame size payload) := by
  refine (denotes_frame_iff rfl (fun lengths => ?_) hfit hfit).mpr rfl
  exact (List.append_nil _).trans (List.take_length)

/-- With a buffer, the array describes the buffers and then its last, uninitialised entry. -/
theorem iovec_array_of_ne_nil (this : ObjectId) {indeterminate buffers : List Iovec}
    (hne : buffers ≠ []) :
    (array size this indeterminate buffers).iovec =
      buffers ++ indeterminate.drop buffers.length := by
  obtain ⟨v, vs, rfl⟩ := List.exists_cons_of_ne_nil hne
  unfold array
  rw [copyTo_zero]
  cases indeterminate <;> rfl

/-- The array describes the frame, whatever its entries hold at first, only without buffers. -/
theorem array_denotes_iff (this : ObjectId) :
    (∀ indeterminate : List Iovec, indeterminate.length = regions.length + 1 →
      (array size this indeterminate (regions.map Iovec.ofRegion)).Denotes nbo
        (frame size regions.flatten)) ↔ regions = [] := by
  constructor
  · intro h
    by_contra hne
    have hmap : regions.map Iovec.ofRegion ≠ [] := by simpa using hne
    -- the uninitialised entries may describe nothing
    have hwire := h (List.replicate (regions.length + 1) {}) (List.length_replicate)
      (fun _ => castTo size (accumulate (regions.map Iovec.ofRegion))) rfl
    have hlen := congrArg List.length hwire
    rw [LengthPrefixedMessage.bytes, iovec_array_of_ne_nil this hmap, List.flatMap_append,
      flatMap_bytes_ofRegion, List.drop_replicate, frame] at hlen
    simp [Iovec.bytes] at hlen
    have hpos := nbo.size_pos
    omega
  · rintro rfl indeterminate hlen
    obtain ⟨v, rfl⟩ := List.length_eq_one_iff.mp hlen
    have hnone : ∀ lengths, ([] : List Iovec).flatMap (Iovec.bytes nbo lengths) = [] :=
      fun _ => rfl
    exact (denotes_frame_iff rfl hnone (castTo_lt _ _) (Nat.pow_pos (by decide))).mpr rfl

end Denotation
end Linuxpp
