import Linuxpp.Message.Proofs.TcpDatagramSocketProofs

/-!
# Proofs: where the encoders and the sends agree

All encoders agree exactly on the empty list of buffers: there the array has nothing to copy over
the entry for its length. Without the array they agree as far as the accumulator reaches.
-/

namespace Linuxpp

open LengthPrefixedMessage

section

variable {size : ℕ} {nbo : NetworkByteOrder size} {regions : List (List UInt8)}

theorem vectorAndBufferAgree_iff (hfit : regions.flatten.length < 256 ^ size) :
    VectorAndBufferAgree nbo regions ↔ regions.flatten.length < 2 ^ 32 := by
  constructor
  · intro h
    exact (vector_denotes_iff 0 hfit).mp (h 0 { this := 0 }).1
  · intro hsmall this earlier
    exact ⟨(vector_denotes_iff this hfit).mpr hsmall, (fill_denotes_iff earlier hfit).mpr hsmall,
      buffer_denotes this hfit⟩

theorem encodersAgree_iff (hfit : regions.flatten.length < 256 ^ size) :
    EncodersAgree nbo regions ↔ regions = [] := by
  constructor
  · rintro ⟨-, harray⟩
    exact (array_denotes_iff 0).mp (harray 0)
  · rintro rfl
    exact ⟨(vectorAndBufferAgree_iff hfit).mpr (by decide),
      fun this => (array_denotes_iff this).mpr rfl⟩

end

/-- `send<N>` transmits the buffers and whatever its last entry describes, so that it never does
what `send` does if there is a buffer. -/
theorem sendsAgree_iff {nbo : NetworkByteOrder msgSizeTypeSize} {regions : List (List UInt8)}
    (hfit : regions.flatten.length < 256 ^ msgSizeTypeSize) :
    SendsAgree nbo regions ↔ regions = [] := by
  constructor
  · intro h
    by_contra hne
    have hmap : regions.map Iovec.ofRegion ≠ [] := by simpa using hne
    have hbytes := h 0 { this := 0 } (List.replicate (regions.length + 1) {}) List.length_replicate
    have hlen := congrArg List.length hbytes
    rw [sendBuffers_eq _ hfit, sendArray, transmit, LengthPrefixedMessage.bytes,
      iovec_array_of_ne_nil 0 hmap, List.flatMap_append, flatMap_bytes_ofRegion,
      List.drop_replicate, frame] at hlen
    simp [Iovec.bytes, msgSizeTypeSize] at hlen
  · rintro rfl this msg indeterminate hlen
    rw [sendBuffers_eq msg hfit]
    exact transmit_of_denotes ((array_denotes_iff this).mpr rfl indeterminate hlen)

/-- **The length-prefix encoders agree exactly without buffers.** Whatever the prefix type, on
regions whose total fits in it all encoders describe the frame of the joined regions if and only if
there is no region, and those other than the array do if and only if the total fits in an
`unsigned int`. `send<N>` transmits what `send` does if and only if there is no region. -/
theorem encoders_agree_iff_no_buffers {size : ℕ} (nbo : NetworkByteOrder size)
    {regions : List (List UInt8)} (hfit : regions.flatten.length < 256 ^ size) :
    (EncodersAgree nbo regions ↔ regions = []) ∧
    (VectorAndBufferAgree nbo regions ↔ regions.flatten.length < 2 ^ 32) ∧
    (∀ nbo' : NetworkByteOrder msgSizeTypeSize,
      regions.flatten.length < 256 ^ msgSizeTypeSize →
        (SendsAgree nbo' regions ↔ regions = [])) := by
  refine ⟨encodersAgree_iff hfit, vectorAndBufferAgree_iff hfit, ?_⟩
  intro nbo' hfit'
  exact sendsAgree_iff hfit'

theorem encoders_agree_iff_no_buffers_two_regions :
    VectorAndBufferAgree networkByteOrder16 [[97], [98, 99]] ∧
      ¬ SendsAgree networkByteOrder16 [[97], [98, 99]] := by
  have hfit : ([[97], [98, 99]] : List (List UInt8)).flatten.length < 256 ^ msgSizeTypeSize := by
    decide
  obtain ⟨-, hvector, hsends⟩ := encoders_agree_iff_no_buffers networkByteOrder16 hfit
  exact ⟨hvector.mpr (by decide), fun h => absurd ((hsends networkByteOrder16 hfit).mp h) (by simp)⟩

/-- The array for the region `ab` describes `ab` without its length, and then what its last entry
happens to hold. -/
theorem array_overwrites_length :
    (LengthPrefixedMessage.array msgSizeTypeSize 0 [{}, {}] [Iovec.ofRegion [97, 98]]).bytes
        networkByteOrder16 (fun _ => 2) = [97, 98] ∧
      frame msgSizeTypeSize [97, 98] = [0, 2, 97, 98] ∧
      ¬ EncodersAgree networkByteOrder16 [[97, 98]] := by
  refine ⟨by decide, by decide, fun h => ?_⟩
  have hwire := h.2 0 [{}, {}] rfl (fun _ => 2) rfl
  revert hwire
  decide

end Linuxpp
