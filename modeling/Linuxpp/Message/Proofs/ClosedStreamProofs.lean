import Linuxpp.Message.ClosedStream
import Linuxpp.Message.Proofs.TcpDatagramSocketProofs

/-!
# Proofs: receiving from a stream that the peer closes

While the loop around `recv_part` goes on, it has taken a part of the first frame off the stream.
Each call of `::recv` that returns takes more of it, unless the stream is at its end. There the
state does not change any more, and nothing is thrown.
-/

namespace Linuxpp

/-- The loop has taken a part of the first frame off the stream. -/
inductive Within (stream : List UInt8) (r : Receiver) : Prop
  /-- It has the bytes `bs` of the header. -/
  | header (bs : List UInt8) (split : stream = bs ++ r.stream) (short : bs.length < msgSizeTypeSize)
      (asks : recvLength r.state = msgSizeTypeSize - bs.length)
      (part : ∀ received, recvPart r.buf r.state received =
        (received.map (recvSizePart ⟨assembleMsgSize 0 0 bs, bs.length, .receivingMsgSize⟩), r.buf))
  /-- It has the header and `k` bytes of the payload. -/
  | payload (k : ℕ) (full : msgSizeTypeSize + k + r.stream.length = stream.length)
      (announced : k ≤ BigEndian.decode (stream.take msgSizeTypeSize))
      (state : r.state = ⟨BigEndian.decode (stream.take msgSizeTypeSize), k, .receivingMsg⟩)

section Rounds

variable {stream buf : List UInt8} {state : ReceiveState} {r : Receiver} {n : ℕ}

theorem within_of_startsMessage (h : state.StartsMessage) (buf : List UInt8) :
    Within stream ⟨stream, state, buf⟩ := by
  have hshort : ([] : List UInt8).length < msgSizeTypeSize := by decide
  have hasks : subSize msgSizeTypeSize 0 = msgSizeTypeSize :=
    subSize_of_le (by decide) (Nat.zero_le _)
  rcases h with rfl | h
  · exact .header [] rfl hshort hasks fun _ => rfl
  · refine .header [] rfl hshort ?_ fun received => ?_
    · simp only [recvLength, h]
      exact hasks
    · simp only [recvPart, h]
      rfl

/-- A round in which `EAGAIN` is thrown changes the buffer at most. -/
theorem recvPartLoop_again (r : Receiver) :
    recvPartLoop r .again = .inl { r with buf := (recvPart r.buf r.state (.error .EAGAIN)).2 } := by
  unfold recvPartLoop recvPart
  cases r.state.state <;> rfl

theorem decode_take_lt (stream : List UInt8) :
    BigEndian.decode (stream.take msgSizeTypeSize) < 2 ^ 64 := by
  calc BigEndian.decode (stream.take msgSizeTypeSize)
      < 256 ^ (stream.take msgSizeTypeSize).length := BigEndian.decode_lt _
    _ ≤ 256 ^ msgSizeTypeSize := Nat.pow_le_pow_right (by decide) (List.length_take_le _ _)
    _ < 2 ^ 64 := by decide

theorem Receiver.Admits.bounds (h : r.Admits (.bytes n)) :
    n ≤ recvLength r.state ∧ n ≤ r.stream.length ∧
      (n = 0 → recvLength r.state = 0 ∨ r.stream.length = 0) := by
  unfold Receiver.Admits RecvOutcome.PossibleToEnd at h
  split_ifs at h with hzero
  · subst h
    exact ⟨Nat.zero_le _, Nat.zero_le _, fun _ => .inl hzero⟩
  · exact ⟨h.1, h.2.1, fun hn => .inr (h.2.2 hn)⟩

theorem assembleMsgSize_eq_decode {bs : List UInt8} (h : bs.length = msgSizeTypeSize) :
    assembleMsgSize 0 0 bs = BigEndian.decode bs := by
  obtain ⟨b₀, b₁, rfl⟩ := List.length_eq_two.mp h
  exact assembleMsgSize_pair b₀ b₁

/-- `recv_size_part` goes on with the header. -/
theorem recvSizePart_assembled (bs received : List UInt8) :
    recvSizePart ⟨assembleMsgSize 0 0 bs, bs.length, .receivingMsgSize⟩ received =
      if (bs ++ received).length = msgSizeTypeSize then
        ⟨assembleMsgSize 0 0 (bs ++ received), 0, .receivingMsg⟩
      else ⟨assembleMsgSize 0 0 (bs ++ received), (bs ++ received).length, .receivingMsgSize⟩ := by
  have hassemble := assembleMsgSize_append 0 0 bs received
  rw [Nat.zero_add] at hassemble
  unfold recvSizePart
  simp only [hassemble, List.length_append]
  by_cases h : bs.length + received.length = msgSizeTypeSize <;> simp [h]

/-- What a round in which `::recv` returns comes to. -/
inductive Advanced (stream : List UInt8) (r : Receiver) :
    Receiver ⊕ Except Errno (List UInt8) → Prop
  | on (t : Receiver) (within : Within stream t)
      (shorter : BeginsWithFrame stream → t.stream.length < r.stream.length) :
      Advanced stream r (.inl t)
  | done (message : List UInt8) (frame : BeginsWithFrame stream) :
      Advanced stream r (.inr (.ok message))

/-- A round that gets bytes of the header. -/
theorem advanced_of_header {bs : List UInt8} (split : stream = bs ++ r.stream)
    (short : bs.length < msgSizeTypeSize) (asks : recvLength r.state = msgSizeTypeSize - bs.length)
    (part : ∀ received, recvPart r.buf r.state received =
      (received.map (recvSizePart ⟨assembleMsgSize 0 0 bs, bs.length, .receivingMsgSize⟩), r.buf))
    (ho : r.Admits (.bytes n)) : Advanced stream r (recvPartLoop r (.bytes n)) := by
  obtain ⟨hlen, havail, hzero⟩ := ho.bounds
  have hstream : stream = (bs ++ r.stream.take n) ++ r.stream.drop n := by
    rw [List.append_assoc, List.take_append_drop, split]
  have htaken : (bs ++ r.stream.take n).length = bs.length + n := by
    rw [List.length_append, List.length_take_of_le havail]
  have htotal : stream.length = bs.length + r.stream.length := by
    rw [split, List.length_append]
  have hshorter : BeginsWithFrame stream → (r.stream.drop n).length < r.stream.length := by
    intro hframe
    have hfull := hframe.1
    rw [List.length_drop]
    omega
  unfold recvPartLoop
  simp only [part, Except.map, recvSizePart_assembled]
  by_cases hfull : (bs ++ r.stream.take n).length = msgSizeTypeSize
  · rw [if_pos hfull]
    refine .on _ (.payload 0 ?_ (Nat.zero_le _) ?_) hshorter
    · simp only [List.length_drop]
      omega
    · rw [hstream, List.take_left' hfull, assembleMsgSize_eq_decode hfull]
  · rw [if_neg hfull]
    have hle : (bs ++ r.stream.take n).length ≤ msgSizeTypeSize := by omega
    refine .on _ (.header _ hstream (by omega) ?_ fun _ => rfl) hshorter
    exact subSize_of_le (by decide) hle

/-- A round that gets bytes of the payload. -/
theorem advanced_of_payload {k : ℕ} (full : msgSizeTypeSize + k + r.stream.length = stream.length)
    (announced : k ≤ BigEndian.decode (stream.take msgSizeTypeSize))
    (state : r.state = ⟨BigEndian.decode (stream.take msgSizeTypeSize), k, .receivingMsg⟩)
    (ho : r.Admits (.bytes n)) : Advanced stream r (recvPartLoop r (.bytes n)) := by
  obtain ⟨hlen, havail, hzero⟩ := ho.bounds
  have hasks : recvLength r.state = BigEndian.decode (stream.take msgSizeTypeSize) - k := by
    rw [state]
    exact subSize_of_le (decode_take_lt stream) announced
  unfold recvPartLoop recvPart
  simp only [state, recvMsgPart_eq, List.length_take_of_le havail]
  by_cases hdone : k + n = BigEndian.decode (stream.take msgSizeTypeSize)
  · rw [if_pos hdone]
    refine .done _ ⟨by omega, by omega⟩
  · rw [if_neg hdone]
    refine .on _ (.payload (k + n) ?_ (by omega) rfl) fun hframe => ?_
    · simp only [List.length_drop]
      omega
    · have hrest := hframe.2
      simp only [List.length_drop]
      omega

theorem Within.advanced {o : RecvOutcome} (h : Within stream r) (ho : r.Admits o)
    (hagain : o ≠ .again) : Advanced stream r (recvPartLoop r o) := by
  cases o with
  | again => exact absurd rfl hagain
  | bytes n =>
    cases h with
    | header bs split short asks part => exact advanced_of_header split short asks part ho
    | payload k full announced state => exact advanced_of_payload full announced state ho

theorem Within.again (h : Within stream r) :
    Within stream { r with buf := (recvPart r.buf r.state (.error .EAGAIN)).2 } := by
  cases h with
  | header bs split short asks part =>
    rw [part]
    exact .header bs split short asks part
  | payload k full announced state => exact .payload k full announced state

end Rounds

section Loop

variable {stream buf : List UInt8} {state : ReceiveState} {outcomes : ℕ → RecvOutcome}

theorem within_step (stream : List UInt8) (r : Receiver) (o : RecvOutcome) (t : Receiver)
    (h : Within stream r) (ho : r.Admits o) (ht : recvPartLoop r o = .inl t) : Within stream t := by
  by_cases hagain : o = .again
  · subst hagain
    rw [recvPartLoop_again] at ht
    obtain rfl := Sum.inl.inj ht
    exact h.again
  · have hadvanced := h.advanced ho hagain
    rw [ht] at hadvanced
    cases hadvanced with
    | on _ within _ => exact within

/-- The loop is left only with a message, and only behind a whole frame. -/
theorem leaves_only_with_frame (hstart : state.StartsMessage)
    (hfeeds : recvPartLoop.Feeds Receiver.Admits outcomes ⟨stream, state, buf⟩)
    {result : Except Errno (List UInt8)}
    (h : recvPartLoop.Leaves outcomes ⟨stream, state, buf⟩ result) :
    (∃ message, result = .ok message) ∧ BeginsWithFrame stream := by
  have hpost : ∀ r o result, Within stream r → r.Admits o → recvPartLoop r o = .inr result →
      (∃ message, result = .ok message) ∧ BeginsWithFrame stream := by
    intro r o result hr ho hresult
    by_cases hagain : o = .again
    · subst hagain
      rw [recvPartLoop_again] at hresult
      cases hresult
    · have hadvanced := hr.advanced ho hagain
      rw [hresult] at hadvanced
      cases hadvanced with
      | done message frame => exact ⟨⟨message, rfl⟩, frame⟩
  exact Loop.Leaves.post (within_step stream) hpost hfeeds (within_of_startsMessage hstart buf) h

/-- The loop is left when the stream begins with a whole frame. -/
theorem leaves_of_beginsWithFrame (hframe : BeginsWithFrame stream) (hstart : state.StartsMessage)
    (hfeeds : recvPartLoop.Feeds Receiver.Admits outcomes ⟨stream, state, buf⟩)
    (hagain : ∃ n, ∀ k, n ≤ k → outcomes k ≠ .again) :
    ∃ result, recvPartLoop.Leaves outcomes ⟨stream, state, buf⟩ result := by
  have hrank : ∀ r o t, Within stream r → r.Admits o → recvPartLoop r o = .inl t → ¬ o = .again →
      t.stream.length < r.stream.length := by
    intro r o t hr ho ht hne
    have hadvanced := hr.advanced ho hne
    rw [ht] at hadvanced
    cases hadvanced with
    | on _ _ shorter => exact shorter hframe
  exact Loop.leaves_of_rank (within_step stream) (fun r => r.stream.length) hrank hfeeds
    (within_of_startsMessage hstart buf) hagain

theorem recv_eq_ENODATA_iff (stream : List UInt8) :
    (recv stream).1 = .error .ENODATA ↔ ¬ BeginsWithFrame stream := by
  unfold recv BeginsWithFrame
  simp only [List.length_take, List.length_drop]
  split_ifs with hheader hpayload
  · simp
    omega
  · simp
    omega
  · simp
    omega

/-- The most that `::recv` may return. -/
def Receiver.most (r : Receiver) : RecvOutcome :=
  .bytes (min (recvLength r.state) r.stream.length)

theorem Receiver.admits_most (r : Receiver) : r.Admits r.most := by
  unfold Receiver.Admits Receiver.most RecvOutcome.PossibleToEnd
  split_ifs with hzero
  · simp [hzero]
  · exact ⟨Nat.min_le_left _ _, Nat.min_le_right _ _, by omega⟩

/-- The incremental receive ends as `recv` does if and only if the stream begins with a whole
frame. -/
theorem endsLikeRecv_iff_beginsWithFrame (stream : List UInt8) :
    EndsLikeRecv stream ↔ BeginsWithFrame stream := by
  constructor
  · intro h
    have hstart : ReceiveState.StartsMessage {} := .inl rfl
    obtain ⟨outcomes, hfeeds, hmost⟩ :=
      Loop.exists_feeds Receiver.most Receiver.admits_most ⟨stream, {}, []⟩
    have hagain : ∀ k, 0 ≤ k → outcomes k ≠ .again := by
      intro k _
      obtain ⟨r, hr⟩ := hmost k
      rw [hr]
      exact nofun
    obtain ⟨⟨result, hleaves⟩, -⟩ := h {} [] outcomes hstart hfeeds ⟨0, hagain⟩
    exact (leaves_only_with_frame hstart hfeeds hleaves).2
  · intro hframe state buf outcomes hstart hfeeds hagain
    refine ⟨leaves_of_beginsWithFrame hframe hstart hfeeds hagain, ?_⟩
    -- neither of the two throws
    rw [recv_eq_ENODATA_iff]
    refine iff_of_false ?_ (not_not_intro hframe)
    rintro ⟨e, hleaves⟩
    obtain ⟨⟨message, hmessage⟩, -⟩ := leaves_only_with_frame hstart hfeeds hleaves
    cases hmessage

/-- The header and the one byte behind it arrive, and then the end of the stream. -/
def truncatedOutcomes : ℕ → RecvOutcome
  | 0 => .bytes 2
  | 1 => .bytes 1
  | _ => .bytes 0

/-- A message of three bytes is announced and the peer closes behind the first one. `recv` throws,
and the loop around `recv_part` goes on for ever. -/
theorem truncated_message_received_for_ever :
    (recv [0, 3, 7]).1 = .error .ENODATA ∧
    recvPartLoop.Feeds Receiver.Admits truncatedOutcomes ⟨[0, 3, 7], {}, []⟩ ∧
    (∀ result, ¬ recvPartLoop.Leaves truncatedOutcomes ⟨[0, 3, 7], {}, []⟩ result) ∧
    ¬ EndsLikeRecv [0, 3, 7] := by
  have hend : ∀ k, recvPartLoop.after truncatedOutcomes ⟨[0, 3, 7], {}, []⟩ (k + 2) =
      .inl ⟨[], ⟨3, 1, .receivingMsg⟩, [7, 0, 0]⟩ := by
    intro k
    induction k with
    | zero => rfl
    | succ k ih =>
      rw [Loop.after_succ_of_inl ih]
      rfl
  have hfeeds : recvPartLoop.Feeds Receiver.Admits truncatedOutcomes ⟨[0, 3, 7], {}, []⟩ := by
    intro k r hr
    rcases k with _ | _ | k
    · obtain rfl := Sum.inl.inj hr
      exact ⟨by decide, by decide, by decide⟩
    · obtain rfl := Sum.inl.inj hr
      exact ⟨by decide, by decide, by decide⟩
    · obtain rfl := Sum.inl.inj ((hend k).symm.trans hr)
      exact ⟨by decide, by decide, by decide⟩
  have hnever : ∀ result,
      ¬ recvPartLoop.Leaves truncatedOutcomes ⟨[0, 3, 7], {}, []⟩ result := by
    rintro result ⟨_ | _ | k, hk⟩
    · cases hk
    · cases hk
    · cases (hend k).symm.trans hk
  have hagain : ∀ k, 0 ≤ k → truncatedOutcomes k ≠ .again := by
    intro k _
    rcases k with _ | _ | k <;> exact nofun
  refine ⟨rfl, hfeeds, hnever, fun h => ?_⟩
  obtain ⟨⟨result, hleaves⟩, -⟩ := h {} [] truncatedOutcomes (.inl rfl) hfeeds ⟨0, hagain⟩
  exact hnever result hleaves

end Loop

end Linuxpp
