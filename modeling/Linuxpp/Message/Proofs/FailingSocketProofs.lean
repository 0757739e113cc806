import Linuxpp.Message.FailingSocket
import Linuxpp.Message.Proofs.TcpDatagramSocketProofs

/-!
# Proofs: sends and receives that fail or are short

A send whose payload does not fit in the header is read as something else. A short send is harmless
while nothing is transmitted behind it: what is missing of its message completes the stream. A
receive that fails is harmless when it has taken nothing off the stream.
-/

namespace Linuxpp

open LengthPrefixedMessage

section Length

variable {nbo : NetworkByteOrder msgSizeTypeSize} {msg : LengthPrefixedMessage}
  {regions : List (List UInt8)}

/-- Two bytes stand for no size from 65536 on. -/
theorem SentUnderItsLength.fits {n : ℕ} (h : SentUnderItsLength nbo msg regions (.transmits n)) :
    regions.flatten.length < 65536 := by
  obtain ⟨hheader, -⟩ := h
  generalize hbytes : (((SendCall.buffers regions).message nbo msg).1.take n).take
    msgSizeTypeSize = bytes at hheader
  have hlen : bytes.length ≤ 2 := hbytes ▸ List.length_take_le _ _
  calc regions.flatten.length = BigEndian.decode bytes := hheader.symm
    _ < 256 ^ bytes.length := BigEndian.decode_lt bytes
    _ ≤ 256 ^ 2 := Nat.pow_le_pow_right (by decide) hlen

/-- `send(buffers, size_buffers)` keeps the frames apart exactly when nothing is transmitted or the
payload fits in the header. -/
theorem sent_under_its_length_iff_fits (nbo : NetworkByteOrder msgSizeTypeSize)
    (msg : LengthPrefixedMessage) (regions : List (List UInt8)) (o : SendOutcome)
    (hfull : o.Full ((SendCall.buffers regions).message nbo msg).1.length) :
    SentUnderItsLength nbo msg regions o ↔
      (∃ errno, o = .fails errno) ∨ regions.flatten.length < 65536 := by
  cases o with
  | fails errno => exact iff_of_true rfl (Or.inl ⟨errno, rfl⟩)
  | transmits n =>
    constructor
    · exact fun h => Or.inr h.fits
    · rintro (⟨errno, herrno⟩ | hfits)
      · cases herrno
      have hbytes : ((SendCall.buffers regions).message nbo msg).1 =
          frame msgSizeTypeSize regions.flatten := sendBuffers_eq msg hfits
      obtain rfl : n = _ := hfull
      simp only [SentUnderItsLength, netSend, List.take_length]
      rw [hbytes]
      refine ⟨?_, fun following => recv_frame hfits following⟩
      rw [frame, List.take_left' (BigEndian.length_encode _ _), BigEndian.decode_encode hfits]

/-- Three bytes in two regions. -/
theorem sent_under_its_length_iff_fits_three :
    recv (((SendCall.buffers [[1], [2, 3]]).message networkByteOrder16 { this := 0 }).1 ++ [7]) =
      (.ok [1, 2, 3], [7]) := by
  have hsent := (sent_under_its_length_iff_fits networkByteOrder16 { this := 0 } [[1], [2, 3]]
    (.transmits 5) rfl).mpr (Or.inr (by decide))
  exact hsent.2 [7]

/-- A message of 65536 bytes is sent under the length 0. -/
theorem long_message_sent_under_zero :
    ((SendCall.buffers [List.replicate 65536 7]).message networkByteOrder16 { this := 0 }).2.length
      = 0 ∧
    ∀ n, ¬ SentUnderItsLength networkByteOrder16 { this := 0 } [List.replicate 65536 7]
      (.transmits n) := by
  have htotal : [List.replicate 65536 (7 : UInt8)].flatten.length = 65536 := by
    rw [List.flatten_singleton, List.length_replicate]
  constructor
  · show castTo msgSizeTypeSize (accumulate ([List.replicate 65536 7].map Iovec.ofRegion)) = 0
    rw [accumulate_ofRegion, htotal]
    rfl
  · intro n h
    exact absurd h.fits (by rw [htotal]; decide)

end Length

section Cut

variable {nbo : NetworkByteOrder msgSizeTypeSize} {c c' : CutConnection}
  {rest : List (List UInt8)}

/-- The connection with the bytes that are missing of the last message. -/
def CutConnection.completed (c : CutConnection) : Connection :=
  { c.conn with stream := c.conn.stream ++ c.missing }

/-- Every call but one of `send<N>` with a buffer hands the frame of its payload to `sendmsg`. -/
theorem message_eq_frame {call : SendCall} (hrange : call.InRange)
    (hcall : ¬ call.IsArrayWithBuffers) (msg : LengthPrefixedMessage) :
    (call.message nbo msg).1 = frame msgSizeTypeSize call.payload := by
  cases call with
  | buffer this buf => exact sendBuffer_eq this hrange
  | buffers regions => exact sendBuffers_eq msg hrange
  | array this indeterminate regions =>
    obtain rfl : regions = [] := not_not.mp hcall
    exact transmit_of_denotes ((array_denotes_iff this).mpr rfl indeterminate hrange.2)

theorem payload_small {call : SendCall} (hrange : call.InRange) :
    call.payload.length < 256 ^ msgSizeTypeSize := by
  cases call with
  | buffer this buf => exact hrange
  | buffers regions => exact hrange
  | array this indeterminate regions => exact hrange.1

/-- A send on a stream of which nothing is missing leaves the rest of its frame missing. -/
theorem completed_afterSend {call : SendCall} {o : SendOutcome} (hrange : call.InRange)
    (hwhole : FollowsWholeSends c (.send call o)) (h : InSync c.completed rest) :
    ∃ rest', InSync (c.afterSend nbo call o).completed rest' := by
  cases o with
  | fails errno => exact ⟨rest, { h with }⟩
  | transmits n =>
    obtain ⟨hmissing, hcall⟩ := hwhole
    have hsplit : (c.conn.stream ++ (call.message nbo c.conn.msg).1.take n) ++
        (call.message nbo c.conn.msg).1.drop n =
          c.conn.stream ++ frame msgSizeTypeSize call.payload := by
      rw [List.append_assoc, List.take_append_drop, message_eq_frame hrange hcall]
    have hstream : c.completed.stream = c.conn.stream := by
      rw [CutConnection.completed, hmissing, List.append_nil]
    have hsent := h.send (payload_small hrange) (call.message nbo c.conn.msg).2
    rw [hstream, ← hsplit] at hsent
    exact ⟨rest ++ [call.payload], hsent⟩

/-- The caller of `recv_part` does not notice that bytes are missing behind those it gets. -/
theorem completed_afterRecvPart {n : ℕ} (hn : n ≤ c.conn.stream.length) :
    ({ c with conn := c.conn.afterRecvPart n } : CutConnection).completed =
      c.completed.afterRecvPart n := by
  have htake : (c.conn.stream ++ c.missing).take n = c.conn.stream.take n :=
    List.take_append_of_le_length hn
  have hdrop : (c.conn.stream ++ c.missing).drop n = c.conn.stream.drop n ++ c.missing :=
    List.drop_append_of_le_length hn
  simp only [CutConnection.completed, Connection.afterRecvPart, htake, hdrop]
  split <;> rfl

theorem RecvOutcome.Possible.le {length available n : ℕ}
    (h : (RecvOutcome.bytes n).Possible length available) : n ≤ available := by
  unfold RecvOutcome.Possible at h
  split_ifs at h with hzero
  · exact h ▸ Nat.zero_le available
  · exact h.2.2

theorem RecvOutcome.Possible.mono {length available available' n : ℕ}
    (h : (RecvOutcome.bytes n).Possible length available) (hle : available ≤ available') :
    (RecvOutcome.bytes n).Possible length available' := by
  unfold RecvOutcome.Possible at h ⊢
  split_ifs at h ⊢ with hzero
  · exact h
  · exact ⟨h.1, h.2.1, h.2.2.trans hle⟩

/-- A step that transmits nothing behind a short send keeps the completed connection in step. -/
theorem completed_step (h : InSync c.completed rest) {l : CutStep} (hl : FollowsWholeSends c l)
    (hstep : cutStep nbo c l = some c') : ∃ rest', InSync c'.completed rest' := by
  cases l with
  | send call o =>
    simp only [cutStep, Option.ite_none_right_eq_some, Option.some.injEq] at hstep
    obtain ⟨⟨hrange, -⟩, rfl⟩ := hstep
    exact completed_afterSend hrange hl h
  | recvPart o =>
    obtain ⟨conn, hconn, rfl⟩ := Option.map_eq_some_iff.mp hstep
    simp only [connectionStep, Option.ite_none_right_eq_some] at hconn
    obtain ⟨hpossible, hconn⟩ := hconn
    cases o with
    | again =>
      obtain rfl := Option.some.inj hconn
      exact ⟨rest, h.afterError .EAGAIN⟩
    | bytes n =>
      obtain rfl := Option.some.inj hconn
      rw [completed_afterRecvPart hpossible.le]
      have hle : c.conn.stream.length ≤ c.completed.stream.length := by
        simp [CutConnection.completed]
      cases h.afterRecvPart (hpossible.mono hle) with
      | part sync => exact ⟨rest, sync⟩
      | message p ps next sync => exact ⟨ps, sync⟩
  | useBuffer buf =>
    obtain ⟨conn, hconn, rfl⟩ := Option.map_eq_some_iff.mp hstep
    simp only [connectionStep, Option.ite_none_right_eq_some, Option.some.injEq] at hconn
    obtain ⟨hne, rfl⟩ := hconn
    exact ⟨rest, h.useBuffer hne buf⟩

/-- **Short sends.** While nothing is transmitted behind a short send, and `send<N>` is used without
buffers only, the peer decodes messages that were sent, in order. -/
theorem short_sends_harmless_unless_followed {ls : List CutStep}
    (hrun : (cutStep nbo).run {} ls = some c)
    (hwhole : (cutStep nbo).Along FollowsWholeSends {} ls) :
    c.conn.yielded <+: c.conn.sent := by
  have hstep : ∀ s l t, (∃ rest, InSync (CutConnection.completed s) rest) →
      FollowsWholeSends s l → cutStep nbo s l = some t →
      ∃ rest, InSync (CutConnection.completed t) rest := by
    rintro s l t ⟨rest, h⟩ hl hstep
    exact completed_step h hl hstep
  obtain ⟨rest, h⟩ := Machine.run_invariant_along hstep hrun hwhole ⟨[], inSync_init⟩
  exact ⟨rest, h.sent.symm⟩

/-- A whole send, a `sendmsg` that fails, and a short send at the end. -/
def shortSendLast : List CutStep :=
  [.send (.buffers [[1], [2]]) (.transmits 4), .send (.buffer 0 [3]) (.fails .EAGAIN),
    .send (.buffer 0 [4, 5]) (.transmits 3), .recvPart (.bytes 2), .recvPart (.bytes 2),
    .recvPart (.bytes 2), .recvPart (.bytes 1)]

theorem short_sends_harmless_unless_followed_last : ∃ c,
    (cutStep networkByteOrder16).run {} shortSendLast = some c ∧
      c.conn.yielded <+: c.conn.sent ∧ c.conn.yielded = [[1, 2]] ∧ c.missing = [5] := by
  have hwhole : (cutStep networkByteOrder16).Along FollowsWholeSends {} shortSendLast := by
    refine ⟨⟨rfl, id⟩, fun s hs => ?_⟩
    obtain rfl := Option.some.inj hs
    refine ⟨trivial, fun s hs => ?_⟩
    obtain rfl := Option.some.inj hs
    refine ⟨⟨rfl, id⟩, fun s hs => ?_⟩
    -- nothing is sent behind the short send
    exact Machine.along_of_forall_mem (by simp [FollowsWholeSends])
  exact ⟨_, rfl, short_sends_harmless_unless_followed (by rfl) hwhole, rfl, rfl⟩

/-- The frame of the second message is taken for the rest of the first one. -/
theorem short_send_corrupts_stream : ∃ c,
    (cutStep networkByteOrder16).run {}
      [.send (.buffer 0 [1, 2, 3]) (.transmits 3), .send (.buffer 0 [9]) (.transmits 3),
        .recvPart (.bytes 2), .recvPart (.bytes 3)] = some c ∧
      c.conn.sent = [[1, 2, 3], [9]] ∧ c.conn.yielded = [[1, 0, 1]] ∧
      ¬ c.conn.yielded <+: c.conn.sent :=
  ⟨_, rfl, rfl, rfl, by decide⟩

end Cut

section Receive

/-- A receive takes the header and the payload off the stream. -/
theorem length_of_recv {stream p rest : List UInt8} (h : recv stream = (.ok p, rest)) :
    stream.length = msgSizeTypeSize + p.length + rest.length := by
  unfold recv at h
  dsimp only at h
  split_ifs at h with hheader hpayload
  · cases h
  · cases h
  · obtain ⟨hp, rfl⟩ := Prod.mk.inj h
    obtain rfl := Except.ok.inj hp
    rw [not_not, List.length_take] at hheader
    have hrest := congrArg List.length (List.take_append_drop
      (BigEndian.decode (stream.take msgSizeTypeSize)) (stream.drop msgSizeTypeSize))
    rw [List.length_append, List.length_drop (l := stream)] at hrest
    omega

theorem length_wire_cons (p : List UInt8) (ps : List (List UInt8)) :
    (wire (p :: ps)).length = msgSizeTypeSize + p.length + (wire ps).length := by
  rw [wire_cons, List.length_append, frame, List.length_append, BigEndian.length_encode]

/-- To receive all of some messages takes all the bytes of their frames. -/
theorem ReceivesAll.length_eq {stream : List UInt8} {ps : List (List UInt8)}
    (h : ReceivesAll stream ps) : stream.length = (wire ps).length := by
  induction ps generalizing stream with
  | nil =>
    obtain rfl : stream = [] := h
    rfl
  | cons p ps ih =>
    obtain ⟨rest, hrecv, hrest⟩ := h
    rw [length_of_recv hrecv, ih hrest, length_wire_cons]

theorem receivesAll_wire {ps : List (List UInt8)}
    (hsmall : ∀ p ∈ ps, p.length < 256 ^ msgSizeTypeSize) : ReceivesAll (wire ps) ps := by
  induction ps with
  | nil => rfl
  | cons p ps ih =>
    rw [List.forall_mem_cons] at hsmall
    exact ⟨wire ps, recv_frame hsmall.1 (wire ps), ih hsmall.2⟩

/-- What is left of a stream of frames goes on with their payloads only if nothing was taken. -/
theorem Resumes.length_eq {stream : List UInt8} {ps : List (List UInt8)} (h : Resumes stream ps) :
    stream.length = (wire ps).length := by
  have hall := (h [] (by simp)).length_eq
  rwa [List.flatMap_nil, List.append_nil, List.append_nil] at hall

theorem resumes_wire {ps : List (List UInt8)}
    (hsmall : ∀ p ∈ ps, p.length < 256 ^ msgSizeTypeSize) : Resumes (wire ps) ps := by
  intro later hlater
  rw [show wire ps ++ later.flatMap (frame msgSizeTypeSize) = wire (ps ++ later) from
    (wire_append ps later).symm]
  refine receivesAll_wire fun p hp => ?_
  rcases List.mem_append.mp hp with hp | hp
  · exact hsmall p hp
  · exact hlater p hp

/-- What a receive leaves after its first call of `::recv` has returned. -/
theorem recvCall_bytes (stream : List UInt8) (flags : UInt32) (n : ℕ) (payload : RecvReturn) :
    ∃ k, (recvCall stream flags (.bytes n) payload).2 = (stream.drop n).drop k := by
  unfold recvCall
  dsimp only
  by_cases hsize : n ≠ msgSizeTypeSize
  · rw [if_pos hsize]
    exact ⟨0, rfl⟩
  · rw [if_neg hsize]
    cases payload with
    | fails errno => exact ⟨0, rfl⟩
    | bytes m =>
      refine ⟨if flags &&& MSG_PEEK ≠ 0 then 0 else m, ?_⟩
      dsimp only
      split_ifs <;> rfl

/-- Once the first call of `::recv` has returned, some bytes are taken. -/
theorem recvCall_length_lt {stream : List UInt8} {n : ℕ}
    (hpossible : (RecvReturn.bytes n).Possible msgSizeTypeSize stream.length) (flags : UInt32)
    (payload : RecvReturn) :
    (recvCall stream flags (.bytes n) payload).2.length < stream.length := by
  obtain ⟨hpos, -, hle⟩ := hpossible
  obtain ⟨k, hk⟩ := recvCall_bytes stream flags n payload
  rw [hk, List.length_drop, List.length_drop]
  omega

/-- **A failed receive.** The calls of `recv` behind one that throws return the messages from that
one on exactly when its first call of `::recv` failed. -/
theorem failed_recv_resumes_iff_header_failed {ps : List (List UInt8)}
    (hsmall : ∀ p ∈ ps, p.length < 256 ^ msgSizeTypeSize) {flags : UInt32}
    {header payload : RecvReturn} (hpossible : RecvCallPossible (wire ps) header payload)
    {errno : Errno} {stream : List UInt8}
    (hthrows : recvCall (wire ps) flags header payload = (.error errno, stream)) :
    Resumes stream ps ↔ ∃ errno', header = .fails errno' := by
  cases header with
  | fails errno' =>
    obtain ⟨-, rfl⟩ := Prod.mk.inj hthrows
    exact iff_of_true (resumes_wire hsmall) ⟨errno', rfl⟩
  | bytes n =>
    have hlt := recvCall_length_lt hpossible.1 flags payload
    rw [hthrows] at hlt
    refine iff_of_false (fun hresumes => ?_) (by simp)
    exact hlt.ne hresumes.length_eq

/-- Nothing has arrived when the first of two messages is to be received. -/
theorem failed_recv_resumes_iff_header_failed_again :
    ReceivesAll (wire [[1], [2, 3]]) [[1], [2, 3]] := by
  have hpossible : RecvCallPossible (wire [[1], [2, 3]]) (.fails .EAGAIN) (.fails .EAGAIN) :=
    ⟨trivial, trivial⟩
  have hresumes := (failed_recv_resumes_iff_header_failed (by simp [msgSizeTypeSize]) hpossible
    (rfl : recvCall (wire [[1], [2, 3]]) 0 (.fails .EAGAIN) (.fails .EAGAIN) =
      (.error .EAGAIN, _))).mpr ⟨_, rfl⟩
  exact hresumes [] (by simp)

/-- The header has arrived and the payload has not: with `MSG_DONTWAIT` the receive fails, and the
next one takes the payload for a header. -/
theorem failed_recv_loses_header :
    RecvCallPossible (wire [[1, 2, 3], [9]]) (.bytes 2) (.fails .EAGAIN) ∧
    recvCall (wire [[1, 2, 3], [9]]) 0x40 (.bytes 2) (.fails .EAGAIN) =
      (.error .EAGAIN, [1, 2, 3, 0, 1, 9]) ∧
    ¬ Resumes [1, 2, 3, 0, 1, 9] [[1, 2, 3], [9]] := by
  refine ⟨⟨⟨by decide, by decide, by decide⟩, trivial⟩, rfl, fun hresumes => ?_⟩
  exact absurd hresumes.length_eq (by decide)

end Receive
end Linuxpp
