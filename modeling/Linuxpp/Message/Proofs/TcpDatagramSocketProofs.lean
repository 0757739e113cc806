import Linuxpp.Message.TcpDatagramSocket
import Linuxpp.Message.Proofs.LengthPrefixedMessageProofs

/-!
# Proofs: messages over a connection

In every reachable state the stream holds the rest of the frames that were sent, as far as the
caller of `recv_part` has not taken them into its state and its buffer. Hence it gets the payloads
that were sent, in order, however the stream is cut into pieces.
-/

namespace Linuxpp

open LengthPrefixedMessage

/-- The frames of a list of payloads. -/
def wire (payloads : List (List UInt8)) : List UInt8 := payloads.flatMap (frame msgSizeTypeSize)

@[simp] theorem wire_nil : wire [] = [] := rfl

theorem wire_cons (p : List UInt8) (ps : List (List UInt8)) :
    wire (p :: ps) = frame msgSizeTypeSize p ++ wire ps := rfl

theorem wire_append (ps qs : List (List UInt8)) : wire (ps ++ qs) = wire ps ++ wire qs :=
  List.flatMap_append

theorem wire_singleton (p : List UInt8) : wire [p] = frame msgSizeTypeSize p :=
  List.append_nil _

section Send

variable {nbo : NetworkByteOrder msgSizeTypeSize}

theorem transmit_of_denotes {msg : LengthPrefixedMessage} {bs : List UInt8}
    (h : msg.Denotes nbo bs) : transmit nbo msg = bs := h (fun _ => msg.length) rfl

/-- `send(buf, length)` transmits the frame of the buffer. -/
theorem sendBuffer_eq (this : ObjectId) {buf : List UInt8}
    (hfit : buf.length < 256 ^ msgSizeTypeSize) :
    sendBuffer nbo this buf = frame msgSizeTypeSize buf :=
  transmit_of_denotes (buffer_denotes this hfit)

/-- `send(buffers, size_buffers)` transmits the frame of the joined regions, whatever the message of
the socket was used for before. -/
theorem sendBuffers_eq (msg : LengthPrefixedMessage) {regions : List (List UInt8)}
    (hfit : regions.flatten.length < 256 ^ msgSizeTypeSize) :
    (sendBuffers nbo msg (regions.map Iovec.ofRegion)).1 =
      frame msgSizeTypeSize regions.flatten := by
  have hsmall : regions.flatten.length < 2 ^ 32 :=
    hfit.trans (by decide)
  exact transmit_of_denotes ((fill_denotes_iff msg hfit).mpr hsmall)

end Send

section Assemble

theorem assembleMsgSize_append (msgSize i : ℕ) (bs bs' : List UInt8) :
    assembleMsgSize msgSize i (bs ++ bs') =
      assembleMsgSize (assembleMsgSize msgSize i bs) (i + bs.length) bs' := by
  induction bs generalizing msgSize i with
  | nil => rfl
  | cons b bs ih =>
    rw [List.cons_append, assembleMsgSize, ih, assembleMsgSize, List.length_cons]
    congr 1
    omega

/-- Two bytes are assembled to the number they stand for. -/
theorem assembleMsgSize_pair (b₀ b₁ : UInt8) :
    assembleMsgSize 0 0 [b₀, b₁] = BigEndian.decode [b₀, b₁] := by
  have hb₁ : b₁.toNat < 2 ^ 8 := b₁.toNat_lt
  have hor := Nat.shiftLeft_add_eq_or_of_lt hb₁ b₀.toNat
  show (0 ||| b₀.toNat <<< 8) ||| b₁.toNat <<< 0 = (0 * 256 + b₀.toNat) * 256 + b₁.toNat
  rw [Nat.zero_or, Nat.shiftLeft_zero, ← hor, Nat.shiftLeft_eq]
  omega

theorem assembleMsgSize_encode {n : ℕ} (hn : n < 256 ^ msgSizeTypeSize) :
    assembleMsgSize 0 0 (BigEndian.encode msgSizeTypeSize n) = n := by
  obtain ⟨b₀, b₁, hb⟩ := List.length_eq_two.mp (BigEndian.length_encode msgSizeTypeSize n)
  rw [hb, assembleMsgSize_pair, ← hb, BigEndian.decode_encode hn]

end Assemble

theorem subSize_of_le {a b : ℕ} (ha : a < 2 ^ 64) (h : b ≤ a) : subSize a b = a - b := by
  unfold subSize
  omega

/-- What the caller of `recv_part` still has to read: `rest` are the payloads it has not got. -/
def Reading (state : ReceiveState) (buf stream : List UInt8) (rest : List (List UInt8)) : Prop :=
  match state.state with
  | .receivingMsgSize => ∃ header, wire rest = header ++ stream ∧
      header.length = state.bytesReceived ∧ state.bytesReceived < msgSizeTypeSize ∧
      state.msgSize = assembleMsgSize 0 0 header
  | .receivingMsg => ∃ p ps, rest = p :: ps ∧ state.msgSize = p.length ∧
      state.bytesReceived ≤ p.length ∧ stream = p.drop state.bytesReceived ++ wire ps ∧
      buf.take state.bytesReceived = p.take state.bytesReceived
  | .finished => wire rest = stream ∧ state.bytesReceived = state.msgSize ∧
      state.msgSize < 256 ^ msgSizeTypeSize

/-- The bytes of the current message that were taken off the stream. -/
def ReceiveState.taken (state : ReceiveState) : ℕ :=
  match state.state with
  | .receivingMsgSize => state.bytesReceived
  | .receivingMsg => msgSizeTypeSize + state.bytesReceived
  | .finished => 0

/-- The invariant of a connection, `rest` being the payloads that were not received yet. -/
structure InSync (c : Connection) (rest : List (List UInt8)) : Prop where
  sent : c.sent = c.yielded ++ rest
  small : ∀ p ∈ c.sent, p.length < 256 ^ msgSizeTypeSize
  reading : Reading c.state c.buf c.stream rest
  consumed : c.consumed = (c.yielded.map fun p => msgSizeTypeSize + p.length).sum + c.state.taken

theorem inSync_init : InSync {} [] where
  sent := rfl
  small := by simp
  reading := ⟨[], rfl, rfl, by decide, rfl⟩
  consumed := rfl

/-- What is sent goes behind what is to be read. -/
theorem Reading.send {state : ReceiveState} {buf stream : List UInt8} {rest : List (List UInt8)}
    (h : Reading state buf stream rest) (p : List UInt8) :
    Reading state buf (stream ++ frame msgSizeTypeSize p) (rest ++ [p]) := by
  unfold Reading at h ⊢
  cases hs : state.state with
  | receivingMsgSize =>
    simp only [hs] at h ⊢
    obtain ⟨header, hwire, hlen⟩ := h
    refine ⟨header, ?_, hlen⟩
    rw [wire_append, hwire, wire_singleton, List.append_assoc]
  | receivingMsg =>
    simp only [hs] at h ⊢
    obtain ⟨q, qs, rfl, hsize, hle, rfl, hbuf⟩ := h
    refine ⟨q, qs ++ [p], rfl, hsize, hle, ?_, hbuf⟩
    rw [wire_append, wire_singleton, List.append_assoc]
  | finished =>
    simp only [hs] at h ⊢
    rw [wire_append, h.1, wire_singleton]
    exact ⟨rfl, h.2⟩

theorem wire_eq_cons {rest : List (List UInt8)} {header stream : List UInt8}
    (hwire : wire rest = header ++ stream) (hlen : header.length = msgSizeTypeSize) :
    ∃ p ps, rest = p :: ps ∧ header = BigEndian.encode msgSizeTypeSize p.length ∧
      stream = p ++ wire ps := by
  cases rest with
  | nil =>
    have hzero := congrArg List.length hwire
    rw [wire_nil, List.length_append, hlen] at hzero
    unfold msgSizeTypeSize at hzero
    simp only [List.length_nil] at hzero
    omega
  | cons p ps =>
    rw [wire_cons, frame, List.append_assoc] at hwire
    obtain ⟨hheader, hstream⟩ := List.append_inj hwire (by rw [BigEndian.length_encode, hlen])
    exact ⟨p, ps, rfl, hheader.symm, hstream.symm⟩

/-- `recv_size_part` when `::recv` returns `n` bytes, `header` being the bytes it got before. -/
theorem Reading.recvSizePart {state : ReceiveState} {stream header : List UInt8}
    {rest : List (List UInt8)} (hsmall : ∀ p ∈ rest, p.length < 256 ^ msgSizeTypeSize)
    (hwire : wire rest = header ++ stream) (hlen : header.length = state.bytesReceived)
    (hstate : state.state = .receivingMsgSize) (hsize : state.msgSize = assembleMsgSize 0 0 header)
    {n : ℕ} (hn : state.bytesReceived + n ≤ msgSizeTypeSize) (hn' : n ≤ stream.length)
    (buf : List UInt8) :
    Reading (recvSizePart state (stream.take n)) buf (stream.drop n) rest ∧
      (recvSizePart state (stream.take n)).taken = state.bytesReceived + n ∧
      (recvSizePart state (stream.take n)).state ≠ .finished := by
  have hreceived : (stream.take n).length = n := List.length_take_of_le hn'
  have hmore : wire rest = (header ++ stream.take n) ++ stream.drop n := by
    rw [List.append_assoc, List.take_append_drop, hwire]
  have hassemble : assembleMsgSize state.msgSize state.bytesReceived (stream.take n) =
      assembleMsgSize 0 0 (header ++ stream.take n) := by
    rw [assembleMsgSize_append, hsize, hlen, Nat.zero_add]
  unfold Linuxpp.recvSizePart
  simp only [hreceived, hassemble]
  split_ifs with hfull
  · refine ⟨?_, by simp [ReceiveState.taken, hstate], by simp [hstate]⟩
    simp only [Reading, hstate]
    refine ⟨header ++ stream.take n, hmore, ?_, by omega, rfl⟩
    rw [List.length_append, hlen, hreceived]
  · have hfull : state.bytesReceived + n = msgSizeTypeSize := not_not.mp hfull
    obtain ⟨p, ps, rfl, hheader, hstream⟩ := wire_eq_cons hmore
      (by rw [List.length_append, hlen, hreceived, hfull])
    refine ⟨⟨p, ps, rfl, ?_, Nat.zero_le _, hstream, rfl⟩, by simp [ReceiveState.taken, hfull],
      by simp⟩
    simp only [hheader]
    exact assembleMsgSize_encode (hsmall p List.mem_cons_self)

section Buffer

variable {α : Type} {k : ℕ}

theorem length_copyTo (src dst : List α) (h : k + src.length ≤ dst.length) :
    (copyTo src dst k).length = dst.length := by
  simp only [copyTo, List.length_append, List.length_take, List.length_drop]
  omega

theorem take_copyTo (src dst : List α) (h : k ≤ dst.length) :
    (copyTo src dst k).take (k + src.length) = dst.take k ++ src := by
  have hlen : (dst.take k ++ src).length = k + src.length := by
    rw [List.length_append, List.length_take_of_le h]
  rw [copyTo, ← hlen, List.take_left]

theorem take_resize {xs : List α} {n : ℕ} {value : α} (hk : k ≤ n) (hk' : k ≤ xs.length) :
    (resize xs n value).take k = xs.take k := by
  rw [resize, List.take_append_of_le_length (by rw [List.length_take]; omega), List.take_take,
    Nat.min_eq_left hk]

end Buffer

theorem recvMsgPart_eq (buf : List UInt8) (state : ReceiveState) (received : List UInt8) :
    recvMsgPart buf state received =
      ({ state with
        bytesReceived := state.bytesReceived + received.length
        state := if state.bytesReceived + received.length = state.msgSize then .finished
          else state.state }, copyTo received buf state.bytesReceived) := by
  unfold recvMsgPart
  by_cases h : state.bytesReceived + received.length = state.msgSize <;> simp [h]

/-- `recv_msg_part` when `::recv` returns `n` bytes of the payload `p`. -/
theorem Reading.recvMsgPart {state : ReceiveState} {buf p : List UInt8} (ps : List (List UInt8))
    (hstate : state.state = .receivingMsg) (hsize : state.msgSize = p.length)
    (hbuf : buf.take state.bytesReceived = p.take state.bytesReceived) {n : ℕ}
    (hn : state.bytesReceived + n ≤ p.length) {newState : ReceiveState} {newBuf : List UInt8}
    (hresult : recvMsgPart (resize buf state.msgSize 0) state
      ((p.drop state.bytesReceived ++ wire ps).take n) = (newState, newBuf)) :
    if state.bytesReceived + n = p.length then
      newState = { state with bytesReceived := p.length, state := .finished } ∧ newBuf = p ∧
        (p.drop state.bytesReceived ++ wire ps).drop n = wire ps
    else
      newState.state = .receivingMsg ∧ newState.bytesReceived = state.bytesReceived + n ∧
        Reading newState newBuf ((p.drop state.bytesReceived ++ wire ps).drop n) (p :: ps) := by
  have hdrop : n ≤ (p.drop state.bytesReceived).length := by
    rw [List.length_drop]
    omega
  have hlen : state.bytesReceived ≤ buf.length := by
    have htake := congrArg List.length hbuf
    rw [List.length_take, List.length_take] at htake
    omega
  have hresized : (resize buf state.msgSize 0).length = p.length := by rw [length_resize, hsize]
  have hreceived : ((p.drop state.bytesReceived).take n).length = n :=
    List.length_take_of_le hdrop
  have hstream : (p.drop state.bytesReceived ++ wire ps).drop n =
      p.drop (state.bytesReceived + n) ++ wire ps := by
    rw [List.drop_append_of_le_length hdrop, List.drop_drop]
  -- the buffer has the length of the payload, and agrees with it up to what was received
  have hcopied := length_copyTo ((p.drop state.bytesReceived).take n)
    (resize buf state.msgSize 0) (k := state.bytesReceived) (by omega)
  have htaken := take_copyTo ((p.drop state.bytesReceived).take n)
    (resize buf state.msgSize 0) (k := state.bytesReceived) (by omega)
  rw [hreceived, take_resize (by omega) hlen, hbuf, ← List.take_add] at htaken
  rw [List.take_append_of_le_length hdrop, recvMsgPart_eq, hreceived, Prod.mk.injEq] at hresult
  obtain ⟨hstate', hbuf'⟩ := hresult
  rw [hbuf'] at htaken hcopied
  by_cases hfull : state.bytesReceived + n = p.length
  · rw [if_pos (hfull.trans hsize.symm)] at hstate'
    rw [if_pos hfull, hstream, ← hstate']
    refine ⟨by rw [hfull], ?_, by rw [hfull, List.drop_length, List.nil_append]⟩
    rw [hfull, List.take_length, ← hresized, ← hcopied, List.take_length] at htaken
    exact htaken
  · rw [if_neg fun h => hfull (h.trans hsize)] at hstate'
    rw [if_neg hfull, hstream, ← hstate']
    refine ⟨hstate, rfl, ?_⟩
    simp only [Reading, hstate]
    exact ⟨p, ps, rfl, hsize, hn, rfl, htaken⟩

/-- What a successful call of `recv_part` does: it takes some bytes of the current message, or it
completes the message. -/
inductive Received (c c' : Connection) (rest : List (List UInt8)) : Prop where
  | part (sync : InSync c' rest) (yielded : c'.yielded = c.yielded)
      (shorter : c'.stream.length < c.stream.length) (unfinished : c'.state.state ≠ .finished)
  | message (p : List UInt8) (ps : List (List UInt8)) (next : rest = p :: ps) (sync : InSync c' ps)
      (yielded : c'.yielded = c.yielded ++ [p]) (buf : c'.buf = p)
      (shorter : c'.stream.length ≤ c.stream.length) (finished : c'.state.state = .finished)

section Step

variable {c : Connection} {rest : List (List UInt8)} {n : ℕ}

theorem InSync.small_rest (h : InSync c rest) : ∀ p ∈ rest, p.length < 256 ^ msgSizeTypeSize :=
  fun p hp => h.small p (h.sent ▸ List.mem_append_right _ hp)

/-- A call that receives a part of the header; `state` is the state it continues. -/
theorem InSync.afterSizePart (h : InSync c rest) (state : ReceiveState) (header : List UInt8)
    (hpart : ∀ received, recvPart c.buf c.state (.ok received) =
      (.ok (recvSizePart state received), c.buf))
    (hstate : state.state = .receivingMsgSize) (hwire : wire rest = header ++ c.stream)
    (hlen : header.length = state.bytesReceived)
    (hsize : state.msgSize = assembleMsgSize 0 0 header)
    (htaken : c.state.taken = state.bytesReceived) (hpos : 0 < n)
    (hn : state.bytesReceived + n ≤ msgSizeTypeSize) (hn' : n ≤ c.stream.length) :
    Received c (c.afterRecvPart n) rest := by
  obtain ⟨hreading, htaken', hunfinished⟩ :=
    Reading.recvSizePart h.small_rest hwire hlen hstate hsize hn hn' c.buf
  have hafter : c.afterRecvPart n = { c with
      state := recvSizePart state (c.stream.take n)
      stream := c.stream.drop n
      consumed := c.consumed + n } := by
    simp only [Connection.afterRecvPart, hpart, if_neg hunfinished]
  rw [hafter]
  refine .part ⟨h.sent, h.small, hreading, ?_⟩ rfl ?_ hunfinished
  · have hconsumed := h.consumed
    simp only
    rw [htaken', hconsumed, htaken, Nat.add_assoc]
  · simp only [List.length_drop]
    omega

/-- A successful call of `recv_part` inside a message. -/
theorem InSync.afterMsgPart (h : InSync c rest) (hs : c.state.state = .receivingMsg)
    (ho : (RecvOutcome.bytes n).Possible (recvLength c.state) c.stream.length) :
    Received c (c.afterRecvPart n) rest := by
  have hreading := h.reading
  have hconsumed := h.consumed
  unfold Reading at hreading
  simp only [RecvOutcome.Possible, recvLength] at ho
  simp only [hs] at hreading ho
  obtain ⟨p, ps, rfl, hsize, hle, hstream, hbuf⟩ := hreading
  have hsmall := h.small_rest p List.mem_cons_self
  have hp64 : p.length < 2 ^ 64 := hsmall.trans (by decide)
  rw [hsize, subSize_of_le hp64 hle] at ho
  have hn : c.state.bytesReceived + n ≤ p.length := by
    split_ifs at ho <;> omega
  have hn' : n ≤ c.stream.length := by
    split_ifs at ho <;> omega
  obtain ⟨newState, newBuf, hresult⟩ : ∃ newState newBuf, recvMsgPart
      (resize c.buf c.state.msgSize 0) c.state (c.stream.take n) = (newState, newBuf) :=
    ⟨_, _, rfl⟩
  have hspec := Reading.recvMsgPart ps hs hsize hbuf hn (hstream ▸ hresult)
  have hafter : c.afterRecvPart n = { c with
      state := newState
      buf := newBuf
      stream := c.stream.drop n
      consumed := c.consumed + n
      yielded := if newState.state = .finished then c.yielded ++ [newBuf] else c.yielded } := by
    simp only [Connection.afterRecvPart, recvPart, hs, hresult]
  have hlt : 0 < n → (c.stream.drop n).length < c.stream.length := by
    rw [List.length_drop]
    omega
  have hle' : (c.stream.drop n).length ≤ c.stream.length := List.drop_sublist _ _ |>.length_le
  simp only [ReceiveState.taken, hs] at hconsumed
  rw [hafter]
  rw [← hstream] at hspec
  by_cases hfull : c.state.bytesReceived + n = p.length
  · rw [if_pos hfull] at hspec
    obtain ⟨rfl, rfl, hdrop⟩ := hspec
    rw [if_pos rfl]
    refine .message newBuf ps rfl ⟨?_, h.small, ?_, ?_⟩ rfl rfl hle' rfl
    · rw [h.sent, List.append_assoc]
      rfl
    · exact ⟨hdrop.symm, hsize.symm, hsize ▸ hsmall⟩
    · simp only [ReceiveState.taken, List.map_append, List.sum_append, hconsumed,
        List.map_cons, List.map_nil, List.sum_cons, List.sum_nil]
      omega
  · rw [if_neg hfull] at hspec
    obtain ⟨hunfinished, hbytes, hreading'⟩ := hspec
    have hne : newState.state ≠ .finished := by simp [hunfinished]
    rw [if_neg hne]
    refine .part ⟨h.sent, h.small, hreading', ?_⟩ rfl (hlt ?_) hne
    · simp only [ReceiveState.taken, hunfinished, hbytes]
      omega
    · split_ifs at ho <;> omega

/-- A successful call of `recv_part`. -/
theorem InSync.afterRecvPart (h : InSync c rest)
    (hpossible : (RecvOutcome.bytes n).Possible (recvLength c.state) c.stream.length) :
    Received c (c.afterRecvPart n) rest := by
  have hreading := h.reading
  have ho := hpossible
  unfold Reading at hreading
  simp only [RecvOutcome.Possible, recvLength] at ho
  cases hs : c.state.state with
  | receivingMsgSize =>
    simp only [hs] at hreading ho
    obtain ⟨header, hwire, hlen, hlt, hsize⟩ := hreading
    rw [subSize_of_le (by decide) hlt.le, if_neg (by omega)] at ho
    refine h.afterSizePart c.state header (fun received => ?_) hs hwire hlen hsize ?_
      ho.1 (by omega) ho.2.2
    · simp [recvPart, hs, Except.map]
    · simp [ReceiveState.taken, hs]
  | finished =>
    simp only [hs] at hreading ho
    rw [subSize_of_le (by decide) (Nat.zero_le _), if_neg (by decide)] at ho
    refine h.afterSizePart {} [] (fun received => ?_) rfl hreading.1 rfl rfl ?_
      ho.1 (by simpa using ho.2.1) ho.2.2
    · simp [recvPart, hs, Except.map]
    · simp [ReceiveState.taken, hs]
  | receivingMsg => exact h.afterMsgPart hs hpossible

/-- A call of `recv_part` that throws leaves the connection as it was, but for the size of the
buffer. -/
theorem InSync.afterError (h : InSync c rest) (e : Errno) : InSync (c.afterError e) rest := by
  have hreading := h.reading
  refine ⟨h.sent, h.small, ?_, h.consumed⟩
  unfold Connection.afterError
  simp only
  cases hs : c.state.state with
  | receivingMsgSize => simpa [Reading, hs] using hreading
  | finished => simpa [Reading, hs] using hreading
  | receivingMsg =>
    simp only [Reading, hs, recvPart] at hreading ⊢
    obtain ⟨p, ps, rfl, hsize, hle, hstream, hbuf⟩ := hreading
    have hlen := congrArg List.length hbuf
    rw [List.length_take, List.length_take] at hlen
    exact ⟨p, ps, rfl, hsize, hle, hstream, by rw [take_resize (by omega) (by omega), hbuf]⟩

theorem InSync.send (h : InSync c rest) {p : List UInt8} (hp : p.length < 256 ^ msgSizeTypeSize)
    (msg : LengthPrefixedMessage) :
    InSync { c with
      msg := msg, stream := c.stream ++ frame msgSizeTypeSize p, sent := c.sent ++ [p] }
      (rest ++ [p]) where
  sent := by rw [h.sent, List.append_assoc]
  small := by
    intro q hq
    rcases List.mem_append.mp hq with hq | hq
    · exact h.small q hq
    · exact List.mem_singleton.mp hq ▸ hp
  reading := h.reading.send p
  consumed := h.consumed

theorem InSync.useBuffer (h : InSync c rest) (hne : c.state.state ≠ .receivingMsg)
    (buf : List UInt8) : InSync { c with buf := buf } rest := by
  have hreading := h.reading
  refine ⟨h.sent, h.small, ?_, h.consumed⟩
  cases hs : c.state.state with
  | receivingMsgSize => simpa [Reading, hs] using hreading
  | finished => simpa [Reading, hs] using hreading
  | receivingMsg => exact absurd hs hne

variable {nbo : NetworkByteOrder msgSizeTypeSize}

/-- Every step keeps the two ends in step with each other. -/
theorem InSync.step (h : InSync c rest) {l : ConnectionStep} {c' : Connection}
    (hl : connectionStep nbo c l = some c') : ∃ rest', InSync c' rest' := by
  cases l with
  | sendBuffer this buf =>
    simp only [connectionStep, Option.ite_none_right_eq_some, Option.some.injEq] at hl
    obtain ⟨hfit, rfl⟩ := hl
    rw [sendBuffer_eq this hfit]
    exact ⟨_, h.send hfit c.msg⟩
  | sendBuffers regions =>
    simp only [connectionStep, Option.ite_none_right_eq_some, Option.some.injEq] at hl
    obtain ⟨hfit, rfl⟩ := hl
    rw [sendBuffers_eq c.msg hfit]
    exact ⟨_, h.send hfit _⟩
  | recvPart o =>
    simp only [connectionStep, Option.ite_none_right_eq_some] at hl
    obtain ⟨ho, hl⟩ := hl
    cases o with
    | again =>
      obtain rfl := Option.some.inj hl
      exact ⟨rest, h.afterError .EAGAIN⟩
    | bytes n =>
      obtain rfl := Option.some.inj hl
      cases h.afterRecvPart ho with
      | part sync => exact ⟨rest, sync⟩
      | message p ps next sync => exact ⟨ps, sync⟩
  | useBuffer buf =>
    simp only [connectionStep, Option.ite_none_right_eq_some, Option.some.injEq] at hl
    obtain ⟨hne, rfl⟩ := hl
    exact ⟨rest, h.useBuffer hne buf⟩

theorem inSync_of_reachable (hc : (connectionStep nbo).Reachable {} c) :
    ∃ rest, InSync c rest := by
  have hstep : ∀ s l t, (∃ rest, InSync s rest) → connectionStep nbo s l = some t →
      ∃ rest, InSync t rest := by
    rintro s l t ⟨rest, h⟩ hl
    exact h.step hl
  exact hc.invariant hstep ⟨[], inSync_init⟩

end Step

section Results

variable {nbo : NetworkByteOrder msgSizeTypeSize} {c c' : Connection} {rest : List (List UInt8)}

theorem InSync.inBounds (h : InSync c rest) : c.state.InBounds := by
  have hreading := h.reading
  have hsmall : ∀ p ∈ rest, p.length ≤ 65535 := fun p hp =>
    Nat.le_of_lt_succ (h.small_rest p hp)
  unfold ReceiveState.InBounds
  unfold Reading at hreading
  cases hs : c.state.state with
  | receivingMsgSize =>
    simp only [hs, recvLength] at hreading ⊢
    obtain ⟨header, -, -, hlt, -⟩ := hreading
    rw [subSize_of_le (by decide) hlt.le]
    omega
  | receivingMsg =>
    simp only [hs, recvLength] at hreading ⊢
    obtain ⟨p, ps, rfl, hsize, hle, -⟩ := hreading
    have hp := hsmall p List.mem_cons_self
    rw [hsize, subSize_of_le (by omega) hle]
    omega
  | finished =>
    simp only [hs] at hreading ⊢
    exact ⟨hreading.2.1, Nat.le_of_lt_succ hreading.2.2⟩

/-- Between two messages, the stream holds the frames that are to come, and every message got so far
has taken its own frame. -/
theorem InSync.between (h : InSync c rest) (hb : c.state.Between) :
    c.stream = wire rest ∧
      c.consumed = (c.yielded.map fun p => msgSizeTypeSize + p.length).sum := by
  have hreading := h.reading
  have hconsumed := h.consumed
  unfold Reading at hreading
  unfold ReceiveState.taken at hconsumed
  rcases hb with hs | ⟨hs, hzero⟩
  · simp only [hs] at hreading hconsumed
    exact ⟨hreading.1.symm, hconsumed⟩
  · simp only [hs] at hreading hconsumed
    obtain ⟨header, hwire, hlen, -⟩ := hreading
    rw [hzero, List.length_eq_zero_iff] at hlen
    subst hlen
    exact ⟨hwire.symm, by rw [hconsumed, hzero, Nat.add_zero]⟩

/-- While a message is missing, some call of `::recv` returns. -/
theorem InSync.recvPart_possible (h : InSync c rest) (hrest : rest ≠ []) :
    ∃ n, (RecvOutcome.bytes n).Possible (recvLength c.state) c.stream.length := by
  by_cases hzero : recvLength c.state = 0
  · exact ⟨0, by simp [RecvOutcome.Possible, hzero]⟩
  · refine ⟨1, ?_⟩
    simp only [RecvOutcome.Possible, if_neg hzero]
    refine ⟨Nat.one_pos, Nat.one_le_iff_ne_zero.mpr hzero, ?_⟩
    obtain ⟨p, ps, rfl⟩ := List.exists_cons_of_ne_nil hrest
    have hreading := h.reading
    have hwire : 2 ≤ (wire (p :: ps)).length := by
      rw [wire_cons, frame, List.length_append, List.length_append, BigEndian.length_encode]
      exact (Nat.le_add_right _ _).trans (Nat.le_add_right _ _)
    unfold Reading at hreading
    unfold recvLength at hzero
    cases hs : c.state.state with
    | receivingMsgSize =>
      simp only [hs] at hreading
      obtain ⟨header, heq, hlen, hlt, -⟩ := hreading
      have hlens := congrArg List.length heq
      rw [List.length_append, hlen] at hlens
      unfold msgSizeTypeSize at hlt
      omega
    | finished =>
      simp only [hs] at hreading
      rw [hreading.1] at hwire
      omega
    | receivingMsg =>
      simp only [hs] at hreading hzero
      obtain ⟨q, qs, heq, hsize, hle, hstream, -⟩ := hreading
      obtain ⟨rfl, rfl⟩ := List.cons.inj heq
      have hsmall := h.small_rest p List.mem_cons_self
      rw [hsize, subSize_of_le (hsmall.trans (by decide)) hle] at hzero
      rw [hstream, List.length_append, List.length_drop]
      omega

/-- Every call of `recv_part` that returns leaves less to be received. -/
theorem InSync.unread_lt (h : InSync c rest) {n : ℕ}
    (hl : connectionStep nbo c (.recvPart (.bytes n)) = some c') : c'.unread < c.unread := by
  simp only [connectionStep, Option.ite_none_right_eq_some, Option.some.injEq] at hl
  obtain ⟨ho, rfl⟩ := hl
  have hsent : (c.afterRecvPart n).sent = c.sent := by
    unfold Connection.afterRecvPart
    split <;> rfl
  have hlen := congrArg List.length h.sent
  rw [List.length_append] at hlen
  unfold Connection.unread
  rw [hsent]
  cases h.afterRecvPart ho with
  | part _ yielded shorter =>
    rw [yielded]
    omega
  | message p ps next _ yielded _ shorter =>
    rw [yielded, List.length_append, List.length_singleton]
    rw [next, List.length_cons] at hlen
    omega

/-- A blocking receive on a stream that starts with a frame. -/
theorem recv_frame {p : List UInt8} (hp : p.length < 256 ^ msgSizeTypeSize) (stream : List UInt8) :
    recv (frame msgSizeTypeSize p ++ stream) = (.ok p, stream) := by
  have hheader : (BigEndian.encode msgSizeTypeSize p.length).length = msgSizeTypeSize :=
    BigEndian.length_encode _ _
  have htake : (frame msgSizeTypeSize p ++ stream).take msgSizeTypeSize =
      BigEndian.encode msgSizeTypeSize p.length := by
    rw [frame, List.append_assoc, List.take_left' hheader]
  have hdrop : (frame msgSizeTypeSize p ++ stream).drop msgSizeTypeSize = p ++ stream := by
    rw [frame, List.append_assoc, List.drop_left' hheader]
  unfold recv
  simp only [htake, hdrop, hheader, BigEndian.decode_encode hp, List.take_left, List.drop_left,
    ne_eq, not_true_eq_false, if_false]

theorem sent_of_recvParts {ls : List ConnectionStep}
    (hrun : (connectionStep nbo).run c ls = some c') (hls : ∀ l ∈ ls, l.IsRecvPart) :
    c'.sent = c.sent := by
  have halong : (connectionStep nbo).Along (fun _ l => l.IsRecvPart) c ls :=
    Machine.along_of_forall_mem fun _ l hl => hls l hl
  refine @Machine.run_invariant_along _ _ _ (fun s => s.sent = c.sent) _ ?_ _ _ _ hrun halong rfl
  rintro s l t hs ⟨o, rfl⟩ hl
  simp only [connectionStep, Option.ite_none_right_eq_some] at hl
  obtain ⟨-, hl⟩ := hl
  cases o with
  | again =>
    obtain rfl := Option.some.inj hl
    exact hs
  | bytes n =>
    obtain rfl := Option.some.inj hl
    unfold Connection.afterRecvPart
    split <;> exact hs

/-- Calls of `recv_part` that complete one message do what one blocking receive does. -/
theorem InSync.recvParts_eq_recv (h : InSync c rest) {rest' : List (List UInt8)}
    (h' : InSync c' rest') (hb : c.state.Between) (hb' : c'.state.Between)
    (hsent : c'.sent = c.sent) (hone : c'.yielded.length = c.yielded.length + 1) :
    ∃ p, c'.yielded = c.yielded ++ [p] ∧ recv c.stream = (.ok p, c'.stream) := by
  have hsplit : c'.yielded ++ rest' = c.yielded ++ rest := by rw [← h'.sent, ← h.sent, hsent]
  cases rest with
  | nil =>
    have hlen := congrArg List.length hsplit
    rw [List.append_nil, List.length_append] at hlen
    omega
  | cons p ps =>
    have hcut : c.yielded ++ p :: ps = (c.yielded ++ [p]) ++ ps := by simp
    rw [hcut] at hsplit
    obtain ⟨hyielded, rfl⟩ := List.append_inj hsplit
      (by rw [hone, List.length_append, List.length_singleton])
    refine ⟨p, hyielded, ?_⟩
    rw [(h.between hb).1, (h'.between hb').1, wire_cons]
    exact recv_frame (h.small_rest p List.mem_cons_self) _

/-- **Datagram framing round trip.** In every reachable state of a connection, however the stream is
cut: the caller of `recv_part` has got the first messages that were sent, in order, and between two
messages it has taken two bytes and the length for each; its state is in bounds; while a message is
missing, a call of `recv_part` can return; each call that returns leaves less to be received; and
calls that complete one message do what one blocking receive does. -/
theorem datagram_round_trip (hc : (connectionStep nbo).Reachable {} c) :
    c.yielded <+: c.sent ∧
    (c.state.Between →
      c.consumed = (c.yielded.map fun p => msgSizeTypeSize + p.length).sum) ∧
    c.state.InBounds ∧
    (c.yielded ≠ c.sent → ∃ n c', connectionStep nbo c (.recvPart (.bytes n)) = some c') ∧
    (∀ n c', connectionStep nbo c (.recvPart (.bytes n)) = some c' → c'.unread < c.unread) ∧
    (∀ ls c', c.state.Between → (connectionStep nbo).run c ls = some c' →
      (∀ l ∈ ls, l.IsRecvPart) → c'.state.Between → c'.yielded.length = c.yielded.length + 1 →
      ∃ p, c'.yielded = c.yielded ++ [p] ∧ recv c.stream = (.ok p, c'.stream)) := by
  obtain ⟨rest, h⟩ := inSync_of_reachable hc
  refine ⟨⟨rest, h.sent.symm⟩, fun hb => (h.between hb).2, h.inBounds, ?_, ?_, ?_⟩
  · intro hne
    have hrest : rest ≠ [] := by
      rintro rfl
      exact hne (by rw [h.sent, List.append_nil])
    obtain ⟨n, hn⟩ := h.recvPart_possible hrest
    exact ⟨n, c.afterRecvPart n, by simp only [connectionStep, if_pos hn]⟩
  · intro n c' hl
    exact h.unread_lt hl
  · intro ls c' hb hrun hls hb' hone
    obtain ⟨rest', h'⟩ := inSync_of_reachable (hc.run hrun)
    exact h.recvParts_eq_recv h' hb hb' (sent_of_recvParts hrun hls) hone

end Results

/-- `network_byte_order<uint16_t>` as its two bytes. -/
def networkByteOrder16 : NetworkByteOrder msgSizeTypeSize :=
  ⟨by decide, BigEndian.encode msgSizeTypeSize, fun _ _ => rfl⟩

/-- Three bytes arrive with the header split, after a first attempt that finds nothing. -/
def splitHeader : List ConnectionStep :=
  [.sendBuffers [[1], [2, 3]], .recvPart .again, .recvPart (.bytes 1), .recvPart (.bytes 1),
    .recvPart (.bytes 2), .recvPart (.bytes 1)]

theorem datagram_round_trip_split_header : ∃ c : Connection,
    (connectionStep networkByteOrder16).run {} splitHeader = some c ∧
      c.yielded <+: c.sent ∧ c.yielded = [[1, 2, 3]] ∧ c.consumed = 5 := by
  refine ⟨_, rfl, ?_, rfl, rfl⟩
  have hc : (connectionStep networkByteOrder16).Reachable {} _ := ⟨splitHeader, rfl⟩
  exact (datagram_round_trip hc).1

end Linuxpp
