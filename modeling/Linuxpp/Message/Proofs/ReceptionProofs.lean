import Linuxpp.Message.Reception
import Linuxpp.Message.Proofs.ClosedStreamProofs

/-!
# Proofs: `recv_part` receives what `recv` receives

The caller of `recv_part` holds a part of the header, or the header and a part of the payload. What it
holds and what is still to come make up the rest of the stream, of which `recv` would return the same
messages.
-/

namespace Linuxpp

open Framing

section Format

variable {stream payload rest : List UInt8}

/-- `recv` returns a message exactly if the stream begins with a whole frame. -/
theorem takeMessage_of_beginsWithFrame (h : BeginsWithFrame stream) : takeMessage stream =
    some ((stream.drop msgSizeTypeSize).take (BigEndian.decode (stream.take msgSizeTypeSize)),
      (stream.drop msgSizeTypeSize).drop (BigEndian.decode (stream.take msgSizeTypeSize))) := by
  obtain ⟨hheader, hpayload⟩ := h
  unfold takeMessage recv
  simp only [List.length_take, List.length_drop]
  rw [if_neg (by omega), if_neg (by omega)]

theorem takeMessage_eq_none (h : ¬ BeginsWithFrame stream) : takeMessage stream = none := by
  unfold takeMessage
  have hthrows := (recv_eq_ENODATA_iff stream).mpr h
  cases hrecv : recv stream with
  | mk result rest =>
    rw [hrecv] at hthrows
    obtain rfl : result = .error .ENODATA := hthrows
    rfl

theorem takeMessage_shorter {s m rest : List UInt8} (h : takeMessage s = some (m, rest)) :
    rest.length < s.length := by
  by_cases hframe : BeginsWithFrame s
  · rw [takeMessage_of_beginsWithFrame hframe] at h
    obtain ⟨-, rfl⟩ := Prod.mk.inj (Option.some.inj h)
    have hheader : 2 ≤ s.length := hframe.1
    have hsize : msgSizeTypeSize = 2 := rfl
    simp only [List.length_drop]
    omega
  · rw [takeMessage_eq_none hframe] at h
    cases h

/-- The format of the messages, as `recv` reads them. -/
def messageFormat : Format UInt8 (List UInt8) where
  take := takeMessage
  shorter := takeMessage_shorter

/-- A header and the payload that it announces are taken off the stream. -/
theorem takeMessage_frame {header : List UInt8} (hheader : header.length = msgSizeTypeSize)
    (hpayload : payload.length = BigEndian.decode header) :
    takeMessage (header ++ payload ++ rest) = some (payload, rest) := by
  have htake : (header ++ payload ++ rest).take msgSizeTypeSize = header := by
    rw [List.append_assoc, ← hheader, List.take_left]
  have hdrop : (header ++ payload ++ rest).drop msgSizeTypeSize = payload ++ rest := by
    rw [List.append_assoc, ← hheader, List.drop_left]
  have hframe : BeginsWithFrame (header ++ payload ++ rest) := by
    unfold BeginsWithFrame
    rw [htake, ← hpayload]
    simp only [List.length_append]
    omega
  rw [takeMessage_of_beginsWithFrame hframe, htake, hdrop, ← hpayload, List.take_left,
    List.drop_left]

/-- A part of a header is no message, nor is a header with less than it announces. -/
theorem takeMessage_of_short {held : List UInt8} (h : held.length < msgSizeTypeSize) :
    takeMessage held = none :=
  takeMessage_eq_none fun hframe => absurd hframe.1 (Nat.not_le.mpr h)

theorem takeMessage_of_part {header part : List UInt8} (hheader : header.length = msgSizeTypeSize)
    (hpart : part.length < BigEndian.decode header) : takeMessage (header ++ part) = none := by
  refine takeMessage_eq_none ?_
  rintro ⟨-, hle⟩
  have htake : (header ++ part).take msgSizeTypeSize = header := by
    rw [← hheader, List.take_left]
  rw [htake, List.length_append] at hle
  omega

end Format

section Holding

variable {r : Receiver} {held : List UInt8} {n : ℕ}

/-- What the caller of `recv_part` has taken off the stream since the last message. -/
inductive Holding (held : List UInt8) (r : Receiver) : Prop
  /-- A part of the header. -/
  | header (short : held.length < msgSizeTypeSize)
      (asks : recvLength r.state = msgSizeTypeSize - held.length)
      (between : r.state.Between → held = [])
      (reading : r.state.state ≠ .receivingMsg)
      (part : ∀ buf received, recvPart buf r.state received =
        (received.map (recvSizePart ⟨assembleMsgSize 0 0 held, held.length, .receivingMsgSize⟩), buf))
  /-- The header and a part of the payload, which is in the buffer. -/
  | payload (header part : List UInt8) (split : held = header ++ part)
      (whole : header.length = msgSizeTypeSize) (announced : part.length ≤ BigEndian.decode header)
      (state : r.state = ⟨BigEndian.decode header, part.length, .receivingMsg⟩)
      (inBuffer : r.buf.take part.length = part)

/-- Between two messages nothing is held. -/
theorem holding_of_startsMessage (h : r.state.StartsMessage) : Holding [] r := by
  have hshort : ([] : List UInt8).length < msgSizeTypeSize := by decide
  have hasks : subSize msgSizeTypeSize 0 = msgSizeTypeSize :=
    subSize_of_le (by decide) (Nat.zero_le _)
  rcases h with h | h
  · refine .header hshort ?_ (fun _ => rfl) ?_ fun buf received => ?_
    · rw [h]
      exact hasks
    · rw [h]
      decide
    · rw [h]
      rfl
  · refine .header hshort ?_ (fun _ => rfl) ?_ fun buf received => ?_
    · simp only [recvLength, h]
      exact hasks
    · rw [h]
      decide
    · simp only [recvPart, h]
      rfl

theorem Holding.asks_of_payload {header part : List UInt8}
    (hstate : r.state = ⟨BigEndian.decode header, part.length, .receivingMsg⟩)
    (hwhole : header.length = msgSizeTypeSize) (hle : part.length ≤ BigEndian.decode header) :
    recvLength r.state = BigEndian.decode header - part.length := by
  rw [hstate]
  refine subSize_of_le ?_ hle
  have hlt := BigEndian.decode_lt header
  rw [hwhole] at hlt
  exact Nat.lt_trans hlt (by decide)

/-- What a call of `recv_part` comes to in which `::recv` took `n` bytes off the stream. -/
inductive Taken (held : List UInt8) (c c' : Reception) (n : ℕ) : Prop
  | part (holding : Holding (held ++ c.receiver.stream.take n) c'.receiver)
      (messages : c'.messages = c.messages)
      (stream : c'.receiver.stream = c.receiver.stream.drop n)
  | message (m : List UInt8)
      (whole : takeMessage (held ++ c.receiver.stream) = some (m, c.receiver.stream.drop n))
      (between : Holding [] c'.receiver) (messages : c'.messages = c.messages ++ [m])
      (stream : c'.receiver.stream = c.receiver.stream.drop n)

variable {c : Reception}

/-- A call that gets bytes of the header. -/
theorem taken_of_header (short : held.length < msgSizeTypeSize)
    (asks : recvLength c.receiver.state = msgSizeTypeSize - held.length)
    (part : ∀ buf received, recvPart buf c.receiver.state received =
      (received.map (recvSizePart ⟨assembleMsgSize 0 0 held, held.length, .receivingMsgSize⟩), buf))
    (hn : n ≤ recvLength c.receiver.state) : Taken held c (c.afterBytes n) n := by
  set bs := held ++ c.receiver.stream.take n with hbs
  have hle : bs.length ≤ msgSizeTypeSize := by
    have htake := List.length_take_le n c.receiver.stream
    rw [hbs, List.length_append]
    omega
  have hafter : c.afterBytes n = {
      receiver := {
        stream := c.receiver.stream.drop n
        state := if bs.length = msgSizeTypeSize then ⟨assembleMsgSize 0 0 bs, 0, .receivingMsg⟩
          else ⟨assembleMsgSize 0 0 bs, bs.length, .receivingMsgSize⟩
        buf := c.receiver.buf }
      messages := c.messages } := by
    unfold Reception.afterBytes
    rw [part]
    simp only [Except.map, recvSizePart_assembled, ← hbs]
    split_ifs with hfull hfinished hfinished
    · cases hfinished
    · rfl
    · cases hfinished
    · rfl
  rw [hafter]
  refine .part ?_ rfl rfl
  rw [← hbs]
  by_cases hfull : bs.length = msgSizeTypeSize
  · refine .payload bs [] (List.append_nil _).symm hfull (Nat.zero_le _) ?_ rfl
    simp only [hfull, if_true, assembleMsgSize_eq_decode hfull]
    rfl
  · have hshort : bs.length < msgSizeTypeSize := by omega
    simp only [hfull, if_false]
    refine .header hshort (subSize_of_le (by decide) hle) ?_ StateType.noConfusion fun _ _ => rfl
    rintro (hfinished | ⟨-, hzero⟩)
    · cases hfinished
    · exact List.length_eq_zero_iff.mp hzero

/-- A call that gets bytes of the payload. -/
theorem taken_of_payload {header part : List UInt8} (split : held = header ++ part)
    (whole : header.length = msgSizeTypeSize) (announced : part.length ≤ BigEndian.decode header)
    (state : c.receiver.state = ⟨BigEndian.decode header, part.length, .receivingMsg⟩)
    (inBuffer : c.receiver.buf.take part.length = part)
    (hn : n ≤ recvLength c.receiver.state) (havail : n ≤ c.receiver.stream.length) :
    Taken held c (c.afterBytes n) n := by
  have hroom : part.length + n ≤ BigEndian.decode header := by
    rw [Holding.asks_of_payload state whole announced] at hn
    omega
  have hlen : part.length ≤ c.receiver.buf.length := by
    have htake := congrArg List.length inBuffer
    rw [List.length_take] at htake
    omega
  have hreceived : (c.receiver.stream.take n).length = n := List.length_take_of_le havail
  set buf := copyTo (c.receiver.stream.take n)
    (resize c.receiver.buf (BigEndian.decode header) 0) part.length with hbuf
  -- the buffer has the announced length, and begins with what was received of the payload
  have hlength : buf.length = BigEndian.decode header := by
    rw [hbuf, length_copyTo _ _ (by rw [length_resize]; omega), length_resize]
  have htaken : buf.take (part.length + n) = part ++ c.receiver.stream.take n := by
    have hfits : part.length ≤ (resize c.receiver.buf (BigEndian.decode header) 0).length := by
      rw [length_resize]
      exact announced
    have hcopied := take_copyTo (c.receiver.stream.take n) _ hfits
    rwa [hreceived, take_resize announced hlen, inBuffer, ← hbuf] at hcopied
  have hafter : c.afterBytes n = {
      receiver := {
        stream := c.receiver.stream.drop n
        state := {
          msgSize := BigEndian.decode header
          bytesReceived := part.length + n
          state := if part.length + n = BigEndian.decode header then .finished
            else .receivingMsg }
        buf := buf }
      messages := if part.length + n = BigEndian.decode header then c.messages ++ [buf]
        else c.messages } := by
    unfold Reception.afterBytes recvPart
    simp only [state, recvMsgPart_eq, hreceived, ← hbuf]
    by_cases hfull : part.length + n = BigEndian.decode header
    · simp only [hfull, if_true]
    · simp only [hfull, if_false, reduceCtorEq]
  rw [hafter]
  by_cases hfull : part.length + n = BigEndian.decode header
  · have hmessage : buf = part ++ c.receiver.stream.take n := by
      rw [← htaken, hfull, ← hlength, List.take_length]
    refine .message buf ?_ (holding_of_startsMessage (.inr ?_)) (if_pos hfull) rfl
    · have hframe : takeMessage (header ++ buf ++ c.receiver.stream.drop n) =
          some (buf, c.receiver.stream.drop n) := takeMessage_frame whole hlength
      have hwhole : header ++ buf ++ c.receiver.stream.drop n = held ++ c.receiver.stream := by
        rw [hmessage, split, List.append_assoc, List.append_assoc, List.take_append_drop,
          ← List.append_assoc]
      rwa [hwhole] at hframe
    · simp only [hfull, if_true]
  · refine .part (.payload header (part ++ c.receiver.stream.take n) ?_ whole ?_ ?_ ?_) (if_neg hfull)
      rfl
    · rw [split, List.append_assoc]
    · rw [List.length_append, hreceived]
      exact hroom
    · simp only [hfull, if_false, List.length_append, hreceived]
    · rw [List.length_append, hreceived]
      exact htaken

theorem Holding.bytes (h : Holding held c.receiver) (ho : c.receiver.Admits (.bytes n)) :
    Taken held c (c.afterBytes n) n := by
  obtain ⟨hn, havail, -⟩ := ho.bounds
  cases h with
  | header short asks between reading part => exact taken_of_header short asks part hn
  | payload header part split whole announced state inBuffer =>
    exact taken_of_payload split whole announced state inBuffer hn havail

/-- A call in which `::recv` fails only resizes the buffer. -/
theorem Holding.error (h : Holding held c.receiver) (e : Errno) :
    Holding held (c.afterError e).receiver := by
  cases h with
  | header short asks between reading part =>
    have hsame : (c.afterError e).receiver = c.receiver := by
      unfold Reception.afterError
      rw [part]
    rw [hsame]
    exact .header short asks between reading part
  | payload header part split whole announced state inBuffer =>
    refine .payload header part split whole announced state ?_
    have hlen : part.length ≤ c.receiver.buf.length := by
      have htake := congrArg List.length inBuffer
      rw [List.length_take] at htake
      omega
    unfold Reception.afterError recvPart
    simp only [state]
    rw [take_resize announced hlen, inBuffer]

end Holding

section Runs

variable {c t : Reception} {held bytes : List UInt8} {ls : List ReceptionStep}

/-- What the caller has received and holds, and what is to come, are the stream. -/
structure Receives (bytes held : List UInt8) (c : Reception) : Prop where
  holding : Holding held c.receiver
  reads : messageFormat.Reads bytes c.messages held c.receiver.stream

theorem Receives.recvPart {n : ℕ} (h : Receives bytes held c)
    (ho : c.receiver.Admits (.bytes n)) : ∃ held', Receives bytes held' (c.afterBytes n) := by
  cases h.holding.bytes ho with
  | part holding messages stream =>
    refine ⟨_, holding, ?_⟩
    rw [messages, stream]
    exact h.reads.portion n
  | message m whole between messages stream =>
    refine ⟨[], between, ?_⟩
    rw [messages, stream]
    exact h.reads.handOut whole

theorem Receives.recvFails (h : Receives bytes held c) (e : Errno) :
    Receives bytes held (c.afterError e) :=
  ⟨h.holding.error e, h.reads⟩

/-- Between two messages nothing is held. -/
theorem Holding.eq_nil (h : Holding held c.receiver) (hbetween : c.receiver.state.Between) :
    held = [] := by
  cases h with
  | header _ _ between => exact between hbetween
  | payload _ _ _ _ _ state =>
    rw [state] at hbetween
    rcases hbetween with hfinished | ⟨hsize, -⟩
    · cases hfinished
    · cases hsize

/-- While no payload is received the buffer may be another, and so may the stream. -/
theorem Holding.elsewhere (h : Holding held c.receiver)
    (hfree : c.receiver.state.state ≠ .receivingMsg) (stream buf : List UInt8) :
    Holding held { c.receiver with stream := stream, buf := buf } := by
  cases h with
  | header short asks between reading part => exact .header short asks between reading part
  | payload _ _ _ _ _ state =>
    rw [state] at hfree
    exact absurd rfl hfree

/-- Where `recv` finds no whole message it leaves nothing of the stream. -/
theorem recv_rest_of_no_frame {stream : List UInt8} (h : ¬ BeginsWithFrame stream) :
    (recv stream).2 = [] := by
  have hsize : msgSizeTypeSize = 2 := rfl
  unfold BeginsWithFrame at h
  unfold recv
  simp only [List.length_take, List.length_drop]
  split_ifs with hheader hpayload
  · exact List.drop_eq_nil_of_le (by omega)
  · refine List.drop_eq_nil_of_le ?_
    rw [List.length_drop]
    omega
  · exact absurd ⟨by omega, by omega⟩ h

/-- `recv` takes the message off the front, or throws and takes all that is left. -/
theorem recv_cases (stream : List UInt8) :
    (∃ message rest, Linuxpp.recv stream = (.ok message, rest) ∧
      takeMessage stream = some (message, rest)) ∨
    (∃ e, Linuxpp.recv stream = (.error e, []) ∧ takeMessage stream = none) := by
  unfold takeMessage
  cases hrecv : Linuxpp.recv stream with
  | mk result rest =>
    cases result with
    | ok message => exact .inl ⟨message, rest, rfl, rfl⟩
    | error e =>
      refine .inr ⟨e, ?_, rfl⟩
      have hframe : ¬ BeginsWithFrame stream := by
        intro hframe
        have htake := takeMessage_of_beginsWithFrame hframe
        unfold takeMessage at htake
        rw [hrecv] at htake
        cases htake
      have hrest := recv_rest_of_no_frame hframe
      rw [hrecv] at hrest
      obtain rfl : rest = [] := hrest
      rfl

theorem Receives.recv (h : Receives bytes [] c) (hbetween : c.receiver.state.Between) :
    Receives bytes [] c.afterRecv := by
  have hfree : c.receiver.state.state ≠ .receivingMsg := by
    intro hmsg
    rcases hbetween with hfinished | ⟨hsize, -⟩
    · rw [hmsg] at hfinished
      cases hfinished
    · rw [hmsg] at hsize
      cases hsize
  unfold Reception.afterRecv
  rcases recv_cases c.receiver.stream with ⟨message, rest, hrecv, htake⟩ | ⟨e, hrecv, htake⟩
  · rw [hrecv]
    exact ⟨h.holding.elsewhere hfree rest message, h.reads.handOut htake⟩
  · have hnone : takeMessage [] = none := takeMessage_of_short (by decide)
    rw [hrecv]
    exact ⟨h.holding.elsewhere hfree [] _, h.reads.giveUp htake hnone⟩

/-- Every call leads on in the stream. -/
theorem Receives.step (h : Receives bytes held c) {l : ReceptionStep}
    (hl : receptionStep c l = some t) : ∃ held', Receives bytes held' t := by
  cases l with
  | recvPart o =>
    cases o with
    | again =>
      obtain rfl := Option.some.inj hl
      exact ⟨held, h.recvFails .EAGAIN⟩
    | bytes n =>
      obtain ⟨hpossible, ht⟩ := Option.ite_none_right_eq_some.mp hl
      cases ht
      exact h.recvPart hpossible
  | recv =>
    obtain ⟨hbetween, ht⟩ := Option.ite_none_right_eq_some.mp hl
    cases ht
    obtain rfl := h.holding.eq_nil hbetween
    exact ⟨[], h.recv hbetween⟩
  | useBuffer buf =>
    obtain ⟨hfree, ht⟩ := Option.ite_none_right_eq_some.mp hl
    cases ht
    exact ⟨held, h.holding.elsewhere hfree _ buf, h.reads⟩

/-- **`recv_part` receives what `recv` receives.** Whatever the bytes on the stream, and however
`::recv` cuts them into portions, the messages that a caller of both has received are those that
`recv` alone would have returned, in order. -/
theorem recv_part_receives_what_recv_does
    (hrun : receptionStep.run ⟨{ stream := bytes }, []⟩ ls = some c) :
    ReceivesMessagesOf messageFormat bytes c := by
  have hstep : ∀ c l t, (∃ held, Receives bytes held c) → receptionStep c l = some t →
      ∃ held, Receives bytes held t := by
    rintro c l t ⟨held, h⟩ hl
    exact h.step hl
  have hstart : ∃ held, Receives bytes held ⟨{ stream := bytes }, []⟩ :=
    ⟨[], holding_of_startsMessage (.inl rfl), .start messageFormat bytes⟩
  obtain ⟨held, h⟩ := Machine.run_invariant hstep hrun hstart
  refine ⟨h.reads.isPrefix, ?_, ?_⟩
  · intro hbetween
    obtain rfl := h.holding.eq_nil hbetween
    exact h.reads
  · intro hend hasks
    refine h.reads.all ?_
    rw [hend, List.append_nil]
    show takeMessage held = none
    cases h.holding with
    | header short => exact takeMessage_of_short short
    | payload header part split whole announced state =>
      rw [Holding.asks_of_payload state whole announced] at hasks
      rw [split]
      exact takeMessage_of_part whole (by omega)

theorem recv_part_receives_what_recv_does_pieces :
    ∃ c, ReceivesMessagesOf messageFormat [0, 1, 7, 0, 2, 8, 9] c ∧ c.messages = [[7], [8, 9]] := by
  have hrun : receptionStep.run ⟨{ stream := [0, 1, 7, 0, 2, 8, 9] }, []⟩
      [.recvPart (.bytes 1), .recvPart .again, .recvPart (.bytes 1), .recvPart (.bytes 1), .recv] =
      some ⟨⟨[], ⟨1, 1, .finished⟩, [8, 9]⟩, [[7], [8, 9]]⟩ := rfl
  exact ⟨_, recv_part_receives_what_recv_does hrun, rfl⟩

end Runs

end Linuxpp
