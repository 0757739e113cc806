import Linuxpp.Foundations.Loop
import Linuxpp.Message.TcpDatagramSocket

/-!
# Receiving from a stream that the peer closes

The caller of `recv_part` calls it with the state returned before until that is `finished`. At the
end of the stream `::recv` returns 0. The stream is what the peer sends before it closes.
-/

namespace Linuxpp

/-- What a call of `recv_part` gets: the rest of the stream, and the state and the buffer that the
caller holds. -/
structure Receiver where
  stream : List UInt8
  state : ReceiveState := {}
  buf : List UInt8 := []
deriving DecidableEq, Repr

/-- The outcomes of `::recv` for `length` bytes on a stream that ends after `available` bytes: it
returns no byte only at the end, or if it is asked for none. It throws `EAGAIN` while the bytes or
the end are under way, which it may do for no bytes too. -/
def RecvOutcome.PossibleToEnd (length available : ℕ) : RecvOutcome → Prop
  | .again => True
  | .bytes n => if length = 0 then n = 0 else n ≤ length ∧ n ≤ available ∧ (n = 0 → available = 0)

/-- The outcome is possible for what the next call of `recv_part` asks for. -/
def Receiver.Admits (r : Receiver) (o : RecvOutcome) : Prop :=
  o.PossibleToEnd (recvLength r.state) r.stream.length

/-- The loop around `recv_part`. It is left with the message when the state is `finished`, or by an
exception. After `EAGAIN` the caller waits and calls again. -/
def recvPartLoop : Loop Receiver RecvOutcome (Except Errno (List UInt8)) := fun r o =>
  let (received, rest) : Except Errno (List UInt8) × List UInt8 :=
    match o with
    | .again => (.error .EAGAIN, r.stream)
    | .bytes n => (.ok (r.stream.take n), r.stream.drop n)
  match recvPart r.buf r.state received with
  | (.error e, buf) => if e = .EAGAIN then .inl { r with buf := buf } else .inr (.error e)
  | (.ok state, buf) =>
    if state.state = .finished then .inr (.ok buf)
    else .inl { stream := rest, state := state, buf := buf }

/-- A call of `recv_part` with this state starts a new message. -/
def ReceiveState.StartsMessage (state : ReceiveState) : Prop :=
  state = {} ∨ state.state = .finished

/-- The loop around `recv_part` is left, whatever `::recv` does for each call, if `EAGAIN` is thrown
only finitely often, and it throws if and only if `recv` throws that the stream is truncated. -/
def EndsLikeRecv (stream : List UInt8) : Prop :=
  ∀ (state : ReceiveState) (buf : List UInt8) (outcomes : ℕ → RecvOutcome), state.StartsMessage →
    recvPartLoop.Feeds Receiver.Admits outcomes ⟨stream, state, buf⟩ →
    (∃ n, ∀ k, n ≤ k → outcomes k ≠ .again) →
    (∃ result, recvPartLoop.Leaves outcomes ⟨stream, state, buf⟩ result) ∧
      ((∃ e, recvPartLoop.Leaves outcomes ⟨stream, state, buf⟩ (.error e)) ↔
        (recv stream).1 = .error .ENODATA)

/-- The stream begins with a whole frame. -/
def BeginsWithFrame (stream : List UInt8) : Prop :=
  msgSizeTypeSize ≤ stream.length ∧
    msgSizeTypeSize + BigEndian.decode (stream.take msgSizeTypeSize) ≤ stream.length

end Linuxpp
