import Mathlib.Data.Int.Basic
import Linuxpp.Kernel.Errno

/-!
# `monotonic_timerfd`

Times are nanoseconds of `std::chrono::steady_clock`, the monotonic clock the timer runs on.
-/

namespace Linuxpp

/-- `std::chrono::steady_clock::time_point`. -/
abbrev TimeType := Int

/-- The `it_value` of a `struct itimerspec` whose `it_interval` is zero. -/
structure Itimerspec where
  tvSec : Int
  tvNsec : Int
deriving DecidableEq, Repr

/-- What the environment contributes to a call of `set_oneshot`: the clock value it reads, the clock
value at which `timerfd_settime` arms the timer behind that, and its error, if there is one. -/
structure SettimeOutcome where
  now : TimeType
  armed : TimeType := now
  errno : Option Errno := none
deriving DecidableEq

namespace SettimeOutcome

/-- How long after the clock was read the timer is armed. -/
def delay (o : SettimeOutcome) : Int := o.armed - o.now

/-- The call is made when the clock has come to `clock`. -/
def madeAt (o : SettimeOutcome) (clock : TimeType) : Bool := o.now ≤ o.armed && o.armed = clock

end SettimeOutcome

/-- The kernel's view of a timerfd: when it expires next, and whether an expiration is unread. -/
structure MonotonicTimerfd where
  expiry : Option TimeType := none
  unread : Bool := false
deriving DecidableEq, Repr

namespace MonotonicTimerfd

/-- `timerfd_settime` at the time `now`: the zero value disarms the timer, and expirations that
were not read are discarded. -/
def settime (_ : MonotonicTimerfd) (now : TimeType) (spec : Itimerspec) : MonotonicTimerfd where
  expiry :=
    if spec = ⟨0, 0⟩ then none else some (now + spec.tvSec * 1000000000 + spec.tvNsec)
  unread := false

/-- The `it_value` of `set_oneshot(time)` for a delay in nanoseconds. -/
def oneshotSpec (time : Int) : Itimerspec :=
  let nanosecondOffset := if time = 0 then 1 else 0
  -- `duration_cast` truncates towards zero
  let seconds := time.tdiv 1000000000
  let nanoseconds := time - seconds * 1000000000
  ⟨seconds, nanosecondOffset + nanoseconds⟩

/-- `set_oneshot(delay)`. -/
def setOneshotDelay (t : MonotonicTimerfd) (time : Int) (o : SettimeOutcome) :
    Except Errno Unit × MonotonicTimerfd :=
  match o.errno with
  | some e => (.error e, t)
  | none => (.ok (), t.settime o.armed (oneshotSpec time))

/-- `set_oneshot(timeout)`: a timeout that has passed is armed to expire right away. The delay is
taken from the clock value that was read, and counts from when the timer is armed. -/
def setOneshot (t : MonotonicTimerfd) (timeout : TimeType) (o : SettimeOutcome) :
    Except Errno Unit × MonotonicTimerfd :=
  if timeout > o.now then t.setOneshotDelay (timeout - o.now) o else t.setOneshotDelay 1 o

/-- `read()` on a timerfd with an unread expiration. -/
def read (t : MonotonicTimerfd) : MonotonicTimerfd := { t with unread := false }

/-- The clock has come to `now`: a timer that expires has an unread expiration and is disarmed. -/
def elapse (t : MonotonicTimerfd) (now : TimeType) : MonotonicTimerfd :=
  if t.expiry.any fun expiry => expiry ≤ now then { expiry := none, unread := true } else t

/-- When the clock has come to `limit`, there is an unread expiration. -/
def ReadyBy (t : MonotonicTimerfd) (limit : TimeType) : Prop :=
  t.unread = true ∨ ∃ expiry ∈ t.expiry, expiry ≤ limit

end MonotonicTimerfd
end Linuxpp
