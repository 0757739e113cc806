import Linuxpp.Foundations.Durations
import Linuxpp.Ioloop.MonotonicTimerfd

/-!
# The `it_value` of `set_oneshot`

The template `set_oneshot(duration)` takes durations of every period, and computes with conversions
that may overflow. `none` stands for undefined behaviour.
-/

namespace Linuxpp

open Chrono

/-- The `it_value` that `set_oneshot(time)` passes to `timerfd_settime`. -/
def setOneshotSpec (time : Duration) : Option Itimerspec := do
  -- the test is on the count of the caller's periods
  let nanosecondOffset := if time.count = 0 then 1 else 0
  let seconds ← time.cast .second
  let timeNanoseconds ← time.cast .nano
  let secondsNanoseconds ← durationCast .int64 seconds (Ratio.second.divide .nano)
  let nanoseconds ← checked (timeNanoseconds - secondsNanoseconds)
  let tvNsec ← checked (nanosecondOffset + nanoseconds)
  some ⟨seconds, tvNsec⟩

/-- The `it_value` of `set_oneshot(timeout)` when the clock has come to `now`. -/
def setOneshotSpecAt (timeout now : TimeType) : Option Itimerspec :=
  if timeout > now then
    -- the difference of two time points is a signed count of nanoseconds
    if h : Rep.int64.Fits (timeout - now) then setOneshotSpec ⟨.int64, .nano, timeout - now, h⟩
    else none
  else setOneshotSpec ⟨.int64, .nano, 1, by decide⟩

/-- The calls of `set_oneshot`. -/
inductive OneshotCall where
  | delay (time : Duration)
  | deadline (timeout now : TimeType)

namespace OneshotCall

/-- The `it_value` that is passed to `timerfd_settime`. -/
def spec : OneshotCall → Option Itimerspec
  | delay time => setOneshotSpec time
  | deadline timeout now => setOneshotSpecAt timeout now

/-- The delay in whole nanoseconds. -/
def delayNanoseconds : OneshotCall → ℤ
  | delay time => time.count * (time.period.num * 1000000000) / time.period.den
  | deadline timeout now => timeout - now

/-- The delay is not negative and fits in 64 bits as nanoseconds, and the template compiles for its
period; deadlines and clock values are any values of their type. -/
def InDomain : OneshotCall → Prop
  | delay time => 0 ≤ time.count ∧ Rep.int64.Fits (delay time).delayNanoseconds ∧
      time.period.Representable ∧ (time.period.divide .nano).Representable
  | deadline timeout now => Rep.int64.Fits timeout ∧ Rep.int64.Fits now

/-- The timer is armed for the delay, or for a nanosecond if that is longer. -/
def ArmsForDelay (call : OneshotCall) : Prop :=
  ∃ spec, call.spec = some spec ∧ 0 ≤ spec.tvNsec ∧ spec.tvNsec < 1000000000 ∧ spec ≠ ⟨0, 0⟩ ∧
    spec.tvSec * 1000000000 + spec.tvNsec = max call.delayNanoseconds 1

/-- The delay is zero or at least a nanosecond, and the product of the conversion to nanoseconds
fits in its type; a deadline is less than 2^63 nanoseconds ahead of the clock. -/
def Convertible : OneshotCall → Prop
  | delay time => (time.count = 0 ∨ 1 ≤ (delay time).delayNanoseconds) ∧
      time.rep.Fits (time.count * (time.period.divide .nano).num)
  | deadline timeout now => timeout - now < 2 ^ 63

end OneshotCall
end Linuxpp
