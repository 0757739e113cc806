import Linuxpp.Ioloop.Oneshot

/-!
# Proofs: which delays arm the timer

Where the conversions do not overflow, the seconds and the nanoseconds add up to the delay, and the
offset is added only to a count of zero. So a positive delay shorter than a nanosecond disarms the
timer.
-/

namespace Linuxpp

open Chrono

section Specification

variable {time : Duration} {spec : Itimerspec}

/-- What the computation of an `it_value` has come through. -/
theorem setOneshotSpec_eq_some : setOneshotSpec time = some spec ↔
    ∃ seconds timeNanoseconds secondsNanoseconds, time.cast .second = some seconds ∧
      time.cast .nano = some timeNanoseconds ∧
      durationCast .int64 seconds (Ratio.second.divide .nano) = some secondsNanoseconds ∧
      Rep.int64.Fits (timeNanoseconds - secondsNanoseconds) ∧
      Rep.int64.Fits ((if time.count = 0 then 1 else 0) +
        (timeNanoseconds - secondsNanoseconds)) ∧
      (⟨seconds, (if time.count = 0 then 1 else 0) +
        (timeNanoseconds - secondsNanoseconds)⟩ : Itimerspec) = spec := by
  unfold setOneshotSpec
  simp only [Option.bind_eq_bind, Option.bind_eq_some_iff, checked_eq_some]
  constructor
  · rintro ⟨s, hs, t, ht, w, hw, d, ⟨hd, rfl⟩, n, ⟨hn, rfl⟩, heq⟩
    exact ⟨s, t, w, hs, ht, hw, hd, hn, Option.some.inj heq⟩
  · rintro ⟨s, t, w, hs, ht, hw, hd, hn, rfl⟩
    exact ⟨s, hs, t, ht, w, hw, _, ⟨hd, rfl⟩, _, ⟨hn, rfl⟩, rfl⟩

theorem num_second_divide_nano : (Ratio.second.divide .nano).num = 1000000000 := by decide

theorem den_second_divide_nano : (Ratio.second.divide .nano).den = 1 := by decide

/-- Whole seconds in nanoseconds. -/
theorem durationCast_seconds {seconds v : ℤ} :
    durationCast .int64 seconds (Ratio.second.divide .nano) = some v ↔
      Rep.int64.Fits v ∧ seconds * 1000000000 = v := by
  unfold durationCast Rep.mul
  rw [num_second_divide_nano, den_second_divide_nano]
  by_cases h : Rep.int64.Fits (seconds * 1000000000)
  · have hcast : toInt64 (seconds * 1000000000) = seconds * 1000000000 := toInt64_of_fits h
    simp only [Nat.cast_ofNat, if_pos h, Option.map_some, Nat.cast_one, Int.tdiv_one, hcast,
      Option.some.injEq]
    exact ⟨fun heq => ⟨heq ▸ h, heq⟩, fun h' => h'.2⟩
  · simp only [Nat.cast_ofNat, if_neg h, Option.map_none, reduceCtorEq, false_iff]
    rintro ⟨hv, rfl⟩
    exact h hv

/-- The seconds and nanoseconds add up to the converted delay and the offset. -/
theorem setOneshotSpec_total (h : setOneshotSpec time = some spec) :
    ∃ timeNanoseconds, time.cast .nano = some timeNanoseconds ∧
      spec.tvSec * 1000000000 + spec.tvNsec =
        (if time.count = 0 then 1 else 0) + timeNanoseconds := by
  obtain ⟨s, t, w, -, ht, hw, -, -, rfl⟩ := setOneshotSpec_eq_some.mp h
  obtain ⟨-, rfl⟩ := durationCast_seconds.mp hw
  refine ⟨t, ht, ?_⟩
  show s * 1000000000 + (_ + (t - s * 1000000000)) = _
  omega

end Specification

section Delays

variable {time : Duration}

/-- The conversion to nanoseconds divides what the delay is by the same denominator. -/
theorem divide_nano_eq (h0 : 0 ≤ time.count) :
    time.count * (time.period.divide .nano).num / (time.period.divide .nano).den =
      (OneshotCall.delay time).delayNanoseconds := by
  obtain ⟨n, hn⟩ := Int.eq_ofNat_of_zero_le h0
  have hnat := mul_divide_num_div_den time.period .nano n
  have hden : time.period.den * Ratio.nano.num = time.period.den := Nat.mul_one _
  rw [hden] at hnat
  show _ = time.count * (time.period.num * 1000000000) / time.period.den
  rw [hn]
  exact_mod_cast hnat

/-- The product for the seconds is no greater than the one for the nanoseconds. -/
theorem fits_second (h0 : 0 ≤ time.count)
    (h : time.rep.Fits (time.count * (time.period.divide .nano).num)) :
    time.rep.Fits (time.count * time.period.num) := by
  have hnum : (time.period.num : ℤ) ≤ (time.period.divide .nano).num := by
    exact_mod_cast num_le_num_divide time.period .nano rfl
  have hle := Int.mul_le_mul_of_nonneg_left hnum h0
  have hpos : 0 ≤ time.count * (time.period.num : ℤ) := Int.mul_nonneg h0 (by omega)
  cases hrep : time.rep <;> rw [hrep] at h <;> obtain ⟨hlow, hhigh⟩ := h <;>
    exact ⟨by omega, by omega⟩

theorem cast_nano (h0 : 0 ≤ time.count)
    (hfit : (OneshotCall.delay time).delayNanoseconds < 2 ^ 63)
    (h : time.rep.Fits (time.count * (time.period.divide .nano).num)) :
    time.cast .nano = some (OneshotCall.delay time).delayNanoseconds := by
  rw [Duration.cast, durationCast_of_fits h0 h (by rw [divide_nano_eq h0]; exact hfit),
    divide_nano_eq h0]

theorem delayNanoseconds_of_count_eq_zero (hcount : time.count = 0) :
    (OneshotCall.delay time).delayNanoseconds = 0 := by
  show time.count * _ / _ = 0
  rw [hcount, Int.zero_mul, Int.zero_ediv]

/-- Where the product fits, the `it_value` is the delay and the offset. -/
theorem setOneshotSpec_of_fits (h0 : 0 ≤ time.count)
    (hfit : (OneshotCall.delay time).delayNanoseconds < 2 ^ 63)
    (h : time.rep.Fits (time.count * (time.period.divide .nano).num)) :
    ∃ spec, setOneshotSpec time = some spec ∧ 0 ≤ spec.tvNsec ∧ spec.tvNsec < 1000000000 ∧
      spec.tvSec * 1000000000 + spec.tvNsec =
        (if time.count = 0 then 1 else 0) + (OneshotCall.delay time).delayNanoseconds := by
  have hden : (0 : ℤ) < time.period.den := by exact_mod_cast time.period.den_pos
  have hk : (0 : ℤ) < 1000000000 := by omega
  obtain ⟨hlow, hhigh⟩ := ediv_mul_le_and_lt (x := time.count * time.period.num) hden hk
  have hassoc : time.count * (time.period.num : ℤ) * 1000000000 / time.period.den =
      (OneshotCall.delay time).delayNanoseconds := by rw [Int.mul_assoc]; rfl
  rw [hassoc] at hlow hhigh
  have hs0 : 0 ≤ time.count * (time.period.num : ℤ) / time.period.den :=
    Int.ediv_nonneg (Int.mul_nonneg h0 (by omega)) hden.le
  have hsecond : time.cast .second = some (time.count * time.period.num / time.period.den) := by
    rw [Duration.cast, divide_second]
    exact durationCast_of_fits h0 (fits_second h0 h) (by omega)
  have hw : durationCast .int64 (time.count * time.period.num / time.period.den)
      (Ratio.second.divide .nano) =
      some (time.count * time.period.num / time.period.den * 1000000000) :=
    durationCast_seconds.mpr ⟨⟨by omega, by omega⟩, rfl⟩
  have hoffset : 0 ≤ (if time.count = 0 then 1 else 0 : ℤ) ∧
      (if time.count = 0 then 1 else 0 : ℤ) +
        ((OneshotCall.delay time).delayNanoseconds -
          time.count * time.period.num / time.period.den * 1000000000) < 1000000000 := by
    by_cases hcount : time.count = 0
    · have hd := delayNanoseconds_of_count_eq_zero hcount
      rw [if_pos hcount]
      omega
    · rw [if_neg hcount]
      omega
  have hspec := setOneshotSpec_eq_some.mpr ⟨_, _, _, hsecond, cast_nano h0 hfit h, hw,
    ⟨by omega, by omega⟩, ⟨by omega, by omega⟩, rfl⟩
  refine ⟨_, hspec, ?_, hoffset.2, ?_⟩
  · exact Int.add_nonneg hoffset.1 (by omega)
  · dsimp only
    omega

/-- A delay arms the timer as it should exactly if it is zero or at least a nanosecond, and its
conversion does not overflow. -/
theorem delay_armsForDelay_iff (h : (OneshotCall.delay time).InDomain) :
    (OneshotCall.delay time).ArmsForDelay ↔ (OneshotCall.delay time).Convertible := by
  obtain ⟨h0, hfit, -, -, hden⟩ := h
  constructor
  · rintro ⟨spec, hspec, -, -, -, htotal⟩
    obtain ⟨t, ht, hsum⟩ := setOneshotSpec_total hspec
    have hprod : time.rep.Fits (time.count * (time.period.divide .nano).num) := by
      by_contra hover
      have hlt := lt_of_durationCast h0 hden hover ht
      rw [divide_nano_eq h0] at hlt
      have hcount : time.count ≠ 0 := by
        intro hcount
        rw [hcount, Int.zero_mul] at hover
        cases hrep : time.rep <;> rw [hrep] at hover <;> exact hover ⟨by decide, by decide⟩
      rw [if_neg hcount] at hsum
      omega
    rw [cast_nano h0 hfit.2 hprod] at ht
    cases ht
    refine ⟨?_, hprod⟩
    by_cases hcount : time.count = 0
    · exact Or.inl hcount
    · rw [if_neg hcount] at hsum
      exact Or.inr (by omega)
  · rintro ⟨hdelay, hprod⟩
    obtain ⟨spec, hspec, hlow, hhigh, hsum⟩ := setOneshotSpec_of_fits h0 hfit.2 hprod
    have htotal : spec.tvSec * 1000000000 + spec.tvNsec =
        max (OneshotCall.delay time).delayNanoseconds 1 := by
      rcases hdelay with hcount | hpos
      · have hd := delayNanoseconds_of_count_eq_zero hcount
        rw [if_pos hcount] at hsum
        omega
      · have hcount : time.count ≠ 0 := by
          intro hcount
          have hd := delayNanoseconds_of_count_eq_zero hcount
          omega
        rw [if_neg hcount] at hsum
        omega
    refine ⟨spec, hspec, hlow, hhigh, ?_, htotal⟩
    rintro rfl
    have hmax := Int.le_max_right (OneshotCall.delay time).delayNanoseconds 1
    rw [← htotal] at hmax
    exact absurd hmax (by decide)

end Delays

section Nanoseconds

variable {t timeout now : ℤ} (h : Rep.int64.Fits t)

theorem delayNanoseconds_nano :
    (OneshotCall.delay ⟨.int64, .nano, t, h⟩).delayNanoseconds = t := by
  show t * (((1 : ℕ) : ℤ) * 1000000000) / ((1000000000 : ℕ) : ℤ) = t
  omega

theorem num_nano_divide_nano : (Ratio.nano.divide .nano).num = 1 := by decide

theorem inDomain_nano (h0 : 0 ≤ t) : (OneshotCall.delay ⟨.int64, .nano, t, h⟩).InDomain := by
  have hnano : Ratio.nano.Representable := by decide
  have hone : (Ratio.nano.divide .nano).Representable := by decide
  refine ⟨h0, ?_, hnano, hone⟩
  rw [delayNanoseconds_nano]
  exact h

theorem fits_nano (h : Rep.int64.Fits t) : Rep.int64.Fits (t * (Ratio.nano.divide .nano).num) := by
  rw [num_nano_divide_nano, Nat.cast_one, Int.mul_one]
  exact h

/-- A count of nanoseconds always converts. -/
theorem armsForDelay_nano (h0 : 0 ≤ t) :
    (OneshotCall.delay ⟨.int64, .nano, t, h⟩).ArmsForDelay := by
  refine (delay_armsForDelay_iff (inDomain_nano h h0)).mpr ⟨?_, fits_nano h⟩
  rw [delayNanoseconds_nano]
  show t = 0 ∨ 1 ≤ t
  omega

/-- On nanoseconds the template computes what `oneshotSpec` says. -/
theorem setOneshotSpec_nano (h0 : 0 ≤ t) :
    setOneshotSpec ⟨.int64, .nano, t, h⟩ = some (MonotonicTimerfd.oneshotSpec t) := by
  have hfit : (OneshotCall.delay ⟨.int64, .nano, t, h⟩).delayNanoseconds < 2 ^ 63 := by
    rw [delayNanoseconds_nano]
    exact h.2
  obtain ⟨⟨sec, nsec⟩, hspec, hlow, hhigh, hsum⟩ := setOneshotSpec_of_fits h0 hfit (fits_nano h)
  rw [delayNanoseconds_nano] at hsum
  rw [hspec, MonotonicTimerfd.oneshotSpec, Int.tdiv_eq_ediv_of_nonneg h0]
  dsimp only at hlow hhigh hsum ⊢
  have hsec : sec = t / 1000000000 := by
    by_cases ht : t = 0
    · rw [if_pos ht] at hsum
      omega
    · rw [if_neg ht] at hsum
      omega
  have hnsec : nsec = (if t = 0 then 1 else 0) + (t - t / 1000000000 * 1000000000) := by
    rw [hsec] at hsum
    omega
  rw [hsec, hnsec]

/-- A deadline less than 2^63 nanoseconds ahead arms the timer as `setOneshot` says. -/
theorem setOneshotSpecAt_eq (hdiff : timeout - now < 2 ^ 63) :
    setOneshotSpecAt timeout now =
      some (MonotonicTimerfd.oneshotSpec (if timeout > now then timeout - now else 1)) := by
  unfold setOneshotSpecAt
  by_cases hlt : timeout > now
  · have hfit : Rep.int64.Fits (timeout - now) := ⟨by omega, hdiff⟩
    rw [if_pos hlt, if_pos hlt, dif_pos hfit]
    exact setOneshotSpec_nano hfit (by omega)
  · rw [if_neg hlt, if_neg hlt]
    exact setOneshotSpec_nano _ (by decide)

theorem deadline_armsForDelay_iff :
    (OneshotCall.deadline timeout now).ArmsForDelay ↔ timeout - now < 2 ^ 63 := by
  constructor
  · rintro ⟨spec, hspec, -⟩
    by_contra hdiff
    have hlt : timeout > now := by omega
    have hnone : setOneshotSpecAt timeout now = none := by
      rw [setOneshotSpecAt, if_pos hlt, dif_neg fun hfit => hdiff hfit.2]
    have hsome : setOneshotSpecAt timeout now = some spec := hspec
    rw [hnone] at hsome
    cases hsome
  · intro hdiff
    by_cases hlt : timeout > now
    · have hfit : Rep.int64.Fits (timeout - now) := ⟨by omega, hdiff⟩
      obtain ⟨spec, hspec, harms⟩ := armsForDelay_nano hfit (by omega)
      rw [delayNanoseconds_nano] at harms
      refine ⟨spec, ?_, harms⟩
      show setOneshotSpecAt timeout now = some spec
      rw [setOneshotSpecAt, if_pos hlt, dif_pos hfit]
      exact hspec
    · have hone : Rep.int64.Fits 1 := by decide
      obtain ⟨spec, hspec, hlow, hhigh, hne, htotal⟩ := armsForDelay_nano hone (by decide)
      rw [delayNanoseconds_nano] at htotal
      have hmax : max (timeout - now) 1 = 1 := by omega
      refine ⟨spec, ?_, hlow, hhigh, hne, ?_⟩
      · show setOneshotSpecAt timeout now = some spec
        rw [setOneshotSpecAt, if_neg hlt]
        exact hspec
      · show _ = max (timeout - now) 1
        rw [htotal, hmax]
        rfl

end Nanoseconds

/-- **Which delays arm the timer.** For every 64-bit count and period of a delay that is not
negative and fits in 64 bits as nanoseconds, and for every deadline and clock value, the timer is
armed for the delay truncated to nanoseconds, or for one nanosecond if that is longer, if and only
if the delay is zero or at least a nanosecond and its conversion does not overflow; a deadline must
be less than 2^63 nanoseconds ahead. -/
theorem oneshot_armsForDelay_iff (call : OneshotCall) (h : call.InDomain) :
    call.ArmsForDelay ↔ call.Convertible := by
  cases call with
  | delay time => exact delay_armsForDelay_iff h
  | deadline timeout now => exact deadline_armsForDelay_iff

/-- Three minutes. -/
theorem oneshot_armsForDelay_iff_three_minutes :
    let minute : Ratio := ⟨60, 1, by decide, by decide, by decide⟩
    (OneshotCall.delay ⟨.int64, minute, 3, by decide⟩).ArmsForDelay := by
  intro minute
  have hdomain : (OneshotCall.delay ⟨.int64, minute, 3, by decide⟩).InDomain :=
    ⟨by decide, by decide, by decide, by decide⟩
  exact (oneshot_armsForDelay_iff _ hdomain).mpr ⟨Or.inr (by decide), by decide⟩

/-- A picosecond disarms the timer. -/
theorem oneshot_picosecond_disarms :
    let picosecond : Ratio := ⟨1, 1000000000000, by decide, by decide, by decide⟩
    let time : Duration := ⟨.int64, picosecond, 1, by decide⟩
    (OneshotCall.delay time).InDomain ∧ setOneshotSpec time = some ⟨0, 0⟩ ∧
      ¬ (OneshotCall.delay time).ArmsForDelay := by
  have hspec : setOneshotSpec ⟨.int64, ⟨1, 1000000000000, by decide, by decide, by decide⟩, 1,
      by decide⟩ = some ⟨0, 0⟩ := by decide
  refine ⟨⟨by decide, by decide, by decide, by decide⟩, hspec, ?_⟩
  rintro ⟨spec, hspec', -, -, hne, -⟩
  exact hne (Option.some.inj (hspec'.symm.trans hspec))

end Linuxpp
