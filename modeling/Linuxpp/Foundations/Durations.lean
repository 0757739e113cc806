import Mathlib.Data.Int.Basic
import Mathlib.Data.Nat.GCD.Basic
import Mathlib.Tactic.Ring

/-!
# Durations with rational periods

A duration is a 64-bit count of periods, each a positive rational number of seconds. A conversion to
another period multiplies by the numerator of the quotient of the periods and divides by its
denominator, so that it truncates, and the product may leave the range of its type: there, signed
arithmetic is undefined, and unsigned arithmetic wraps.
-/

namespace Chrono

/-- The 64-bit integer types. -/
inductive Rep where
  | int64
  | uint64
deriving DecidableEq, Repr

namespace Rep

/-- The value is one of the type. -/
def Fits : Rep → ℤ → Prop
  | int64, v => -2 ^ 63 ≤ v ∧ v < 2 ^ 63
  | uint64, v => 0 ≤ v ∧ v < 2 ^ 64

instance (r : Rep) : DecidablePred r.Fits := fun _ =>
  match r with
  | int64 | uint64 => inferInstanceAs (Decidable (_ ∧ _))

/-- The product in the type, `none` where it is undefined. -/
def mul : Rep → ℤ → ℤ → Option ℤ
  | int64, a, b => if int64.Fits (a * b) then some (a * b) else none
  | uint64, a, b => some (a * b % 2 ^ 64)

end Rep

/-- The conversion to `int64`. -/
def toInt64 (v : ℤ) : ℤ := (v + 2 ^ 63) % 2 ^ 64 - 2 ^ 63

/-- The result of a sum or difference in `int64`, `none` where it is undefined. -/
def checked (v : ℤ) : Option ℤ := if Rep.int64.Fits v then some v else none

/-- A positive rational number, reduced. -/
structure Ratio where
  num : ℕ
  den : ℕ
  num_pos : 0 < num
  den_pos : 0 < den
  reduced : num.Coprime den

namespace Ratio

/-- The quotient of two rational numbers. -/
def divide (p q : Ratio) : Ratio :=
  have hnum : 0 < p.num * q.den := Nat.mul_pos p.num_pos q.den_pos
  have hden : 0 < p.den * q.num := Nat.mul_pos p.den_pos q.num_pos
  have hgcd : 0 < (p.num * q.den).gcd (p.den * q.num) := Nat.gcd_pos_of_pos_left _ hnum
  { num := p.num * q.den / (p.num * q.den).gcd (p.den * q.num)
    den := p.den * q.num / (p.num * q.den).gcd (p.den * q.num)
    num_pos := Nat.div_pos (Nat.le_of_dvd hnum (Nat.gcd_dvd_left _ _)) hgcd
    den_pos := Nat.div_pos (Nat.le_of_dvd hden (Nat.gcd_dvd_right _ _)) hgcd
    reduced := Nat.coprime_div_gcd_div_gcd hgcd }

/-- Both numbers are values of `int64`. -/
def Representable (r : Ratio) : Prop := r.num < 2 ^ 63 ∧ r.den < 2 ^ 63

instance : DecidablePred Representable := fun _ => inferInstanceAs (Decidable (_ ∧ _))

/-- The period of seconds. -/
def second : Ratio := ⟨1, 1, by decide, by decide, by decide⟩

/-- The period of nanoseconds. -/
def nano : Ratio := ⟨1, 1000000000, by decide, by decide, by decide⟩

end Ratio

/-- A duration of `count` periods. -/
structure Duration where
  rep : Rep
  period : Ratio
  count : ℤ
  count_fits : rep.Fits count

/-- A count of type `rep` converted to a 64-bit signed count of another period; `cf` is the quotient
of the periods. -/
def durationCast (rep : Rep) (count : ℤ) (cf : Ratio) : Option ℤ :=
  (rep.mul count cf.num).map fun product => toInt64 (product.tdiv cf.den)

/-- The duration as a count of another period. -/
def Duration.cast (d : Duration) (period : Ratio) : Option ℤ :=
  durationCast d.rep d.count (d.period.divide period)

section Arithmetic

variable {rep : Rep} {v a b : ℤ}

theorem checked_eq_some {w : ℤ} : checked v = some w ↔ Rep.int64.Fits v ∧ v = w := by
  unfold checked
  by_cases h : Rep.int64.Fits v
  · rw [if_pos h, Option.some.injEq]
    exact ⟨fun heq => ⟨h, heq⟩, fun h' => h'.2⟩
  · rw [if_neg h]
    constructor
    · intro heq
      cases heq
    · intro h'
      exact absurd h'.1 h

theorem toInt64_of_fits (h : Rep.int64.Fits v) : toInt64 v = v := by
  obtain ⟨hlow, hhigh⟩ := h
  unfold toInt64
  omega

/-- A value that does not fit is converted to a smaller one. -/
theorem toInt64_le (h : 0 ≤ v) : toInt64 v ≤ v := by
  unfold toInt64
  omega

theorem mul_of_fits (h : rep.Fits (a * b)) : rep.mul a b = some (a * b) := by
  cases rep with
  | int64 =>
    show (if Rep.int64.Fits (a * b) then some (a * b) else none) = _
    rw [if_pos h]
  | uint64 =>
    show some (a * b % 2 ^ 64) = _
    rw [Int.emod_eq_of_lt h.1 h.2]

/-- A quotient of a product that wraps is too small. -/
theorem emod_ediv_lt {d : ℤ} (hv : 2 ^ 64 ≤ v) (hd : 0 < d) (hd' : d < 2 ^ 63) :
    v % 2 ^ 64 / d < v / d := by
  have hle : v % 2 ^ 64 + 1 * d ≤ v := by omega
  have hdiv := Int.ediv_le_ediv hd hle
  rw [Int.add_mul_ediv_right _ _ hd.ne'] at hdiv
  omega

end Arithmetic

section Casts

variable {rep : Rep} {count v : ℤ} {cf : Ratio}

/-- A conversion is exact, up to the truncation, if the product and the quotient fit. -/
theorem durationCast_of_fits (h0 : 0 ≤ count) (hmul : rep.Fits (count * cf.num))
    (hquot : count * cf.num / cf.den < 2 ^ 63) :
    durationCast rep count cf = some (count * cf.num / cf.den) := by
  have hpos : 0 ≤ count * (cf.num : ℤ) := Int.mul_nonneg h0 (by omega)
  have hquot0 : 0 ≤ count * (cf.num : ℤ) / cf.den := Int.ediv_nonneg hpos (by omega)
  unfold durationCast
  rw [mul_of_fits hmul, Option.map_some, Int.tdiv_eq_ediv_of_nonneg hpos,
    toInt64_of_fits ⟨by omega, hquot⟩]

/-- A conversion whose product does not fit is undefined or gives too little. -/
theorem lt_of_durationCast (h0 : 0 ≤ count) (hden : cf.den < 2 ^ 63)
    (hmul : ¬ rep.Fits (count * cf.num)) (h : durationCast rep count cf = some v) :
    v < count * cf.num / cf.den := by
  have hpos : 0 ≤ count * (cf.num : ℤ) := Int.mul_nonneg h0 (by omega)
  cases rep with
  | int64 =>
    have hnone : Rep.int64.mul count cf.num = none := if_neg hmul
    rw [durationCast, hnone] at h
    cases h
  | uint64 =>
    have hbig : 2 ^ 64 ≤ count * (cf.num : ℤ) := by
      by_contra hlt
      exact hmul ⟨hpos, by omega⟩
    have hwrap : 0 ≤ count * (cf.num : ℤ) % 2 ^ 64 := by omega
    have hden0 : (0 : ℤ) < cf.den := by
      have := cf.den_pos
      omega
    have hlt := emod_ediv_lt hbig hden0 (by omega)
    have hv : toInt64 ((count * (cf.num : ℤ) % 2 ^ 64).tdiv cf.den) = v := Option.some.inj h
    rw [Int.tdiv_eq_ediv_of_nonneg hwrap] at hv
    have hle := toInt64_le (Int.ediv_nonneg hwrap hden0.le)
    omega

end Casts

section Quotients

variable (p q : Ratio) (n : ℕ)

/-- The truncated conversion, with the quotient of the periods not reduced. -/
theorem mul_divide_num_div_den :
    n * (p.divide q).num / (p.divide q).den = n * (p.num * q.den) / (p.den * q.num) := by
  have hgcd : 0 < (p.num * q.den).gcd (p.den * q.num) :=
    Nat.gcd_pos_of_pos_left _ (Nat.mul_pos p.num_pos q.den_pos)
  have hnum : (p.divide q).num * (p.num * q.den).gcd (p.den * q.num) = p.num * q.den :=
    Nat.div_mul_cancel (Nat.gcd_dvd_left _ _)
  have hden : (p.divide q).den * (p.num * q.den).gcd (p.den * q.num) = p.den * q.num :=
    Nat.div_mul_cancel (Nat.gcd_dvd_right _ _)
  rw [← Nat.mul_div_mul_right _ _ hgcd, Nat.mul_assoc, hnum, hden]

theorem divide_second : p.divide .second = p := by
  obtain ⟨num, den, hnum, hden, hred⟩ := p
  simp only [Ratio.divide, Ratio.second, Nat.mul_one, hred.gcd_eq_one, Nat.div_one]

/-- A conversion to a period of one part of a second does not make the numerator smaller. -/
theorem num_le_num_divide (hq : q.num = 1) : p.num ≤ (p.divide q).num := by
  have hgcd : (p.num * q.den).gcd (p.den * q.num) = q.den.gcd p.den := by
    rw [hq, Nat.mul_one]
    exact p.reduced.gcd_mul_left_cancel q.den
  have hpos : 0 < q.den.gcd p.den := Nat.gcd_pos_of_pos_left _ q.den_pos
  have hle : q.den.gcd p.den ≤ q.den := Nat.gcd_le_left _ q.den_pos
  show p.num ≤ p.num * q.den / (p.num * q.den).gcd (p.den * q.num)
  rw [hgcd, Nat.le_div_iff_mul_le hpos]
  exact Nat.mul_le_mul_left _ hle

/-- Truncated to parts, and to wholes first: the wholes are the greatest number of wholes in the
parts. -/
theorem ediv_mul_le_and_lt {x d k : ℤ} (hd : 0 < d) (hk : 0 < k) :
    x / d * k ≤ x * k / d ∧ x * k / d < x / d * k + k := by
  have hlow : x / d * d ≤ x := Int.ediv_mul_le x hd.ne'
  have hhigh : x < (x / d + 1) * d := Int.lt_ediv_add_one_mul_self x hd
  constructor
  · rw [Int.le_ediv_iff_mul_le hd]
    calc x / d * k * d = x / d * d * k := by ring
      _ ≤ x * k := Int.mul_le_mul_of_nonneg_right hlow hk.le
  · rw [Int.ediv_lt_iff_lt_mul hd]
    calc x * k < (x / d + 1) * d * k := Int.mul_lt_mul_of_pos_right hhigh hk
      _ = (x / d * k + k) * d := by ring

end Quotients

end Chrono
