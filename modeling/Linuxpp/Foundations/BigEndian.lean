import Mathlib.Algebra.Order.Group.Nat
import Mathlib.Data.List.Basic
import Mathlib.Data.List.Induction
import Mathlib.Data.UInt

/-!
# Big-endian byte strings

The natural numbers below `256 ^ w` as strings of `w` bytes, the most significant byte first.
-/

namespace BigEndian

/-- The `w` bytes of `v`. -/
def encode : ℕ → ℕ → List UInt8
  | 0, _ => []
  | w + 1, v => encode w (v / 256) ++ [UInt8.ofNat v]

/-- The number that a byte string stands for. -/
def decode (bs : List UInt8) : ℕ := bs.foldl (fun acc b => acc * 256 + b.toNat) 0

@[simp] theorem length_encode (w v : ℕ) : (encode w v).length = w := by
  induction w generalizing v with
  | zero => rfl
  | succ w ih => simp [encode, ih]

@[simp] theorem decode_nil : decode [] = 0 := rfl

theorem decode_snoc (bs : List UInt8) (b : UInt8) :
    decode (bs ++ [b]) = decode bs * 256 + b.toNat := by
  simp [decode, List.foldl_append]

/-- **Round trip.** -/
theorem decode_encode {w v : ℕ} (h : v < 256 ^ w) : decode (encode w v) = v := by
  induction w generalizing v with
  | zero => simp_all [encode]
  | succ w ih =>
    have hv : v / 256 < 256 ^ w := Nat.div_lt_of_lt_mul (by rwa [pow_succ'] at h)
    rw [encode, decode_snoc, ih hv, UInt8.toNat_ofNat']
    omega

theorem decode_lt (bs : List UInt8) : decode bs < 256 ^ bs.length := by
  induction bs using List.reverseRecOn with
  | nil => simp
  | append_singleton bs b ih =>
    have hb : b.toNat < 256 := b.toNat_lt
    rw [decode_snoc, List.length_append, List.length_singleton, pow_succ]
    omega

/-- Every byte string is the one of its number. -/
theorem encode_decode (bs : List UInt8) : encode bs.length (decode bs) = bs := by
  induction bs using List.reverseRecOn with
  | nil => rfl
  | append_singleton bs b ih =>
    have hb : b.toNat < 256 := b.toNat_lt
    have hdiv : (decode bs * 256 + b.toNat) / 256 = decode bs := by omega
    have hlast : UInt8.ofNat (decode bs * 256 + b.toNat) = b := by
      apply UInt8.toNat_inj.mp
      rw [UInt8.toNat_ofNat']
      omega
    rw [List.length_append, List.length_singleton, decode_snoc, encode, hdiv, ih, hlast]

theorem encode_inj {w v v' : ℕ} (h : v < 256 ^ w) (h' : v' < 256 ^ w)
    (heq : encode w v = encode w v') : v = v' := by
  rw [← decode_encode h, ← decode_encode h', heq]

end BigEndian
