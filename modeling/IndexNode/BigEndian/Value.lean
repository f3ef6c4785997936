import Mathlib.Algebra.Group.Nat.Defs
import Mathlib.Data.List.Induction
import IndexNode.BigEndian

/-!
# The value of big-endian numbers

`value` is the number that bytes stand for, as a sum of place values with no register and no
width.

* `toNat_decode32`, `toNat_decode64`: up to four (eight) bytes decode to their `value`, so no
  bit leaves the register.
* `toNat_toUInt16_decode32`, `toNat_toUInt8_decode32`: nor does one in a cast to the width read.
* `value_encode`: `width` written bytes hold the number modulo `256 ^ width`.
* `encode_value`: written with as many bytes, the value of bytes gives them back.
* `value_lt`: bytes stand for a number below `256` to the power of their count.
-/

namespace IndexNode.BigEndian

/-- The number that the bytes stand for, by the place value of each byte. -/
def value : Bytes → Nat
  | [] => 0
  | x :: t => x.toNat * 256 ^ t.length + value t

theorem value_append (a b : Bytes) : value (a ++ b) = value a * 256 ^ b.length + value b := by
  induction a with
  | nil => simp [value]
  | cons x a ih =>
    simp only [List.cons_append, value, ih, List.length_append, Nat.pow_add, Nat.add_mul,
      Nat.mul_assoc, Nat.add_assoc]

theorem value_lt (t : Bytes) : value t < 256 ^ t.length := by
  induction t with
  | nil => simp [value]
  | cons x t ih =>
    have hx := x.toNat_lt
    have hm : x.toNat * 256 ^ t.length ≤ 255 * 256 ^ t.length :=
      Nat.mul_le_mul_right _ (by omega)
    simp only [value, List.length_cons, Nat.pow_succ]
    omega

/-! ## Decoding -/

/-- In a register of `k + 8` bits, a shift by one byte filled with `x` is `a * 256 + x`. -/
private theorem shift_or (a x k : Nat) (hx : x < 256) :
    (a <<< 8 % 2 ^ (k + 8) ||| x) = (a * 256 + x) % 2 ^ (k + 8) := by
  have h2 : 2 ^ (k + 8) = 256 * 2 ^ k := by rw [Nat.pow_add, Nat.mul_comm]
  have h1 : a <<< 8 % 2 ^ (k + 8) = (a % 2 ^ k) <<< 8 := by
    rw [Nat.shiftLeft_eq, Nat.shiftLeft_eq, h2, Nat.mul_comm 256, Nat.mul_mod_mul_right]
  rw [h1, ← Nat.shiftLeft_add_eq_or_of_lt (by simpa using hx), Nat.shiftLeft_eq, h2, Nat.mod_mul,
    show (a * 256 + x) / 256 = a by omega]
  omega

theorem toNat_shiftIn32 (v : UInt32) (x : UInt8) :
    (shiftIn32 v x).toNat = (v.toNat * 256 + x.toNat) % 2 ^ 32 := by
  simpa [shiftIn32] using shift_or v.toNat x.toNat 24 x.toNat_lt

theorem toNat_shiftIn64 (v : UInt64) (x : UInt8) :
    (shiftIn64 v x).toNat = (v.toNat * 256 + x.toNat) % 2 ^ 64 := by
  simpa [shiftIn64] using shift_or v.toNat x.toNat 56 x.toNat_lt

/-- A register that wraps at `m` in each step holds the exact value modulo `m`. -/
private theorem toNat_foldl {R : Type} (toNat : R → Nat) (shiftIn : R → UInt8 → R) (m : Nat)
    (h : ∀ v x, toNat (shiftIn v x) = (toNat v * 256 + x.toNat) % m)
    (t : Bytes) (v : R) (hv : toNat v = toNat v % m) :
    toNat (t.foldl shiftIn v) = (toNat v * 256 ^ t.length + value t) % m := by
  induction t generalizing v with
  | nil => simpa [value] using hv
  | cons x t ih =>
    rw [List.foldl_cons, ih _ (by simp [h]), h, value, List.length_cons, Nat.add_mod,
      Nat.mod_mul_mod, ← Nat.add_mod, Nat.pow_succ', Nat.add_mul, Nat.mul_assoc, Nat.add_assoc]

private theorem value_lt_pow {t : Bytes} {n : Nat} (h : t.length ≤ n) : value t < 256 ^ n :=
  Nat.lt_of_lt_of_le (value_lt t) (Nat.pow_le_pow_right (by decide) h)

theorem toNat_decode32 {t : Bytes} (h : t.length ≤ 4) : (decode32 t).toNat = value t := by
  have hlt : value t < 2 ^ 32 := Nat.lt_of_lt_of_eq (value_lt_pow h) (by decide)
  rw [decode32, toNat_foldl UInt32.toNat shiftIn32 _ toNat_shiftIn32 t 0 rfl, UInt32.toNat_zero,
    Nat.zero_mul, Nat.zero_add, Nat.mod_eq_of_lt hlt]

theorem toNat_decode64 {t : Bytes} (h : t.length ≤ 8) : (decode64 t).toNat = value t := by
  have hlt : value t < 2 ^ 64 := Nat.lt_of_lt_of_eq (value_lt_pow h) (by decide)
  rw [decode64, toNat_foldl UInt64.toNat shiftIn64 _ toNat_shiftIn64 t 0 rfl, UInt64.toNat_zero,
    Nat.zero_mul, Nat.zero_add, Nat.mod_eq_of_lt hlt]

/-- A number of at most two bytes keeps all its bits in sixteen. -/
theorem toNat_toUInt16_decode32 {t : Bytes} (h : t.length ≤ 2) :
    (decode32 t).toUInt16.toNat = value t := by
  have hlt : value t < 2 ^ 16 := Nat.lt_of_lt_of_eq (value_lt_pow h) (by decide)
  rw [UInt32.toNat_toUInt16, toNat_decode32 (by omega), Nat.mod_eq_of_lt hlt]

/-- A number of at most one byte keeps all its bits in eight. -/
theorem toNat_toUInt8_decode32 {t : Bytes} (h : t.length ≤ 1) :
    (decode32 t).toUInt8.toNat = value t := by
  have hlt : value t < 2 ^ 8 := Nat.lt_of_lt_of_eq (value_lt_pow h) (by decide)
  rw [UInt32.toNat_toUInt8, toNat_decode32 (by omega), Nat.mod_eq_of_lt hlt]

/-! ## Encoding -/

theorem value_encode (width v : Nat) : value (encode width v) = v % 256 ^ width := by
  induction width generalizing v with
  | zero => simp [encode, value, Nat.mod_one]
  | succ width ih =>
    rw [encode, value_append, ih]
    have hlow : value [UInt8.ofNat v] = v % 256 := by simp [value]
    rw [hlow, List.length_singleton, Nat.pow_one, Nat.pow_succ', Nat.mod_mul, Nat.add_comm,
      Nat.mul_comm]

theorem encode_value (t : Bytes) : encode t.length (value t) = t := by
  -- From the last byte on, as `encode` writes them.
  induction t using List.reverseRecOn with
  | nil => rfl
  | append_singleton t x ih =>
    have hx := x.toNat_lt
    have hlast : value [x] = x.toNat := by simp [value]
    have hvalue : value (t ++ [x]) = value t * 256 + x.toNat := by
      rw [value_append, hlast, List.length_singleton, Nat.pow_one]
    have hfront : (value t * 256 + x.toNat) / 256 = value t := by omega
    have hback : UInt8.ofNat (value t * 256 + x.toNat) = x := by
      apply UInt8.toNat_inj.mp
      simp
    rw [hvalue, List.length_append, List.length_singleton, encode, hfront, hback, ih]

/-- Byte strings of one length differ in their values. -/
theorem value_inj {a b : Bytes} (h : a.length = b.length) : value a = value b ↔ a = b := by
  refine ⟨fun hvalue => ?_, congrArg value⟩
  rw [← encode_value a, ← encode_value b, h, hvalue]

end IndexNode.BigEndian
