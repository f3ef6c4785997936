import Mathlib.Algebra.BigOperators.Fin
import IndexNode.BigEndian.Value

/-!
# Numbers decoded and written

A decoder moves its register up by a byte and fills the gap, for each byte once more. As long as the
bytes fit the register this is exact arithmetic. Decoding then keeps the order of byte strings of
one length, and undoes what a write to a span has done.

* `value_eq_sum`: the value of bytes is the sum of their places.
* `value_lt_iff`: byte strings of one length are ordered as their values.
* `decode32_lt_iff`, `decode64_lt_iff`: and so as the registers that they are decoded to;
  `decode32_inj`, `decode64_inj` say that no two of them share a register.
* `decode64_cut_put`, `put_decode64_cut`: a number that is written is decoded, and one that is
  decoded can be written back.
* `decode_keeps_order_and_inverts_put`: all of it.
-/

namespace IndexNode.BigEndian

/-! ## Values -/

/-- The first byte counts most, each byte `256` times as much as the next. -/
theorem value_eq_sum (t : Bytes) :
    value t = ∑ j : Fin t.length, t[j].toNat * 256 ^ (t.length - 1 - j) := by
  induction t with
  | nil => rfl
  | cons x t ih =>
    have hsum := Fin.sum_univ_succ fun j : Fin (t.length + 1) =>
      (x :: t)[j].toNat * 256 ^ (t.length - j)
    refine Eq.trans ?_ hsum.symm
    rw [value, ih]
    refine congrArg (x.toNat * 256 ^ t.length + ·) (Finset.sum_congr rfl fun j _ => ?_)
    rw [Fin.val_succ, Nat.sub_sub, Nat.add_comm 1]
    rfl

/-- The lower places decide only between equal leading ones. -/
private theorem place_lt_iff {x y u w m : Nat} (hu : u < m) (hw : w < m) :
    x * m + u < y * m + w ↔ x < y ∨ x = y ∧ u < w := by
  rcases Nat.lt_trichotomy x y with hxy | rfl | hxy
  · have hstep : (x + 1) * m ≤ y * m := Nat.mul_le_mul_right m hxy
    rw [Nat.succ_mul] at hstep
    omega
  · omega
  · have hstep : (y + 1) * m ≤ x * m := Nat.mul_le_mul_right m hxy
    rw [Nat.succ_mul] at hstep
    omega

theorem value_lt_iff {a b : Bytes} (h : a.length = b.length) : value a < value b ↔ a < b := by
  induction a generalizing b with
  | nil => simp [List.eq_nil_of_length_eq_zero h.symm, value]
  | cons x a ih =>
    cases b with
    | nil => cases h
    | cons y b =>
      have htail : a.length = b.length := Nat.succ.inj h
      rw [value, value, ← htail, place_lt_iff (value_lt a) (htail ▸ value_lt b), ih htail,
        List.cons_lt_cons_iff, UInt8.lt_iff_toNat_lt, UInt8.toNat_inj]

/-! ## Registers -/

section Registers

variable {a b : Bytes} (h : a.length = b.length)
include h

theorem decode32_lt_iff (ha : a.length ≤ 4) : decode32 a < decode32 b ↔ a < b := by
  rw [UInt32.lt_iff_toNat_lt, toNat_decode32 ha, toNat_decode32 (h ▸ ha), value_lt_iff h]

theorem decode32_inj (ha : a.length ≤ 4) : decode32 a = decode32 b ↔ a = b := by
  rw [← UInt32.toNat_inj, toNat_decode32 ha, toNat_decode32 (h ▸ ha), value_inj h]

theorem decode64_lt_iff (ha : a.length ≤ 8) : decode64 a < decode64 b ↔ a < b := by
  rw [UInt64.lt_iff_toNat_lt, toNat_decode64 ha, toNat_decode64 (h ▸ ha), value_lt_iff h]

theorem decode64_inj (ha : a.length ≤ 8) : decode64 a = decode64 b ↔ a = b := by
  rw [← UInt64.toNat_inj, toNat_decode64 ha, toNat_decode64 (h ▸ ha), value_inj h]

end Registers

/-! ## Writes -/

section Writes

variable {t : Bytes} {s : Span} (ht : s.stop ≤ t.length) (hwidth : s.length ≤ 8)
include ht hwidth

theorem decode64_cut_put (hs : s.start ≤ s.stop) (v : Nat) :
    (decode64 (s.cut (put t s v))).toNat = v % 256 ^ s.length := by
  rw [cut_put hs ht, toNat_decode64 (by rwa [length_encode]), value_encode]

theorem put_decode64_cut : put t s (decode64 (s.cut t)).toNat = t := by
  have hlen : (s.cut t).length = s.length := Span.length_cut s t ht
  rw [put, toNat_decode64 (hlen ▸ hwidth), ← hlen, encode_value, Span.patch_cut s t ht]

end Writes

/-- Decoding at every width that fits the register, and writing at every width up to eight. A
decoded number is the exact sum of its bytes by their places, and both registers hold the same one.
Of two byte strings of one length the lesser, with bytes taken as unsigned, is decoded to the lesser
number, and no two are decoded to one. A number written into a span is decoded from it modulo the
width, the bytes outside stay, and writing back what was decoded changes nothing. -/
theorem decode_keeps_order_and_inverts_put :
    (∀ t : Bytes, t.length ≤ 8 →
      (decode64 t).toNat = ∑ j : Fin t.length, t[j].toNat * 256 ^ (t.length - 1 - j) ∧
      (decode64 t).toNat < 256 ^ t.length) ∧
    (∀ t : Bytes, t.length ≤ 4 →
      (decode32 t).toNat = ∑ j : Fin t.length, t[j].toNat * 256 ^ (t.length - 1 - j) ∧
      (decode32 t).toNat < 256 ^ t.length ∧ (decode32 t).toNat = (decode64 t).toNat) ∧
    (∀ a b : Bytes, a.length = b.length →
      (a.length ≤ 8 →
        (a < b ↔ decode64 a < decode64 b) ∧ (decode64 a = decode64 b → a = b)) ∧
      (a.length ≤ 4 →
        (a < b ↔ decode32 a < decode32 b) ∧ (decode32 a = decode32 b → a = b))) ∧
    ∀ (t : Bytes) (s : Span), s.start ≤ s.stop → s.stop ≤ t.length → s.length ≤ 8 →
      (∀ v, (decode64 (s.cut (put t s v))).toNat = v % 256 ^ s.length ∧
        (put t s v).length = t.length ∧
        ∀ p, p < s.start ∨ s.stop ≤ p → (put t s v)[p]? = t[p]?) ∧
      put t s (decode64 (s.cut t)).toNat = t := by
  refine ⟨?_, ?_, ?_, ?_⟩
  · intro t ht
    rw [toNat_decode64 ht]
    exact ⟨value_eq_sum t, value_lt t⟩
  · intro t ht
    rw [toNat_decode32 ht, toNat_decode64 (Nat.le_trans ht (by decide))]
    exact ⟨value_eq_sum t, value_lt t, rfl⟩
  · intro a b h
    exact ⟨fun ha => ⟨(decode64_lt_iff h ha).symm, (decode64_inj h ha).mp⟩,
      fun ha => ⟨(decode32_lt_iff h ha).symm, (decode32_inj h ha).mp⟩⟩
  · intro t s hs ht hwidth
    refine ⟨fun v => ⟨decode64_cut_put ht hwidth hs v, length_put t s v hs ht, ?_⟩,
      put_decode64_cut ht hwidth⟩
    intro p hp
    exact getElem?_put_of_outside hs ht hp v

/-- Eight bytes fill the register to its top bit, and the top bit of a byte is no sign. A number of
three bytes leaves its low two in a span of that width. -/
theorem decode_of_topBits :
    (decode64 [0x80, 0, 0, 0, 0, 0, 0, 0x7f]).toNat = 0x800000000000007f ∧
    (decode32 [0xff]).toNat = 0xff ∧
    ([0x7f, 0xff] : Bytes) < [0x80, 0] ∧ decode64 [0x7f, 0xff] < decode64 [0x80, 0] ∧
    (decode64 ((⟨1, 3⟩ : Span).cut (put [1, 2, 3, 4, 5] ⟨1, 3⟩ 0x12345))).toNat = 0x2345 ∧
    (put [1, 2, 3, 4, 5] ⟨1, 3⟩ 0x12345)[3]? = some 4 := by
  obtain ⟨hwide, hnarrow, horder, hput⟩ := decode_keeps_order_and_inverts_put
  have hless : ([0x7f, 0xff] : Bytes) < [0x80, 0] := by decide
  obtain ⟨hregister, -⟩ := (horder [0x7f, 0xff] [0x80, 0] rfl).1 (by decide)
  obtain ⟨hnew, -, hrest⟩ :=
    (hput [1, 2, 3, 4, 5] ⟨1, 3⟩ (by decide) (by decide) (by decide)).1 0x12345
  exact ⟨(hwide _ (by decide)).1.trans (by decide), (hnarrow _ (by decide)).1.trans (by decide),
    hless, hregister.mp hless, hnew, hrest 3 (by decide)⟩

end IndexNode.BigEndian
