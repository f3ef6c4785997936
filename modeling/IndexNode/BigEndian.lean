import IndexNode.Bytes

/-!
# Big-endian numbers

Every stored number has its most significant byte first. Decoding shifts the bytes into a
register of fixed width; `encode` writes the low bytes of a number of any size.

* `length_encode`: `width` bytes are written.
* `length_put`: writing into a span keeps the length.
* `cut_put`, `cut_put_of_disjoint`: the span holds what was written, disjoint spans what they held;
  `getElem?_put_of_outside` says so of each byte.
* `put_comm`, `put_put`: numbers in disjoint spans do not see each other, in one span the later
  stays.
-/

namespace IndexNode.BigEndian

/-- The register moved up by one byte, with `x` in the place that became free. -/
def shiftIn32 (v : UInt32) (x : UInt8) : UInt32 := v <<< 8 ||| x.toUInt32

/-- The register moved up by one byte, with `x` in the place that became free. -/
def shiftIn64 (v : UInt64) (x : UInt8) : UInt64 := v <<< 8 ||| x.toUInt64

/-- The number in up to four bytes. -/
def decode32 (t : Bytes) : UInt32 := t.foldl shiftIn32 0

/-- The number in up to eight bytes. -/
def decode64 (t : Bytes) : UInt64 := t.foldl shiftIn64 0

/-- The low `width` bytes of `v`, most significant first. -/
def encode : Nat → Nat → Bytes
  | 0, _ => []
  | width + 1, v => encode width (v / 256) ++ [UInt8.ofNat v]

/-- `t` with the number `v` written into span `s`: the low bytes that fit are kept. -/
def put (t : Bytes) (s : Span) (v : Nat) : Bytes := s.patch t (encode s.length v)

@[simp] theorem length_encode (width v : Nat) : (encode width v).length = width := by
  induction width generalizing v with
  | zero => rfl
  | succ width ih => simp [encode, ih]

theorem length_put (t : Bytes) (s : Span) (v : Nat) (hs : s.start ≤ s.stop)
    (ht : s.stop ≤ t.length) : (put t s v).length = t.length := by
  rw [put, Span.length_patch]
  rw [length_encode, Span.length]
  omega

theorem cut_put {t : Bytes} {s : Span} (hs : s.start ≤ s.stop) (ht : s.stop ≤ t.length) (v : Nat) :
    s.cut (put t s v) = encode s.length v :=
  Span.cut_patch _ _ _ (Nat.le_trans hs ht) (length_encode _ _)

theorem cut_put_of_disjoint {t : Bytes} {s r : Span} (hs : s.start ≤ s.stop)
    (ht : s.stop ≤ t.length) (h : r.stop ≤ s.start ∨ s.stop ≤ r.start) (v : Nat) :
    r.cut (put t s v) = r.cut t := by
  refine Span.cut_patch_of_disjoint ?_ ht h
  rw [length_encode, Span.length]
  omega

/-- No byte outside the span is changed. -/
theorem getElem?_put_of_outside {t : Bytes} {s : Span} (hs : s.start ≤ s.stop)
    (ht : s.stop ≤ t.length) {p : Nat} (hp : p < s.start ∨ s.stop ≤ p) (v : Nat) :
    (put t s v)[p]? = t[p]? := by
  have hlen : s.start + (encode s.length v).length = s.stop := by
    rw [length_encode, Span.length]
    omega
  rw [put, Span.getElem?_patch s (hlen ▸ ht), hlen, if_neg (by omega)]

/-- Two numbers are written into disjoint spans in either order. -/
theorem put_comm {t : Bytes} {r s : Span} (hr : r.start ≤ r.stop) (hs : s.start ≤ s.stop)
    (hrt : r.stop ≤ t.length) (hst : s.stop ≤ t.length) (h : r.stop ≤ s.start ∨ s.stop ≤ r.start)
    (v w : Nat) : put (put t r v) s w = put (put t s w) r v := by
  refine Span.patch_comm ?_ ?_ hrt hst h
  · rw [length_encode, Span.length]
    omega
  · rw [length_encode, Span.length]
    omega

/-- Of two numbers written into one span the later stays. -/
theorem put_put {t : Bytes} {s : Span} (hs : s.start ≤ s.stop) (ht : s.stop ≤ t.length)
    (v w : Nat) : put (put t s v) s w = put t s w := by
  refine Span.patch_patch s ?_ ?_
  · rw [length_encode, length_encode]
  · rw [length_encode, Span.length]
    omega

end IndexNode.BigEndian
