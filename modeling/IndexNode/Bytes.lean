/-!
# Bytes, buffers and spans

A node is a `Buffer`, an array with constant-time reads. Whatever is read out of it (a field, a
key, a payload) is a `Bytes`, a list. A `Span` is a half-open range of positions in either.

* `Span.read_eq_cut`: reading a span of a buffer is cutting it out of the buffer's list.
* `Span.length_read`: a span inside the buffer reads as many bytes as it is long.
* `Span.getElem?_cut`: which they are.
* `Span.cut_patch`: a span that has been overwritten reads as what was written.
* `Span.patch_cut`: writing back what stands in a span changes nothing.
* `Span.length_patch`: overwriting a span with as many bytes keeps the length.
* `Span.cut_patch_of_disjoint`: nor does it change what a disjoint span reads as.
* `Span.getElem?_patch`: the byte at any position afterwards. From it `Span.patch_comm` and
  `Span.patch_patch`, for two spans that are disjoint and for the same span twice.
* `Span.cut_append_left`, `Span.cut_append_right`: a span of one part of a byte string is cut out
  of that part; `Span.read_append_left` and `Span.read_append_right` say so of buffers.
* `Span.cut_between`: the middle part is cut out whole.
-/

namespace IndexNode

/-- A run of bytes: a key, a payload, the stored form of a field. -/
abbrev Bytes := List UInt8

/-- All bytes of a node. -/
abbrev Buffer := Array UInt8

/-- `n` zero bytes. -/
def zeros (n : Nat) : Bytes := List.replicate n 0

/-- The byte positions from `start` up to but not including `stop`. -/
structure Span where
  start : Nat
  stop : Nat
  deriving DecidableEq, Repr

namespace Span

def length (s : Span) : Nat := s.stop - s.start

/-- The same span, `n` positions further on. -/
def shift (s : Span) (n : Nat) : Span := ⟨s.start + n, s.stop + n⟩

/-- The last `n` positions of the span. -/
def takeEnd (s : Span) (n : Nat) : Span := ⟨s.stop - n, s.stop⟩

/-- The span without its last `n` positions. -/
def dropEnd (s : Span) (n : Nat) : Span := ⟨s.start, s.stop - n⟩

/-- The bytes of `b` in the span. -/
def read (s : Span) (b : Buffer) : Bytes := (b.extract s.start s.stop).toList

/-- The bytes of a byte string in the span. -/
def cut (s : Span) (t : Bytes) : Bytes := (t.drop s.start).take s.length

/-- `t` with the bytes from `s.start` on replaced by `new`. -/
def patch (s : Span) (t new : Bytes) : Bytes :=
  t.take s.start ++ new ++ t.drop (s.start + new.length)

@[simp] theorem length_shift (s : Span) (n : Nat) : (s.shift n).length = s.length :=
  Nat.add_sub_add_right ..

theorem read_eq_cut (s : Span) (b : Buffer) : s.read b = s.cut b.toList := by
  rw [read, cut, length, Array.toList_extract, List.extract_eq_take_drop]

@[simp] theorem length_cut (s : Span) (t : Bytes) (h : s.stop ≤ t.length) :
    (s.cut t).length = s.length := by
  simp only [cut, length, List.length_take, List.length_drop]
  omega

@[simp] theorem length_read (s : Span) (b : Buffer) (h : s.stop ≤ b.size) :
    (s.read b).length = s.length := by
  rw [read_eq_cut, length_cut s _ (by simpa using h)]

theorem cut_patch (s : Span) (t new : Bytes) (hs : s.start ≤ t.length)
    (hn : new.length = s.length) : s.cut (s.patch t new) = new := by
  rw [cut, patch, List.append_assoc, List.drop_left' (List.length_take_of_le hs), ← hn,
    List.take_left]

/-- The bytes of a span, by their positions in the whole. -/
theorem getElem?_cut (s : Span) (t : Bytes) {p : Nat} (hstart : s.start ≤ p) (hstop : p < s.stop) :
    (s.cut t)[p - s.start]? = t[p]? := by
  have hin : p - s.start < s.length := by
    rw [length]
    omega
  rw [cut, List.getElem?_take_of_lt hin, List.getElem?_drop, Nat.add_sub_cancel' hstart]

theorem patch_cut (s : Span) (t : Bytes) (h : s.stop ≤ t.length) : s.patch t (s.cut t) = t := by
  rw [patch, length_cut s t h, cut, List.append_assoc, ← List.drop_drop, List.take_append_drop,
    List.take_append_drop]

theorem length_patch (s : Span) (t new : Bytes) (hn : s.start + new.length ≤ t.length) :
    (s.patch t new).length = t.length := by
  simp only [patch, List.length_append, List.length_take, List.length_drop]
  omega

/-- A span that ends in the first part of a byte string does not see the second. -/
theorem cut_append_left (s : Span) (x y : Bytes) (h : s.stop ≤ x.length) :
    s.cut (x ++ y) = s.cut x := by
  have hlen : s.length ≤ x.length - s.start := Nat.sub_le_sub_right h _
  by_cases hs : s.start ≤ x.length
  · rw [cut, cut, List.drop_append_of_le_length hs, List.take_append_of_le_length]
    rwa [List.length_drop]
  · have hzero : s.length = 0 := by omega
    rw [cut, cut, hzero, List.take_zero, List.take_zero]

/-- A span that starts in the second part is counted from there. -/
theorem cut_append_right (s : Span) (x y : Bytes) (h : x.length ≤ s.start) :
    s.cut (x ++ y) = (⟨s.start - x.length, s.stop - x.length⟩ : Span).cut y := by
  have hlen : s.stop - x.length - (s.start - x.length) = s.length := by
    rw [length]
    omega
  rw [cut, cut, List.drop_append, List.drop_of_length_le h, List.nil_append]
  simp only [length] at hlen ⊢
  rw [hlen]

/-- What stands between `x` and `z`. -/
theorem cut_between (x y z : Bytes) :
    (⟨x.length, x.length + y.length⟩ : Span).cut (x ++ y ++ z) = y := by
  rw [cut, List.append_assoc, List.drop_left, length, Nat.add_sub_cancel_left, List.take_left]

theorem read_append_left (s : Span) (a b : Buffer) (h : s.stop ≤ a.size) :
    s.read (a ++ b) = s.read a := by
  rw [read_eq_cut, read_eq_cut, Array.toList_append, cut_append_left s _ _ h]

theorem read_append_right (s : Span) (a b : Buffer) (h : a.size ≤ s.start) :
    s.read (a ++ b) = (⟨s.start - a.size, s.stop - a.size⟩ : Span).read b := by
  rw [read_eq_cut, read_eq_cut, Array.toList_append]
  exact cut_append_right s a.toList b.toList h

/-- Overwriting a span leaves a disjoint one as it is. -/
theorem cut_patch_of_disjoint {s r : Span} {t new : Bytes} (hn : s.start + new.length = s.stop)
    (ht : s.stop ≤ t.length) (h : r.stop ≤ s.start ∨ s.stop ≤ r.start) :
    r.cut (s.patch t new) = r.cut t := by
  rw [patch, hn]
  rcases h with h | h
  · have hfront : (t.take s.start).length = s.start := List.length_take_of_le (by omega)
    calc r.cut (t.take s.start ++ new ++ t.drop s.stop)
        = r.cut (t.take s.start) := by
          rw [List.append_assoc, cut_append_left _ _ _ (by omega)]
      _ = r.cut (t.take s.start ++ t.drop s.start) := (cut_append_left _ _ _ (by omega)).symm
      _ = r.cut t := by rw [List.take_append_drop]
  · -- Behind the overwritten bytes both strings go on alike.
    have hfront : (t.take s.start ++ new).length = s.stop := by
      rw [List.length_append, List.length_take_of_le (by omega), hn]
    have hsame : (t.take s.stop).length = s.stop := List.length_take_of_le ht
    calc r.cut (t.take s.start ++ new ++ t.drop s.stop)
        = r.cut (t.take s.stop ++ t.drop s.stop) := by
          rw [cut_append_right _ _ _ (by omega), cut_append_right _ _ _ (by omega), hfront, hsame]
      _ = r.cut t := by rw [List.take_append_drop]

/-- A position of the overwritten span reads as what was written, any other as before. -/
theorem getElem?_patch (s : Span) {t new : Bytes} (h : s.start + new.length ≤ t.length) (p : Nat) :
    (s.patch t new)[p]? =
      if s.start ≤ p ∧ p < s.start + new.length then new[p - s.start]? else t[p]? := by
  have hfront : (t.take s.start).length = s.start := List.length_take_of_le (by omega)
  rw [patch, List.append_assoc, List.getElem?_append, hfront, List.getElem?_append]
  by_cases hlow : p < s.start
  · rw [if_pos hlow, if_neg (by omega), List.getElem?_take_of_lt hlow]
  · rw [if_neg hlow]
    by_cases hnew : p - s.start < new.length
    · rw [if_pos hnew, if_pos (by omega)]
    · have hback : s.start + new.length + (p - s.start - new.length) = p := by omega
      rw [if_neg hnew, if_neg (by omega), List.getElem?_drop, hback]

/-- Disjoint spans can be overwritten in either order. -/
theorem patch_comm {r s : Span} {t x y : Bytes} (hx : r.start + x.length = r.stop)
    (hy : s.start + y.length = s.stop) (hr : r.stop ≤ t.length) (hs : s.stop ≤ t.length)
    (h : r.stop ≤ s.start ∨ s.stop ≤ r.start) :
    s.patch (r.patch t x) y = r.patch (s.patch t y) x := by
  have hlen := r.length_patch t x (by omega)
  have hlen' := s.length_patch t y (by omega)
  apply List.ext_getElem?
  intro p
  rw [getElem?_patch s (by omega), getElem?_patch r (by omega), getElem?_patch r (by omega),
    getElem?_patch s (by omega)]
  by_cases hpr : r.start ≤ p ∧ p < r.start + x.length
  · rw [if_pos hpr, if_pos hpr, if_neg (by omega)]
  · rw [if_neg hpr, if_neg hpr]

/-- What was written first is gone after the span has been overwritten again. -/
theorem patch_patch (s : Span) {t x y : Bytes} (hxy : x.length = y.length)
    (h : s.start + x.length ≤ t.length) : s.patch (s.patch t x) y = s.patch t y := by
  have hlen := s.length_patch t x h
  apply List.ext_getElem?
  intro p
  rw [getElem?_patch s (by omega), getElem?_patch s (by omega), getElem?_patch s (by omega), hxy]
  by_cases hp : s.start ≤ p ∧ p < s.start + y.length
  · rw [if_pos hp, if_pos hp]
  · rw [if_neg hp, if_neg hp, if_neg hp]

end Span

end IndexNode
