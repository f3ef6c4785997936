import Mathlib.Data.List.Basic
import IndexNode.Layout

/-!
# Entries side by side

The spans of the entries are counted back from the end of the node, each on its own. Counted forward
from where the first of them starts they are multiples of the entry size, so they lie side by side
and fill the end of the node.

* `Table.front`: where the entries start.
* `Table.start_entrySpan`, `Table.stop_entrySpan`: the spans counted forward.
* `Table.Tiles`: what it means that the spans fill the end of the node; `Table.Fits.tiles`.
* `Table.flatMap_read_entrySpan`: the bytes of the first entries, put together.
* `entries_tile_the_end_of_the_node`: the two for a table that was read from a node.
-/

namespace IndexNode

/-! ## Positions in spans -/

/-- The positions that lie in a span. -/
instance : Membership Nat Span := ⟨fun s p => s.start ≤ p ∧ p < s.stop⟩

theorem Span.mem_iff {s : Span} {p : Nat} : p ∈ s ↔ s.start ≤ p ∧ p < s.stop := Iff.rfl

/-- Adjacent spans are read as one. -/
theorem Span.read_append_read {r s : Span} (hr : r.start ≤ r.stop) (h : r.stop = s.start)
    (hs : s.start ≤ s.stop) (b : Buffer) :
    r.read b ++ s.read b = (⟨r.start, s.stop⟩ : Span).read b := by
  rw [read, read, read, ← Array.toList_append, ← h, Array.extract_append_extract,
    Nat.min_eq_left hr, Nat.max_eq_right (h ▸ hs)]

/-- A span up to the end is read as a suffix. -/
theorem Span.read_to_end (p : Nat) (b : Buffer) :
    (⟨p, b.size⟩ : Span).read b = b.toList.drop p := by
  have hlen : (b.toList.drop p).length = b.size - p := by
    rw [List.length_drop, Array.length_toList]
  rw [read_eq_cut, cut, length]
  exact List.take_of_length_le (Nat.le_of_eq hlen)

namespace Table

variable {t : Table}

/-! ## Spans counted forward -/

/-- Where the entries start. -/
def front (t : Table) : Nat := t.nodeLength - t.entrySize * t.count

theorem front_add (hf : t.Fits) : t.front + t.entrySize * t.count = t.nodeLength :=
  Nat.sub_add_cancel hf.2

section Entry

variable (hf : t.Fits) {i : Nat} (hi : i ≤ t.last)
include hf hi

theorem stop_entrySpan : (t.entrySpan i).stop = t.front + t.entrySize * (i + 1) := by
  have hsplit : t.entrySize * t.count =
      t.entrySize * (i + 1) + t.entrySize * (t.last - i) := by
    rw [← Nat.mul_add]
    congr 1
    simp only [count]
    omega
  have hfront := front_add hf
  simp only [entrySpan, entryStop]
  omega

theorem start_entrySpan : (t.entrySpan i).start = t.front + t.entrySize * i := by
  have hstop := stop_entrySpan hf hi
  rw [Nat.mul_succ] at hstop
  simp only [entrySpan] at hstop ⊢
  omega

end Entry

/-- An index with a span is one of the table, and the span is that of the layout. -/
theorem entrySpan?_eq_some_iff (hf : t.Fits) {i : Nat} {s : Span} :
    t.entrySpan? i = some s ↔ i ≤ t.last ∧ s = t.entrySpan i := by
  constructor
  · intro h
    have hi : i ≤ t.last := (t.isSome_entrySpan? i).mp (by rw [h, Option.isSome_some])
    rw [entrySpan?_eq hf hi] at h
    exact ⟨hi, (Option.some.inj h).symm⟩
  · rintro ⟨hi, rfl⟩
    exact entrySpan?_eq hf hi

/-! ## Tiling -/

/-- The spans of the entries lie side by side and fill the end of the node, and each ends with the
span of its trailer. -/
structure Tiles (t : Table) : Prop where
  /-- The indices up to the last have a span, and no others. -/
  isSome_iff : ∀ i, (t.entrySpan? i).isSome ↔ i ≤ t.last
  /-- All spans lie inside the node. -/
  stop_le : ∀ {i s}, t.entrySpan? i = some s → s.stop ≤ t.nodeLength
  /-- All spans have the entry size. -/
  stop_eq : ∀ {i s}, t.entrySpan? i = some s → s.stop = s.start + t.entrySize
  /-- Each span starts where the one before it ends. -/
  adjacent : ∀ {i r s}, t.entrySpan? i = some r → t.entrySpan? (i + 1) = some s → s.start = r.stop
  /-- The first span leaves room for all of them. -/
  start_first : ∀ {s}, t.entrySpan? 0 = some s →
    s.start = t.nodeLength - t.entrySize * (t.last + 1)
  /-- The last span ends with the node. -/
  stop_last : ∀ {s}, t.entrySpan? t.last = some s → s.stop = t.nodeLength
  /-- No position is in two spans. -/
  disjoint : ∀ {i j r s p}, t.entrySpan? i = some r → t.entrySpan? j = some s → p ∈ r → p ∈ s →
    i = j
  /-- The positions in some span are those at the end of the node. -/
  cover : ∀ p, (∃ i s, t.entrySpan? i = some s ∧ p ∈ s) ↔
    t.nodeLength - t.entrySize * (t.last + 1) ≤ p ∧ p < t.nodeLength
  /-- The same indices have a trailer span. -/
  isSome_trailer_iff : ∀ i, (t.trailerSpan? i).isSome ↔ (t.entrySpan? i).isSome
  /-- It is the end of the entry span, which has room for it. -/
  trailer : ∀ {i s}, t.entrySpan? i = some s →
    s.start + trailerSize ≤ s.stop ∧ t.trailerSpan? i = some ⟨s.stop - trailerSize, s.stop⟩

/-- Spans of different entries share no position: the earlier one ends first. -/
theorem stop_entrySpan_le_start (hf : t.Fits) {i j : Nat} (h : i < j) (hj : j ≤ t.last) :
    (t.entrySpan i).stop ≤ (t.entrySpan j).start := by
  rw [stop_entrySpan hf (by omega), start_entrySpan hf hj]
  exact Nat.add_le_add_left (Nat.mul_le_mul_left _ h) _

/-- A position behind the front is in the span whose number is the quotient by the entry size. -/
theorem exists_mem_entrySpan (hf : t.Fits) {p : Nat} (hfront : t.front ≤ p)
    (hp : p < t.nodeLength) : ∃ i ≤ t.last, p ∈ t.entrySpan i := by
  have hpos : 0 < t.entrySize := Nat.lt_of_lt_of_le (by decide) hf.1
  have hend := front_add hf
  have hcount : (p - t.front) / t.entrySize < t.count := Nat.div_lt_of_lt_mul (by omega)
  have hi : (p - t.front) / t.entrySize ≤ t.last := Nat.le_of_lt_succ hcount
  have hlow := Nat.mul_div_le (p - t.front) t.entrySize
  have hhigh := Nat.lt_mul_div_succ (p - t.front) hpos
  refine ⟨_, hi, ?_⟩
  rw [Span.mem_iff, start_entrySpan hf hi, stop_entrySpan hf hi]
  omega

theorem Fits.tiles (hf : t.Fits) : t.Tiles where
  isSome_iff := t.isSome_entrySpan?
  stop_le h := by
    obtain ⟨-, rfl⟩ := (entrySpan?_eq_some_iff hf).mp h
    exact Nat.sub_le _ _
  stop_eq h := by
    obtain ⟨hi, rfl⟩ := (entrySpan?_eq_some_iff hf).mp h
    rw [stop_entrySpan hf hi, start_entrySpan hf hi, Nat.mul_succ, Nat.add_assoc]
  adjacent hr hs := by
    obtain ⟨hi, rfl⟩ := (entrySpan?_eq_some_iff hf).mp hr
    obtain ⟨hsucc, rfl⟩ := (entrySpan?_eq_some_iff hf).mp hs
    rw [stop_entrySpan hf hi, start_entrySpan hf hsucc]
  start_first h := by
    obtain ⟨hi, rfl⟩ := (entrySpan?_eq_some_iff hf).mp h
    rw [start_entrySpan hf hi, Nat.mul_zero, Nat.add_zero]
    rfl
  stop_last h := by
    obtain ⟨hi, rfl⟩ := (entrySpan?_eq_some_iff hf).mp h
    rw [stop_entrySpan hf hi]
    exact front_add hf
  disjoint {i j _ _ p} hr hs hpr hps := by
    obtain ⟨hi, rfl⟩ := (entrySpan?_eq_some_iff hf).mp hr
    obtain ⟨hj, rfl⟩ := (entrySpan?_eq_some_iff hf).mp hs
    rw [Span.mem_iff] at hpr hps
    rcases Nat.lt_trichotomy i j with h | h | h
    · have hle := stop_entrySpan_le_start hf h hj
      omega
    · exact h
    · have hle := stop_entrySpan_le_start hf h hi
      omega
  cover p := by
    constructor
    · rintro ⟨i, s, hs, hp⟩
      obtain ⟨hi, rfl⟩ := (entrySpan?_eq_some_iff hf).mp hs
      rw [Span.mem_iff, start_entrySpan hf hi] at hp
      have hstop : (t.entrySpan i).stop ≤ t.nodeLength := Nat.sub_le _ _
      have hfront : t.front ≤ t.front + t.entrySize * i := Nat.le_add_right _ _
      exact ⟨Nat.le_trans hfront hp.1, Nat.lt_of_lt_of_le hp.2 hstop⟩
    · rintro ⟨hfront, hp⟩
      obtain ⟨i, hi, hmem⟩ := exists_mem_entrySpan hf hfront hp
      exact ⟨i, _, entrySpan?_eq hf hi, hmem⟩
  isSome_trailer_iff i := by
    rw [trailerSpan?, Option.isSome_map]
  trailer h := by
    obtain ⟨hi, rfl⟩ := (entrySpan?_eq_some_iff hf).mp h
    have hsize := hf.1
    have hstop := entrySize_le_entryStop hf hi
    refine ⟨?_, trailerSpan?_eq hf hi⟩
    simp only [entrySpan]
    omega

/-! ## The bytes of all entries -/

/-- The first `n` entries put together are the bytes from the front on. -/
theorem flatMap_read_entrySpan (hf : t.Fits) (b : Buffer) {n : Nat} (hn : n ≤ t.count) :
    (List.range n).flatMap (fun i => (t.entrySpan i).read b) =
      (⟨t.front, t.front + t.entrySize * n⟩ : Span).read b := by
  induction n with
  | zero => simp [Span.read]
  | succ n ih =>
    have hlast : n ≤ t.last := Nat.le_of_lt_succ hn
    have hstart := start_entrySpan hf hlast
    rw [List.range_succ, List.flatMap_append, ih (by omega), List.flatMap_singleton,
      Span.read_append_read (by simp) hstart.symm (Nat.sub_le _ _), stop_entrySpan hf hlast]

end Table

/-- A table that fits its node has the spans of its entries side by side up to the end of the node.
A table that was read from a node fits it, the entries put together are the end of the node, and the
last trailer is the one that the table was read from. -/
theorem entries_tile_the_end_of_the_node :
    (∀ t : Table, t.Fits → t.Tiles) ∧
    ∀ (b : Buffer) (t : Table), Table.ofBuffer b = .ok t →
      t.Fits ∧ t.nodeLength = b.size ∧
      (List.range (t.last + 1)).flatMap (fun i => ((t.entrySpan? i).map (·.read b)).getD []) =
        b.toList.drop (b.size - t.entrySize * (t.last + 1)) ∧
      ∃ s, t.trailerSpan? t.last = some s ∧ s.stop = b.size ∧ s.length = trailerSize ∧
        ∃ c, Trailer.endingAt? b b.size = some c ∧ c = Trailer.decode (s.read b) ∧
          t = ⟨c.index.toNat, c.entrySize, b.size⟩ := by
  refine ⟨fun t hf => hf.tiles, fun b t ht => ?_⟩
  have hf := Table.fits_of_ofBuffer ht
  have hlen := Table.nodeLength_of_ofBuffer ht
  refine ⟨hf, hlen, ?_, ?_⟩
  · have hspans : (List.range (t.last + 1)).flatMap
          (fun i => ((t.entrySpan? i).map (·.read b)).getD []) =
        (List.range t.count).flatMap fun i => (t.entrySpan i).read b := by
      refine List.flatMap_congr fun i hi => ?_
      have hi : i ≤ t.last := Nat.le_of_lt_succ (List.mem_range.mp hi)
      rw [Table.entrySpan?_eq hf hi, Option.map_some, Option.getD_some]
    rw [hspans, Table.flatMap_read_entrySpan hf b (Nat.le_refl _), Table.front_add hf, hlen,
      Span.read_to_end, Table.front, hlen]
    rfl
  · obtain ⟨c, hc, -, htable, -⟩ := Table.ofBuffer_eq_ok_iff.mp ht
    have hspan : t.entrySpan? t.last = some (t.entrySpan t.last) :=
      Table.entrySpan?_eq hf (Nat.le_refl _)
    have hstop : (t.entrySpan t.last).stop = b.size := (hf.tiles.stop_last hspan).trans hlen
    obtain ⟨hroom, htrailer⟩ := hf.tiles.trailer hspan
    rw [hstop] at hroom htrailer
    refine ⟨_, htrailer, rfl, ?_, c, hc, ?_, htable⟩
    · simp only [Span.length]
      omega
    · rw [Trailer.endingAt?, if_neg (by omega)] at hc
      exact (Option.some.inj hc).symm

/-- One free byte and two entries with a payload of eight bytes each. -/
def twoPadded : Buffer :=
  #[5,
    1, 1, 1, 1, 1, 1, 1, 1, 0, 0, 0, 0, 0, 0, 0, 0, 0, 0, 0, 0, 0, 0, 3, 0xcc,
    2, 2, 2, 2, 2, 2, 2, 2, 0, 0, 0, 0, 0, 0, 0, 0, 0, 0, 0, 0, 0, 1, 3, 0xcc]

/-- The two spans meet at position 25, and the free byte is in neither. -/
theorem twoPadded_tiled :
    (⟨1, 24, 49⟩ : Table).Fits ∧ Table.ofBuffer twoPadded = .ok ⟨1, 24, 49⟩ ∧
    (⟨1, 24, 49⟩ : Table).entrySpan? 0 = some ⟨1, 25⟩ ∧
    (⟨1, 24, 49⟩ : Table).entrySpan? 1 = some ⟨25, 49⟩ ∧
    (∀ p, p ∈ (⟨1, 25⟩ : Span) → p ∉ (⟨25, 49⟩ : Span)) ∧
    (List.range 2).flatMap
        (fun i => (((⟨1, 24, 49⟩ : Table).entrySpan? i).map (·.read twoPadded)).getD []) =
      twoPadded.toList.drop 1 := by
  have htable : Table.ofBuffer twoPadded = .ok ⟨1, 24, 49⟩ := rfl
  obtain ⟨htiles, hbytes⟩ := entries_tile_the_end_of_the_node
  obtain ⟨hf, -, happend, -⟩ := hbytes twoPadded _ htable
  have hdisjoint (p : Nat) (hr : p ∈ (⟨1, 25⟩ : Span)) : p ∉ (⟨25, 49⟩ : Span) := fun hs =>
    absurd ((htiles _ hf).disjoint (i := 0) (j := 1) rfl rfl hr hs) (by decide)
  exact ⟨hf, htable, rfl, rfl, hdisjoint, happend⟩

end IndexNode
