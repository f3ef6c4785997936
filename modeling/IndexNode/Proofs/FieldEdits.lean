import IndexNode.Draft
import IndexNode.Proofs.TableBytes
import IndexNode.Proofs.Tiling

/-!
# Edits of trailer fields

An edit overwrites one field of one trailer. It finds the field by the table of the node, and the
table is made of three fields of the last trailer, so an edit of these can move or forbid the ones
after it. All other edits leave the table alone; then fields of different trailers and different
fields of one trailer have no byte in common, and the edits do not see each other.

* `Span.write`: a number written into a span of a buffer, with the laws `Span.number_write`,
  `Span.getElem?_write`, `Span.write_comm` and `Span.write_write`.
* `Table.fieldSpan`: where a field of an entry stands. `Table.fieldSpan_disjoint`: fields share no
  byte.
* `setField?_eq`, `setField?_eq_none_iff`: an edit writes into that span, if there is such an entry.
* `Table.MadeOf`: the three fields that a table is made of. `Table.ofBuffer_write`: writing to any
  other keeps the table.
* `setField_writes_one_field`: what an edit does, and when two of them commute.
-/

namespace IndexNode

/-! ## Numbers written into a buffer -/

namespace Span

/-- The buffer with the number `v` in the span, of which the low bytes that fit are kept. -/
def write (s : Span) (b : Buffer) (v : Nat) : Buffer := (BigEndian.put b.toList s v).toArray

/-- The span has its ends in order and lies inside the buffer. -/
structure Inside (s : Span) (b : Buffer) : Prop where
  start_le : s.start ≤ s.stop
  stop_le : s.stop ≤ b.size

variable {r s : Span} {b : Buffer}

@[simp] theorem size_write (h : s.Inside b) (v : Nat) : (s.write b v).size = b.size := by
  have hlen := BigEndian.length_put b.toList s v h.start_le (by simpa using h.stop_le)
  simpa [write] using hlen

/-- No byte outside the span is changed. -/
theorem getElem?_write (h : s.Inside b) {p : Nat} (hp : p ∉ s) (v : Nat) :
    (s.write b v)[p]? = b[p]? := by
  have houtside : p < s.start ∨ s.stop ≤ p := by
    rw [mem_iff] at hp
    omega
  rw [write, List.getElem?_toArray,
    BigEndian.getElem?_put_of_outside h.start_le (by simpa using h.stop_le) houtside,
    Array.getElem?_toList]

theorem agreeOn_write (hs : s.Inside b) (h : r.stop ≤ s.start ∨ s.stop ≤ r.start) (v : Nat) :
    AgreeOn b (s.write b v) r := by
  intro p hp hle
  refine (getElem?_write hs ?_ v).symm
  rw [mem_iff]
  omega

theorem number_write_of_disjoint (hs : s.Inside b) (h : r.stop ≤ s.start ∨ s.stop ≤ r.start)
    (v : Nat) : r.number (s.write b v) = r.number b := by
  rw [number, number, (agreeOn_write hs h v).read]

/-- The span holds the low bytes of the number. -/
theorem number_write (h : s.Inside b) (v : Nat) :
    s.number (s.write b v) = v % 256 ^ s.length := by
  rw [number, read_eq_cut, write, BigEndian.cut_put h.start_le (by simpa using h.stop_le),
    BigEndian.value_encode]

theorem write_comm (hr : r.Inside b) (hs : s.Inside b) (h : r.stop ≤ s.start ∨ s.stop ≤ r.start)
    (v w : Nat) : s.write (r.write b v) w = r.write (s.write b w) v :=
  congrArg List.toArray (BigEndian.put_comm hr.start_le hs.start_le (by simpa using hr.stop_le)
    (by simpa using hs.stop_le) h v w)

theorem write_write (h : s.Inside b) (v w : Nat) : s.write (s.write b v) w = s.write b w :=
  congrArg List.toArray (BigEndian.put_put h.start_le (by simpa using h.stop_le) v w)

end Span

/-! ## Fields of trailers -/

namespace Table

variable {t : Table} {b : Buffer} {i j : Nat} {f g : Field}

/-- Where field `f` of entry `i` stands in the node. -/
def fieldSpan (t : Table) (i : Nat) (f : Field) : Span := f.span.shift (t.entryStop i - trailerSize)

/-- A field stands in its entry. -/
theorem fieldSpan_bounds (hf : t.Fits) (hi : i ≤ t.last) (f : Field) :
    (t.entrySpan i).start ≤ (t.fieldSpan i f).start ∧
    (t.fieldSpan i f).start ≤ (t.fieldSpan i f).stop ∧
    (t.fieldSpan i f).stop ≤ (t.entrySpan i).stop := by
  have hsize := hf.1
  have hstop := entrySize_le_entryStop hf hi
  have hfield := f.stop_le_trailerSize
  have horder := f.start_lt_stop
  simp only [fieldSpan, entrySpan, Span.shift]
  omega

theorem fieldSpan_inside (hf : t.Fits) (hb : t.nodeLength = b.size) (hi : i ≤ t.last) (f : Field) :
    (t.fieldSpan i f).Inside b := by
  obtain ⟨-, horder, hstop⟩ := fieldSpan_bounds hf hi f
  have hend : (t.entrySpan i).stop ≤ b.size := hb ▸ Nat.sub_le _ _
  exact ⟨horder, Nat.le_trans hstop hend⟩

/-- A field of a trailer is the number in its span. -/
theorem get_trailer_eq_number (hf : t.Fits) (hb : t.nodeLength = b.size) (hi : i ≤ t.last)
    (f : Field) : (Trailer.decode (t.trailerBytes b i)).get f = (t.fieldSpan i f).number b := by
  have hsize := hf.1
  have hstop := entrySize_le_entryStop hf hi
  have hroom : f.span.stop ≤ (⟨t.entryStop i - trailerSize, t.entryStop i⟩ : Span).length := by
    have hfield := f.stop_le_trailerSize
    simp only [Span.length]
    omega
  rw [get_trailer hf hb hi, fieldValue, trailerBytes, Span.cut_read hroom, Span.number, fieldSpan]

/-- Different fields share no byte, in one trailer and in two. -/
theorem fieldSpan_disjoint (hf : t.Fits) (hi : i ≤ t.last) (hj : j ≤ t.last)
    (h : (i, f) ≠ (j, g)) :
    (t.fieldSpan i f).stop ≤ (t.fieldSpan j g).start ∨
      (t.fieldSpan j g).stop ≤ (t.fieldSpan i f).start := by
  obtain ⟨hstart, -, hstop⟩ := fieldSpan_bounds hf hi f
  obtain ⟨hstart', -, hstop'⟩ := fieldSpan_bounds hf hj g
  -- Entries do not overlap, so only fields of one trailer need a closer look.
  rcases Nat.lt_trichotomy i j with hij | rfl | hij
  · have hentries := stop_entrySpan_le_start hf hij hj
    exact .inl (by omega)
  · have hne : g ≠ f := fun hfg => h (by rw [hfg])
    have hfields := Field.disjoint hne
    simp only [fieldSpan, Span.shift]
    omega
  · have hentries := stop_entrySpan_le_start hf hij hi
    exact .inr (by omega)

/-! ## The fields of the table -/

/-- The table is made of field `f` of entry `i`. -/
def MadeOf (t : Table) (i : Nat) (f : Field) : Prop :=
  i = t.last ∧ (f = .index ∨ f = .units ∨ f = .magic)

/-- All other fields end before the last four bytes of the node. -/
theorem stop_fieldSpan_le (hf : t.Fits) (hi : i ≤ t.last) (h : ¬ t.MadeOf i f) :
    (t.fieldSpan i f).stop ≤ t.nodeLength - 4 := by
  have hsize := hf.1
  rcases Nat.lt_or_eq_of_le hi with hlt | rfl
  · -- An earlier entry ends where the last one starts, or before.
    have hentries := stop_entrySpan_le_start hf hlt (Nat.le_refl _)
    obtain ⟨-, -, hstop⟩ := fieldSpan_bounds hf hi f
    simp only [entrySpan, entryStop, Nat.sub_self, Nat.mul_zero, trailerSize]
      at hentries hsize hstop
    omega
  · -- What is left of the last trailer is its key fields.
    have hkey : f.span.stop ≤ 12 := by
      cases f with
      | offset s | size s => cases s <;> decide
      | index | units | magic => simp [MadeOf] at h
    have hstop := entrySize_le_entryStop hf hi
    simp only [entryStop, Nat.sub_self, Nat.mul_zero, trailerSize] at hstop hsize
    simp only [fieldSpan, entryStop, Span.shift, Nat.sub_self, Nat.mul_zero, trailerSize]
    omega

theorem ofBuffer_write (ht : ofBuffer b = .ok t) (hi : i ≤ t.last) (h : ¬ t.MadeOf i f) (v : Nat) :
    ofBuffer ((t.fieldSpan i f).write b v) = .ok t := by
  have hf := fits_of_ofBuffer ht
  have hb := nodeLength_of_ofBuffer ht
  have hinside := fieldSpan_inside hf hb hi f
  have hstop := stop_fieldSpan_le hf hi h
  rw [hb] at hstop
  rw [← ht]
  exact ofBuffer_congr (Span.size_write hinside v) (Span.agreeOn_write hinside (.inr hstop) v)

end Table

/-! ## Edits -/

section Edits

variable {b : Buffer} {t : Table} {i j : Nat} {f g : Field}

theorem setField?_eq (ht : Table.ofBuffer b = .ok t) (hi : i ≤ t.last) (f : Field) (v : Nat) :
    setField? b i f v = some ((t.fieldSpan i f).write b v) := by
  rw [setField?, ht]
  simp only [Table.trailerSpan?_eq (Table.fits_of_ofBuffer ht) hi, Option.map_some]
  rfl

/-- There is nothing to edit without a table, or past its last entry. -/
theorem setField?_eq_none_iff {v : Nat} :
    setField? b i f v = none ↔
      (∃ e, Table.ofBuffer b = .error e) ∨ ∃ t, Table.ofBuffer b = .ok t ∧ t.last < i := by
  cases ht : Table.ofBuffer b with
  | error e => simp [setField?, ht]
  | ok t =>
    by_cases hi : i ≤ t.last
    · simp [setField?_eq ht hi, hi]
    · have hspan : t.entrySpan? i = none := if_pos (Nat.lt_of_not_le hi)
      simp [setField?, ht, Table.trailerSpan?, hspan, Nat.lt_of_not_le hi]

/-- The second of two edits finds its field where the first table puts it. -/
theorem bind_setField? (ht : Table.ofBuffer b = .ok t) (hi : i ≤ t.last) (hj : j ≤ t.last)
    (h : ¬ t.MadeOf i f) (v w : Nat) :
    ((setField? b i f v).bind fun c => setField? c j g w) =
      some ((t.fieldSpan j g).write ((t.fieldSpan i f).write b v) w) := by
  rw [setField?_eq ht hi, Option.bind_some, setField?_eq (Table.ofBuffer_write ht hi h v) hj]

end Edits

/-- Edits of the fields of trailers. There is none exactly if the node has no table or no such
entry. Else the node keeps its length and every byte outside the field, which lies inside the node;
the trailer, where the old table puts it, holds the low bytes of the number in this field and what it
held in the others. Unless the table is made of the field, it stays as it is. Two edits of that kind
give the same node in either order if their fields differ, and of two edits of one field the later
one stays. -/
theorem setField_writes_one_field (b : Buffer) :
    (∀ i f v, setField? b i f v = none ↔
      (∃ e, Table.ofBuffer b = .error e) ∨ ∃ t, Table.ofBuffer b = .ok t ∧ t.last < i) ∧
    ∀ t, Table.ofBuffer b = .ok t →
      (∀ i ≤ t.last, ∀ f v, ∃ b' s, setField? b i f v = some b' ∧ t.trailerSpan? i = some s ∧
        b'.size = b.size ∧ (f.span.shift s.start).stop ≤ b.size ∧
        (∀ p, p ∉ f.span.shift s.start → b'[p]? = b[p]?) ∧
        (Trailer.decode (s.read b')).get f = v % 256 ^ f.span.length ∧
        (∀ g, g ≠ f → (Trailer.decode (s.read b')).get g = (Trailer.decode (s.read b)).get g) ∧
        (¬ t.MadeOf i f → Table.ofBuffer b' = .ok t)) ∧
      ∀ i ≤ t.last, ∀ j ≤ t.last, ∀ f g, ¬ t.MadeOf i f → ¬ t.MadeOf j g → ∀ v w,
        ((i, f) ≠ (j, g) → ∃ c,
          ((setField? b i f v).bind fun c => setField? c j g w) = some c ∧
          ((setField? b j g w).bind fun c => setField? c i f v) = some c) ∧
        ((i, f) = (j, g) →
          ((setField? b i f v).bind fun c => setField? c j g w) = setField? b j g w) := by
  refine ⟨fun i f v => setField?_eq_none_iff, ?_⟩
  intro t ht
  have hf := Table.fits_of_ofBuffer ht
  have hb := Table.nodeLength_of_ofBuffer ht
  refine ⟨?_, ?_⟩
  · intro i hi f v
    have hinside := Table.fieldSpan_inside hf hb hi f
    have hsize := Span.size_write hinside v
    have hold := Table.get_trailer_eq_number hf hb hi
    have hnew := Table.get_trailer_eq_number hf (hb.trans hsize.symm) hi
    refine ⟨_, _, setField?_eq ht hi f v, Table.trailerSpan?_eq hf hi, hsize, hinside.stop_le,
      fun p hp => Span.getElem?_write hinside hp v, ?_, ?_, fun h => Table.ofBuffer_write ht hi h v⟩
    · refine (hnew f).trans ?_
      rw [Span.number_write hinside, Table.fieldSpan, Span.length_shift]
    · intro g hg
      have hpair : (i, g) ≠ (i, f) := fun h => hg (Prod.mk.inj h).2
      refine (hnew g).trans (Eq.trans ?_ (hold g).symm)
      exact Span.number_write_of_disjoint hinside (Table.fieldSpan_disjoint hf hi hi hpair) v
  · intro i hi j hj f g hif hjg v w
    have hinside := Table.fieldSpan_inside hf hb hi f
    constructor
    · intro hne
      refine ⟨_, bind_setField? ht hi hj hif v w, ?_⟩
      rw [bind_setField? ht hj hi hjg w v, Span.write_comm hinside
        (Table.fieldSpan_inside hf hb hj g) (Table.fieldSpan_disjoint hf hi hj hne)]
    · intro heq
      obtain ⟨rfl, rfl⟩ := Prod.mk.inj heq
      rw [bind_setField? ht hi hj hif v w, setField?_eq ht hi, Span.write_write hinside]

/-- Two entries without payload and key. -/
def twoBlank : Buffer :=
  #[0, 0, 0, 0, 0, 0, 0, 0, 0, 0, 0, 0, 0, 0, 2, 0xcc,
    0, 0, 0, 0, 0, 0, 0, 0, 0, 0, 0, 0, 0, 1, 2, 0xcc]

/-- The magic of the first entry is no part of the table, so it can be lost before or after an edit
of the other entry. A size of 65537 keeps its low bytes only. -/
theorem edits_of_twoBlank :
    Table.ofBuffer twoBlank = .ok ⟨1, 16, 32⟩ ∧
    ¬ (⟨1, 16, 32⟩ : Table).MadeOf 0 .magic ∧
    ¬ (⟨1, 16, 32⟩ : Table).MadeOf 1 (.size .first) ∧
    (∃ c, setField? twoBlank 1 (.size .first) 65537 = some c ∧
      (Trailer.decode ((⟨16, 32⟩ : Span).read c)).get (.size .first) = 1 ∧
      Table.ofBuffer c = .ok ⟨1, 16, 32⟩) ∧
    (∃ c,
      ((setField? twoBlank 0 .magic 0).bind fun c => setField? c 1 (.size .first) 65537) = some c ∧
      ((setField? twoBlank 1 (.size .first) 65537).bind fun c => setField? c 0 .magic 0) = some c) ∧
    setField? twoBlank 2 .magic 0 = none := by
  have htable : Table.ofBuffer twoBlank = .ok ⟨1, 16, 32⟩ := rfl
  have hmagic : ¬ (⟨1, 16, 32⟩ : Table).MadeOf 0 .magic := by simp [Table.MadeOf]
  have hkey : ¬ (⟨1, 16, 32⟩ : Table).MadeOf 1 (.size .first) := by simp [Table.MadeOf]
  obtain ⟨hnone, hedit⟩ := setField_writes_one_field twoBlank
  obtain ⟨hone, htwo⟩ := hedit _ htable
  obtain ⟨c, s, hc, hs, -, -, -, hget, -, hkeep⟩ := hone 1 (by decide) (.size .first) 65537
  obtain rfl : (⟨16, 32⟩ : Span) = s := Option.some.inj hs
  obtain ⟨hcomm, -⟩ := htwo 0 (by decide) 1 (by decide) .magic (.size .first) hmagic hkey 0 65537
  exact ⟨htable, hmagic, hkey, ⟨c, hc, hget, hkeep hkey⟩, hcomm (by decide),
    (hnone 2 .magic 0).mpr (.inr ⟨_, htable, by decide⟩)⟩

/-- Edits of the table itself do not commute with others: here the second one finds no table. -/
example :
    ((setField? twoBlank 0 .magic 0).bind fun c => setField? c 1 .units 1).isSome = true ∧
    ((setField? twoBlank 1 .units 1).bind fun c => setField? c 0 .magic 0) = none := by
  decide

end IndexNode
