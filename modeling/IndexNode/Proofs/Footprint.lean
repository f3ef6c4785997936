import IndexNode.Proofs.KeyBytes
import IndexNode.Proofs.Transfer

/-!
# What a lookup reads

A lookup of an entry depends on little of its node: the length, the last four bytes, the trailer of
the entry and either its key segments or its payload. Two nodes that agree there cannot be told
apart by it, whatever the rest of them is.

* `AgreeOn b b' s`: both buffers hold the same bytes in the span `s`, as far as it lies inside.
* `Table.ofBuffer_congr`: the table is fixed by the length and the last four bytes.
* `Trailer.splitKey_congr`, `Trailer.compareKey_congr`: the key of a trailer is fixed by the bytes
  of its segments.
* `Lookup.SameOn`: a lookup has the same answer and leaves the same mark on both nodes.
* `lookup_sees_one_entry`: what each of the lookups depends on.
-/

namespace IndexNode

/-! ## Buffers that agree on a span -/

/-- The buffers hold the same bytes at the positions of `s`. A position is past the end of both or
of none. -/
def AgreeOn (b b' : Buffer) (s : Span) : Prop := ∀ p < s.stop, s.start ≤ p → b[p]? = b'[p]?

instance (b b' : Buffer) (s : Span) : Decidable (AgreeOn b b' s) :=
  inferInstanceAs (Decidable (∀ p < s.stop, s.start ≤ p → b[p]? = b'[p]?))

namespace AgreeOn

variable {b b' : Buffer} {r s : Span}

theorem mono (h : AgreeOn b b' s) (hstart : s.start ≤ r.start) (hstop : r.stop ≤ s.stop) :
    AgreeOn b b' r := by
  intro p hp hle
  exact h p (Nat.lt_of_lt_of_le hp hstop) (Nat.le_trans hstart hle)

theorem read (h : AgreeOn b b' s) : s.read b' = s.read b := by
  rw [Span.read_eq_cut, Span.read_eq_cut]
  refine List.ext_getElem? fun k => ?_
  simp only [Span.cut, List.getElem?_take, List.getElem?_drop, Array.getElem?_toList]
  split
  · rename_i hk
    rw [Span.length] at hk
    exact (h (s.start + k) (by omega) (by omega)).symm
  · rfl

end AgreeOn

/-- A span of what was read is read from further on. -/
theorem Span.cut_read {r s : Span} (h : r.stop ≤ s.length) (b : Buffer) :
    r.cut (s.read b) = (r.shift s.start).read b := by
  have hlen : (r.shift s.start).length = r.length := by
    simp only [length, shift]
    omega
  rw [read_eq_cut, read_eq_cut, cut, cut, cut, hlen, List.drop_take, List.drop_drop, List.take_take,
    shift, Nat.add_comm r.start, Nat.min_eq_left]
  rw [length]
  omega

/-! ## The table -/

/-- Three fields of the last trailer are all that a table is made of, besides the length. -/
theorem Table.ofBuffer_eq_of_fields {b b' : Buffer} {c c' : Trailer} (hsize : b'.size = b.size)
    (hc : Trailer.endingAt? b b.size = some c) (hc' : Trailer.endingAt? b' b'.size = some c')
    (hindex : c'.index = c.index) (hunits : c'.units = c.units) (hmagic : c'.magic = c.magic) :
    ofBuffer b' = ofBuffer b := by
  obtain ⟨first, second, index, units, magic⟩ := c
  obtain ⟨first', second', index', units', magic'⟩ := c'
  simp only at hindex hunits hmagic
  subst hindex hunits hmagic
  rw [ofBuffer, ofBuffer, hc, hc', hsize]
  rfl

section Table

variable {b b' : Buffer} (hsize : b'.size = b.size) (h : AgreeOn b b' ⟨b.size - 4, b.size⟩)
include hsize h

/-- The fields in the last four bytes of the node are stored alike. -/
private theorem cut_closing_congr (hlong : trailerSize ≤ b.size) {f : Field}
    (hf : 12 ≤ f.span.start) :
    f.span.cut ((⟨b'.size - trailerSize, b'.size⟩ : Span).read b') =
      f.span.cut ((⟨b.size - trailerSize, b.size⟩ : Span).read b) := by
  have hstop := f.stop_le_trailerSize
  have hroom : f.span.stop ≤ (⟨b.size - trailerSize, b.size⟩ : Span).length := by
    simp only [Span.length]
    omega
  simp only [trailerSize] at hlong hstop
  rw [hsize, Span.cut_read hroom, Span.cut_read hroom]
  apply AgreeOn.read
  refine h.mono ?_ ?_
  · simp only [Span.shift, trailerSize]
    omega
  · simp only [Span.shift, trailerSize]
    omega

/-- Only the length and the last four bytes of a node have a say in its table. -/
theorem Table.ofBuffer_congr : ofBuffer b' = ofBuffer b := by
  by_cases hshort : b.size < trailerSize
  · have hnone : Trailer.endingAt? b b.size = none := if_pos hshort
    have hnone' : Trailer.endingAt? b' b'.size = none := if_pos (hsize ▸ hshort)
    rw [ofBuffer, ofBuffer, hnone, hnone']
  · have hcut (f : Field) (hf : 12 ≤ f.span.start) :=
      cut_closing_congr hsize h (Nat.le_of_not_lt hshort) hf
    refine ofBuffer_eq_of_fields hsize (if_neg hshort) (if_neg (hsize ▸ hshort)) ?_ ?_ ?_
    · simp only [Trailer.decode, hcut .index (by decide)]
    · simp only [Trailer.decode, hcut .units (by decide)]
    · simp only [Trailer.decode, hcut .magic (by decide)]

theorem entryCount_congr : entryCount b' = entryCount b := by
  rw [entryCount, entryCount, Table.ofBuffer_congr hsize h]

end Table

/-! ## Keys of a trailer -/

namespace Trailer

variable {t : Trailer} {b b' : Buffer}

theorem segment_congr (hsize : b'.size = b.size) {s : Segment}
    (h : AgreeOn b b' (t.extent s).span) : t.segment b' s = t.segment b s := by
  simp only [segment, hsize, h.read]

theorem splitKey_congr (h : ∀ s, t.segment b' s = t.segment b s) :
    t.splitKey b' = t.splitKey b := by
  simp only [splitKey, h]

theorem compareKey_congr (h : ∀ s, t.segment b' s = t.segment b s) (key : Bytes) :
    t.compareKey b' key = t.compareKey b key := by
  simp only [compareKey, h]

end Trailer

/-! ## Lookups -/

/-- The lookup has the same answer on unmarked nodes over both buffers, and leaves the same mark. -/
def Lookup.SameOn (l : Lookup) (b b' : Buffer) : Prop :=
  ((Node.ofBuffer b').answer l).1 = ((Node.ofBuffer b).answer l).1 ∧
  ((Node.ofBuffer b').answer l).2.mark = ((Node.ofBuffer b).answer l).2.mark

namespace Lookup

variable {l : Lookup} {b b' : Buffer}

/-- The mark that is left is the defect in the answer. -/
theorem SameOn.of_fresh (h : l.fresh b' = l.fresh b) : l.SameOn b b' := by
  have hmark (c : Buffer) : ((Node.ofBuffer c).answer l).2.mark = (l.fresh c).defect? := by
    rw [Node.answer_of_unmarked rfl]
    rfl
  refine ⟨h, ?_⟩
  rw [hmark, hmark, h]

theorem SameOn.of_not_hasEntry (hcount : entryCount b' = entryCount b)
    (h : ¬ HasEntry b l.index) : l.SameOn b b' := by
  have h' : ¬ HasEntry b' l.index := mt (hasEntry_congr hcount _).mp h
  apply of_fresh
  rw [fresh_of_not_hasEntry h, fresh_of_not_hasEntry h']

/-- Entries with one trailer that a lookup reads alike are answered alike. -/
theorem SameOn.of_read {t t' : Table} {n : Nat} (h : SameTrailer b b' t t' n) (hl : l.index = n)
    (hread : l.reading.read b' (t'.entry b' n) = l.reading.read b (t.entry b n)) :
    l.SameOn b b' := by
  apply of_fresh
  rw [fresh_eq, fresh_eq, hl, Entry.query_transfer h hread]

end Lookup

/-- Two nodes of one length that agree on their last four bytes have the same table or none, and
lookups past its ends are the same on both. A lookup of an entry whose trailer they agree on is
the same if it asks for the trailer; if it asks for the key, or compares with it, and they agree on
both key segments; and if it asks for the payload and they agree on that. Nothing else in the nodes
can be seen by it. -/
theorem lookup_sees_one_entry (b b' : Buffer) (hsize : b'.size = b.size)
    (hend : AgreeOn b b' ⟨b.size - 4, b.size⟩) :
    Table.ofBuffer b' = Table.ofBuffer b ∧
    (∀ l : Lookup, ¬ HasEntry b l.index → l.SameOn b b') ∧
    ∀ (t : Table) (i : Nat), Table.ofBuffer b = .ok t → i ≤ t.last →
      AgreeOn b b' ((t.entrySpan i).takeEnd trailerSize) →
      (Lookup.trailer i).SameOn b b' ∧
      ((∀ s, AgreeOn b b' (t.segmentSpan b i s)) →
        (Lookup.key i).SameOn b b' ∧ ∀ key, (Lookup.compare key i).SameOn b b') ∧
      (AgreeOn b b' ((t.entrySpan i).dropEnd trailerSize) → (Lookup.payload i).SameOn b b') := by
  have htable := Table.ofBuffer_congr hsize hend
  refine ⟨htable, fun l => Lookup.SameOn.of_not_hasEntry (entryCount_congr hsize hend), ?_⟩
  intro t i ht hi htrailer
  have hsame : SameTrailer b b' t t i :=
    { table := ht
      table' := htable.trans ht
      le := hi
      le' := hi
      bytes := htrailer.read }
  have hentry : (t.entry b' i).trailer = (t.entry b i).trailer := hsame.trailer_entry
  refine ⟨.of_read hsame rfl (congrArg Except.ok hentry), ?_, ?_⟩
  · intro hsegments
    have hsegment (s : Segment) :
        (t.entry b i).trailer.segment b' s = (t.entry b i).trailer.segment b s := by
      apply Trailer.segment_congr hsize
      rw [Table.entry, Table.span_extent_trailer (Table.fits_of_ofBuffer ht)
        (Table.nodeLength_of_ofBuffer ht) hi]
      exact hsegments s
    constructor
    · apply Lookup.SameOn.of_read hsame rfl
      show ((t.entry b' i).trailer.splitKey b').map SplitKey.joined = _
      rw [hentry, Trailer.splitKey_congr hsegment]
      rfl
    · intro key
      apply Lookup.SameOn.of_read hsame rfl
      show (t.entry b' i).trailer.compareKey b' key = _
      rw [hentry, Trailer.compareKey_congr hsegment]
      rfl
  · intro hpayload
    exact .of_read hsame rfl (congrArg Except.ok hpayload.read)

/-- The keys `a` and `b`, each with a payload of eight bytes. -/
def twoPayloads : Buffer :=
  #[97, 98,
    1, 1, 1, 1, 1, 1, 1, 1, 0, 0, 0, 0, 0, 1, 0, 0, 0, 0, 0, 0, 0, 0, 3, 0xcc,
    2, 2, 2, 2, 2, 2, 2, 2, 0, 0, 0, 1, 0, 1, 0, 0, 0, 0, 0, 0, 0, 1, 3, 0xcc]

/-- The same with the first key, payload and trailer overwritten. -/
def firstLost : Buffer :=
  #[0, 98,
    9, 9, 9, 9, 9, 9, 9, 9, 9, 9, 9, 9, 9, 9, 9, 9, 9, 9, 9, 9, 9, 9, 9, 9,
    2, 2, 2, 2, 2, 2, 2, 2, 0, 0, 0, 1, 0, 1, 0, 0, 0, 0, 0, 0, 0, 1, 3, 0xcc]

/-- The second entry is read as before. -/
theorem second_entry_of_firstLost :
    firstLost.size = twoPayloads.size ∧ AgreeOn twoPayloads firstLost ⟨46, 50⟩ ∧
    Table.ofBuffer twoPayloads = .ok ⟨1, 24, 50⟩ ∧
    AgreeOn twoPayloads firstLost ⟨34, 50⟩ ∧ AgreeOn twoPayloads firstLost ⟨26, 34⟩ ∧
    (∀ s, AgreeOn twoPayloads firstLost
      ((⟨1, 24, 50⟩ : Table).segmentSpan twoPayloads 1 s)) ∧
    ((Node.ofBuffer firstLost).answer (.key 1)).1 = .key (.ok [98]) ∧
    (Lookup.compare [97] 1).SameOn twoPayloads firstLost ∧
    (Lookup.payload 1).SameOn twoPayloads firstLost ∧
    (Lookup.trailer 2).SameOn twoPayloads firstLost := by
  have hend : AgreeOn twoPayloads firstLost ⟨46, 50⟩ := by decide
  have htrailer : AgreeOn twoPayloads firstLost ⟨34, 50⟩ := by decide
  have hpayload : AgreeOn twoPayloads firstLost ⟨26, 34⟩ := by decide
  have hsegments : ∀ s, AgreeOn twoPayloads firstLost
      ((⟨1, 24, 50⟩ : Table).segmentSpan twoPayloads 1 s) := fun
    | .first => by decide
    | .second => by decide
  obtain ⟨-, hpast, hentry⟩ := lookup_sees_one_entry twoPayloads firstLost rfl hend
  obtain ⟨-, hkey, hsame⟩ := hentry ⟨1, 24, 50⟩ 1 rfl (by decide) htrailer
  obtain ⟨hkey, hcompare⟩ := hkey hsegments
  exact ⟨rfl, hend, rfl, htrailer, hpayload, hsegments, hkey.1.trans rfl, hcompare _,
    hsame hpayload, hpast _ (by decide)⟩

end IndexNode
