import IndexNode.Proofs.Transfer

/-!
# Appending entries

A writer appends entries by putting a block behind the node whose last trailer counts on. All
positions are counted back from the end, which moves, by a count that is read from another trailer
than before; the two changes cancel for every older entry.

* `Continues t m g`: what a block `g` of `m` entries needs to be put behind a node with table `t`.
* `Continues.ofBuffer_append`: the table afterwards, `Table.extend`.
* `Table.entryStop_extend`: older entries end where they ended.
* `appended_entries_keep_older_ones`: what that means for lookups.
-/

namespace IndexNode

/-! ## The table -/

/-- The table with `m` more entries in a node that has grown by as many. -/
def Table.extend (t : Table) (m : Nat) : Table :=
  ⟨t.last + m, t.entrySize, t.nodeLength + m * t.entrySize⟩

/-- The number stored in a field of the trailer at the end of a buffer. -/
def closingValue (g : Buffer) (f : Field) : Nat :=
  BigEndian.value (f.span.cut ((⟨g.size - trailerSize, g.size⟩ : Span).read g))

/-- A block of `m` entries that continues a node with table `t`. Only its length and three fields of
its last trailer are asked for. -/
structure Continues (t : Table) (m : Nat) (g : Buffer) : Prop where
  pos : 1 ≤ m
  last_le : t.last + m ≤ 65535
  size_eq : g.size = m * t.entrySize
  magic : closingValue g .magic = entryMagic.toNat
  units : closingValue g .units = t.entrySize / sizeUnit
  index : closingValue g .index = t.last + m

namespace Table

variable {t : Table} {m : Nat}

theorem Fits.extend (h : t.Fits) (m : Nat) : (t.extend m).Fits := by
  refine ⟨h.1, ?_⟩
  have hcount : t.entrySize * (t.extend m).count = t.entrySize * t.count + m * t.entrySize := by
    rw [Nat.mul_comm m, ← Nat.mul_add]
    congr 1
    simp only [count, Table.extend]
    omega
  show t.entrySize * (t.extend m).count ≤ t.nodeLength + m * t.entrySize
  rw [hcount]
  exact Nat.add_le_add_right h.2 _

/-- The end of the node moves by as much as there are more entries behind entry `i`. -/
theorem entryStop_extend {i : Nat} (hi : i ≤ t.last) :
    (t.extend m).entryStop i = t.entryStop i := by
  have hback : t.entrySize * (t.last + m - i) = t.entrySize * (t.last - i) + m * t.entrySize := by
    rw [Nat.mul_comm m, ← Nat.mul_add]
    congr 1
    omega
  simp only [entryStop, Table.extend, hback]
  omega

theorem entrySpan_extend {i : Nat} (hi : i ≤ t.last) :
    (t.extend m).entrySpan i = t.entrySpan i := by
  rw [entrySpan, entrySpan, entryStop_extend hi]
  rfl

/-- The new entries follow each other from the old end of the node on. -/
theorem entrySpan_extend_new {j : Nat} (h1 : 1 ≤ j) (hj : j ≤ m) :
    (t.extend m).entrySpan (t.last + j) =
      ⟨t.nodeLength + (j - 1) * t.entrySize, t.nodeLength + j * t.entrySize⟩ := by
  have hstop : (t.extend m).entryStop (t.last + j) = t.nodeLength + j * t.entrySize := by
    have hm : m * t.entrySize = j * t.entrySize + t.entrySize * (m - j) := by
      rw [Nat.mul_comm t.entrySize, ← Nat.add_mul]
      congr 1
      omega
    have hback : t.last + m - (t.last + j) = m - j := by omega
    simp only [entryStop, Table.extend, hback, hm]
    omega
  have hj : j * t.entrySize = (j - 1) * t.entrySize + t.entrySize := by
    rw [← Nat.succ_mul]
    congr 1
    omega
  rw [entrySpan, hstop, hj]
  simp only [Table.extend, Span.mk.injEq, and_true]
  omega

end Table

namespace Continues

variable {b g : Buffer} {t : Table} {m : Nat}

theorem trailerSize_le (h : Continues t m g) (hf : t.Fits) : trailerSize ≤ g.size := by
  rw [h.size_eq]
  exact Nat.le_trans hf.1 (Nat.le_mul_of_pos_left _ h.pos)

/-- The node that has grown ends with the last trailer of the block. -/
theorem endingAt?_append (h : Continues t m g) (hf : t.Fits) :
    ∃ c, Trailer.endingAt? (b ++ g) (b ++ g).size = some c ∧ ∀ f, c.get f = closingValue g f := by
  have hsize := h.trailerSize_le hf
  have hspan : (⟨(b ++ g).size - trailerSize - b.size, (b ++ g).size - b.size⟩ : Span) =
      ⟨g.size - trailerSize, g.size⟩ := by
    simp only [Array.size_append, Span.mk.injEq]
    omega
  have hlong : ¬ (b ++ g).size < trailerSize := by
    rw [Array.size_append]
    omega
  have hstart : b.size ≤ (b ++ g).size - trailerSize := by
    rw [Array.size_append]
    omega
  refine ⟨_, if_neg hlong, ?_⟩
  intro f
  rw [Span.read_append_right _ _ _ hstart, hspan]
  apply Trailer.get_decode
  rw [Span.length_read _ _ (Nat.le_refl _), Span.length]
  simp only
  omega

theorem ofBuffer_append (h : Continues t m g) (ht : Table.ofBuffer b = .ok t) :
    Table.ofBuffer (b ++ g) = .ok (t.extend m) := by
  have hf := Table.fits_of_ofBuffer ht
  obtain ⟨c, hc, hfield⟩ := h.endingAt?_append (b := b) hf
  obtain ⟨old, -, -, hold, -⟩ := Table.ofBuffer_eq_ok_iff.mp ht
  refine Table.ofBuffer_eq_ok_iff.mpr ⟨c, hc, ?_, ?_, hf.extend m⟩
  · have hmagic : c.magic.toNat = entryMagic.toNat := (hfield .magic).trans h.magic
    rw [Trailer.hasMagic, beq_iff_eq]
    exact UInt8.toNat_inj.mp hmagic
  · have hindex : c.index.toNat = t.last + m := (hfield .index).trans h.index
    have hunits : c.units.toNat = t.entrySize / sizeUnit := (hfield .units).trans h.units
    -- The old entry size is a multiple of the unit too, so the division loses nothing.
    have hold : t.entrySize = old.units.toNat * sizeUnit := congrArg Table.entrySize hold
    have hsize : c.entrySize = t.entrySize := by
      rw [Trailer.entrySize, hunits, hold, Nat.mul_div_cancel _ (by decide)]
    rw [Table.extend, hindex, hsize, Array.size_append, h.size_eq, Table.nodeLength_of_ofBuffer ht]

/-! ## Older entries -/

theorem sameTrailer (h : Continues t m g) (ht : Table.ofBuffer b = .ok t) {i : Nat}
    (hi : i ≤ t.last) : SameTrailer b (b ++ g) t (t.extend m) i where
  table := ht
  table' := h.ofBuffer_append ht
  le := hi
  le' := Nat.le_trans hi (Nat.le_add_right _ _)
  bytes := by
    have hstop : t.entryStop i ≤ b.size :=
      Table.nodeLength_of_ofBuffer ht ▸ Nat.sub_le _ _
    rw [Table.trailerBytes, Table.entryStop_extend hi, Span.read_append_left _ _ _ hstop]
    rfl

end Continues

/-- What stands inside a node still stands there after something has been put behind it. -/
theorem Trailer.keeps_append (t : Trailer) (b g : Buffer) : t.Keeps b (b ++ g) := by
  intro s bytes h
  rw [segment_eq_ok_iff] at h ⊢
  obtain ⟨hstop, hread⟩ := h
  constructor
  · rw [Array.size_append]
    exact Nat.le_trans hstop (Nat.le_add_right _ _)
  · rw [Span.read_append_left _ _ _ hstop, hread]

theorem Table.payload_entry_extend {b g : Buffer} {t : Table} {m i : Nat}
    (hb : t.nodeLength = b.size) (hi : i ≤ t.last) :
    ((t.extend m).entry (b ++ g) i).payload (b ++ g) = (t.entry b i).payload b := by
  have hstop : t.entryStop i - trailerSize ≤ b.size :=
    Nat.le_trans (Nat.sub_le _ _) (hb ▸ Nat.sub_le _ _)
  rw [Entry.payload, Entry.payload, entry, entry, entrySpan_extend hi]
  exact Span.read_append_left _ _ _ hstop

/-- A block `g` of `m` entries behind the node `b`. The table counts the new entries and finds them
behind the old end of the node, one after the other. Every older entry keeps its place, its trailer
and its payload, or is refused for the same reason as before; a key that could be read and compared
still can, with the same result. -/
theorem appended_entries_keep_older_ones (b g : Buffer) (t : Table) (m : Nat)
    (ht : Table.ofBuffer b = .ok t) (hg : Continues t m g) :
    Table.ofBuffer (b ++ g) = .ok ⟨t.last + m, t.entrySize, t.nodeLength + m * t.entrySize⟩ ∧
    (∀ i : Nat, i ≤ t.last →
      (t.extend m).entrySpan? i = t.entrySpan? i ∧
      ((Node.ofBuffer (b ++ g)).trailerAt i).1 = ((Node.ofBuffer b).trailerAt i).1 ∧
      ((Node.ofBuffer (b ++ g)).payloadAt i).1 = ((Node.ofBuffer b).payloadAt i).1 ∧
      (∀ k, ((Node.ofBuffer b).keyAt i).1 = .ok k → ((Node.ofBuffer (b ++ g)).keyAt i).1 = .ok k) ∧
      ∀ key o, ((Node.ofBuffer b).compareAt key i).1 = .ordered o →
        ((Node.ofBuffer (b ++ g)).compareAt key i).1 = .ordered o) ∧
    ∀ j, 1 ≤ j → j ≤ m → (t.extend m).entrySpan? (t.last + j) =
      some ⟨t.nodeLength + (j - 1) * t.entrySize, t.nodeLength + j * t.entrySize⟩ := by
  have hf := Table.fits_of_ofBuffer ht
  refine ⟨hg.ofBuffer_append ht, ?_, ?_⟩
  · intro i hi
    have hsame := hg.sameTrailer ht hi
    have hkeeps := (t.entry b i).trailer.keeps_append b g
    refine ⟨?_, Node.trailerAt_transfer hsame, ?_, ?_, ?_⟩
    · rw [Table.entrySpan?_eq (hf.extend m) hsame.le', Table.entrySpan?_eq hf hi,
        Table.entrySpan_extend hi]
    · apply Node.payloadAt_transfer hsame
      exact Table.payload_entry_extend (Table.nodeLength_of_ofBuffer ht) hi
    · intro k hk
      exact Node.keyAt_transfer hsame hkeeps hk
    · intro key o ho
      exact Node.compareAt_transfer hsame hkeeps ho
  · intro j h1 hj
    have hlast : t.last + j ≤ (t.extend m).last := Nat.add_le_add_left hj _
    rw [Table.entrySpan?_eq (hf.extend m) hlast, Table.entrySpan_extend_new h1 hj]

/-- A node with the single key `cat`. -/
def oneEntry : Buffer := #[99, 97, 116, 0, 0, 0, 0, 0, 3, 0, 0, 0, 0, 0, 0, 0, 0, 2, 0xcc]

/-- A blank entry, which has no magic, and one with the key `at`. -/
def twoMoreEntries : Buffer :=
  #[0, 0, 0, 0, 0, 0, 0, 0, 0, 0, 0, 0, 0, 0, 0, 0,
    0, 0, 0, 1, 0, 2, 0, 0, 0, 0, 0, 0, 0, 2, 2, 0xcc]

/-- The blank entry among the new ones does not show in the older one. -/
theorem append_twoMoreEntries :
    Table.ofBuffer oneEntry = .ok ⟨0, 16, 19⟩ ∧ Continues ⟨0, 16, 19⟩ 2 twoMoreEntries ∧
    Table.ofBuffer (oneEntry ++ twoMoreEntries) = .ok ⟨2, 16, 51⟩ ∧
    ((Node.ofBuffer (oneEntry ++ twoMoreEntries)).keyAt 0).1 = .ok [99, 97, 116] ∧
    (Table.extend ⟨0, 16, 19⟩ 2).entrySpan? 1 = some ⟨19, 35⟩ := by
  have htable : Table.ofBuffer oneEntry = .ok ⟨0, 16, 19⟩ := rfl
  have hcontinues : Continues ⟨0, 16, 19⟩ 2 twoMoreEntries :=
    { pos := by decide
      last_le := by decide
      size_eq := rfl
      magic := rfl
      units := rfl
      index := rfl }
  obtain ⟨hnew, hold, hspan⟩ := appended_entries_keep_older_ones _ _ _ _ htable hcontinues
  obtain ⟨-, -, -, hkey, -⟩ := hold 0 (by decide)
  exact ⟨htable, hcontinues, hnew, hkey _ rfl, hspan 1 (by decide) (by decide)⟩

end IndexNode
