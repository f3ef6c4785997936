import IndexNode.Layout

/-!
# Finding entries by their bytes

What the steps that find an entry give, said over the layout and not over the steps.

* `Trailer.get_decode`: each field of a decoded trailer is the exact number that its bytes stand
  for; `Table.get_trailer` and `Table.span_extent_trailer` say it of the trailer of entry `i`.
* `HasEntry b i`: the buffer has an entry `i`. Then `Slot.find` gives its slot
  (`Slot.find_of_le`), else the bound that `i` lies past (`Slot.find_of_not_hasEntry`).
* `Entry.find_eq`: an entry is found exactly if its trailer has the magic and its index;
  `Entry.eq_of_find` and `Entry.defect_of_find` read it backwards.
-/

namespace IndexNode

/-! ## Fields of a trailer -/

/-- A decoded field is the number that its bytes stand for: no cast drops a bit. -/
theorem Trailer.get_decode {block : Bytes} (h : block.length = trailerSize) (f : Field) :
    (Trailer.decode block).get f = BigEndian.value (f.span.cut block) := by
  have hlen := f.length_cut h
  cases f with
  | offset s => cases s <;> exact BigEndian.toNat_decode32 (Nat.le_of_eq hlen)
  | size s => cases s <;> exact BigEndian.toNat_toUInt16_decode32 (Nat.le_of_eq hlen)
  | index => exact BigEndian.toNat_toUInt16_decode32 (Nat.le_of_eq hlen)
  | units | magic => exact BigEndian.toNat_toUInt8_decode32 (Nat.le_of_eq hlen)

namespace Table

variable {t : Table} {b : Buffer} {i : Nat}

/-- The decoded trailer of entry `i` holds the numbers stored in the bytes. -/
theorem get_trailer (hf : t.Fits) (hb : t.nodeLength = b.size) (hi : i ≤ t.last) (f : Field) :
    (Trailer.decode (t.trailerBytes b i)).get f = t.fieldValue b i f :=
  Trailer.get_decode (length_trailerBytes hf hb hi) f

/-- The decoded trailer of entry `i` says where its key segments stand. -/
theorem span_extent_trailer (hf : t.Fits) (hb : t.nodeLength = b.size) (hi : i ≤ t.last)
    (s : Segment) :
    ((Trailer.decode (t.trailerBytes b i)).extent s).span = t.segmentSpan b i s := by
  have ho := get_trailer hf hb hi (.offset s)
  have hs := get_trailer hf hb hi (.size s)
  simp only [Trailer.get] at ho hs
  rw [Extent.span, segmentSpan, ho, hs]

end Table

/-! ## Finding entries -/

theorem entryCount_of_table {b : Buffer} {t : Table} (h : Table.ofBuffer b = .ok t) :
    entryCount b = t.count := by rw [entryCount, h]

theorem entryCount_of_error {b : Buffer} {e : TableError} (h : Table.ofBuffer b = .error e) :
    entryCount b = 0 := by rw [entryCount, h]

/-- The buffer has an entry `i`. -/
def HasEntry (b : Buffer) (i : Int) : Prop := 0 ≤ i ∧ i < entryCount b

instance (b : Buffer) (i : Int) : Decidable (HasEntry b i) := inferInstanceAs (Decidable (_ ∧ _))

theorem hasEntry_congr {b b' : Buffer} (h : entryCount b' = entryCount b) (i : Int) :
    HasEntry b' i ↔ HasEntry b i := by rw [HasEntry, HasEntry, h]

/-- The bound that an index without an entry lies past. -/
def Bound.past (i : Int) : Bound := if i < 0 then .low else .high

theorem hasEntry_iff {b : Buffer} {i : Int} :
    HasEntry b i ↔ ∃ t n, Table.ofBuffer b = .ok t ∧ i = Int.ofNat n ∧ n ≤ t.last := by
  unfold HasEntry
  constructor
  · rintro ⟨h0, hlt⟩
    obtain ⟨n, rfl⟩ := Int.eq_ofNat_of_zero_le h0
    cases ht : Table.ofBuffer b with
    | error e =>
      rw [entryCount_of_error ht] at hlt
      omega
    | ok t =>
      rw [entryCount_of_table ht, Table.count] at hlt
      exact ⟨t, n, rfl, rfl, by omega⟩
  · rintro ⟨t, n, ht, rfl, hn⟩
    rw [entryCount_of_table ht, Table.count, Int.ofNat_eq_natCast]
    omega

namespace Slot

variable {b : Buffer}

theorem find_of_le {t : Table} (ht : Table.ofBuffer b = .ok t) {n : Nat} (hn : n ≤ t.last) :
    find b n = .ok ⟨n, t.entrySpan n⟩ := by
  show find b (.ofNat n) = _
  rw [find, ht]
  simp only
  rw [Table.entrySpan?_eq (Table.fits_of_ofBuffer ht) hn]

theorem find_of_not_hasEntry {i : Int} (h : ¬ HasEntry b i) : find b i = .error (.past i) := by
  rw [hasEntry_iff] at h
  cases i with
  | negSucc i => rw [find, Bound.past, if_pos (Int.negSucc_lt_zero i)]
  | ofNat n =>
    have hp : Bound.past (.ofNat n) = .high := if_neg (by simp)
    rw [find, hp]
    cases ht : Table.ofBuffer b with
    | error e => rfl
    | ok t =>
      have hn : t.last < n := Nat.lt_of_not_le fun hn => h ⟨t, n, ht, rfl, hn⟩
      simp only
      rw [Table.entrySpan?, if_pos hn]

theorem exists_find_of_hasEntry {i : Int} (h : HasEntry b i) : ∃ s, find b i = .ok s := by
  obtain ⟨t, n, ht, rfl, hn⟩ := hasEntry_iff.mp h
  exact ⟨_, find_of_le ht hn⟩

end Slot

/-- Entry `i` by its bytes: the magic is checked before the index, and nothing else is. -/
theorem Entry.find_eq {b : Buffer} {t : Table} (ht : Table.ofBuffer b = .ok t) {n : Nat}
    (hn : n ≤ t.last) :
    Entry.find b n =
      if t.fieldValue b n .magic ≠ entryMagic.toNat then .error (.corrupt .magic)
      else if t.fieldValue b n .index ≠ n then .error (.corrupt .index)
      else .ok ⟨t.entrySpan n, Trailer.decode (t.trailerBytes b n)⟩ := by
  have hf := Table.fits_of_ofBuffer ht
  have hb := Table.nodeLength_of_ofBuffer ht
  have hstop : ¬ t.entryStop n < trailerSize :=
    Nat.not_lt.mpr (Nat.le_trans hf.1 (Table.entrySize_le_entryStop hf hn))
  have htrailer : Trailer.endingAt? b (t.entryStop n) =
      some (Trailer.decode (t.trailerBytes b n)) := if_neg hstop
  have hmagic : (Trailer.decode (t.trailerBytes b n)).hasMagic = true ↔
      t.fieldValue b n .magic = entryMagic.toNat := by
    rw [← Table.get_trailer hf hb hn .magic, Trailer.hasMagic, beq_iff_eq]
    exact UInt8.toNat_inj.symm
  have hindex := Table.get_trailer hf hb hn .index
  simp only [Trailer.get] at hindex
  -- The slot is found by its index, so only the two checks of its trailer are left.
  rw [Entry.find, Slot.find_of_le ht hn]
  simp only [Slot.read, Table.entrySpan, htrailer, hindex]
  by_cases hm : t.fieldValue b n .magic = entryMagic.toNat
  · rw [if_neg (by simpa using hmagic.mpr hm), if_neg (not_not_intro hm)]
  · rw [if_pos (by simpa using mt hmagic.mp hm), if_pos hm]

namespace Entry

variable {b : Buffer} {i : Int}

/-- An entry that is found is in the table, with the trailer that its bytes hold. -/
theorem eq_of_find {e : Entry} (h : find b i = .ok e) :
    ∃ t n, Table.ofBuffer b = .ok t ∧ i = Int.ofNat n ∧ n ≤ t.last ∧
      e = ⟨t.entrySpan n, Trailer.decode (t.trailerBytes b n)⟩ := by
  by_cases hi : HasEntry b i
  · obtain ⟨t, n, ht, rfl, hn⟩ := hasEntry_iff.mp hi
    refine ⟨t, n, ht, rfl, hn, ?_⟩
    rw [Int.ofNat_eq_natCast, find_eq ht hn] at h
    split at h
    · cases h
    · split at h
      · cases h
      · cases h
        rfl
  · rw [find, Slot.find_of_not_hasEntry hi] at h
    cases h

/-- Finding an entry meets no defect in its key. -/
theorem defect_of_find {d : Defect} (h : find b i = .error (.corrupt d)) :
    d = .magic ∨ d = .index := by
  by_cases hi : HasEntry b i
  · obtain ⟨t, n, ht, rfl, hn⟩ := hasEntry_iff.mp hi
    rw [Int.ofNat_eq_natCast, find_eq ht hn] at h
    split at h
    · cases h
      exact .inl rfl
    · split at h
      · cases h
        exact .inr rfl
      · cases h
  · rw [find, Slot.find_of_not_hasEntry hi] at h
    cases h

end Entry

end IndexNode
