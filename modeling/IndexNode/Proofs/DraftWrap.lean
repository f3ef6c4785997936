import Mathlib.Algebra.GroupWithZero.Nat
import IndexNode.Proofs.DraftLayout
import IndexNode.Proofs.TableReasons

/-!
# Drafts past the limits of the fields

A trailer has one byte for the entry size and two for the index, and the writer keeps what fits of
numbers that are larger. The bytes are laid out with the whole numbers, so the table that is read
from such a node describes less than was written. It never describes more, which is why it fits.

* `Draft.size_build_eq_sum`: the length of the node by the lengths of its pieces.
* `Draft.storedUnits`, `Draft.storedLast`: what the last trailer says of the entry size and of the
  index.
* `Draft.stored_table_fits`: the table that these two make up fits the node.
* `Draft.ofBuffer_build_eq`: the table of any draft with records, or why there is none.
* `Table.ofBuffer_zeros`: a draft without records has no table.
* `table_of_any_draft`: all of it.
-/

namespace IndexNode

namespace Draft

variable {d : Draft}

/-! ## Sizes -/

theorem size_build_eq_sum (d : Draft) :
    d.build.size = d.lead + (d.records.toList.map fun r => r.first.length + r.second.length).sum +
      d.records.size * d.entrySize := by
  have hkeys : (d.records.toList.flatMap Record.keyBytes).length =
      (d.records.toList.map fun r => r.first.length + r.second.length).sum := by
    simp only [List.length_flatMap, Record.keyBytes, List.length_append]
  rw [size_build, entryStart, hkeys]

/-! ## What the fields keep -/

/-- The entry size in units, as far as its field holds it. -/
def storedUnits (d : Draft) : Nat := d.entrySize / sizeUnit % 256

/-- The index of the last entry, as far as its field holds it. -/
def storedLast (d : Draft) : Nat := (d.records.size - 1) % 65536

/-- The node ends with the trailer of the last record. -/
theorem exists_endingAt?_size_build (hpos : 0 < d.records.size) :
    ∃ c, Trailer.endingAt? d.build d.build.size = some c ∧ c.hasMagic ∧
      c.index.toNat = d.storedLast ∧ c.entrySize = 8 * d.storedUnits := by
  have hlast : d.records.size - 1 < d.records.size := by omega
  refine ⟨d.trailer _ hlast, ?_, rfl, UInt16.toNat_ofNat', ?_⟩
  · rw [← endingAt?_build hlast, size_build, Nat.sub_add_cancel hpos]
  · rw [Trailer.entrySize, Nat.mul_comm]
    exact congrArg (8 * ·) UInt8.toNat_ofNat'

/-- The stored numbers are no larger than those that the node was laid out with. -/
theorem stored_table_fits (hpos : 0 < d.records.size) :
    8 * d.storedUnits * (d.storedLast + 1) ≤ d.build.size := by
  have hunits : 8 * d.storedUnits ≤ d.entrySize := by
    simp only [storedUnits, sizeUnit]
    omega
  have hlast : d.storedLast + 1 ≤ d.records.size := by
    simp only [storedLast]
    omega
  calc 8 * d.storedUnits * (d.storedLast + 1)
      ≤ d.entrySize * d.records.size := Nat.mul_le_mul hunits hlast
    _ = d.records.size * d.entrySize := Nat.mul_comm _ _
    _ ≤ d.build.size := by
      rw [size_build, entryStart]
      exact Nat.le_add_left _ _

/-- The table of a draft with records. The only check that can fail is that of the entry size. -/
theorem ofBuffer_build_eq (hpos : 0 < d.records.size) :
    Table.ofBuffer d.build =
      if d.storedUnits < 2 then .error (.smallEntries (8 * d.storedUnits))
      else .ok ⟨d.storedLast, 8 * d.storedUnits, d.build.size⟩ := by
  obtain ⟨c, hc, hmagic, hindex, hsize⟩ := exists_endingAt?_size_build hpos
  have hfits := stored_table_fits hpos
  rw [Table.ofBuffer, hc]
  -- Past the magic, which is not cut, the size is left to fail: the table fits in any case.
  simp only [hmagic, hindex, hsize, Bool.not_true, Bool.false_eq_true, if_false]
  by_cases hsmall : d.storedUnits < 2
  · have hroom : 8 * d.storedUnits < trailerSize := by
      rw [trailerSize]
      omega
    rw [if_pos hsmall, if_pos hroom]
  · have hroom : ¬ 8 * d.storedUnits < trailerSize := by
      rw [trailerSize]
      omega
    rw [if_neg hsmall, if_neg hroom, if_neg (Nat.not_lt.mpr hfits)]

/-! ## Drafts without records -/

theorem build_of_no_records (h : d.records.size = 0) : d.build = (zeros d.lead).toArray := by
  have hrecords : d.records.toList = [] := by
    rw [Array.size_eq_zero_iff.mp h]
  simp only [build, hrecords, List.flatMap_nil, entryBlock, List.append_nil]

end Draft

/-- Zeros are no table: the last of them is not the magic. -/
theorem Table.ofBuffer_zeros (n : Nat) :
    ofBuffer (zeros n).toArray = .error (if n < trailerSize then .tooShort else .noMagic 0) := by
  have hsize : (zeros n).toArray.size = n := by simp [zeros]
  rw [ofBuffer, hsize, Trailer.endingAt?]
  by_cases hshort : n < trailerSize
  · rw [if_pos hshort, if_pos hshort]
  · have hread : (⟨n - trailerSize, n⟩ : Span).read (zeros n).toArray = zeros trailerSize := by
      have hlast : n - (n - trailerSize) = trailerSize := by omega
      rw [Span.read_eq_cut, Span.cut, Span.length, zeros, List.drop_replicate, List.take_replicate,
        hlast, Nat.min_self, zeros]
    rw [if_neg hshort, if_neg hshort, hread]
    rfl

/-- The node that instructions build, with no limit on the lengths and the number of the records
that they ask for. With records it has a table exactly if the stored entry size has room for a
trailer, and it is made of what the fields hold of the entry size and of the last index; else that
size is the reason given, and nothing else can be. Without records the node is the leading zeros and
has no table. -/
theorem table_of_any_draft (steps : List Draft.Step) :
    let d := Draft.ofSteps steps
    let count := d.records.size
    let units := d.entrySize / 8 % 256
    d.lead = Draft.leadOf steps ∧ d.records.toList = Draft.recordsOf steps ∧
    d.build.size = d.lead + (d.records.toList.map fun r => r.first.length + r.second.length).sum +
      count * d.entrySize ∧
    (0 < count →
      IsLeast {e | 8 ∣ e ∧ ∀ r ∈ d.records, 16 + r.payload.length ≤ e} d.entrySize ∧
      ((∃ t, Table.ofBuffer d.build = .ok t) ↔ 2 ≤ units) ∧
      (2 ≤ units →
        Table.ofBuffer d.build = .ok ⟨(count - 1) % 65536, 8 * units, d.build.size⟩) ∧
      (units < 2 → ∀ text, Table.FailsWith d.build text ↔
        text = "implausible entry size " ++ toString (8 * units))) ∧
    (count = 0 → d.build = (zeros d.lead).toArray ∧ ∃ e, Table.ofBuffer d.build = .error e) := by
  intro d count units
  refine ⟨Draft.lead_ofSteps steps, Draft.records_ofSteps steps, d.size_build_eq_sum, ?_, ?_⟩
  · intro hpos
    have htable : Table.ofBuffer d.build =
        if units < 2 then .error (.smallEntries (8 * units))
        else .ok ⟨(count - 1) % 65536, 8 * units, d.build.size⟩ := Draft.ofBuffer_build_eq hpos
    refine ⟨Draft.isLeast_entrySize hpos, ?_, ?_, ?_⟩
    · rw [htable]
      by_cases hsmall : units < 2
      · rw [if_pos hsmall]
        simp only [reduceCtorEq, exists_false, false_iff]
        omega
      · rw [if_neg hsmall]
        simp only [Except.ok.injEq, exists_eq', true_iff]
        omega
    · intro hunits
      rw [htable, if_neg (Nat.not_lt.mpr hunits)]
    · intro hsmall text
      rw [if_pos hsmall] at htable
      constructor
      · rintro ⟨e, he, rfl⟩
        cases htable.symm.trans he
        rfl
      · rintro rfl
        exact ⟨_, htable, rfl⟩
  · intro hcount
    have hbuild := Draft.build_of_no_records hcount
    exact ⟨hbuild, _, hbuild ▸ Table.ofBuffer_zeros d.lead⟩

/-- Three leading bytes, the key `a` `bc` with `n` zero bytes of payload, and the empty key. -/
def oneWide (n : Nat) : List Draft.Step :=
  [.lead 3, .key [97] [98, 99], .payload (zeros n), .key [] []]

theorem Draft.entrySize_oneWide (n : Nat) :
    (ofSteps (oneWide n)).entrySize = (n + 16 + 7) / 8 * 8 := by
  have hwidest : (ofSteps (oneWide n)).widest = n := by
    simp [widest, records_ofSteps, oneWide, recordsOf, zeros]
  rw [entrySize, hwidest]
  rfl

/-- The empty key `n` times. -/
def emptyKeys (n : Nat) : List Draft.Step := List.replicate n (.key [] [])

namespace Draft

theorem leadOf_emptyKeys (n : Nat) : leadOf (emptyKeys n) = 0 := by
  rw [leadOf, emptyKeys, List.filterMap_replicate_of_none rfl]
  rfl

theorem recordsOf_emptyKeys (n : Nat) :
    recordsOf (emptyKeys n) = List.replicate n ⟨[], [], []⟩ := by
  induction n with
  | zero => rfl
  | succ n ih =>
    have hfinished : payloadAfter [] (List.replicate n (.key [] [])) = [] := by
      cases n <;> simp [List.replicate_succ]
    rw [emptyKeys, List.replicate_succ, recordsOf, hfinished, List.replicate_succ]
    exact congrArg (_ :: ·) ih

theorem size_records_emptyKeys (n : Nat) : (ofSteps (emptyKeys n)).records.size = n := by
  rw [← Array.length_toList, records_ofSteps, recordsOf_emptyKeys, List.length_replicate]

theorem entrySize_emptyKeys (n : Nat) : (ofSteps (emptyKeys n)).entrySize = 16 := by
  have hwidest : (ofSteps (emptyKeys n)).widest = 0 := by
    refine Nat.le_zero.mp (widest_le_iff.mpr fun r hr => ?_)
    rw [← Array.mem_toList_iff, records_ofSteps, recordsOf_emptyKeys] at hr
    obtain rfl := List.eq_of_mem_replicate hr
    exact Nat.le_refl _
  rw [entrySize, hwidest]
  rfl

theorem size_build_emptyKeys (n : Nat) : (ofSteps (emptyKeys n)).build.size = n * 16 := by
  rw [size_build_eq_sum, lead_ofSteps, leadOf_emptyKeys, records_ofSteps, recordsOf_emptyKeys,
    size_records_emptyKeys, entrySize_emptyKeys]
  simp

end Draft

/-- A payload of 2032 bytes asks for 256 units, stored as none, and one of 2048 bytes for 258,
stored as two: the node then has a table of two entries of sixteen bytes. So has the node of 65538
empty keys, the last of which is stored with the index 1. -/
theorem tables_of_oneWide :
    0 < (Draft.ofSteps (oneWide 2032)).records.size ∧
    (Draft.ofSteps (oneWide 2032)).entrySize / 8 % 256 < 2 ∧
    Table.FailsWith (Draft.ofSteps (oneWide 2032)).build "implausible entry size 0" ∧
    (Draft.ofSteps (oneWide 2048)).lead = 3 ∧
    (Draft.ofSteps (oneWide 2048)).records.toList =
      [⟨[97], [98, 99], zeros 2048⟩, ⟨[], [], []⟩] ∧
    0 < (Draft.ofSteps (oneWide 2048)).records.size ∧
    2 ≤ (Draft.ofSteps (oneWide 2048)).entrySize / 8 % 256 ∧
    Table.ofBuffer (Draft.ofSteps (oneWide 2048)).build = .ok ⟨1, 16, 4134⟩ ∧
    (Draft.ofSteps (emptyKeys 65538)).records.size = 65538 ∧
    Table.ofBuffer (Draft.ofSteps (emptyKeys 65538)).build = .ok ⟨1, 16, 1048608⟩ ∧
    (Draft.ofSteps [.lead 4]).records.size = 0 ∧
    ∃ e, Table.ofBuffer (Draft.ofSteps [.lead 4]).build = .error e := by
  have hpos (n : Nat) : 0 < (Draft.ofSteps (oneWide n)).records.size := Nat.two_pos
  have hnone : (Draft.ofSteps (oneWide 2032)).entrySize / 8 % 256 = 0 := by
    rw [Draft.entrySize_oneWide]
  have htwo : (Draft.ofSteps (oneWide 2048)).entrySize / 8 % 256 = 2 := by
    rw [Draft.entrySize_oneWide]
  have hsmall : (Draft.ofSteps (oneWide 2032)).entrySize / 8 % 256 < 2 := by omega
  have hlarge : 2 ≤ (Draft.ofSteps (oneWide 2048)).entrySize / 8 % 256 := by omega
  have hcount := Draft.size_records_emptyKeys 65538
  have hentry := Draft.entrySize_emptyKeys 65538
  obtain ⟨-, -, -, hrefused, -⟩ := table_of_any_draft (oneWide 2032)
  obtain ⟨hlead, hrecords, hsize, hread, -⟩ := table_of_any_draft (oneWide 2048)
  obtain ⟨-, -, -, hmany, -⟩ := table_of_any_draft (emptyKeys 65538)
  obtain ⟨-, -, -, -, hempty⟩ := table_of_any_draft [.lead 4]
  obtain ⟨-, -, -, hfails⟩ := hrefused (hpos _)
  obtain ⟨-, -, htable, -⟩ := hread (hpos _)
  obtain ⟨-, -, htable', -⟩ := hmany (by omega)
  refine ⟨hpos _, hsmall, ?_, hlead, hrecords, hpos _, hlarge, ?_, hcount, ?_, rfl,
    (hempty rfl).2⟩
  · refine (hfails hsmall _).mpr ?_
    rw [hnone]
    decide
  · have hlength : (Draft.ofSteps (oneWide 2048)).build.size = 4134 := by
      rw [hsize, Draft.entrySize_oneWide]
      rfl
    rw [htable hlarge, htwo, hlength]
    rfl
  · rw [htable' (by omega), hcount, hentry, Draft.size_build_emptyKeys]

end IndexNode
