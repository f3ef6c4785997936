import IndexNode.Proofs.DraftLayout
import IndexNode.Proofs.Soundness

/-!
# What is written can be read

A node that is built from records gives them back, one entry for each, as long as the numbers that
describe it fit the fields of a trailer.

* `Draft.WithinLimits`: the limits of the fields, on the records.
* `Draft.ofBuffer_build`: the table of the node.
* `Draft.find_build`: each entry is found with the trailer that was written for it.
* `Draft.splitKey_build`: its key is read segment by segment.
* `built_node_reads_back`: the answers to all lookups.
-/

namespace IndexNode

namespace Draft

variable {d : Draft} {i : Nat}

/-- The sizes, the offsets and the number of entries of the draft fit the trailer fields. -/
structure WithinLimits (d : Draft) : Prop where
  count_le : d.records.size ≤ 65536
  first_le : ∀ r ∈ d.records, r.first.length ≤ 65535
  second_le : ∀ r ∈ d.records, r.second.length ≤ 65535
  payload_le : ∀ r ∈ d.records, r.payload.length ≤ 2024
  keys_lt : d.lead + (d.records.toList.flatMap Record.keyBytes).length < 2 ^ 32

/-! ## The table -/

theorem WithinLimits.entrySize_le (h : d.WithinLimits) : d.entrySize ≤ 2040 := by
  have hwidest := widest_le_iff.mpr h.payload_le
  simp only [entrySize, sizeUnit, trailerSize]
  omega

/-- The entry size in units fits its field. -/
theorem WithinLimits.toNat_units (h : d.WithinLimits) :
    (UInt8.ofNat (d.entrySize / sizeUnit)).toNat = d.entrySize / sizeUnit := by
  have hsize := h.entrySize_le
  apply UInt8.toNat_ofNat_of_lt'
  simp only [sizeUnit, UInt8.size]
  omega

theorem WithinLimits.toNat_index (h : d.WithinLimits) (hi : i < d.records.size) :
    (UInt16.ofNat i).toNat = i := by
  have hcount := h.count_le
  apply UInt16.toNat_ofNat_of_lt'
  simp only [UInt16.size]
  omega

/-- The table of the node. -/
def table (d : Draft) : Table := ⟨d.records.size - 1, d.entrySize, d.build.size⟩

theorem ofBuffer_build (h : d.WithinLimits) (hpos : 0 < d.records.size) :
    Table.ofBuffer d.build = .ok d.table := by
  have hlast : d.records.size - 1 < d.records.size := by omega
  have hend : Trailer.endingAt? d.build d.build.size = some (d.trailer _ hlast) := by
    rw [← endingAt?_build hlast, size_build, Nat.sub_add_cancel hpos]
  refine Table.ofBuffer_eq_ok_iff.mpr ⟨_, hend, rfl, ?_, ?_, ?_⟩
  · have hindex : (d.trailer _ hlast).index.toNat = d.records.size - 1 := h.toNat_index hlast
    have hunits : (d.trailer _ hlast).units.toNat = d.entrySize / sizeUnit := h.toNat_units
    rw [Trailer.entrySize, hindex, hunits, Nat.div_mul_cancel sizeUnit_dvd_entrySize]
    rfl
  · exact Nat.le_trans (Nat.le_add_left _ _) d.widest_add_trailerSize_le
  · show d.entrySize * (d.records.size - 1 + 1) ≤ d.build.size
    rw [Nat.sub_add_cancel hpos, size_build, entryStart, Nat.mul_comm]
    exact Nat.le_add_left _ _

theorem entrySpan_table (hi : i < d.records.size) :
    d.table.entrySpan i = ⟨d.entryStart i, d.entryStart (i + 1)⟩ := by
  have hstop : d.table.entryStop i = d.entryStart (i + 1) := by
    have hsize : d.records.size * d.entrySize =
        (i + 1) * d.entrySize + d.entrySize * (d.records.size - 1 - i) := by
      rw [Nat.mul_comm d.entrySize, ← Nat.add_mul]
      congr 1
      omega
    simp only [Table.entryStop, table, size_build, entryStart, hsize]
    omega
  rw [Table.entrySpan, hstop, entryStart_succ]
  simp only [table, Nat.add_sub_cancel]

/-! ## Entries -/

/-- Each entry is found with the trailer that was written for it. -/
theorem find_build (h : d.WithinLimits) (hi : i < d.records.size) :
    Entry.find d.build i = .ok ⟨⟨d.entryStart i, d.entryStart (i + 1)⟩, d.trailer i hi⟩ := by
  have hlast : i ≤ d.table.last := by
    simp only [table]
    omega
  have hindex : (d.trailer i hi).index.toNat = i := h.toNat_index hi
  rw [Entry.find, Slot.find_of_le (ofBuffer_build h (by omega)) hlast, entrySpan_table hi]
  simp only [Slot.read, endingAt?_build hi, hindex, ne_eq, not_true_eq_false, if_false]
  rfl

theorem payload_build (hi : i < d.records.size) :
    (⟨⟨d.entryStart i, d.entryStart (i + 1)⟩, d.trailer i hi⟩ : Entry).payload d.build =
      d.body i hi := by
  have hroom : trailerSize ≤ d.entrySize :=
    Nat.le_trans (Nat.le_add_left _ _) d.widest_add_trailerSize_le
  have hstop : d.entryStart (i + 1) - trailerSize =
      d.entryStart i + (d.entrySize - trailerSize) := by
    rw [entryStart_succ]
    omega
  rw [Entry.payload, Span.dropEnd]
  simp only [hstop]
  exact read_body hi

/-! ## Keys -/

theorem WithinLimits.size_eq (h : d.WithinLimits) {r : Record} (hr : r ∈ d.records) :
    (UInt16.ofNat r.first.length).toNat = r.first.length ∧
      (UInt16.ofNat r.second.length).toNat = r.second.length := by
  have hfirst := h.first_le r hr
  have hsecond := h.second_le r hr
  constructor
  · apply UInt16.toNat_ofNat_of_lt'
    simp only [UInt16.size]
    omega
  · apply UInt16.toNat_ofNat_of_lt'
    simp only [UInt16.size]
    omega

/-- A position among the keys fits its field. -/
theorem WithinLimits.toNat_offset (h : d.WithinLimits) {n : Nat} (hn : n ≤ d.entryStart 0) :
    (UInt32.ofNat n).toNat = n := by
  have hkeys := h.keys_lt
  apply UInt32.toNat_ofNat_of_lt'
  simp only [entryStart, UInt32.size] at hn ⊢
  omega

theorem entryStart_zero_le (d : Draft) : d.entryStart 0 ≤ d.build.size := by
  rw [size_build]
  simp only [entryStart]
  omega

section Keys

variable (h : d.WithinLimits) (hi : i < d.records.size)
include h

theorem segment_first_build :
    (d.trailer i hi).segment d.build .first = .ok d.records[i].first := by
  have hkey := keyStart_add_le hi
  rw [Record.keyBytes, List.length_append] at hkey
  have hspan : ((d.trailer i hi).extent .first).span =
      ⟨d.keyStart i, d.keyStart i + d.records[i].first.length⟩ := by
    obtain ⟨hsize, -⟩ := h.size_eq (Array.getElem_mem hi)
    have hoffset := h.toNat_offset (n := d.keyStart i) (by omega)
    simp only [Extent.span, Trailer.extent, trailer, Record.trailer, hsize, hoffset]
  rw [Trailer.segment_eq_ok_iff, hspan]
  refine ⟨?_, read_first hi⟩
  have hsize := d.entryStart_zero_le
  simp only
  omega

theorem segment_second_build :
    (d.trailer i hi).segment d.build .second = .ok d.records[i].second := by
  have hkey := keyStart_add_le hi
  rw [Record.keyBytes, List.length_append] at hkey
  obtain ⟨-, hsize⟩ := h.size_eq (Array.getElem_mem hi)
  rw [Trailer.segment_eq_ok_iff]
  by_cases hempty : d.records[i].second = []
  · -- An absent segment stands at the front of the node, with no bytes.
    have hspan : ((d.trailer i hi).extent .second).span = ⟨0, 0⟩ := by
      simp [Extent.span, Trailer.extent, trailer, Record.trailer, hempty]
    have hread : (⟨0, 0⟩ : Span).read d.build = [] := by
      rw [Span.read_eq_cut]
      exact List.take_zero
    rw [hspan, hempty]
    exact ⟨Nat.zero_le _, hread⟩
  · have hoffset := h.toNat_offset (n := d.keyStart i + d.records[i].first.length) (by omega)
    have hspan : ((d.trailer i hi).extent .second).span =
        ⟨d.keyStart i + d.records[i].first.length,
          d.keyStart i + d.records[i].first.length + d.records[i].second.length⟩ := by
      have hne : d.records[i].second.isEmpty = false := by simpa using hempty
      simp only [Extent.span, Trailer.extent, trailer, Record.trailer, hne, hsize, hoffset,
        Bool.false_eq_true, if_false]
    rw [hspan]
    refine ⟨?_, read_second hi⟩
    have hsize := d.entryStart_zero_le
    simp only
    omega

theorem splitKey_build : (d.trailer i hi).splitKey d.build =
    .ok ⟨d.records[i].first, d.records[i].second⟩ :=
  Trailer.splitKey_eq_ok_iff.mpr ⟨segment_first_build h hi, segment_second_build h hi⟩

end Keys

end Draft

/-! ## Lookups -/

namespace Node

variable {d : Draft} {i : Nat}

theorem trailerAt_build (h : d.WithinLimits) (hi : i < d.records.size) :
    ((ofBuffer d.build).trailerAt i).1 = .ok (d.trailer i hi) := by
  rw [trailerAt_ofBuffer, Entry.query_eq_ok_iff]
  exact ⟨_, Draft.find_build h hi, rfl⟩

theorem payloadAt_build (h : d.WithinLimits) (hi : i < d.records.size) :
    ((ofBuffer d.build).payloadAt i).1 = .ok (d.body i hi) := by
  rw [payloadAt_ofBuffer, Entry.query_eq_ok_iff]
  exact ⟨_, Draft.find_build h hi, congrArg Except.ok (Draft.payload_build hi)⟩

theorem keyAt_build (h : d.WithinLimits) (hi : i < d.records.size) :
    ((ofBuffer d.build).keyAt i).1 = .ok d.records[i].keyBytes := by
  rw [keyAt_ofBuffer, Entry.query_eq_ok_iff]
  refine ⟨_, Draft.find_build h hi, ?_⟩
  rw [Draft.splitKey_build h hi]
  rfl

theorem count_build (h : d.WithinLimits) (hpos : 0 < d.records.size) :
    (ofBuffer d.build).count = d.records.size := by
  show entryCount d.build = _
  rw [entryCount_of_table (Draft.ofBuffer_build h hpos)]
  exact Nat.sub_add_cancel hpos

end Node

/-- A node that is built by instructions with at least one key, within the limits of the trailer
fields. The instructions say how many zeros lead and which records there are: one for each key. The
node has one entry for each record, as large as the least multiple of the unit that holds every
payload and a trailer. Each entry gives back the key, the payload and the numbers of its record, and
lookups never mark the node. -/
theorem built_node_reads_back (steps : List Draft.Step)
    (hpos : 0 < (Draft.ofSteps steps).records.size) (h : (Draft.ofSteps steps).WithinLimits) :
    let d := Draft.ofSteps steps
    let n := Node.ofBuffer d.build
    d.lead = Draft.leadOf steps ∧ d.records.toList = Draft.recordsOf steps ∧
    n.count = d.records.size ∧
    IsLeast {e | sizeUnit ∣ e ∧ ∀ r ∈ d.records, trailerSize + r.payload.length ≤ e} d.entrySize ∧
    (∀ i (hi : i < d.records.size),
      (n.keyAt i).1 = .ok (d.records[i].first ++ d.records[i].second) ∧
      (∀ key, (n.compareAt key i).1 =
        .ordered (compare key (d.records[i].first ++ d.records[i].second))) ∧
      (n.payloadAt i).1 = .ok (d.records[i].payload ++
        zeros (d.entrySize - trailerSize - d.records[i].payload.length)) ∧
      ∃ t, (n.trailerAt i).1 = .ok t ∧ t.index.toNat = i ∧
        t.first.size.toNat = d.records[i].first.length ∧
        t.second.size.toNat = d.records[i].second.length ∧
        t.units.toNat = d.entrySize / sizeUnit) ∧
    ∀ ls : List Lookup, (n.after (ls.map .lookup)).mark = none := by
  refine ⟨Draft.lead_ofSteps steps, Draft.records_ofSteps steps, ?_⟩
  -- What a node gives back of its records does not depend on where they come from.
  generalize Draft.ofSteps steps = d at hpos h
  refine ⟨Node.count_build h hpos, Draft.isLeast_entrySize hpos, ?_, ?_⟩
  · intro i hi
    have hkey := Node.keyAt_build h hi
    obtain ⟨hfirst, hsecond⟩ := h.size_eq (Array.getElem_mem hi)
    refine ⟨hkey, ?_, Node.payloadAt_build h hi, _, Node.trailerAt_build h hi, h.toNat_index hi,
      hfirst, hsecond, h.toNat_units⟩
    intro key
    rw [Node.compareAt_of_keyAt_ok hkey]
    rfl
  · intro ls
    have hclean : ∀ i e, ¬ Defective d.build i e := by
      apply Node.not_defective_of_readable
      intro i hi
      rw [show entryCount d.build = d.records.size from Node.count_build h hpos] at hi
      exact ⟨_, Node.keyAt_build h hi⟩
    rw [(Node.lookups_of_not_defective hclean ls).1]
    rfl

/-- Two leading bytes, the key `cat` `alog` with a payload, and the empty key. The payload and the
leading bytes are set twice. -/
def twoRecords : List Draft.Step :=
  [.lead 9, .key [99, 97, 116] [97, 108, 111, 103], .payload [9], .lead 2, .payload [1, 2, 3],
    .key [] []]

/-- The payload of three bytes makes room for 8 in both entries. -/
theorem twoRecords_read_back :
    let n := Node.ofBuffer (Draft.ofSteps twoRecords).build
    0 < (Draft.ofSteps twoRecords).records.size ∧ (Draft.ofSteps twoRecords).WithinLimits ∧
    (Draft.ofSteps twoRecords).lead = 2 ∧
    (Draft.ofSteps twoRecords).records.toList =
      [⟨[99, 97, 116], [97, 108, 111, 103], [1, 2, 3]⟩, ⟨[], [], []⟩] ∧
    n.count = 2 ∧ (n.keyAt 0).1 = .ok [99, 97, 116, 97, 108, 111, 103] ∧
    (n.payloadAt 0).1 = .ok [1, 2, 3, 0, 0, 0, 0, 0] ∧
    (n.compareAt [99] 1).1 = .ordered .gt := by
  have hpos : 0 < (Draft.ofSteps twoRecords).records.size := by decide
  have hlimits : (Draft.ofSteps twoRecords).WithinLimits :=
    { count_le := by decide
      first_le := by decide
      second_le := by decide
      payload_le := by decide
      keys_lt := by decide }
  obtain ⟨hlead, hrecords, hcount, -, hentry, -⟩ := built_node_reads_back twoRecords hpos hlimits
  obtain ⟨hkey, -, hpayload, -⟩ := hentry 0 (by decide)
  obtain ⟨-, hcompare, -⟩ := hentry 1 (by decide)
  exact ⟨hpos, hlimits, hlead, hrecords, hcount, hkey, hpayload, hcompare _⟩

end IndexNode
