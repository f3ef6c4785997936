import IndexNode.Proofs.Footprint
import IndexNode.Proofs.Insertion
import IndexNode.Proofs.TableReasons

/-!
# The table by the last bytes of a node

Which nodes have a table, and which check the others fail first, said over the length of the node
and the numbers in its last four bytes.

* `Span.number`: the number that is stored in a span.
* `Trailer.exists_endingAt?_size`: the trailer at the end of a node, field by field.
* `Table.ofBuffer_cases`: the five ways in which reading a table ends, each with its conditions;
  `Table.ofBuffer_iff` reads it as one condition for each of them.
* `Table.eq_of_ofBuffer`: what a table that was read holds.
* `table_from_last_bytes`: when each reason is given, and what the table depends on.
-/

namespace IndexNode

/-- The number stored in the span. -/
def Span.number (s : Span) (b : Buffer) : Nat := BigEndian.value (s.read b)

/-! ## The last trailer -/

namespace Trailer

variable {b : Buffer} (hlong : trailerSize ≤ b.size)
include hlong

theorem exists_endingAt?_size :
    ∃ c, endingAt? b b.size = some c ∧
      ∀ f : Field, c.get f = (f.span.shift (b.size - trailerSize)).number b := by
  have hlen : (⟨b.size - trailerSize, b.size⟩ : Span).length = trailerSize := by
    simp only [Span.length]
    omega
  refine ⟨_, if_neg (Nat.not_lt.mpr hlong), fun f => ?_⟩
  rw [get_decode, Span.cut_read, Span.number]
  · rw [hlen]
    exact f.stop_le_trailerSize
  · rw [Span.length_read _ _ (Nat.le_refl _), hlen]

/-- The fields that a table is made of stand in the last four bytes. -/
theorem exists_endingAt?_lastBytes :
    ∃ c, endingAt? b b.size = some c ∧
      c.index.toNat = (⟨b.size - 4, b.size - 2⟩ : Span).number b ∧
      c.units.toNat = (⟨b.size - 2, b.size - 1⟩ : Span).number b ∧
      c.magic.toNat = (⟨b.size - 1, b.size⟩ : Span).number b := by
  obtain ⟨c, hc, hget⟩ := exists_endingAt?_size hlong
  simp only [trailerSize] at hlong hget
  refine ⟨c, hc, (hget .index).trans ?_, (hget .units).trans ?_, (hget .magic).trans ?_⟩
  all_goals
    congr 1
    simp only [Field.span, Span.shift, Span.mk.injEq]
    omega

end Trailer

/-! ## Which check fails first -/

section Outcomes

variable {b : Buffer} {last units magic : Nat}
  (hlast : (⟨b.size - 4, b.size - 2⟩ : Span).number b = last)
  (hunits : (⟨b.size - 2, b.size - 1⟩ : Span).number b = units)
  (hmagic : (⟨b.size - 1, b.size⟩ : Span).number b = magic)
include hlast hunits hmagic

theorem Table.ofBuffer_eq_of_long (hlong : trailerSize ≤ b.size) :
    ofBuffer b =
      if magic ≠ 0xcc then .error (.noMagic (UInt8.ofNat magic))
      else if units < 2 then .error (.smallEntries (8 * units))
      else if b.size < 8 * units * (last + 1) then
        .error (.overrun (8 * units * (last + 1)) b.size)
      else .ok ⟨last, 8 * units, b.size⟩ := by
  obtain ⟨c, hc, hindex, hsize, hbyte⟩ := Trailer.exists_endingAt?_lastBytes hlong
  replace hindex : c.index.toNat = last := hindex.trans hlast
  replace hsize : c.entrySize = 8 * units := by
    rw [Trailer.entrySize, hsize, hunits, sizeUnit, Nat.mul_comm]
  replace hbyte : c.magic.toNat = magic := hbyte.trans hmagic
  have hhas : (!c.hasMagic) = true ↔ magic ≠ 0xcc := by
    rw [Trailer.hasMagic, Bool.not_eq_true', beq_eq_false_iff_ne, ne_eq, ← UInt8.toNat_inj, hbyte]
    rfl
  replace hbyte : c.magic = UInt8.ofNat magic := by rw [← hbyte, UInt8.ofNat_toNat]
  have hsmall : 8 * units < trailerSize ↔ units < 2 := by
    rw [trailerSize]
    omega
  rw [ofBuffer, hc]
  simp only [hhas, hsize, hsmall, hindex, hbyte]

/-- The five ways in which reading a table can end, each with all that it says about the node. -/
theorem Table.ofBuffer_cases :
    (b.size < 16 ∧ ofBuffer b = .error .tooShort) ∨
    (16 ≤ b.size ∧ magic ≠ 0xcc ∧ ofBuffer b = .error (.noMagic (UInt8.ofNat magic))) ∨
    (16 ≤ b.size ∧ magic = 0xcc ∧ units < 2 ∧ ofBuffer b = .error (.smallEntries (8 * units))) ∨
    (16 ≤ b.size ∧ magic = 0xcc ∧ 2 ≤ units ∧ b.size < 8 * units * (last + 1) ∧
      ofBuffer b = .error (.overrun (8 * units * (last + 1)) b.size)) ∨
    (16 ≤ b.size ∧ magic = 0xcc ∧ 2 ≤ units ∧ 8 * units * (last + 1) ≤ b.size ∧
      ofBuffer b = .ok ⟨last, 8 * units, b.size⟩) := by
  by_cases hshort : b.size < 16
  · have hnone : Trailer.endingAt? b b.size = none := if_pos hshort
    refine .inl ⟨hshort, ?_⟩
    rw [ofBuffer, hnone]
  have hlong : 16 ≤ b.size := Nat.le_of_not_lt hshort
  have heq := ofBuffer_eq_of_long hlast hunits hmagic hlong
  split_ifs at heq with h1 h2 h3
  · exact .inr (.inl ⟨hlong, h1, heq⟩)
  · exact .inr (.inr (.inl ⟨hlong, Decidable.not_not.mp h1, h2, heq⟩))
  · exact .inr (.inr (.inr (.inl ⟨hlong, Decidable.not_not.mp h1, Nat.le_of_not_lt h2, h3, heq⟩)))
  · exact .inr (.inr (.inr (.inr ⟨hlong, Decidable.not_not.mp h1, Nat.le_of_not_lt h2,
      Nat.le_of_not_lt h3, heq⟩)))

/-- Each outcome by its checks. -/
theorem Table.ofBuffer_iff :
    (ofBuffer b = .error .tooShort ↔ b.size < 16) ∧
    (ofBuffer b = .error (.noMagic (UInt8.ofNat magic)) ↔ 16 ≤ b.size ∧ magic ≠ 0xcc) ∧
    (ofBuffer b = .error (.smallEntries (8 * units)) ↔
      16 ≤ b.size ∧ magic = 0xcc ∧ units < 2) ∧
    (ofBuffer b = .error (.overrun (8 * units * (last + 1)) b.size) ↔
      16 ≤ b.size ∧ magic = 0xcc ∧ 2 ≤ units ∧ b.size < 8 * units * (last + 1)) ∧
    (ofBuffer b = .ok ⟨last, 8 * units, b.size⟩ ↔
      16 ≤ b.size ∧ magic = 0xcc ∧ 2 ≤ units ∧ 8 * units * (last + 1) ≤ b.size) := by
  rcases ofBuffer_cases hlast hunits hmagic with ⟨h0, h⟩ | ⟨h0, h1, h⟩ | ⟨h0, h1, h2, h⟩ |
    ⟨h0, h1, h2, h3, h⟩ | ⟨h0, h1, h2, h3, h⟩
  all_goals
    rw [h]
    simp only [reduceCtorEq, Except.error.injEq, true_iff, false_iff]
    omega

end Outcomes

/-- A table that was read holds the numbers in the last four bytes. -/
theorem Table.eq_of_ofBuffer {b : Buffer} {t : Table} (h : ofBuffer b = .ok t) :
    t = ⟨(⟨b.size - 4, b.size - 2⟩ : Span).number b,
      8 * (⟨b.size - 2, b.size - 1⟩ : Span).number b, b.size⟩ := by
  rcases @ofBuffer_cases b _ _ _ rfl rfl rfl with ⟨-, hb⟩ | ⟨-, -, hb⟩ | ⟨-, -, -, hb⟩ |
    ⟨-, -, -, -, hb⟩ | ⟨-, -, -, -, hb⟩
  all_goals cases h.symm.trans hb
  rfl

/-! ## What a table depends on -/

theorem insertAt_zero (b g : Buffer) : insertAt b 0 g = g ++ b := by
  simp [insertAt]

/-- Reading the table of `b`, by its length and the numbers in its last four bytes. Each reason is
given exactly if its check fails and those before it do not; without a failed check the numbers
make up the table. The rest of the node has no say in it, bytes in front of it only add to the
length, and the count of entries is that of the table. -/
theorem table_from_last_bytes (b : Buffer) :
    let length := b.size
    let last := (⟨length - 4, length - 2⟩ : Span).number b
    let units := (⟨length - 2, length - 1⟩ : Span).number b
    let magic := (⟨length - 1, length⟩ : Span).number b
    (Table.FailsWith b "node shorter than one trailer" ↔ length < 16) ∧
    (Table.FailsWith b ("no trailer table: magic 0x" ++ Hex.encode [UInt8.ofNat magic] ++
        " at end of node") ↔
      16 ≤ length ∧ magic ≠ 0xcc) ∧
    (Table.FailsWith b ("implausible entry size " ++ toString (8 * units)) ↔
      16 ≤ length ∧ magic = 0xcc ∧ units < 2) ∧
    (Table.FailsWith b ("trailer table (" ++ toString (8 * units * (last + 1)) ++
        " bytes) larger than node (" ++ toString length ++ " bytes)") ↔
      16 ≤ length ∧ magic = 0xcc ∧ 2 ≤ units ∧ length < 8 * units * (last + 1)) ∧
    (Table.ofBuffer b = .ok ⟨last, 8 * units, length⟩ ↔
      16 ≤ length ∧ magic = 0xcc ∧ 2 ≤ units ∧ 8 * units * (last + 1) ≤ length) ∧
    (∀ b' : Buffer, b'.size = length → AgreeOn b b' ⟨length - 4, length⟩ →
      Table.ofBuffer b' = Table.ofBuffer b) ∧
    (∀ (p : Buffer) (t : Table), Table.ofBuffer b = .ok t →
      Table.ofBuffer (p ++ b) = .ok ⟨t.last, t.entrySize, length + p.size⟩) ∧
    ∀ mark, let n : Node := ⟨b, mark⟩
      (∀ t, Table.ofBuffer b = .ok t → n.count = t.last + 1) ∧
      ∀ e, Table.ofBuffer b = .error e → n.count = 0 := by
  intro length last units magic
  obtain ⟨hshort, hnoMagic, hsmall, hoverrun, hok⟩ :=
    @Table.ofBuffer_iff b last units magic rfl rfl rfl
  refine ⟨(Table.failsWith_message_iff (e := .tooShort)).trans hshort,
    (Table.failsWith_message_iff (e := .noMagic _)).trans hnoMagic,
    (Table.failsWith_message_iff (e := .smallEntries _)).trans hsmall,
    (Table.failsWith_message_iff (e := .overrun _ _)).trans hoverrun, hok,
    fun b' hsize h => Table.ofBuffer_congr hsize h, ?_, ?_⟩
  · intro p t ht
    have hmoved := Table.ofBuffer_insertAt ht (Nat.zero_le _) p
    rw [insertAt_zero, Table.moved, Table.nodeLength_of_ofBuffer ht] at hmoved
    exact hmoved
  · intro mark n
    exact ⟨fun t ht => entryCount_of_table ht, fun e he => entryCount_of_error he⟩

/-- A node that is one entry without payload and key, filled by it to the last byte. -/
def bareEntry : Buffer := #[0, 0, 0, 0, 0, 0, 0, 0, 0, 0, 0, 0, 0, 0, 2, 0xcc]

/-- The same, with the key fields lost. -/
def bareEntryLost : Buffer := #[9, 9, 9, 9, 9, 9, 9, 9, 9, 9, 9, 9, 0, 0, 2, 0xcc]

/-- The smallest table has no byte to spare, and it is found behind other bytes too. -/
theorem table_of_bareEntry :
    AgreeOn bareEntry bareEntryLost ⟨12, 16⟩ ∧
    Table.ofBuffer bareEntry = .ok ⟨0, 16, 16⟩ ∧
    Table.ofBuffer bareEntryLost = .ok ⟨0, 16, 16⟩ ∧
    Table.ofBuffer (#[7, 7] ++ bareEntry) = .ok ⟨0, 16, 18⟩ ∧
    (⟨bareEntry, some .magic⟩ : Node).count = 1 := by
  have hagree : AgreeOn bareEntry bareEntryLost ⟨12, 16⟩ := by decide
  obtain ⟨-, -, -, -, hok, hsame, hfront, hcount⟩ := table_from_last_bytes bareEntry
  have htable : Table.ofBuffer bareEntry = .ok ⟨0, 16, 16⟩ := hok.mpr (by decide)
  refine ⟨hagree, htable, (hsame bareEntryLost rfl hagree).trans htable, ?_, ?_⟩
  · exact hfront #[7, 7] _ htable
  · exact (hcount (some .magic)).1 ⟨0, 16, 16⟩ htable

end IndexNode
