import IndexNode.Hex
import IndexNode.Trailer

/-!
# The trailer table

All entries of a node have one size and are packed against its end, so the last trailer alone
says how many there are and where each of them stands. A node whose last bytes describe no such
table has no entries; that is not a defect.

* `Table.ofBuffer_eq_ok_iff`: a table is read from a trailer at the end of the node.
* `Table.fits_of_ofBuffer`: a table that was read lies inside its node.
* `Table.nodeLength_of_ofBuffer`: it records the length of the node.
* `Table.last_lt_of_ofBuffer`: it has at most 65536 entries.
* `Table.isSome_entrySpan?`: exactly the indices up to the last have a span.
-/

namespace IndexNode

/-- Why the end of a node describes no table. -/
inductive TableError
  /-- The node has no room for a trailer. -/
  | tooShort
  /-- The last byte is `found`, not the magic. -/
  | noMagic (found : UInt8)
  /-- Entries of `size` bytes could not hold a trailer. -/
  | smallEntries (size : Nat)
  /-- The entries would take `table` bytes of a node of `node` bytes. -/
  | overrun (table node : Nat)
  deriving DecidableEq, Repr

def TableError.message : TableError → String
  | tooShort => "node shorter than one trailer"
  | noMagic found => "no trailer table: magic 0x" ++ Hex.encode [found] ++ " at end of node"
  | smallEntries size => "implausible entry size " ++ toString size
  | overrun table node =>
    "trailer table (" ++ toString table ++ " bytes) larger than node (" ++ toString node ++
      " bytes)"

/-- The entries of a node: index of the last one, size of each, length of the node. -/
structure Table where
  last : Nat
  entrySize : Nat
  nodeLength : Nat
  deriving DecidableEq, Repr

namespace Table

/-- Number of entries. -/
def count (t : Table) : Nat := t.last + 1

/-- Each entry has room for its trailer and the node has room for all entries. -/
def Fits (t : Table) : Prop := trailerSize ≤ t.entrySize ∧ t.entrySize * t.count ≤ t.nodeLength

instance (t : Table) : Decidable t.Fits := inferInstanceAs (Decidable (_ ∧ _))

/-- Where entry `i` stands, counted back from the end of the node. -/
def entrySpan? (t : Table) (i : Nat) : Option Span :=
  if t.last < i then none
  else
    let start := t.nodeLength - t.entrySize * (t.count - i)
    some ⟨start, start + t.entrySize⟩

/-- Where the trailer of entry `i` stands. -/
def trailerSpan? (t : Table) (i : Nat) : Option Span :=
  (t.entrySpan? i).map (·.takeEnd trailerSize)

/-- The table that the last bytes of a node describe. -/
def ofBuffer (b : Buffer) : Except TableError Table :=
  match Trailer.endingAt? b b.size with
  | none => .error .tooShort
  | some t =>
    if !t.hasMagic then .error (.noMagic t.magic)
    else if t.entrySize < trailerSize then .error (.smallEntries t.entrySize)
    else if b.size < t.entrySize * (t.index.toNat + 1) then
      .error (.overrun (t.entrySize * (t.index.toNat + 1)) b.size)
    else .ok ⟨t.index.toNat, t.entrySize, b.size⟩

/-- A table is read from a trailer with the magic whose entries fit the node, and from no other
end of a node. -/
theorem ofBuffer_eq_ok_iff {b : Buffer} {t : Table} :
    ofBuffer b = .ok t ↔ ∃ c, Trailer.endingAt? b b.size = some c ∧ c.hasMagic ∧
      t = ⟨c.index.toNat, c.entrySize, b.size⟩ ∧ t.Fits := by
  unfold ofBuffer
  constructor
  · intro h
    split at h
    · cases h
    · rename_i c hc
      repeat' split at h
      all_goals cases h
      refine ⟨c, hc, by simpa using ‹¬ (!c.hasMagic) = true›, rfl, ?_⟩
      exact ⟨Nat.le_of_not_lt ‹¬ c.entrySize < trailerSize›, Nat.le_of_not_lt ‹¬ b.size < _›⟩
  · rintro ⟨c, hc, hm, rfl, hsize, hfit⟩
    simp only [count] at hsize hfit
    simp only [hc, hm, Bool.not_true, Bool.false_eq_true, if_false]
    rw [if_neg (Nat.not_lt.mpr hsize), if_neg (Nat.not_lt.mpr hfit)]

theorem fits_of_ofBuffer {b : Buffer} {t : Table} (h : ofBuffer b = .ok t) : t.Fits := by
  obtain ⟨c, -, -, -, hf⟩ := ofBuffer_eq_ok_iff.mp h
  exact hf

theorem nodeLength_of_ofBuffer {b : Buffer} {t : Table} (h : ofBuffer b = .ok t) :
    t.nodeLength = b.size := by
  obtain ⟨c, -, -, rfl, -⟩ := ofBuffer_eq_ok_iff.mp h
  rfl

theorem last_lt_of_ofBuffer {b : Buffer} {t : Table} (h : ofBuffer b = .ok t) :
    t.last < 65536 := by
  obtain ⟨c, -, -, rfl, -⟩ := ofBuffer_eq_ok_iff.mp h
  exact c.index.toNat_lt

theorem isSome_entrySpan? (t : Table) (i : Nat) : (t.entrySpan? i).isSome ↔ i ≤ t.last := by
  rw [entrySpan?]
  split
  · simpa using ‹t.last < i›
  · simpa using Nat.le_of_not_lt ‹¬ t.last < i›

end Table

/-- Number of entries in a node: none if its end describes no table. -/
def entryCount (b : Buffer) : Nat :=
  match Table.ofBuffer b with
  | .ok t => t.count
  | .error _ => 0

end IndexNode
