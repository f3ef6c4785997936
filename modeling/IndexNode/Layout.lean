import IndexNode.BigEndian.Value
import IndexNode.Entry

/-!
# The layout of an entry

What the bytes of an entry say, by their positions in the node and with exact numbers, without
the steps by which an entry is found and read.

* `Table.firstDefect?`: the first check that an entry fails, in the fixed order of the checks.
* `Table.storedKey`: the two pieces of the node that make up the key of an entry.
* `Table.entrySize_le_entryStop`: in a table that fits, an entry has room in front of its end.
* `Table.length_trailerBytes`: so it ends with a whole trailer.
* `Table.entrySpan?_eq`: the span of an entry is the one that ends there.
* `Table.trailerSpan?_eq`: its last bytes are the span of its trailer.
-/

namespace IndexNode

namespace Table

/-- Where entry `i` ends. -/
def entryStop (t : Table) (i : Nat) : Nat := t.nodeLength - t.entrySize * (t.last - i)

/-- Where entry `i` starts and ends. -/
def entrySpan (t : Table) (i : Nat) : Span := ⟨t.entryStop i - t.entrySize, t.entryStop i⟩

/-- The bytes of the trailer of entry `i`. -/
def trailerBytes (t : Table) (b : Buffer) (i : Nat) : Bytes :=
  (⟨t.entryStop i - trailerSize, t.entryStop i⟩ : Span).read b

/-- The number stored in a field of the trailer of entry `i`. -/
def fieldValue (t : Table) (b : Buffer) (i : Nat) (f : Field) : Nat :=
  BigEndian.value (f.span.cut (t.trailerBytes b i))

/-- The first check that entry `i` fails. -/
def firstDefect? (t : Table) (b : Buffer) (i : Nat) : Option Defect :=
  let field := t.fieldValue b i
  if field .magic ≠ entryMagic.toNat then some .magic
  else if field .index ≠ i then some .index
  else if b.size < field (.offset .first) then some (.offset .first)
  else if b.size < field (.offset .first) + field (.size .first) then some (.size .first)
  else if b.size < field (.offset .second) then some (.offset .second)
  else if b.size < field (.offset .second) + field (.size .second) then some (.size .second)
  else none

/-- The positions of a key segment of entry `i`. -/
def segmentSpan (t : Table) (b : Buffer) (i : Nat) (s : Segment) : Span :=
  let start := t.fieldValue b i (.offset s)
  ⟨start, start + t.fieldValue b i (.size s)⟩

/-- The key of entry `i`, segment by segment. -/
def storedKey (t : Table) (b : Buffer) (i : Nat) : SplitKey :=
  ⟨(t.segmentSpan b i .first).read b, (t.segmentSpan b i .second).read b⟩

/-- The entries before the last leave room for it and for each other. -/
theorem entrySize_le_entryStop {t : Table} (hf : t.Fits) {i : Nat} (hi : i ≤ t.last) :
    t.entrySize ≤ t.entryStop i := by
  have hback : t.entrySize * (t.last - i) + t.entrySize ≤ t.nodeLength := by
    rw [← Nat.mul_succ]
    exact Nat.le_trans (Nat.mul_le_mul_left _ (by simp only [count]; omega)) hf.2
  simp only [entryStop]
  omega

/-- The span of an entry, counted from the last entry and not from the first. -/
theorem entrySpan?_eq {t : Table} (hf : t.Fits) {i : Nat} (hi : i ≤ t.last) :
    t.entrySpan? i = some (t.entrySpan i) := by
  have hone : t.entrySize * (t.count - i) = t.entrySize * (t.last - i) + t.entrySize := by
    rw [← Nat.mul_succ]
    congr 1
    simp only [count]
    omega
  have hstop := entrySize_le_entryStop hf hi
  rw [entrySpan?, if_neg (Nat.not_lt.mpr hi)]
  simp only [entrySpan, entryStop, Option.some.injEq, Span.mk.injEq] at hstop ⊢
  omega

/-- The trailer of an entry is the end of its span. -/
theorem trailerSpan?_eq {t : Table} (hf : t.Fits) {i : Nat} (hi : i ≤ t.last) :
    t.trailerSpan? i = some ((t.entrySpan i).takeEnd trailerSize) := by
  rw [trailerSpan?, entrySpan?_eq hf hi, Option.map_some]

theorem length_trailerBytes {t : Table} {b : Buffer} (hf : t.Fits) (hb : t.nodeLength = b.size)
    {i : Nat} (hi : i ≤ t.last) : (t.trailerBytes b i).length = trailerSize := by
  have hsize := hf.1
  have hstop := entrySize_le_entryStop hf hi
  rw [trailerBytes, Span.length_read]
  · simp only [Span.length]
    omega
  · simp only [entryStop]
    omega

end Table

end IndexNode
