import IndexNode.BigEndian

/-!
# Trailers

The last `trailerSize` bytes of an entry are its trailer. It says where in the node the two
segments of the entry's key stand, which entry it is and how large an entry is.

| bytes  | field          | meaning                                        |
|--------|----------------|------------------------------------------------|
| 0..4   | `offset first`  | position of the first key segment             |
| 4..6   | `size first`    | length of the first key segment               |
| 6..10  | `offset second` | position of the second key segment            |
| 10..12 | `size second`   | length of the second key segment, 0 for none  |
| 12..14 | `index`         | number of the entry                           |
| 14     | `units`         | entry size in units of `sizeUnit` bytes       |
| 15     | `magic`         | `entryMagic`                                  |

* `Trailer.endingAt?_eq_none_iff`: a trailer ends at every position except the first fifteen.
* `Trailer.length_store`: storing a trailer into a block keeps the block's length.
-/

namespace IndexNode

/-- Bytes in a trailer. -/
def trailerSize : Nat := 16

/-- Entry sizes are stored as multiples of this many bytes. -/
def sizeUnit : Nat := 8

/-- The last byte of every trailer. -/
def entryMagic : UInt8 := 0xcc

/-- The two pieces of a stored key. -/
inductive Segment
  | first
  | second
  deriving DecidableEq, Repr

/-- The fields of a trailer. -/
inductive Field
  | offset (s : Segment)
  | size (s : Segment)
  | index
  | units
  | magic
  deriving DecidableEq, Repr

namespace Field

/-- The bytes of a trailer in which the field is stored. -/
def span : Field → Span
  | offset .first => ⟨0, 4⟩
  | size .first => ⟨4, 6⟩
  | offset .second => ⟨6, 10⟩
  | size .second => ⟨10, 12⟩
  | index => ⟨12, 14⟩
  | units => ⟨14, 15⟩
  | magic => ⟨15, 16⟩

/-- The fields in the order in which they are stored. -/
def all : List Field :=
  [offset .first, size .first, offset .second, size .second, index, units, magic]

theorem mem_all (f : Field) : f ∈ all := by
  cases f with
  | offset s | size s => cases s <;> decide
  | index | units | magic => decide

theorem start_lt_stop (f : Field) : f.span.start < f.span.stop := by
  cases f with
  | offset s | size s => cases s <;> decide
  | index | units | magic => decide

theorem stop_le_trailerSize (f : Field) : f.span.stop ≤ trailerSize := by
  cases f with
  | offset s | size s => cases s <;> decide
  | index | units | magic => decide

/-- No two fields share a byte. -/
theorem disjoint {f g : Field} (h : f ≠ g) :
    g.span.stop ≤ f.span.start ∨ f.span.stop ≤ g.span.start := by
  have table : ∀ f ∈ all, ∀ g ∈ all, f ≠ g →
      g.span.stop ≤ f.span.start ∨ f.span.stop ≤ g.span.start := by decide
  exact table f f.mem_all g g.mem_all h

theorem length_cut (f : Field) {block : Bytes} (h : block.length = trailerSize) :
    (f.span.cut block).length = f.span.length :=
  Span.length_cut _ _ (h ▸ f.stop_le_trailerSize)

/-- Writing a field into a trailer keeps its length. -/
theorem length_put (f : Field) {block : Bytes} (h : block.length = trailerSize) (v : Nat) :
    (BigEndian.put block f.span v).length = trailerSize := by
  rw [BigEndian.length_put _ _ _ (Nat.le_of_lt f.start_lt_stop) (h ▸ f.stop_le_trailerSize), h]

end Field

/-- Where a key segment stands in the node. -/
structure Extent where
  offset : UInt32
  size : UInt16
  deriving DecidableEq, Repr

/-- The positions of the segment. They need not lie inside the node. -/
def Extent.span (e : Extent) : Span := ⟨e.offset.toNat, e.offset.toNat + e.size.toNat⟩

/-- What the trailer of an entry says. -/
structure Trailer where
  first : Extent
  second : Extent
  index : UInt16
  units : UInt8
  magic : UInt8
  deriving DecidableEq, Repr

namespace Trailer

def extent (t : Trailer) : Segment → Extent
  | .first => t.first
  | .second => t.second

/-- The number held by a field. -/
def get (t : Trailer) : Field → Nat
  | .offset s => (t.extent s).offset.toNat
  | .size s => (t.extent s).size.toNat
  | .index => t.index.toNat
  | .units => t.units.toNat
  | .magic => t.magic.toNat

def hasMagic (t : Trailer) : Bool := t.magic == entryMagic

/-- Length of the whole key. -/
def keyLength (t : Trailer) : Nat := t.first.size.toNat + t.second.size.toNat

/-- Size in bytes of the entry that the trailer closes. -/
def entrySize (t : Trailer) : Nat := t.units.toNat * sizeUnit

/-- The trailer stored in `trailerSize` bytes. -/
def decode (block : Bytes) : Trailer :=
  let field (f : Field) : UInt32 := BigEndian.decode32 (f.span.cut block)
  { first := ⟨field (.offset .first), (field (.size .first)).toUInt16⟩
    second := ⟨field (.offset .second), (field (.size .second)).toUInt16⟩
    index := (field .index).toUInt16
    units := (field .units).toUInt8
    magic := (field .magic).toUInt8 }

/-- `block` with some fields of the trailer written to their places. -/
def write (t : Trailer) (fs : List Field) (block : Bytes) : Bytes :=
  fs.foldl (fun b f => BigEndian.put b f.span (t.get f)) block

/-- `block` with every field of the trailer written to its place. -/
def store (t : Trailer) (block : Bytes) : Bytes := t.write Field.all block

/-- The stored form of a trailer. -/
def encode (t : Trailer) : Bytes := t.store (zeros trailerSize)

/-- The trailer that ends before position `stop` of the buffer, if enough bytes stand there. -/
def endingAt? (b : Buffer) (stop : Nat) : Option Trailer :=
  if stop < trailerSize then none
  else some (decode ((⟨stop - trailerSize, stop⟩ : Span).read b))

theorem endingAt?_eq_none_iff (b : Buffer) (stop : Nat) :
    endingAt? b stop = none ↔ stop < trailerSize := by
  simp [endingAt?]

theorem length_write (t : Trailer) (fs : List Field) {block : Bytes}
    (h : block.length = trailerSize) : (t.write fs block).length = trailerSize := by
  induction fs generalizing block with
  | nil => exact h
  | cons f fs ih => exact ih (f.length_put h _)

theorem length_store (t : Trailer) {block : Bytes} (h : block.length = trailerSize) :
    (t.store block).length = trailerSize := t.length_write Field.all h

end Trailer

end IndexNode
