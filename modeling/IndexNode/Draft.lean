import IndexNode.Table

/-!
# Drafts

A draft is a node under construction: the records it is to hold, in order. `Draft.build` lays it
out with the keys at the front and the entries, all as large as the widest payload asks for, at
the end. Numbers that do not fit their trailer field keep their low bytes.

`setField?` overwrites one field of one trailer in a finished node.

* `Draft.widest_add_trailerSize_le`: entries have room for the longest payload and a trailer.
* `length_entryBytes`: every entry is as long as the entry size.
-/

namespace IndexNode

/-- What is stored for one entry. The second segment is empty for a key in one piece. -/
structure Record where
  first : Bytes
  second : Bytes
  payload : Bytes
  deriving DecidableEq, Repr

/-- All key bytes, in the order in which they are laid out. -/
def Record.keyBytes (r : Record) : Bytes := r.first ++ r.second

/-- The trailer of record `r` as entry `i`, with its key laid out from position `offset` on. An
absent second segment has offset zero. -/
def Record.trailer (r : Record) (i offset entrySize : Nat) : Trailer :=
  { first := ⟨UInt32.ofNat offset, UInt16.ofNat r.first.length⟩
    second :=
      ⟨if r.second.isEmpty then 0 else UInt32.ofNat (offset + r.first.length),
        UInt16.ofNat r.second.length⟩
    index := UInt16.ofNat i
    units := UInt8.ofNat (entrySize / sizeUnit)
    magic := entryMagic }

/-- An entry of `entrySize` bytes: the payload, filled up with zeros, and the trailer. -/
def entryBytes (entrySize : Nat) (payload : Bytes) (t : Trailer) : Bytes :=
  payload ++ zeros (entrySize - trailerSize - payload.length) ++ t.encode

/-- The entries of the records, numbered from `i` on, with keys laid out from `offset` on. -/
def entryBlock (entrySize : Nat) : List Record → (i offset : Nat) → Bytes
  | [], _, _ => []
  | r :: rs, i, offset =>
    entryBytes entrySize r.payload (r.trailer i offset entrySize) ++
      entryBlock entrySize rs (i + 1) (offset + r.keyBytes.length)

/-- A node under construction. -/
structure Draft where
  /-- Zero bytes before the first key. -/
  lead : Nat
  records : Array Record
  deriving DecidableEq, Repr

namespace Draft

def empty : Draft := ⟨0, #[]⟩

/-- One instruction to a draft. -/
inductive Step
  /-- Start the node with this many zero bytes. -/
  | lead (n : Nat)
  /-- Add an entry whose key is stored in two segments. -/
  | key (first second : Bytes)
  /-- Set the payload of the newest entry, if there is one. -/
  | payload (p : Bytes)
  deriving DecidableEq, Repr

def step (d : Draft) : Step → Draft
  | .lead n => { d with lead := n }
  | .key first second => { d with records := d.records.push ⟨first, second, []⟩ }
  | .payload p =>
    { d with records := d.records.modify (d.records.size - 1) fun r => { r with payload := p } }

def ofSteps (steps : List Step) : Draft := steps.foldl step empty

/-- Length of the longest payload. -/
def widest (d : Draft) : Nat := (d.records.toList.map (·.payload.length)).foldl max 0

/-- The least multiple of `sizeUnit` with room for the longest payload and a trailer. -/
def entrySize (d : Draft) : Nat := (d.widest + trailerSize + (sizeUnit - 1)) / sizeUnit * sizeUnit

/-- The bytes of the finished node. -/
def build (d : Draft) : Buffer :=
  let keys := d.records.toList.flatMap Record.keyBytes
  (zeros d.lead ++ keys ++ entryBlock d.entrySize d.records.toList 0 d.lead).toArray

theorem widest_add_trailerSize_le (d : Draft) : d.widest + trailerSize ≤ d.entrySize := by
  simp only [entrySize, sizeUnit]
  omega

end Draft

/-- The buffer with `v` written into field `f` of the trailer of entry `i`; nothing if the buffer
has no such entry. The low bytes of `v` that fit are kept. -/
def setField? (b : Buffer) (i : Nat) (f : Field) (v : Nat) : Option Buffer :=
  match Table.ofBuffer b with
  | .error _ => none
  | .ok t =>
    (t.trailerSpan? i).map fun s =>
      (BigEndian.put b.toList (f.span.shift s.start) v).toArray

theorem length_entryBytes {entrySize : Nat} {payload : Bytes} (t : Trailer)
    (h : payload.length + trailerSize ≤ entrySize) :
    (entryBytes entrySize payload t).length = entrySize := by
  rw [entryBytes, List.length_append, List.length_append, Trailer.encode,
    Trailer.length_store t (by simp [zeros])]
  simp only [zeros, List.length_replicate]
  omega

end IndexNode
