import IndexNode.Entry
import IndexNode.Outcome

/-!
# Nodes

A node is its bytes and a mark, the first defect found since the mark was last cleared. Every
lookup goes through `Node.lookup`, in three steps: an index past a bound is not found, whether
or not the node is marked; a marked node answers its mark without being read; else the entry is
read, and a defect met on the way becomes the mark.

* `Node.buffer_lookup`: no lookup changes the bytes.
* `Node.lookup_of_find_error`: past a bound the lookup fails and leaves the node as it is.
* `Node.lookup_of_marked`: on a marked node every other lookup answers the mark.
-/

namespace IndexNode

/-- The bytes of a node and the first defect found in them. -/
structure Node where
  buffer : Buffer
  mark : Option Defect
  deriving DecidableEq, Repr

/-- What an entry read from `slot` gives, as a lookup that ignores the mark. -/
def Slot.query {α : Type} (s : Slot) (b : Buffer) (read : Entry → Except Defect α) :
    Except LookupError α :=
  match s.read b with
  | .error e => .error e
  | .ok entry =>
    match read entry with
    | .error d => .error (.corrupt d)
    | .ok a => .ok a

namespace Node

/-- A node that has not been looked at. -/
def ofBuffer (b : Buffer) : Node := ⟨b, none⟩

/-- Number of bytes. -/
def length (n : Node) : Nat := n.buffer.size

/-- Number of entries. -/
def count (n : Node) : Nat := entryCount n.buffer

def isCorrupt (n : Node) : Bool := n.mark.isSome

/-- Marks the node with a defect. A mark that is already there stays. -/
def record (n : Node) (d : Defect) : Node := { n with mark := n.mark.or (some d) }

/-- Takes the mark off. -/
def clear (n : Node) : Node := { n with mark := none }

/-- The node after a lookup with this result: a defect that was met is recorded. -/
def settle {α : Type} (n : Node) : Except LookupError α → Node
  | .error (.corrupt d) => n.record d
  | .error (.notFound _) => n
  | .ok _ => n

/-- Finds entry `i` and applies `read` to it. -/
def lookup {α : Type} (n : Node) (i : Int) (read : Entry → Except Defect α) :
    Except LookupError α × Node :=
  match Slot.find n.buffer i with
  | .error bound => (.error (.notFound bound), n)
  | .ok s =>
    match n.mark with
    | some d => (.error (.corrupt d), n)
    | none =>
      let r := s.query n.buffer read
      (r, n.settle r)

/-- The trailer of entry `i`. -/
def trailerAt (n : Node) (i : Int) : Except LookupError Trailer × Node :=
  n.lookup i fun e => .ok e.trailer

/-- The whole key of entry `i`. -/
def keyAt (n : Node) (i : Int) : Except LookupError Bytes × Node :=
  n.lookup i fun e => (e.trailer.splitKey n.buffer).map SplitKey.joined

/-- What entry `i` holds before its trailer, with any padding. -/
def payloadAt (n : Node) (i : Int) : Except LookupError Bytes × Node :=
  n.lookup i fun e => .ok (e.payload n.buffer)

/-- How `key` compares with the key of entry `i`. -/
def compareAt (n : Node) (key : Bytes) (i : Int) : Outcome × Node :=
  let (r, n') := n.lookup i fun e => e.trailer.compareKey n.buffer key
  (Outcome.ofResult r, n')

section Lemmas

variable {α : Type} (n : Node) (i : Int) (read : Entry → Except Defect α)

@[simp] theorem buffer_record (d : Defect) : (n.record d).buffer = n.buffer := rfl

@[simp] theorem buffer_settle (r : Except LookupError α) : (n.settle r).buffer = n.buffer := by
  unfold settle
  split <;> rfl

theorem record_of_marked {d : Defect} (h : n.mark = some d) (e : Defect) : n.record e = n := by
  rw [record, h, Option.some_or, ← h]

@[simp] theorem buffer_lookup : (n.lookup i read).2.buffer = n.buffer := by
  unfold lookup
  repeat' split
  all_goals simp

theorem lookup_of_find_error {b : Bound} (h : Slot.find n.buffer i = .error b) :
    n.lookup i read = (.error (.notFound b), n) := by
  simp [lookup, h]

theorem lookup_of_marked {s : Slot} (h : Slot.find n.buffer i = .ok s) {d : Defect}
    (hd : n.mark = some d) : n.lookup i read = (.error (.corrupt d), n) := by
  simp [lookup, h, hd]

theorem lookup_of_unmarked {s : Slot} (h : Slot.find n.buffer i = .ok s) (hd : n.mark = none) :
    n.lookup i read = (s.query n.buffer read, n.settle (s.query n.buffer read)) := by
  simp [lookup, h, hd]

end Lemmas

end Node

end IndexNode
