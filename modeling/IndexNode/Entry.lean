import IndexNode.Key
import IndexNode.Table

/-!
# Entries

An entry is found in two steps. `Slot.find` places the index in the table, which fails only past
a bound; `Slot.read` decodes the trailer at the end of the slot and checks that it belongs there.

* `Slot.index_of_find`: the slot found for an index carries that index.
* `Slot.span_of_read`: the entry read from a slot fills it.
-/

namespace IndexNode

/-- The place of an entry in the table of its node. -/
structure Slot where
  index : Nat
  span : Span
  deriving DecidableEq, Repr

/-- An entry whose trailer has been checked. -/
structure Entry where
  span : Span
  trailer : Trailer
  deriving DecidableEq, Repr

namespace Slot

/-- The slot of entry `i`, or the bound that `i` lies past. -/
def find (b : Buffer) : Int → Except Bound Slot
  | .negSucc _ => .error .low
  | .ofNat i =>
    match Table.ofBuffer b with
    | .error _ => .error .high
    | .ok t =>
      match t.entrySpan? i with
      | none => .error .high
      | some s => .ok ⟨i, s⟩

/-- The entry in the slot. Its trailer must have the magic and carry the index of the slot. -/
def read (s : Slot) (b : Buffer) : Except LookupError Entry :=
  match Trailer.endingAt? b s.span.stop with
  | none => .error (.notFound .high)
  | some t =>
    if !t.hasMagic then .error (.corrupt .magic)
    else if t.index.toNat ≠ s.index then .error (.corrupt .index)
    else .ok ⟨s.span, t⟩

theorem index_of_find {b : Buffer} {i : Int} {s : Slot} (h : find b i = .ok s) :
    (s.index : Int) = i := by
  unfold find at h
  repeat' split at h
  all_goals cases h
  rfl

theorem span_of_read {s : Slot} {b : Buffer} {e : Entry} (h : s.read b = .ok e) :
    e.span = s.span := by
  unfold read at h
  repeat' split at h
  all_goals cases h
  rfl

end Slot

namespace Entry

/-- Entry `i` of a node. -/
def find (b : Buffer) (i : Int) : Except LookupError Entry :=
  match Slot.find b i with
  | .error bound => .error (.notFound bound)
  | .ok s => s.read b

/-- What stands in the entry before its trailer. -/
def payload (e : Entry) (b : Buffer) : Bytes := (e.span.dropEnd trailerSize).read b

end Entry

end IndexNode
