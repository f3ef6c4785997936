import IndexNode.Defect

/-!
# Stored keys

The key of an entry is stored in two segments anywhere in the node; the trailer says where. The
stored key is the first segment followed by the second, and keys are ordered byte by byte.

* `Trailer.segment_eq_ok_iff`: a segment is read exactly if it ends inside the node.
* `Trailer.compareKey` looks at the second segment only if the first is a prefix of the key
  that is looked up.
-/

namespace IndexNode

/-- A stored key, as its two segments. -/
structure SplitKey where
  first : Bytes
  second : Bytes
  deriving DecidableEq, Repr

/-- The whole key. -/
def SplitKey.joined (k : SplitKey) : Bytes := k.first ++ k.second

namespace Trailer

/-- The bytes of a key segment, which has to lie inside the node. -/
def segment (t : Trailer) (b : Buffer) (s : Segment) : Except Defect Bytes :=
  let e := t.extent s
  if b.size < e.offset.toNat then .error (.offset s)
  else if b.size - e.offset.toNat < e.size.toNat then .error (.size s)
  else .ok (e.span.read b)

/-- Both segments of the key. The first is checked before the second. -/
def splitKey (t : Trailer) (b : Buffer) : Except Defect SplitKey := do
  let first ← t.segment b .first
  let second ← t.segment b .second
  return ⟨first, second⟩

/-- The order of `key` relative to the stored key. The second segment is not looked at if the
first one decides. -/
def compareKey (t : Trailer) (b : Buffer) (key : Bytes) : Except Defect Ordering := do
  let first ← t.segment b .first
  match compare (key.take first.length) first with
  | .eq =>
    let second ← t.segment b .second
    return compare (key.drop first.length) second
  | o => return o

theorem segment_eq_ok_iff {t : Trailer} {b : Buffer} {s : Segment} {bytes : Bytes} :
    t.segment b s = .ok bytes ↔
      (t.extent s).span.stop ≤ b.size ∧ (t.extent s).span.read b = bytes := by
  simp only [segment, Extent.span]
  repeat' split
  all_goals simp only [reduceCtorEq, Except.ok.injEq, false_iff, not_and]
  · intros; omega
  · intros; omega
  · exact ⟨fun h => ⟨by omega, h⟩, fun h => h.2⟩

end Trailer

end IndexNode
