import IndexNode.Proofs.KeyBytes
import IndexNode.Proofs.TableBytes

/-!
# The key of an entry by positions

The whole way from the end of a node to a key, as one rule over positions: the last four bytes say
where the trailer of an entry stands, the trailer says where its key stands, and six checks are made
on the way, each only if those before it were passed.

* `Node.keyAt_of_result`: the node after a lookup of the key.
* `Node.keyAt_of_firstDefect?`: the key of an entry by the first check that fails.
* `Table.stop_segmentSpan_le`, `Table.length_storedKey`: without a failed check both key segments
  stand inside the node, and the key is as long as they are together.
* `keyAt_by_positions`: the rule.
-/

namespace IndexNode

namespace Node

/-- A lookup of the key leaves its defect as the mark, and nothing else. -/
theorem keyAt_of_result {b : Buffer} {i : Int} {r : Except LookupError Bytes}
    (h : ((ofBuffer b).keyAt i).1 = r) : (ofBuffer b).keyAt i = (r, (ofBuffer b).settle r) := by
  refine Prod.ext h ?_
  rw [← h, keyAt, lookup_ofBuffer]

/-- The key of an entry and the node afterwards, by the first check that fails. -/
theorem keyAt_of_firstDefect? {b : Buffer} {t : Table} (ht : Table.ofBuffer b = .ok t) {n : Nat}
    (hn : n ≤ t.last) :
    (ofBuffer b).keyAt n =
      match t.firstDefect? b n with
      | some d => (.error (.corrupt d), ⟨b, some d⟩)
      | none => (.ok (t.storedKey b n).joined, ⟨b, none⟩) := by
  rw [keyAt_of_result (keyAt_eq_storedKey ht hn)]
  cases t.firstDefect? b n <;> rfl

end Node

theorem Table.stop_segmentSpan_le {t : Table} {b : Buffer} {n : Nat}
    (h : t.firstDefect? b n = none) (s : Segment) : (t.segmentSpan b n s).stop ≤ b.size := by
  simp only [firstDefect?] at h
  split_ifs at h with h1 h2 h3 h4 h5 h6
  cases s with
  | first => exact Nat.le_of_not_lt h4
  | second => exact Nat.le_of_not_lt h6

theorem Table.length_storedKey {t : Table} {b : Buffer} {n : Nat}
    (h : t.firstDefect? b n = none) :
    (t.storedKey b n).joined.length =
      t.fieldValue b n (.size .first) + t.fieldValue b n (.size .second) := by
  have hinside := stop_segmentSpan_le h
  rw [SplitKey.joined, List.length_append, storedKey, Span.length_read _ _ (hinside .first),
    Span.length_read _ _ (hinside .second)]
  simp only [Span.length, segmentSpan, Nat.add_sub_cancel_left]

/-- The key of entry `i`, by positions in the node and with numbers that do not wrap. The trailer
stands whole in the node. If one of the checks fails, the first such is answered and left as the
mark; else the key is its two segments, one behind the other, and the node stays unmarked. -/
theorem keyAt_by_positions (b : Buffer) (i : Nat) (hi : i < entryCount b) :
    let length := b.size
    let last := (⟨length - 4, length - 2⟩ : Span).number b
    let entrySize := 8 * (⟨length - 2, length - 1⟩ : Span).number b
    let stop := length - entrySize * (last - i)
    let trailer := (⟨stop - 16, stop⟩ : Span).read b
    let number (start stop : Nat) := BigEndian.value ((⟨start, stop⟩ : Span).cut trailer)
    let first : Span := ⟨number 0 4, number 0 4 + number 4 6⟩
    let second : Span := ⟨number 6 10, number 6 10 + number 10 12⟩
    let refused (d : Defect) : Except LookupError Bytes × Node := (.error (.corrupt d), ⟨b, some d⟩)
    (i ≤ last ∧ entrySize * (last - i) + 16 ≤ length ∧ trailer.length = 16) ∧
    (Node.ofBuffer b).keyAt i =
      (if number 15 16 ≠ 0xcc then refused .magic
      else if number 12 14 ≠ i then refused .index
      else if length < first.start then refused (.offset .first)
      else if length < first.stop then refused (.size .first)
      else if length < second.start then refused (.offset .second)
      else if length < second.stop then refused (.size .second)
      else (.ok (first.read b ++ second.read b), ⟨b, none⟩)) ∧
    ∀ k, ((Node.ofBuffer b).keyAt i).1 = .ok k → k.length = number 4 6 + number 10 12 := by
  intro length last entrySize stop trailer number first second refused
  obtain ⟨t, n, ht, hn, hlast⟩ := hasEntry_iff.mp ⟨Int.natCast_nonneg i, Int.ofNat_lt.mpr hi⟩
  obtain rfl : i = n := Int.ofNat.inj hn
  have hf := Table.fits_of_ofBuffer ht
  have hb := Table.nodeLength_of_ofBuffer ht
  obtain rfl : t = ⟨last, entrySize, length⟩ := Table.eq_of_ofBuffer ht
  have hkey := Node.keyAt_of_firstDefect? ht hlast
  refine ⟨?_, ?_, ?_⟩
  · have hroom := Table.entrySize_le_entryStop hf hlast
    have hlength := Table.length_trailerBytes hf hb hlast
    have hsize := hf.1
    refine ⟨hlast, ?_, hlength⟩
    simp only [Table.entryStop, trailerSize] at hroom hsize
    omega
  · -- The checks of the layout are those over positions, field by field.
    have hdefect : Table.firstDefect? ⟨last, entrySize, length⟩ b i =
        if number 15 16 ≠ 0xcc then some .magic
        else if number 12 14 ≠ i then some .index
        else if length < first.start then some (.offset .first)
        else if length < first.stop then some (.size .first)
        else if length < second.start then some (.offset .second)
        else if length < second.stop then some (.size .second)
        else none := rfl
    rw [hkey, hdefect]
    split_ifs <;> rfl
  · intro k hk
    cases hd : Table.firstDefect? ⟨last, entrySize, length⟩ b i with
    | some d =>
      rw [hkey, hd] at hk
      cases hk
    | none =>
      rw [hkey, hd] at hk
      obtain rfl := Except.ok.inj hk
      exact Table.length_storedKey hd

/-- Two entries. The first segment of both starts at the very end of the node. It is empty in the
first entry and one byte long in the second, where no field of the other segment is right either. -/
def segmentsAtEnd : Buffer :=
  #[97,
    0, 0, 0, 33, 0, 0, 0, 0, 0, 0, 0, 1, 0, 0, 2, 0xcc,
    0, 0, 0, 33, 0, 1, 255, 255, 255, 255, 255, 255, 0, 1, 2, 0xcc]

/-- The first entry has a key, the second one is refused for what is checked first. -/
theorem keyAt_of_segmentsAtEnd :
    0 < entryCount segmentsAtEnd ∧
    (Node.ofBuffer segmentsAtEnd).keyAt 0 = (.ok [97], ⟨segmentsAtEnd, none⟩) ∧
    1 < entryCount segmentsAtEnd ∧
    (Node.ofBuffer segmentsAtEnd).keyAt 1 =
      (.error (.corrupt (.size .first)), ⟨segmentsAtEnd, some (.size .first)⟩) := by
  have hcount : entryCount segmentsAtEnd = 2 := rfl
  have hfirst : 0 < entryCount segmentsAtEnd := by rw [hcount]; decide
  have hsecond : 1 < entryCount segmentsAtEnd := by rw [hcount]; decide
  obtain ⟨-, hkey, -⟩ := keyAt_by_positions segmentsAtEnd 0 hfirst
  obtain ⟨-, hrefused, -⟩ := keyAt_by_positions segmentsAtEnd 1 hsecond
  exact ⟨hfirst, hkey.trans rfl, hsecond, hrefused.trans rfl⟩

end IndexNode
