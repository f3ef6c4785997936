import Mathlib.Tactic.SplitIfs
import IndexNode.Proofs.KeyOrder

/-!
# Keys by their bytes

What a lookup of the whole key gives, said over the layout: the checks in their fixed order, with
sums that do not wrap, then the two pieces of the node.

* `Trailer.segment_eq`: a segment by the numbers in its trailer.
* `Node.keyAt_eq_storedKey`: the key of entry `n` by the bytes of the entry.
* `Entry.eq_storedKey`: what is read from an entry stands there.
* `Defective b n d`: entry `n` is in the table and fails the check for `d` before any other.
* `Node.keyAt_eq_corrupt_iff`: a lookup of the key answers just the defects that there are.
-/

namespace IndexNode

/-! ## Segments -/

/-- A segment is checked for its offset, then for its end. -/
theorem Trailer.segment_eq (t : Trailer) (b : Buffer) (s : Segment) :
    t.segment b s =
      if b.size < t.get (.offset s) then .error (.offset s)
      else if b.size < t.get (.offset s) + t.get (.size s) then .error (.size s)
      else .ok ((t.extent s).span.read b) := by
  have hoffset : (t.extent s).offset.toNat = t.get (.offset s) := rfl
  have hsize : (t.extent s).size.toNat = t.get (.size s) := rfl
  simp only [segment, hoffset, hsize]
  by_cases ho : b.size < t.get (.offset s)
  · rw [if_pos ho, if_pos ho]
  · have hroom : b.size - t.get (.offset s) < t.get (.size s) ↔
        b.size < t.get (.offset s) + t.get (.size s) := by
      omega
    simp only [hroom]

/-! ## Keys of entries -/

namespace Node

variable {b : Buffer} {t : Table} {n : Nat}

theorem keyAt_eq_storedKey (ht : Table.ofBuffer b = .ok t) (hn : n ≤ t.last) :
    ((ofBuffer b).keyAt n).1 =
      match t.firstDefect? b n with
      | some d => .error (.corrupt d)
      | none => .ok (t.storedKey b n).joined := by
  have hf := Table.fits_of_ofBuffer ht
  have hb := Table.nodeLength_of_ofBuffer ht
  rw [keyAt_ofBuffer, Entry.query, Entry.find_eq ht hn, Table.firstDefect?]
  by_cases hm : t.fieldValue b n .magic ≠ entryMagic.toNat
  · rw [if_pos hm, if_pos hm]
  by_cases hi : t.fieldValue b n .index ≠ n
  · rw [if_neg hm, if_neg hm, if_pos hi, if_pos hi]
  rw [if_neg hm, if_neg hm, if_neg hi, if_neg hi]
  simp only [Trailer.splitKey, Trailer.segment_eq, Table.get_trailer hf hb hn,
    Table.span_extent_trailer hf hb hn]
  -- Both sides now make the same four checks in the same order.
  split_ifs <;> rfl

end Node

/-- A key that is read from an entry is the one that stands in its bytes. -/
theorem Entry.eq_storedKey {b : Buffer} {t : Table} {n : Nat} (ht : Table.ofBuffer b = .ok t)
    {e : Entry} (he : find b n = .ok e) {k : SplitKey} (hk : e.trailer.splitKey b = .ok k) :
    k = t.storedKey b n := by
  obtain ⟨t', m, ht', hm, hn, rfl⟩ := eq_of_find he
  cases ht.symm.trans ht'
  cases hm
  have hspan := Table.span_extent_trailer (Table.fits_of_ofBuffer ht)
    (Table.nodeLength_of_ofBuffer ht) hn
  obtain ⟨h1, h2⟩ := Trailer.splitKey_eq_ok_iff.mp hk
  rw [Trailer.segment_eq_ok_iff, hspan] at h1 h2
  obtain ⟨first, second⟩ := k
  rw [Table.storedKey, h1.2, h2.2]

/-! ## Defective entries -/

/-- Entry `n` is in the table, and the check for `d` is the first one that it fails. -/
def Defective (b : Buffer) (n : Nat) (d : Defect) : Prop :=
  ∃ t, Table.ofBuffer b = .ok t ∧ n ≤ t.last ∧ t.firstDefect? b n = some d

variable {b : Buffer} {d : Defect}

theorem Defective.lt_entryCount {n : Nat} (h : Defective b n d) : n < entryCount b := by
  obtain ⟨t, ht, hn, -⟩ := h
  rw [entryCount_of_table ht, Table.count]
  omega

/-- An entry is defective in one way: the check that it fails first. -/
theorem Defective.unique {n : Nat} {e : Defect} (hd : Defective b n d) (he : Defective b n e) :
    d = e := by
  obtain ⟨t, ht, -, hd⟩ := hd
  obtain ⟨u, hu, -, he⟩ := he
  cases ht.symm.trans hu
  exact Option.some.inj (hd.symm.trans he)

/-- A lookup of the key meets the defect of the entry, and no other. -/
theorem Node.keyAt_eq_corrupt_iff {i : Int} :
    ((ofBuffer b).keyAt i).1 = .error (.corrupt d) ↔ ∃ n : Nat, i = n ∧ Defective b n d := by
  constructor
  · intro h
    by_cases hi : HasEntry b i
    · obtain ⟨t, n, ht, rfl, hn⟩ := hasEntry_iff.mp hi
      refine ⟨n, rfl, t, ht, hn, ?_⟩
      rw [Int.ofNat_eq_natCast, keyAt_eq_storedKey ht hn] at h
      split at h
      · rename_i hd
        cases h
        exact hd
      · cases h
    · rw [keyAt, lookup_of_find_error _ _ _ (Slot.find_of_not_hasEntry hi)] at h
      cases h
  · rintro ⟨n, rfl, t, ht, hn, hd⟩
    rw [keyAt_eq_storedKey ht hn, hd]

end IndexNode
