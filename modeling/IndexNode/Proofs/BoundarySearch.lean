import IndexNode.Proofs.Soundness

/-!
# Searching past both ends

A search goes by the sign of `Node.probe`, which says on which side of an entry the key belongs.
An entry that is missing has a side too, below all keys in front of the first entry and above all
keys behind the last. So on sorted keys the sign never grows from one index to a later one, also
across the ends.

* `HoldsKeys`: the keys of a node, for a node that gives all of them (`exists_holdsKeys_iff`).
* `HoldsKeys.probe_cases`: a probe is one of the two sentinels or the order against a key.
* `HoldsKeys.pos_of_lt`, `HoldsKeys.neg_of_lt`: a sign carries over to all earlier or all later
  indices.
* `probes_of_sorted_keys`: the signs on sorted keys, and the match on strictly sorted ones.
-/

namespace IndexNode

/-! ## Codes of an order -/

/-- The code of an order stands to zero as the key does to the entry. -/
theorem Outcome.compare_code (o : Ordering) : compare (ordered o).code 0 = o := by
  cases o <;> rfl

section Code

variable (x y : Bytes)

theorem code_compare_pos_iff : 0 < (Outcome.ordered (compare x y)).code ↔ y < x := by
  rw [← Std.compare_eq_gt, Outcome.compare_code, Std.compare_eq_gt]

theorem code_compare_neg_iff : (Outcome.ordered (compare x y)).code < 0 ↔ x < y := by
  rw [← Std.compare_eq_lt, Outcome.compare_code, Std.compare_eq_lt]

theorem code_compare_eq_zero_iff : (Outcome.ordered (compare x y)).code = 0 ↔ x = y := by
  rw [← Std.compare_eq_eq_iff_eq, Outcome.compare_code, Std.compare_eq_eq_iff_eq]

end Code

/-! ## Probes -/

/-- The comparison of `key` with entry `i`, for callers that go by its sign. -/
def Node.probe (n : Node) (key : Bytes) (i : Int) : Int := (n.compareAt key i).1.code

namespace Node

variable {b : Buffer} {key : Bytes} {i : Int}

theorem probe_of_not_hasEntry (h : ¬ HasEntry b i) :
    (ofBuffer b).probe key i = (Outcome.notFound (.past i)).code := by
  rw [probe, compareAt, lookup_of_find_error _ _ _ (Slot.find_of_not_hasEntry h)]
  rfl

theorem probe_of_neg (hi : i < 0) : (ofBuffer b).probe key i = lowCode := by
  have hnone : ¬ HasEntry b i := fun h => Int.not_lt.mpr h.1 hi
  rw [probe_of_not_hasEntry hnone, Bound.past, if_pos hi]
  rfl

theorem probe_of_count_le (hi : entryCount b ≤ i) : (ofBuffer b).probe key i = highCode := by
  have hnone : ¬ HasEntry b i := fun h => Int.not_lt.mpr hi h.2
  have hpos : ¬ i < 0 := by omega
  rw [probe_of_not_hasEntry hnone, Bound.past, if_neg hpos]
  rfl

theorem probe_of_keyAt_ok {k : Bytes} (h : ((ofBuffer b).keyAt i).1 = .ok k) :
    (ofBuffer b).probe key i = (Outcome.ordered (compare key k)).code := by
  rw [probe, compareAt_of_keyAt_ok h]

end Node

/-! ## The keys of a node -/

/-- The entries of the node over `b` give the keys `ks`, in this order. -/
structure HoldsKeys (b : Buffer) (ks : List Bytes) : Prop where
  length_eq : ks.length = entryCount b
  keyAt_eq : ∀ n (hn : n < ks.length), ((Node.ofBuffer b).keyAt n).1 = .ok ks[n]

/-- There are such keys exactly if each of them can be read. -/
theorem exists_holdsKeys_iff {b : Buffer} : (∃ ks, HoldsKeys b ks) ↔
    ∀ n : Nat, n < entryCount b → ∃ k, ((Node.ofBuffer b).keyAt n).1 = .ok k := by
  constructor
  · rintro ⟨ks, h⟩ n hn
    exact ⟨_, h.keyAt_eq n (h.length_eq ▸ hn)⟩
  · intro h
    refine ⟨List.ofFn fun n : Fin (entryCount b) => (h n n.isLt).choose, List.length_ofFn, ?_⟩
    intro n hn
    rw [List.getElem_ofFn]
    rw [List.length_ofFn] at hn
    exact (h n hn).choose_spec

namespace HoldsKeys

variable {b : Buffer} {ks : List Bytes} (h : HoldsKeys b ks)
include h

theorem not_defective (n : Nat) (d : Defect) : ¬ Defective b n d :=
  Node.not_defective_of_readable (exists_holdsKeys_iff.mp ⟨ks, h⟩) n d

/-- A probe is one of the two sentinels or the order of the key against a stored one. -/
theorem probe_cases (key : Bytes) (i : Int) :
    (i < 0 ∧ (Node.ofBuffer b).probe key i = lowCode) ∨
    (∃ n, ∃ hn : n < ks.length, i = n ∧
      (Node.ofBuffer b).probe key i = (Outcome.ordered (compare key ks[n])).code) ∨
    (entryCount b ≤ i ∧ (Node.ofBuffer b).probe key i = highCode) := by
  by_cases hneg : i < 0
  · exact .inl ⟨hneg, Node.probe_of_neg hneg⟩
  · obtain ⟨n, rfl⟩ := Int.eq_ofNat_of_zero_le (Int.not_lt.mp hneg)
    by_cases hn : n < ks.length
    · exact .inr (.inl ⟨n, hn, rfl, Node.probe_of_keyAt_ok (h.keyAt_eq n hn)⟩)
    · have hcount : (entryCount b : Int) ≤ n := by
        rw [← h.length_eq]
        omega
      exact .inr (.inr ⟨hcount, Node.probe_of_count_le hcount⟩)

theorem probe_eq_zero_iff {key : Bytes} {i : Int} : (Node.ofBuffer b).probe key i = 0 ↔
    ∃ n, ∃ hn : n < ks.length, i = n ∧ key = ks[n] := by
  constructor
  · intro hzero
    obtain ⟨-, hlow⟩ | ⟨n, hn, rfl, hcode⟩ | ⟨-, hhigh⟩ := h.probe_cases key i
    · rw [hlow] at hzero
      cases hzero
    · rw [hcode, code_compare_eq_zero_iff] at hzero
      exact ⟨n, hn, rfl, hzero⟩
    · rw [hhigh] at hzero
      cases hzero
  · rintro ⟨n, hn, rfl, rfl⟩
    rw [Node.probe_of_keyAt_ok (h.keyAt_eq n hn), code_compare_eq_zero_iff]

/-! ## Sorted keys -/

section Sorted

variable (hle : ks.Pairwise (· ≤ ·)) {key : Bytes} {i j : Int}
include hle

/-- Where the key belongs behind an entry, it belongs behind all earlier ones. -/
theorem pos_of_lt (hij : i < j) (hj : 0 < (Node.ofBuffer b).probe key j) :
    0 < (Node.ofBuffer b).probe key i := by
  obtain ⟨-, hlow⟩ | ⟨m, hm, rfl, hcode⟩ | ⟨hi, -⟩ := h.probe_cases key i
  · rw [hlow]
    decide
  · obtain ⟨hneg, -⟩ | ⟨n, hn, rfl, hcode'⟩ | ⟨-, hhigh⟩ := h.probe_cases key j
    · omega
    · rw [hcode', code_compare_pos_iff] at hj
      rw [hcode, code_compare_pos_iff]
      have hkeys : ks[m] ≤ ks[n] := List.pairwise_iff_getElem.mp hle m n hm hn (by omega)
      exact Std.lt_of_le_of_lt hkeys hj
    · rw [hhigh] at hj
      cases hj
  · -- Behind the last entry no later probe is positive.
    rw [Node.probe_of_count_le (by omega)] at hj
    cases hj

/-- Where the key belongs before an entry, it belongs before all later ones. -/
theorem neg_of_lt (hij : i < j) (hi : (Node.ofBuffer b).probe key i < 0) :
    (Node.ofBuffer b).probe key j < 0 := by
  obtain ⟨hneg, -⟩ | ⟨n, hn, rfl, hcode⟩ | ⟨-, hhigh⟩ := h.probe_cases key j
  · -- Before the first entry no earlier probe is negative.
    rw [Node.probe_of_neg (by omega)] at hi
    cases hi
  · obtain ⟨-, hlow⟩ | ⟨m, hm, rfl, hcode'⟩ | ⟨hcount, -⟩ := h.probe_cases key i
    · rw [hlow] at hi
      cases hi
    · rw [hcode', code_compare_neg_iff] at hi
      rw [hcode, code_compare_neg_iff]
      have hkeys : ks[m] ≤ ks[n] := List.pairwise_iff_getElem.mp hle m n hm hn (by omega)
      exact Std.lt_of_lt_of_le hi hkeys
    · have hlength := h.length_eq
      omega
  · rw [hhigh]
    decide

theorem sign_le_of_lt (hij : i < j) :
    ((Node.ofBuffer b).probe key j).sign ≤ ((Node.ofBuffer b).probe key i).sign := by
  rcases Int.lt_trichotomy ((Node.ofBuffer b).probe key j) 0 with hj | hj | hj
  · have hsign := Int.sign_trichotomy ((Node.ofBuffer b).probe key i)
    rw [Int.sign_eq_neg_one_of_neg hj]
    omega
  · have hi : 0 ≤ (Node.ofBuffer b).probe key i := by
      have hneg := mt (h.neg_of_lt hle hij) (Int.not_lt.mpr (Int.le_of_eq hj.symm))
      exact Int.not_lt.mp hneg
    rw [hj, Int.sign_zero]
    exact Int.sign_nonneg_iff.mpr hi
  · have hi : 0 < (Node.ofBuffer b).probe key i := h.pos_of_lt hle hij hj
    exact Int.le_of_eq ((Int.sign_eq_one_of_pos hj).trans (Int.sign_eq_one_of_pos hi).symm)

end Sorted

/-- On strictly sorted keys at most one probe is zero. -/
theorem eq_of_probe_eq_zero (hlt : ks.Pairwise (· < ·)) {key : Bytes} {i j : Int}
    (hi : (Node.ofBuffer b).probe key i = 0) (hj : (Node.ofBuffer b).probe key j = 0) : i = j := by
  obtain ⟨m, hm, rfl, rfl⟩ := h.probe_eq_zero_iff.mp hi
  obtain ⟨n, hn, rfl, hkeys⟩ := h.probe_eq_zero_iff.mp hj
  rcases Nat.lt_trichotomy m n with hmn | rfl | hnm
  · exact absurd hkeys (Std.ne_of_lt (List.pairwise_iff_getElem.mp hlt m n hm hn hmn))
  · rfl
  · exact absurd hkeys.symm (Std.ne_of_lt (List.pairwise_iff_getElem.mp hlt n m hn hm hnm))

/-- A probe is zero exactly for a stored key. -/
theorem exists_probe_eq_zero_iff (key : Bytes) :
    (∃ i, (Node.ofBuffer b).probe key i = 0) ↔ key ∈ ks := by
  rw [List.mem_iff_getElem]
  constructor
  · rintro ⟨i, hi⟩
    obtain ⟨n, hn, -, rfl⟩ := h.probe_eq_zero_iff.mp hi
    exact ⟨n, hn, rfl⟩
  · rintro ⟨n, hn, rfl⟩
    exact ⟨n, h.probe_eq_zero_iff.mpr ⟨n, hn, rfl, rfl⟩⟩

end HoldsKeys

/-- The signs of the probes of a node whose keys do not decrease, for any key to look up and all
indices, those of no entry included. They never grow towards later indices, from positive before
the first entry to negative behind the last. If the keys increase strictly, a probe is zero at no
more than one index, and at one exactly if the key is stored. Probes leave the node as it is. -/
theorem probes_of_sorted_keys (b : Buffer) (ks : List Bytes) (h : HoldsKeys b ks)
    (hle : ks.Pairwise (· ≤ ·)) (key : Bytes) :
    (∀ i j : Int, i < j →
      ((Node.ofBuffer b).probe key j).sign ≤ ((Node.ofBuffer b).probe key i).sign) ∧
    (∀ i : Int, i < 0 → 0 < (Node.ofBuffer b).probe key i) ∧
    (∀ i : Int, entryCount b ≤ i → (Node.ofBuffer b).probe key i < 0) ∧
    (ks.Pairwise (· < ·) →
      (∀ i j, (Node.ofBuffer b).probe key i = 0 → (Node.ofBuffer b).probe key j = 0 → i = j) ∧
      ((∃ i, (Node.ofBuffer b).probe key i = 0) ↔ key ∈ ks)) ∧
    ∀ ps : List (Bytes × Int),
      (Node.ofBuffer b).after (ps.map fun p => .lookup (.compare p.1 p.2)) = Node.ofBuffer b := by
  refine ⟨?_, ?_, ?_, ?_, ?_⟩
  · intro i j hij
    exact h.sign_le_of_lt hle hij
  · intro i hi
    rw [Node.probe_of_neg hi]
    decide
  · intro i hi
    rw [Node.probe_of_count_le hi]
    decide
  · intro hlt
    exact ⟨fun i j => h.eq_of_probe_eq_zero hlt, h.exists_probe_eq_zero_iff key⟩
  · intro ps
    have hmap : (ps.map fun p => Request.lookup (.compare p.1 p.2)) =
        (ps.map fun p => Lookup.compare p.1 p.2).map .lookup := by
      rw [List.map_map]
      rfl
    rw [hmap]
    exact (Node.lookups_of_not_defective h.not_defective _).1

/-- The keys `c` and `ca`, which share their first byte. -/
def prefixPair : Buffer :=
  #[99, 97, 0, 0, 0, 0, 0, 1, 0, 0, 0, 0, 0, 0, 0, 0, 2, 0xcc,
    0, 0, 0, 0, 0, 1, 0, 0, 0, 1, 0, 1, 0, 1, 2, 0xcc]

/-- `ca` is found, `b` is not, and a probe behind the last entry keeps below the others. -/
theorem probes_of_prefixPair :
    HoldsKeys prefixPair [[99], [99, 97]] ∧
    [[99], [99, 97]].Pairwise (fun x y : Bytes => x ≤ y) ∧
    [[99], [99, 97]].Pairwise (fun x y : Bytes => x < y) ∧
    (∃ i, (Node.ofBuffer prefixPair).probe [99, 97] i = 0) ∧
    (¬ ∃ i, (Node.ofBuffer prefixPair).probe [98] i = 0) ∧
    ((Node.ofBuffer prefixPair).probe [99, 97] 2).sign ≤
      ((Node.ofBuffer prefixPair).probe [99, 97] 1).sign := by
  have hkeys : HoldsKeys prefixPair [[99], [99, 97]] :=
    { length_eq := rfl
      keyAt_eq := fun
        | 0, _ => rfl
        | 1, _ => rfl }
  have hle : [[99], [99, 97]].Pairwise (fun x y : Bytes => x ≤ y) := by decide
  have hlt : [[99], [99, 97]].Pairwise (fun x y : Bytes => x < y) := by decide
  obtain ⟨hsign, -, -, hfound, -⟩ := probes_of_sorted_keys _ _ hkeys hle [99, 97]
  obtain ⟨-, -, -, hmissing, -⟩ := probes_of_sorted_keys _ _ hkeys hle [98]
  refine ⟨hkeys, hle, hlt, (hfound hlt).2.mpr (by decide), ?_, hsign 1 2 (by decide)⟩
  rw [(hmissing hlt).2]
  decide

end IndexNode
