import IndexNode.Proofs.Soundness

/-!
# Lookups past the ends

A lookup answers that there is nothing to find for the indices outside the table, and for no
others. This is a matter of the index and the table alone: neither the mark nor the bytes of the
entries have a say in it.

* `Entry.find_ne_notFound`: an entry of the table can be defective but not missing.
* `Node.bound?_answer`: the bound that any lookup on any node answers.
* `Node.node_of_bound`: a lookup that answers a bound leaves the node as it is.
* `bound_answered_iff_outside`: both bounds, and what they mean for a node without a table.
-/

namespace IndexNode

/-! ## Bounds -/

theorem Bound.past_eq_low_iff {i : Int} : past i = .low ↔ i < 0 := by
  unfold past
  split <;> simp_all

theorem Bound.past_eq_high_iff {i : Int} : past i = .high ↔ 0 ≤ i := by
  unfold past
  split <;> simp_all

/-- An entry of the table is found or has a defect in its trailer. -/
theorem Entry.find_ne_notFound {b : Buffer} {i : Int} (h : HasEntry b i) (bound : Bound) :
    find b i ≠ .error (.notFound bound) := by
  obtain ⟨t, n, ht, rfl, hn⟩ := hasEntry_iff.mp h
  rw [Int.ofNat_eq_natCast, find_eq ht hn]
  split
  · simp
  · split <;> simp

/-- Without a table there is no entry at any index. -/
theorem not_hasEntry_of_error {b : Buffer} {e : TableError} (h : Table.ofBuffer b = .error e)
    (i : Int) : ¬ HasEntry b i := by
  rw [hasEntry_iff]
  rintro ⟨t, n, ht, -, -⟩
  cases ht.symm.trans h

/-! ## Answers -/

namespace Lookup

theorem bound?_wrap_ok (l : Lookup) (a : l.reading.α) : (l.reading.wrap (.ok a)).bound? = none := by
  cases l <;> rfl

theorem bound?_fresh_of_hasEntry {l : Lookup} {b : Buffer} (h : HasEntry b l.index) :
    (l.fresh b).bound? = none := by
  rw [fresh_eq]
  cases hq : Entry.query b l.index (l.reading.read b) with
  | ok a => exact l.bound?_wrap_ok a
  | error e =>
    rw [l.reading.wrap_error]
    cases e with
    | corrupt d => exact l.bound?_failure_corrupt d
    | notFound bound =>
      exact absurd (Entry.query_eq_notFound_iff.mp hq) (Entry.find_ne_notFound h bound)

end Lookup

namespace Node

/-- A lookup answers the bound that its index lies past, marked or not. -/
theorem bound?_answer (n : Node) (l : Lookup) :
    (n.answer l).1.bound? =
      if HasEntry n.buffer l.index then none else some (.past l.index) := by
  by_cases h : HasEntry n.buffer l.index
  · rw [if_pos h]
    cases hd : n.mark with
    | none => rw [answer_of_unmarked hd, Lookup.bound?_fresh_of_hasEntry h]
    | some d => rw [answer_of_marked hd h, Lookup.bound?_failure_corrupt]
  · rw [if_neg h, answer_of_not_hasEntry h, Lookup.bound?_failure_notFound]

variable {n : Node} {l : Lookup}

theorem bound?_answer_eq_none_iff : (n.answer l).1.bound? = none ↔ HasEntry n.buffer l.index := by
  rw [bound?_answer]
  split <;> simp_all

theorem bound?_answer_eq_some_iff {bound : Bound} : (n.answer l).1.bound? = some bound ↔
    ¬ HasEntry n.buffer l.index ∧ .past l.index = bound := by
  rw [bound?_answer]
  split <;> simp_all

theorem node_of_bound (h : (n.answer l).1.bound? ≠ none) : (n.answer l).2 = n := by
  rw [answer_of_not_hasEntry (mt bound?_answer_eq_none_iff.mpr h)]

end Node

/-- Lookups of every kind on a node over `b` with any mark. The bound before the first entry is
answered for the negative indices and the other one for those from the count on; an index between
them is never past a bound. Such an answer leaves the node as it is. So if `b` has no table, no run
ever marks the node and no lookup answers anything but a bound. -/
theorem bound_answered_iff_outside (b : Buffer) :
    (∀ mark l, let n : Node := ⟨b, mark⟩
      ((n.answer l).1.bound? = some .low ↔ l.index < 0) ∧
      ((n.answer l).1.bound? = some .high ↔ 0 ≤ l.index ∧ n.count ≤ l.index) ∧
      ((n.answer l).1.bound? = none ↔ 0 ≤ l.index ∧ l.index < n.count) ∧
      ((n.answer l).1.bound? ≠ none → (n.answer l).2 = n)) ∧
    ∀ e, Table.ofBuffer b = .error e → entryCount b = 0 ∧ ∀ rs,
      ((Node.ofBuffer b).after rs).mark = none ∧
      ∀ a, .answer a ∈ (Node.ofBuffer b).replies rs → a.bound? ≠ none := by
  constructor
  · intro mark l n
    have hentry : HasEntry n.buffer l.index ↔ 0 ≤ l.index ∧ l.index < n.count := Iff.rfl
    refine ⟨?_, ?_, Node.bound?_answer_eq_none_iff, Node.node_of_bound⟩
    · rw [Node.bound?_answer_eq_some_iff, Bound.past_eq_low_iff, hentry]
      omega
    · rw [Node.bound?_answer_eq_some_iff, Bound.past_eq_high_iff, hentry]
      omega
  · intro e he
    have hcount := entryCount_of_error he
    refine ⟨hcount, fun rs => ⟨?_, ?_⟩⟩
    · -- A mark would be the defect of some entry.
      rw [Option.eq_none_iff_forall_ne_some]
      intro d hd
      obtain ⟨i, hi⟩ := (Node.sound_ofBuffer b).after rs d hd
      have hlt := hi.lt_entryCount
      rw [Node.buffer_after] at hlt
      exact Nat.not_lt_zero _ (hcount ▸ hlt)
    · intro a ha
      obtain ⟨k, l, -, rfl⟩ := Node.exists_answer_of_mem_replies ha
      rw [ne_eq, Node.bound?_answer_eq_none_iff, Node.buffer_after]
      exact not_hasEntry_of_error he _

/-- Sixteen bytes that end without the magic. -/
def noTable : Buffer := Array.replicate 16 7

/-- A marked node still tells its two bounds, and a node without a table tells nothing else. -/
theorem bounds_of_twoDefects :
    ((⟨twoDefects, some .magic⟩ : Node).answer (.compare [99] (-1))).1.bound? = some .low ∧
    ((⟨twoDefects, some .magic⟩ : Node).answer (.payload 2)).1.bound? = some .high ∧
    ((⟨twoDefects, some .magic⟩ : Node).answer (.payload 2)).2 = ⟨twoDefects, some .magic⟩ ∧
    Table.ofBuffer noTable = .error (.noMagic 7) ∧
    ((Node.ofBuffer noTable).after [.lookup (.key 0), .lookup (.trailer 1)]).mark = none := by
  obtain ⟨hbounds, -⟩ := bound_answered_iff_outside twoDefects
  obtain ⟨hlow, -⟩ := hbounds (some .magic) (.compare [99] (-1))
  obtain ⟨-, hhigh, -, hkept⟩ := hbounds (some .magic) (.payload 2)
  have hpast := hhigh.mpr (by decide)
  have hnone : Table.ofBuffer noTable = .error (.noMagic 7) := rfl
  obtain ⟨-, htable⟩ := bound_answered_iff_outside noTable
  obtain ⟨-, hrun⟩ := htable _ hnone
  exact ⟨hlow.mpr (by decide), hpast, hkept (by rw [hpast]; simp), hnone, (hrun _).1⟩

end IndexNode
