import IndexNode.CheckedLemmas

/-!
# Reads without faults

Whatever the bytes of a node and its mark are, no request makes an access outside the bytes or a
step of arithmetic that leaves 64 bits. The bound on the length is that of an object in memory.

* `Slot.exists_endingAt?_of_find`: a trailer stands at the end of every slot, so an entry that
  is in the table is never missing.
* `checked_reads_have_no_fault`: the checked reads end without a fault, as the plain ones do.
-/

namespace IndexNode

/-- A slot that was found ends with a trailer. -/
theorem Slot.exists_endingAt?_of_find {b : Buffer} {i : Int} {s : Slot} (h : find b i = .ok s) :
    ∃ t, Trailer.endingAt? b s.span.stop = some t := by
  obtain ⟨hroom, -⟩ := span_of_find h
  refine ⟨_, if_neg ?_⟩
  omega

/-- Lookups of every kind at every index, counts and dumps of every node. -/
theorem checked_reads_have_no_fault (n : Node) (h : n.buffer.size ≤ 2 ^ 63 - 1) :
    (∀ l, Checked.answer n l = .ok (n.answer l)) ∧
    Checked.entryCount n.buffer = .ok n.count ∧
    Checked.dump n = .ok n.dump ∧
    ∀ i s, Slot.find n.buffer i = .ok s →
      ∃ t, Checked.trailerEndingAt? n.buffer s.span.stop = .ok (some t) := by
  have hlt : n.buffer.size < 2 ^ 63 := by omega
  refine ⟨Checked.answer_eq hlt, Checked.entryCount_eq n.buffer, Checked.dump_eq hlt, ?_⟩
  intro i s hs
  obtain ⟨t, ht⟩ := Slot.exists_endingAt?_of_find hs
  obtain ⟨-, hstop⟩ := Slot.span_of_find hs
  exact ⟨t, by rw [Checked.trailerEndingAt?_eq hstop, ht]⟩

/-- Two entries without payload and with the largest numbers in the fields of their keys, except
that the first segment of the last entry is empty and starts where the node ends. -/
def extremeNode : Buffer :=
  #[0xff, 0xff, 0xff, 0xff, 0xff, 0xff, 0xff, 0xff, 0xff, 0xff, 0xff, 0xff, 0, 0, 2, 0xcc,
    0, 0, 0, 32, 0, 0, 0xff, 0xff, 0xff, 0xff, 0xff, 0xff, 0, 1, 2, 0xcc]

theorem checked_reads_of_extremeNode :
    (Node.ofBuffer extremeNode).buffer.size ≤ 2 ^ 63 - 1 ∧
    Checked.answer (Node.ofBuffer extremeNode) (.key 1) =
      .ok (.key (.error (.corrupt (.offset .second))), ⟨extremeNode, some (.offset .second)⟩) ∧
    Checked.entryCount extremeNode = .ok 2 ∧
    Checked.dump (Node.ofBuffer extremeNode) = .ok (Node.ofBuffer extremeNode).dump := by
  have hsize : (Node.ofBuffer extremeNode).buffer.size ≤ 2 ^ 63 - 1 := by decide
  obtain ⟨hanswer, hcount, hdump, -⟩ := checked_reads_have_no_fault _ hsize
  exact ⟨hsize, hanswer (.key 1), hcount, hdump⟩

end IndexNode
