import IndexNode.Proofs.KeyLayout

/-!
# Keys without a second segment

Size zero stands for an absent second segment. Its offset, which then points at nothing, is checked
like any other. As long as it does not lie past the end of the node the key is the first segment
alone. Else the entry has no key, and of the comparisons only those that the first segment decides
do not notice.

* `Trailer.segment_of_size_zero`: all that is left to check of an empty segment.
* `key_without_second_segment`: the key and its comparisons in both cases.
-/

namespace IndexNode

theorem Trailer.segment_of_size_zero {t : Trailer} {s : Segment} (h : (t.extent s).size = 0)
    (b : Buffer) :
    t.segment b s =
      if b.size < (t.extent s).offset.toNat then .error (.offset s) else .ok [] := by
  by_cases ho : b.size < (t.extent s).offset.toNat
  · rw [segment, if_pos ho, if_pos ho]
  · have hempty : (t.extent s).span.length = 0 := by simp [Extent.span, Span.length, h]
    have hstop : (t.extent s).span.stop ≤ b.size := by
      simp only [Extent.span, h, UInt16.toNat_zero]
      omega
    rw [if_neg ho, segment_eq_ok_iff]
    exact ⟨hstop, Span.read_of_length_eq_zero hempty b⟩

/-- Entry `i` of an unmarked node, with a trailer `c` that has no second segment and a first one
inside the node. If the offset of the absent segment lies inside the node, or at its end, then the
first segment is the key. Else the offset is a defect for every lookup that gets to it. -/
theorem key_without_second_segment (b : Buffer) (i : Int) (c : Trailer)
    (hc : ((Node.ofBuffer b).trailerAt i).1 = .ok c) (hnone : c.second.size = 0)
    (hfirst : c.first.span.stop ≤ b.size) :
    let n := Node.ofBuffer b
    let first := c.first.span.read b
    (c.second.offset.toNat ≤ b.size →
      n.keyAt i = (.ok first, n) ∧ ∀ key, n.compareAt key i = (.ordered (compare key first), n)) ∧
    (b.size < c.second.offset.toNat →
      n.keyAt i = (.error (.corrupt (.offset .second)), ⟨b, some (.offset .second)⟩) ∧
      ∀ key,
        (first <+: key →
          n.compareAt key i = (.corrupt (.offset .second), ⟨b, some (.offset .second)⟩)) ∧
        (¬ first <+: key → n.compareAt key i = (.ordered (compare key first), n))) := by
  intro n first
  rw [Node.trailerAt_ofBuffer, Entry.query_eq_ok_iff] at hc
  obtain ⟨e, he, hc⟩ := hc
  obtain rfl : e.trailer = c := Except.ok.inj hc
  have h1 : e.trailer.segment b .first = .ok first := Trailer.segment_eq_ok_iff.mpr ⟨hfirst, rfl⟩
  have hsecond := Trailer.segment_of_size_zero (s := .second) hnone b
  constructor
  · intro hinside
    have h2 := hsecond.trans (if_neg (Nat.not_lt.mpr hinside))
    have hjoined : (e.trailer.splitKey b).map SplitKey.joined = .ok first := by
      rw [Trailer.splitKey_of_ok h1, h2]
      simp [Except.map, SplitKey.joined]
    have hkey : (n.keyAt i).1 = .ok first := by
      rw [Node.keyAt_ofBuffer]
      exact Entry.query_eq_ok_iff.mpr ⟨e, he, hjoined⟩
    exact ⟨Node.keyAt_of_result hkey, Node.compareAt_of_keyAt_ok hkey⟩
  · intro hpast
    have h2 := hsecond.trans (if_pos hpast)
    have hjoined : (e.trailer.splitKey b).map SplitKey.joined = .error (.offset .second) := by
      rw [Trailer.splitKey_of_ok h1, h2]
      rfl
    have hkey : (n.keyAt i).1 = .error (.corrupt (.offset .second)) := by
      rw [Node.keyAt_ofBuffer]
      exact Entry.query_eq_corrupt_iff.mpr (.inr ⟨e, he, hjoined⟩)
    refine ⟨Node.keyAt_of_result hkey, fun key => ⟨fun hp => ?_, fun hp => ?_⟩⟩
    · have hreached : e.trailer.compareKey b key = .error (.offset .second) := by
        rw [Trailer.compareKey_of_reached h1 hp, h2]
        rfl
      exact Node.compareAt_of_query_corrupt
        (Entry.query_eq_corrupt_iff.mpr (.inr ⟨e, he, hreached⟩))
    · have hdecided := Trailer.compareKey_of_not_reached h1 hp []
      rw [List.append_nil] at hdecided
      exact Node.compareAt_of_query_ok (Entry.query_eq_ok_iff.mpr ⟨e, he, hdecided⟩)

/-- The key `cat` without a second segment, whose offset is the length of the node. -/
def offsetAtEnd : Buffer :=
  #[99, 97, 116, 0, 0, 0, 0, 0, 3, 0, 0, 0, 19, 0, 0, 0, 0, 2, 0xcc]

/-- The same with an offset one further. -/
def offsetPastEnd : Buffer :=
  #[99, 97, 116, 0, 0, 0, 0, 0, 3, 0, 0, 0, 20, 0, 0, 0, 0, 2, 0xcc]

/-- With the offset at the end the key is `cat`, past it only `dog` is still compared. -/
theorem offsetAtEnd_and_offsetPastEnd :
    (((Node.ofBuffer offsetAtEnd).trailerAt 0).1 = .ok ⟨⟨0, 3⟩, ⟨19, 0⟩, 0, 2, 0xcc⟩ ∧
      (Node.ofBuffer offsetAtEnd).keyAt 0 = (.ok [99, 97, 116], Node.ofBuffer offsetAtEnd) ∧
      (Node.ofBuffer offsetAtEnd).compareAt [99, 97, 116, 115] 0 =
        (.ordered .gt, Node.ofBuffer offsetAtEnd)) ∧
    ((Node.ofBuffer offsetPastEnd).trailerAt 0).1 = .ok ⟨⟨0, 3⟩, ⟨20, 0⟩, 0, 2, 0xcc⟩ ∧
      (Node.ofBuffer offsetPastEnd).compareAt [100, 111, 103] 0 =
        (.ordered .gt, Node.ofBuffer offsetPastEnd) ∧
      ((Node.ofBuffer offsetPastEnd).compareAt [99, 97, 116, 115] 0).1 =
        .corrupt (.offset .second) := by
  have hend : ((Node.ofBuffer offsetAtEnd).trailerAt 0).1 =
      .ok ⟨⟨0, 3⟩, ⟨19, 0⟩, 0, 2, 0xcc⟩ := rfl
  have hpast : ((Node.ofBuffer offsetPastEnd).trailerAt 0).1 =
      .ok ⟨⟨0, 3⟩, ⟨20, 0⟩, 0, 2, 0xcc⟩ := rfl
  obtain ⟨hread, -⟩ := key_without_second_segment _ _ _ hend rfl (by decide)
  obtain ⟨-, hrefused⟩ := key_without_second_segment _ _ _ hpast rfl (by decide)
  obtain ⟨hkey, hcompare⟩ := hread (by decide)
  obtain ⟨-, hcompare'⟩ := hrefused (by decide)
  refine ⟨⟨hend, hkey.trans rfl, (hcompare _).trans rfl⟩, hpast, ?_, ?_⟩
  · exact ((hcompare' [100, 111, 103]).2 (by decide)).trans rfl
  · rw [(hcompare' [99, 97, 116, 115]).1 (by decide)]

/-- So an absent second segment can cost an entry its key. -/
theorem offsetPastEnd_has_no_key :
    ∃ c, ((Node.ofBuffer offsetPastEnd).trailerAt 0).1 = .ok c ∧ c.second.size = 0 ∧
      c.first.span.stop ≤ offsetPastEnd.size ∧ c.first.span.read offsetPastEnd = [99, 97, 116] ∧
      (Node.ofBuffer offsetPastEnd).keyAt 0 =
        (.error (.corrupt (.offset .second)), ⟨offsetPastEnd, some (.offset .second)⟩) ∧
      (Node.ofBuffer offsetPastEnd).compareAt [99, 97, 116] 0 =
        (.corrupt (.offset .second), ⟨offsetPastEnd, some (.offset .second)⟩) :=
  ⟨⟨⟨0, 3⟩, ⟨20, 0⟩, 0, 2, 0xcc⟩, rfl, rfl, by decide, rfl, rfl, rfl⟩

end IndexNode
