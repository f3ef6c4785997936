import IndexNode.Proofs.KeyBytes
import IndexNode.Proofs.Transfer

/-!
# Making room in front of the entries

A writer that runs out of room for keys moves the block of entries back and puts bytes in before
it. Entries are counted back from the end of the node and key segments forward from its front, so
all entries move with the end while the keys in front of the new bytes stay.

* `insertAt b s g`: the node with the bytes `g` put in at position `s`.
* `Span.read_insertAt_left`, `Span.read_insertAt_right`: what stands before and behind position `s`.
* `Table.moved`: the table afterwards. Its spans are those of the old one, moved
  (`Table.entrySpan?_moved`, `Table.trailerSpan?_moved`).
* `Trailer.keeps_insertAt`: key segments that end in front of the new bytes stay.
* `entries_move_behind_inserted_bytes`: what that means for lookups.
-/

namespace IndexNode

/-- The buffer with `g` put in at position `s`. -/
def insertAt (b : Buffer) (s : Nat) (g : Buffer) : Buffer :=
  b.extract 0 s ++ g ++ b.extract s b.size

/-! ## Reading around the new bytes -/

section InsertAt

variable {b : Buffer} {s : Nat} (hs : s ≤ b.size) (g : Buffer)
include hs

theorem size_insertAt : (insertAt b s g).size = b.size + g.size := by
  simp only [insertAt, Array.size_append, Array.size_extract]
  omega

private theorem extract_append_extract_at : b.extract 0 s ++ b.extract s b.size = b := by
  simp [Nat.max_eq_right hs]

theorem Span.read_insertAt_left {r : Span} (hr : r.stop ≤ s) :
    r.read (insertAt b s g) = r.read b := by
  have hfront : r.stop ≤ (b.extract 0 s).size := by
    rw [Array.size_extract]
    omega
  calc r.read (insertAt b s g)
      = r.read (b.extract 0 s) := by
        rw [insertAt, Array.append_assoc, read_append_left _ _ _ hfront]
    _ = r.read b := by
        rw [← read_append_left _ _ (b.extract s b.size) hfront, extract_append_extract_at hs]

theorem Span.read_insertAt_right {r : Span} (hr : s ≤ r.start) :
    (r.shift g.size).read (insertAt b s g) = r.read b := by
  have hfront : (b.extract 0 s).size = s := by
    rw [Array.size_extract]
    omega
  have hback : (b.extract 0 s ++ g).size = s + g.size := by rw [Array.size_append, hfront]
  calc (r.shift g.size).read (insertAt b s g)
      = (⟨r.start - s, r.stop - s⟩ : Span).read (b.extract s b.size) := by
        rw [insertAt, read_append_right _ _ _ (by simp only [hback, shift]; omega), hback]
        simp only [shift, Nat.add_sub_add_right]
    _ = r.read b := by
        conv => rhs; rw [← extract_append_extract_at hs]
        rw [read_append_right _ _ _ (by omega), hfront]

end InsertAt

namespace Span

variable {r : Span} {k : Nat} (h : k ≤ r.stop) (n : Nat)
include h

theorem takeEnd_shift : (r.shift n).takeEnd k = (r.takeEnd k).shift n := by
  simp only [takeEnd, shift, mk.injEq, and_true]
  omega

theorem dropEnd_shift : (r.shift n).dropEnd k = (r.dropEnd k).shift n := by
  simp only [dropEnd, shift, mk.injEq, true_and]
  omega

end Span

/-! ## The table -/

/-- The table of a node that has become `n` bytes longer in front of its entries. -/
def Table.moved (t : Table) (n : Nat) : Table := { t with nodeLength := t.nodeLength + n }

namespace Table

variable {t : Table} (hf : t.Fits)
include hf

theorem Fits.moved (n : Nat) : (t.moved n).Fits :=
  ⟨hf.1, Nat.le_trans hf.2 (Nat.le_add_right _ _)⟩

/-- Every position in front of all entries is in front of each of them. -/
theorem le_start_entrySpan {s : Nat} (hs : s ≤ t.nodeLength - t.entrySize * t.count) (i : Nat) :
    s ≤ (t.entrySpan i).start := by
  have hall : t.entrySize * (t.last - i) + t.entrySize ≤ t.entrySize * t.count := by
    rw [← Nat.mul_succ]
    exact Nat.mul_le_mul_left _ (by simp only [count]; omega)
  have hfit := hf.2
  simp only [entrySpan, entryStop]
  omega

theorem entryStop_moved (n : Nat) (i : Nat) : (t.moved n).entryStop i = t.entryStop i + n := by
  have hback : t.entrySize * (t.last - i) ≤ t.nodeLength :=
    Nat.le_trans (Nat.mul_le_mul_left _ (by simp only [count]; omega)) hf.2
  simp only [entryStop, moved]
  omega

section Entry

variable {i : Nat} (hi : i ≤ t.last)
include hi

theorem trailerSize_le_stop_entrySpan : trailerSize ≤ (t.entrySpan i).stop :=
  Nat.le_trans hf.1 (entrySize_le_entryStop hf hi)

theorem entrySpan_moved (n : Nat) : (t.moved n).entrySpan i = (t.entrySpan i).shift n := by
  have hstop := entrySize_le_entryStop hf hi
  have hsize : (t.moved n).entrySize = t.entrySize := rfl
  rw [entrySpan, entrySpan, entryStop_moved hf, hsize, Span.shift]
  simp only [Span.mk.injEq, and_true]
  omega

end Entry

theorem entrySpan?_moved (n i : Nat) :
    (t.moved n).entrySpan? i = (t.entrySpan? i).map (·.shift n) := by
  by_cases hi : i ≤ t.last
  · rw [entrySpan?_eq (hf.moved n) hi, entrySpan?_eq hf hi, entrySpan_moved hf hi, Option.map_some]
  · have hlast : t.last < i := Nat.lt_of_not_le hi
    rw [entrySpan?, entrySpan?, if_pos hlast, if_pos (show (t.moved n).last < i from hlast),
      Option.map_none]

theorem trailerSpan?_moved (n i : Nat) :
    (t.moved n).trailerSpan? i = (t.trailerSpan? i).map (·.shift n) := by
  by_cases hi : i ≤ t.last
  · rw [trailerSpan?_eq (hf.moved n) hi, trailerSpan?_eq hf hi, entrySpan_moved hf hi,
      Span.takeEnd_shift (trailerSize_le_stop_entrySpan hf hi), Option.map_some]
  · have hlast : t.last < i := Nat.lt_of_not_le hi
    rw [trailerSpan?, trailerSpan?, entrySpan?_moved hf, entrySpan?, if_pos hlast, Option.map_none,
      Option.map_none, Option.map_none]

end Table

/-! ## Entries -/

section Entries

variable {b : Buffer} {t : Table} {s : Nat} (ht : Table.ofBuffer b = .ok t)
  (hs : s ≤ t.nodeLength - t.entrySize * t.count) (g : Buffer)

include ht hs

theorem le_size_of_le_front : s ≤ b.size := by
  rw [← Table.nodeLength_of_ofBuffer ht]
  exact Nat.le_trans hs (Nat.sub_le _ _)

theorem Table.trailerBytes_insertAt {i : Nat} (hi : i ≤ t.last) :
    (t.moved g.size).trailerBytes (insertAt b s g) i = t.trailerBytes b i := by
  have hf := fits_of_ofBuffer ht
  have hroom := trailerSize_le_stop_entrySpan hf hi
  have hfront := le_start_entrySpan hf hs i
  have hstart : s ≤ ((t.entrySpan i).takeEnd trailerSize).start := by
    have hsize := hf.1
    simp only [entrySpan, Span.takeEnd] at hfront ⊢
    omega
  calc (t.moved g.size).trailerBytes (insertAt b s g) i
      = (((t.moved g.size).entrySpan i).takeEnd trailerSize).read (insertAt b s g) := rfl
    _ = (((t.entrySpan i).takeEnd trailerSize).shift g.size).read (insertAt b s g) := by
        rw [entrySpan_moved hf hi, Span.takeEnd_shift hroom]
    _ = t.trailerBytes b i := Span.read_insertAt_right (le_size_of_le_front ht hs) g hstart

theorem Table.ofBuffer_insertAt : ofBuffer (insertAt b s g) = .ok (t.moved g.size) := by
  have hf := fits_of_ofBuffer ht
  have hlen := nodeLength_of_ofBuffer ht
  have hsize := size_insertAt (le_size_of_le_front ht hs) g
  -- The end of a node is the end of its last entry.
  have hend : t.entryStop t.last = b.size := by
    rw [entryStop, Nat.sub_self, Nat.mul_zero, Nat.sub_zero, hlen]
  have hend' : (t.moved g.size).entryStop t.last = (insertAt b s g).size := by
    rw [entryStop_moved hf, hend, hsize]
  have hlong : trailerSize ≤ b.size :=
    hend ▸ trailerSize_le_stop_entrySpan hf (Nat.le_refl t.last)
  have hbytes := trailerBytes_insertAt ht hs g (Nat.le_refl t.last)
  rw [trailerBytes, trailerBytes, hend, hend'] at hbytes
  obtain ⟨c, hc, hmagic, rfl, -⟩ := ofBuffer_eq_ok_iff.mp ht
  refine ofBuffer_eq_ok_iff.mpr ⟨c, ?_, hmagic, ?_, hf.moved _⟩
  · rw [← hc, Trailer.endingAt?, Trailer.endingAt?, if_neg (by omega), if_neg (by omega), hbytes]
  · rw [moved, hsize]

theorem sameTrailer_insertAt {i : Nat} (hi : i ≤ t.last) :
    SameTrailer b (insertAt b s g) t (t.moved g.size) i where
  table := ht
  table' := Table.ofBuffer_insertAt ht hs g
  le := hi
  le' := hi
  bytes := Table.trailerBytes_insertAt ht hs g hi

theorem payload_entry_insertAt {i : Nat} (hi : i ≤ t.last) :
    ((t.moved g.size).entry (insertAt b s g) i).payload (insertAt b s g) =
      (t.entry b i).payload b := by
  have hf := Table.fits_of_ofBuffer ht
  calc ((t.moved g.size).entry (insertAt b s g) i).payload (insertAt b s g)
      = (((t.moved g.size).entrySpan i).dropEnd trailerSize).read (insertAt b s g) := rfl
    _ = (((t.entrySpan i).dropEnd trailerSize).shift g.size).read (insertAt b s g) := by
        rw [Table.entrySpan_moved hf hi,
          Span.dropEnd_shift (Table.trailerSize_le_stop_entrySpan hf hi)]
    _ = (t.entry b i).payload b :=
        Span.read_insertAt_right (le_size_of_le_front ht hs) g (Table.le_start_entrySpan hf hs i)

theorem entryCount_insertAt : entryCount (insertAt b s g) = entryCount b := by
  rw [entryCount_of_table (Table.ofBuffer_insertAt ht hs g), entryCount_of_table ht]
  rfl

end Entries

/-! ## Keys -/

theorem Span.read_of_length_eq_zero {r : Span} (h : r.length = 0) (b : Buffer) : r.read b = [] := by
  rw [read_eq_cut, cut, h, List.take_zero]

/-- A key segment stays if it is empty or ends in front of the new bytes. -/
theorem Trailer.keeps_insertAt {t : Trailer} {b : Buffer} {s : Nat} (hs : s ≤ b.size) (g : Buffer)
    (h : ∀ seg, (t.extent seg).span.length = 0 ∨ (t.extent seg).span.stop ≤ s) :
    t.Keeps b (insertAt b s g) := by
  intro seg bytes hseg
  rw [segment_eq_ok_iff] at hseg ⊢
  obtain ⟨hstop, rfl⟩ := hseg
  constructor
  · rw [size_insertAt hs]
    exact Nat.le_trans hstop (Nat.le_add_right _ _)
  · rcases h seg with hempty | hfront
    · rw [Span.read_of_length_eq_zero hempty, Span.read_of_length_eq_zero hempty]
    · exact Span.read_insertAt_left hs g hfront

/-- Bytes `g` that are put into a node in front of its entries. The table keeps its entries, and
all their spans move by the length of `g`. Trailers and payloads are the same as before at every
index, errors included. A key that could be read still can, with the same result of every
comparison, if its segments are empty or end where the new bytes start. -/
theorem entries_move_behind_inserted_bytes (b g : Buffer) (t : Table) (s : Nat)
    (ht : Table.ofBuffer b = .ok t) (hs : s ≤ t.nodeLength - t.entrySize * (t.last + 1)) :
    let b' := insertAt b s g
    let t' : Table := ⟨t.last, t.entrySize, t.nodeLength + g.size⟩
    Table.ofBuffer b' = .ok t' ∧
    (∀ i, t'.entrySpan? i = (t.entrySpan? i).map (·.shift g.size) ∧
      t'.trailerSpan? i = (t.trailerSpan? i).map (·.shift g.size)) ∧
    (∀ i, ((Node.ofBuffer b').trailerAt i).1 = ((Node.ofBuffer b).trailerAt i).1 ∧
      ((Node.ofBuffer b').payloadAt i).1 = ((Node.ofBuffer b).payloadAt i).1) ∧
    ∀ (i : Nat) (k : Bytes), ((Node.ofBuffer b).keyAt i).1 = .ok k →
      (∀ seg, (t.segmentSpan b i seg).length = 0 ∨ (t.segmentSpan b i seg).stop ≤ s) →
      ((Node.ofBuffer b').keyAt i).1 = .ok k ∧
      ∀ key, ∃ o, ((Node.ofBuffer b).compareAt key i).1 = .ordered o ∧
        ((Node.ofBuffer b').compareAt key i).1 = .ordered o := by
  intro b' t'
  have hf := Table.fits_of_ofBuffer ht
  have hlen := Table.nodeLength_of_ofBuffer ht
  have hcount : entryCount b = t.last + 1 := entryCount_of_table ht
  have hcount' : entryCount b' = entryCount b := entryCount_insertAt ht hs g
  have hsame (i : Nat) (hi : i < entryCount b) : SameTrailer b b' t t' i :=
    sameTrailer_insertAt ht hs g (by omega)
  refine ⟨Table.ofBuffer_insertAt ht hs g, ?_, ?_, ?_⟩
  · intro i
    exact ⟨Table.entrySpan?_moved hf g.size i, Table.trailerSpan?_moved hf g.size i⟩
  · intro i
    by_cases hi : HasEntry b i
    · obtain ⟨n, rfl⟩ := Int.eq_ofNat_of_zero_le hi.1
      have hn := hsame n (Int.ofNat_lt.mp hi.2)
      exact ⟨Node.trailerAt_transfer hn,
        Node.payloadAt_transfer hn (payload_entry_insertAt ht hs g hn.le)⟩
    · have hi' : ¬ HasEntry b' i := mt (hasEntry_congr hcount' i).mp hi
      simp only [Node.trailerAt_ofBuffer, Node.payloadAt_ofBuffer, Entry.query_of_not_hasEntry hi,
        Entry.query_of_not_hasEntry hi', and_self]
  · intro i k hk hsegments
    have hi : i < entryCount b := by
      rw [Node.keyAt_ofBuffer] at hk
      exact Int.ofNat_lt.mp (Entry.hasEntry_of_query_ok hk).2
    have hkeeps : (t.entry b i).trailer.Keeps b b' := by
      refine Trailer.keeps_insertAt (le_size_of_le_front ht hs) g fun seg => ?_
      rw [Table.entry, Table.span_extent_trailer hf hlen (hsame i hi).le]
      exact hsegments seg
    refine ⟨Node.keyAt_transfer (hsame i hi) hkeeps hk, fun key => ?_⟩
    have ho : ((Node.ofBuffer b).compareAt key i).1 = .ordered (compare key k) := by
      rw [Node.compareAt_of_keyAt_ok hk]
    exact ⟨_, ho, Node.compareAt_transfer (hsame i hi) hkeeps ho⟩

/-- Three entries without payload: the key `cat`, a blank entry, which has no magic, and the key
`at`, which shares the bytes of the first. -/
def threeEntries : Buffer :=
  #[99, 97, 116, 0, 0, 0, 0, 0, 3, 0, 0, 0, 0, 0, 0, 0, 0, 2, 0xcc,
    0, 0, 0, 0, 0, 0, 0, 0, 0, 0, 0, 0, 0, 0, 0, 0,
    0, 0, 0, 1, 0, 2, 0, 0, 0, 0, 0, 0, 0, 2, 2, 0xcc]

/-- The keys stand right in front of the new bytes. -/
theorem threeEntries_move :
    Table.ofBuffer threeEntries = .ok ⟨2, 16, 51⟩ ∧ 3 ≤ 51 - 16 * (2 + 1) ∧
    (∀ seg, ((⟨2, 16, 51⟩ : Table).segmentSpan threeEntries 2 seg).length = 0 ∨
      ((⟨2, 16, 51⟩ : Table).segmentSpan threeEntries 2 seg).stop ≤ 3) ∧
    Table.ofBuffer (insertAt threeEntries 3 #[7, 7]) = .ok ⟨2, 16, 53⟩ ∧
    ((Node.ofBuffer (insertAt threeEntries 3 #[7, 7])).trailerAt 1).1 =
      .error (.corrupt .magic) ∧
    ((Node.ofBuffer (insertAt threeEntries 3 #[7, 7])).keyAt 2).1 = .ok [97, 116] := by
  have htable : Table.ofBuffer threeEntries = .ok ⟨2, 16, 51⟩ := rfl
  have hsegments : ∀ seg, ((⟨2, 16, 51⟩ : Table).segmentSpan threeEntries 2 seg).length = 0 ∨
      ((⟨2, 16, 51⟩ : Table).segmentSpan threeEntries 2 seg).stop ≤ 3 := fun
    | .first => .inr (by decide)
    | .second => .inl (by decide)
  obtain ⟨hnew, -, hentry, hkey⟩ :=
    entries_move_behind_inserted_bytes threeEntries #[7, 7] _ 3 htable (by decide)
  refine ⟨htable, by decide, hsegments, hnew, (hentry 1).1.trans rfl, ?_⟩
  exact (hkey 2 [97, 116] rfl hsegments).1

end IndexNode
