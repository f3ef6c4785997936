import IndexNode.Checked
import IndexNode.Layout

/-!
# Checked reads have no faults

On a node of fewer than `2 ^ 63` bytes, whatever they are, every checked read ends without a
fault and with the result of the plain read.

* `Checked.table_eq`: the table is found by checked steps.
* `Checked.findSlot_eq`, `Slot.span_of_find`: so is every slot, which lies inside the node and
  has room for a trailer.
* `Checked.readSlot_eq`: an entry in such a slot has a trailer.
* `Checked.answer_eq`, `Checked.entryCount_eq`, `Checked.dump_eq`: lookups, counts and dumps
  agree.
-/

namespace IndexNode

/-! ## Slots lie inside the node -/

/-- The span of an entry is as long as the entry size and lies inside the node. -/
theorem Table.span_of_entrySpan? {t : Table} (hf : t.Fits) {i : Nat} {s : Span}
    (h : t.entrySpan? i = some s) :
    s.stop = s.start + t.entrySize ∧ s.stop ≤ t.nodeLength := by
  have hi : i ≤ t.last := (t.isSome_entrySpan? i).mp (h ▸ rfl)
  have hsize := entrySize_le_entryStop hf hi
  have hstop : t.entryStop i ≤ t.nodeLength := Nat.sub_le ..
  rw [entrySpan?_eq hf hi] at h
  cases h
  simp only [entrySpan]
  omega

theorem Slot.span_of_find {b : Buffer} {i : Int} {s : Slot} (h : Slot.find b i = .ok s) :
    s.span.start + trailerSize ≤ s.span.stop ∧ s.span.stop ≤ b.size := by
  unfold Slot.find at h
  split at h
  · cases h
  · split at h
    · cases h
    · rename_i t ht
      have hf := Table.fits_of_ofBuffer ht
      have hl := Table.nodeLength_of_ofBuffer ht
      split at h
      · cases h
      · rename_i sp hsp
        obtain ⟨hstop, hle⟩ := Table.span_of_entrySpan? hf hsp
        have := hf.1
        cases h
        simp only
        omega

namespace Checked

/-! ## Steps -/

theorem word_of_lt {n : Nat} (h : n < 2 ^ 64) : word n = .ok n := if_pos h

theorem add_of_lt {a b : Nat} (h : a + b < 2 ^ 64) : add a b = .ok (a + b) := word_of_lt h

theorem mul_of_lt {a b : Nat} (h : a * b < 2 ^ 64) : mul a b = .ok (a * b) := word_of_lt h

theorem sub_of_le {a b : Nat} (h : b ≤ a) : sub a b = .ok (a - b) := if_pos h

theorem inside_of_le {s : Span} {n : Nat} (h : s.start ≤ s.stop) (hn : s.stop ≤ n) :
    inside s n = .ok () := if_pos ⟨h, hn⟩

theorem read_of_le {s : Span} {b : Buffer} (h : s.start ≤ s.stop) (hb : s.stop ≤ b.size) :
    read s b = .ok (s.read b) := by
  rw [read, inside_of_le h hb]
  rfl

theorem cut_of_le {s : Span} {t : Bytes} (h : s.start ≤ s.stop) (ht : s.stop ≤ t.length) :
    cut s t = .ok (s.cut t) := by
  rw [cut, inside_of_le h ht]
  rfl

/-! ## The table -/

theorem trailer_eq {block : Bytes} (h : block.length = trailerSize) :
    trailer block = .ok (Trailer.decode block) := by
  have hf (f : Field) : cut f.span block = .ok (f.span.cut block) :=
    cut_of_le (Nat.le_of_lt f.start_lt_stop) (h ▸ f.stop_le_trailerSize)
  simp only [trailer, hf]
  rfl

theorem trailerEndingAt?_eq {b : Buffer} {stop : Nat} (h : stop ≤ b.size) :
    trailerEndingAt? b stop = .ok (Trailer.endingAt? b stop) := by
  rw [trailerEndingAt?, inside_of_le (Nat.zero_le _) h, Trailer.endingAt?]
  simp only [bind, Except.bind]
  split
  · rfl
  · rename_i hs
    have hs : trailerSize ≤ stop := Nat.le_of_not_lt hs
    rw [sub_of_le hs]
    simp only
    rw [read_of_le (Nat.sub_le ..) h]
    simp only
    rw [trailer_eq]
    · rfl
    · rw [Span.length_read _ _ h, Span.length]
      simp only
      omega

theorem table_eq (b : Buffer) : table b = .ok (Table.ofBuffer b) := by
  rw [table, trailerEndingAt?_eq (Nat.le_refl _), Table.ofBuffer]
  cases Trailer.endingAt? b b.size with
  | none => rfl
  | some t =>
    have hu := t.units.toNat_lt
    have hi := t.index.toNat_lt
    have hsize : t.entrySize ≤ 2040 := by
      simp only [Trailer.entrySize, sizeUnit]
      omega
    have hmul : t.entrySize * (t.index.toNat + 1) ≤ 2040 * 65536 :=
      Nat.mul_le_mul hsize (by omega)
    have h1 : mul t.units.toNat sizeUnit = .ok t.entrySize :=
      mul_of_lt (by simp only [sizeUnit]; omega)
    have h2 : add t.index.toNat 1 = .ok (t.index.toNat + 1) := add_of_lt (by omega)
    have h3 : mul t.entrySize (t.index.toNat + 1) = .ok (t.entrySize * (t.index.toNat + 1)) :=
      mul_of_lt (by omega)
    simp only [h1, h2, h3, bind, Except.bind, pure, Except.pure, apply_ite (@Except.ok Fault _)]

theorem entrySpan?_eq {t : Table} (hf : t.Fits) (hn : t.nodeLength < 2 ^ 63) (i : Nat) :
    entrySpan? t i = .ok (t.entrySpan? i) := by
  cases hsp : t.entrySpan? i with
  | none =>
    have hi : t.last < i := by
      rw [Table.entrySpan?] at hsp
      split at hsp
      · assumption
      · cases hsp
    rw [entrySpan?, if_pos hi]
    rfl
  | some s =>
    obtain ⟨-, hle⟩ := Table.span_of_entrySpan? hf hsp
    obtain ⟨hsize, hfit⟩ := hf
    rw [Table.entrySpan?] at hsp
    split at hsp
    · cases hsp
    · rename_i hi
      have hcount : t.count ≤ t.entrySize * t.count :=
        Nat.le_mul_of_pos_left _ (by simp only [trailerSize] at hsize; omega)
      have hback : t.entrySize * (t.count - i) ≤ t.nodeLength :=
        Nat.le_trans (Nat.mul_le_mul_left _ (Nat.sub_le ..)) hfit
      have h1 : add t.last 1 = .ok t.count :=
        add_of_lt (by simp only [Table.count] at hcount hfit; omega)
      have h2 : sub t.count i = .ok (t.count - i) :=
        sub_of_le (by simp only [Table.count]; omega)
      have h3 : mul t.entrySize (t.count - i) = .ok (t.entrySize * (t.count - i)) :=
        mul_of_lt (by omega)
      cases hsp
      have h4 := add_of_lt (a := t.nodeLength - t.entrySize * (t.count - i)) (b := t.entrySize)
        (by simp only at hle; omega)
      simp only [entrySpan?, if_neg hi, h1, h2, h3, sub_of_le hback, h4, bind, Except.bind, pure,
        Except.pure]

theorem entryCount_eq (b : Buffer) : entryCount b = .ok (IndexNode.entryCount b) := by
  rw [entryCount, table_eq, IndexNode.entryCount]
  cases ht : Table.ofBuffer b with
  | error e => rfl
  | ok t =>
    refine add_of_lt ?_
    have := Table.last_lt_of_ofBuffer ht
    omega

/-! ## Entries -/

theorem findSlot_eq {b : Buffer} (hb : b.size < 2 ^ 63) (i : Int) :
    findSlot b i = .ok (Slot.find b i) := by
  cases i with
  | negSucc i => rfl
  | ofNat i =>
    rw [findSlot, table_eq, Slot.find]
    simp only [bind, Except.bind]
    cases ht : Table.ofBuffer b with
    | error e => rfl
    | ok t =>
      simp only
      rw [entrySpan?_eq (Table.fits_of_ofBuffer ht) (Table.nodeLength_of_ofBuffer ht ▸ hb)]
      simp only
      cases t.entrySpan? i <;> rfl

private theorem mapError_ok (e : Entry) :
    (Except.ok e : Except Defect Entry).mapError LookupError.corrupt = .ok e := rfl

theorem readSlot_eq {b : Buffer} {i : Int} {s : Slot} (h : Slot.find b i = .ok s) :
    ∃ r, readSlot s b = .ok r ∧ s.read b = r.mapError .corrupt := by
  obtain ⟨hroom, hstop⟩ := Slot.span_of_find h
  rw [readSlot, trailerEndingAt?_eq hstop, Slot.read]
  cases ht : Trailer.endingAt? b s.span.stop with
  | none =>
    have := (Trailer.endingAt?_eq_none_iff ..).1 ht
    omega
  | some t =>
    simp only [bind, Except.bind, pure, Except.pure, ← apply_ite (@Except.ok Fault _)]
    refine ⟨_, rfl, ?_⟩
    simp only [apply_ite (Except.mapError LookupError.corrupt)]
    rfl

theorem payload_eq {b : Buffer} {e : Entry} (h : e.span.start + trailerSize ≤ e.span.stop)
    (hb : e.span.stop ≤ b.size) : payload e b = .ok (e.payload b) := by
  rw [payload, sub_of_le (by omega)]
  exact read_of_le (by simp only; omega) (by simp only; omega)

/-! ## Keys -/

theorem segment_eq {b : Buffer} (hb : b.size < 2 ^ 63) (t : Trailer) (s : Segment) :
    segment t b s = .ok (t.segment b s) := by
  rw [segment, Trailer.segment]
  simp only [bind, Except.bind, pure, Except.pure]
  split
  · rfl
  · rename_i hoffset
    rw [sub_of_le (by omega)]
    simp only
    split
    · rfl
    · rename_i hsize
      rw [add_of_lt (by omega)]
      simp only
      rw [read_of_le (by simp only; omega) (by simp only; omega)]
      rfl

theorem splitKey_eq {b : Buffer} (hb : b.size < 2 ^ 63) (t : Trailer) :
    splitKey t b = .ok (t.splitKey b) := by
  rw [splitKey, segment_eq hb, Trailer.splitKey]
  simp only [bind, Except.bind]
  cases t.segment b .first with
  | error d => rfl
  | ok first =>
    simp only
    rw [segment_eq hb]
    cases t.segment b .second <;> rfl

theorem joinedKey_eq {b : Buffer} (hb : b.size < 2 ^ 63) (t : Trailer) :
    joinedKey t b = .ok ((t.splitKey b).map SplitKey.joined) := by
  rw [joinedKey, splitKey_eq hb]
  cases t.splitKey b with
  | error d => rfl
  | ok k =>
    have h1 := t.first.size.toNat_lt
    have h2 := t.second.size.toNat_lt
    simp only [bind, Except.bind]
    rw [add_of_lt (by omega)]
    rfl

/-- A shorter key is less than a longer one unless a byte that both have decides. -/
private theorem compare_of_length_lt {a c : Bytes} (h : a.length < c.length) :
    compare a c = (compare a (c.take a.length)).then .lt := by
  induction a generalizing c with
  | nil =>
    cases c with
    | nil => simp at h
    | cons y c => rfl
  | cons x a ih =>
    cases c with
    | nil => simp at h
    | cons y c =>
      have h : a.length < c.length := by simpa using h
      rw [List.length_cons, List.take_succ_cons, List.compare_cons_cons, List.compare_cons_cons,
        ih h]
      cases compare x y <;> rfl

theorem compareKey_eq {b : Buffer} (hb : b.size < 2 ^ 63) (t : Trailer) (key : Bytes) :
    compareKey t b key = .ok (t.compareKey b key) := by
  rw [compareKey, segment_eq hb, Trailer.compareKey]
  simp only [bind, Except.bind]
  cases t.segment b .first with
  | error d => rfl
  | ok first =>
    simp only
    rw [cut_of_le (Nat.zero_le _) (Nat.min_le_left ..),
      cut_of_le (Nat.zero_le _) (Nat.min_le_right ..)]
    simp only [Span.cut, Span.length, List.drop_zero, Nat.sub_zero]
    by_cases hlen : key.length < first.length
    · rw [Nat.min_eq_left (Nat.le_of_lt hlen), List.take_of_length_le (Nat.le_refl key.length),
        List.take_of_length_le (Nat.le_of_lt hlen), compare_of_length_lt hlen]
      cases compare key (first.take key.length) <;> simp [hlen, Ordering.then, pure, Except.pure]
    · have hle : first.length ≤ key.length := Nat.le_of_not_lt hlen
      rw [Nat.min_eq_right hle, List.take_of_length_le (Nat.le_refl first.length)]
      cases compare (key.take first.length) first with
      | lt => rfl
      | gt => rfl
      | eq =>
        simp only [if_neg hlen]
        rw [segment_eq hb]
        cases t.segment b .second with
        | error d => rfl
        | ok second =>
          simp only
          rw [cut_of_le hle (Nat.le_refl _)]
          simp only [Span.cut, Span.length]
          rw [List.take_of_length_le (by simp)]
          rfl

/-! ## Nodes -/

theorem lookup_eq {α : Type} {n : Node} (hn : n.buffer.size < 2 ^ 63) (i : Int)
    {step : Entry → Checked (Except Defect α)} {read : Entry → Except Defect α}
    (h : ∀ e : Entry, e.span.start + trailerSize ≤ e.span.stop → e.span.stop ≤ n.buffer.size →
      step e = .ok (read e)) :
    lookup n i step = .ok (n.lookup i read) := by
  rw [lookup, findSlot_eq hn, Node.lookup]
  simp only [bind, Except.bind]
  cases hs : Slot.find n.buffer i with
  | error bound => rfl
  | ok s =>
    simp only
    cases n.mark with
    | some d => rfl
    | none =>
      obtain ⟨r, hr, hread⟩ := readSlot_eq hs
      obtain ⟨hroom, hstop⟩ := Slot.span_of_find hs
      simp only [hr, Slot.query, hread]
      cases r with
      | error d => rfl
      | ok e =>
        have he : e.span = s.span := Slot.span_of_read hread
        simp only [mapError_ok]
        rw [h e (he ▸ hroom) (he ▸ hstop)]
        cases read e <;> rfl

theorem answer_eq {n : Node} (hn : n.buffer.size < 2 ^ 63) (l : Lookup) :
    answer n l = .ok (n.answer l) := by
  cases l with
  | compare key i =>
    rw [answer, lookup_eq hn i fun e _ _ => compareKey_eq hn e.trailer key]
    rfl
  | trailer i =>
    have ht (e : Entry) (_ : e.span.start + trailerSize ≤ e.span.stop)
        (_ : e.span.stop ≤ n.buffer.size) :
        (return .ok e.trailer : Checked (Except Defect Trailer)) = .ok (.ok e.trailer) := rfl
    rw [answer, lookup_eq hn i ht]
    rfl
  | key i =>
    rw [answer, lookup_eq hn i fun e _ _ => joinedKey_eq hn e.trailer]
    rfl
  | payload i =>
    have hp (e : Entry) (h : e.span.start + trailerSize ≤ e.span.stop)
        (hb : e.span.stop ≤ n.buffer.size) :
        (do return .ok (← payload e n.buffer) : Checked (Except Defect Bytes)) =
          .ok (.ok (e.payload n.buffer)) := by
      rw [payload_eq h hb]
      rfl
    rw [answer, lookup_eq hn i hp]
    rfl

/-! ## Dumps -/

theorem keyText_eq {b : Buffer} (hb : b.size < 2 ^ 63) (i : Nat) :
    keyText b i = .ok (IndexNode.keyText b i) := by
  rw [keyText, findSlot_eq hb, IndexNode.keyText, Entry.find]
  simp only [bind, Except.bind]
  cases hs : Slot.find b i with
  | error bound => rfl
  | ok s =>
    obtain ⟨r, hr, hread⟩ := readSlot_eq hs
    simp only [hr, hread]
    cases r with
    | error d => rfl
    | ok e =>
      simp only [mapError_ok]
      rw [splitKey_eq hb]
      cases e.trailer.splitKey b <;> rfl

theorem keyLine_eq {b : Buffer} (hb : b.size < 2 ^ 63) (i : Nat) :
    keyLine b i = .ok (IndexNode.keyLine b i) := by
  rw [keyLine, keyText_eq hb]
  rfl

theorem tableLines_eq {b : Buffer} (hb : b.size < 2 ^ 63) :
    tableLines b = .ok (IndexNode.tableLines b) := by
  rw [tableLines, table_eq, IndexNode.tableLines]
  simp only [bind, Except.bind]
  cases ht : Table.ofBuffer b with
  | error e => rfl
  | ok t =>
    have := Table.last_lt_of_ofBuffer ht
    simp only
    rw [add_of_lt (by omega)]
    simp only
    rw [show keyLine b = fun i => pure (IndexNode.keyLine b i) from funext (keyLine_eq hb),
      List.mapM_pure]
    rfl

theorem dump_eq {n : Node} (hn : n.buffer.size < 2 ^ 63) : dump n = .ok n.dump := by
  rw [dump, tableLines_eq hn]
  rfl

end Checked

end IndexNode
