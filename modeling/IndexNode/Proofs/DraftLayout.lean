import Mathlib.Order.Bounds.Defs
import IndexNode.Proofs.DraftSteps
import IndexNode.Proofs.TrailerCodec

/-!
# The layout of a finished node

Where the pieces of a draft stand in the node that is built from it. The writer goes forwards from
the front; the positions here are the ones that a reader counts back from the end.

* `Draft.payload_le_entrySize`, `Draft.entrySize_le`: entries have room for every payload and are
  no larger than the unit makes them; `Draft.isLeast_entrySize` says both.
* `Draft.read_first`, `Draft.read_second`: the key segments stand at the front, one after the other.
* `Draft.read_body`, `Draft.endingAt?_build`: an entry is its payload, filled up with zeros, and its
  trailer.
* `Draft.size_build`: the node ends with the last entry.

None of this depends on the limits of the trailer fields.
-/

namespace IndexNode

/-! ## Entry blocks -/

theorem entryBlock_append (entrySize : Nat) (rs qs : List Record) (i offset : Nat) :
    entryBlock entrySize (rs ++ qs) i offset =
      entryBlock entrySize rs i offset ++ entryBlock entrySize qs (i + rs.length)
        (offset + (rs.flatMap Record.keyBytes).length) := by
  induction rs generalizing i offset with
  | nil => rfl
  | cons r rs ih =>
    simp only [List.cons_append, entryBlock, ih, List.append_assoc, List.flatMap_cons,
      List.length_append, List.length_cons, Nat.add_assoc, Nat.add_comm 1]

theorem length_entryBlock {entrySize : Nat} {rs : List Record}
    (h : ∀ r ∈ rs, r.payload.length + trailerSize ≤ entrySize) (i offset : Nat) :
    (entryBlock entrySize rs i offset).length = rs.length * entrySize := by
  induction rs generalizing i offset with
  | nil => simp [entryBlock]
  | cons r rs ih =>
    obtain ⟨hr, hrs⟩ := List.forall_mem_cons.mp h
    rw [entryBlock, List.length_append, length_entryBytes _ hr, ih hrs, List.length_cons,
      Nat.succ_mul, Nat.add_comm]

namespace Draft

variable {d : Draft} {i : Nat}

/-! ## The size of an entry -/

private theorem foldl_max_le_iff (l : List Nat) (m n : Nat) :
    l.foldl max m ≤ n ↔ m ≤ n ∧ ∀ a ∈ l, a ≤ n := by
  induction l generalizing m with
  | nil => simp
  | cons a l ih => rw [List.foldl_cons, ih, Nat.max_le, List.forall_mem_cons, and_assoc]

theorem widest_le_iff {n : Nat} :
    d.widest ≤ n ↔ ∀ r ∈ d.records, r.payload.length ≤ n := by
  simp [widest, foldl_max_le_iff]

theorem payload_le_entrySize {r : Record} (h : r ∈ d.records) :
    r.payload.length + trailerSize ≤ d.entrySize := by
  have hwidest := widest_le_iff.mp (Nat.le_refl d.widest) r h
  have hroom := d.widest_add_trailerSize_le
  omega

theorem sizeUnit_dvd_entrySize : sizeUnit ∣ d.entrySize := Nat.dvd_mul_left ..

/-- No smaller multiple of the unit has room for all payloads. -/
theorem entrySize_le {n : Nat} (hn : sizeUnit ∣ n) (hpos : 0 < d.records.size)
    (h : ∀ r ∈ d.records, trailerSize + r.payload.length ≤ n) : d.entrySize ≤ n := by
  obtain ⟨k, rfl⟩ := hn
  have hroom := h d.records[0] (Array.getElem_mem hpos)
  have hwidest : d.widest ≤ sizeUnit * k - trailerSize := by
    rw [widest_le_iff]
    intro r hr
    have := h r hr
    omega
  simp only [entrySize, sizeUnit, trailerSize] at hwidest hroom ⊢
  omega

theorem isLeast_entrySize (hpos : 0 < d.records.size) :
    IsLeast {e | sizeUnit ∣ e ∧ ∀ r ∈ d.records, trailerSize + r.payload.length ≤ e}
      d.entrySize := by
  refine ⟨⟨sizeUnit_dvd_entrySize, ?_⟩, ?_⟩
  · intro r hr
    rw [Nat.add_comm]
    exact payload_le_entrySize hr
  · rintro e ⟨hunit, hroom⟩
    exact entrySize_le hunit hpos hroom

/-! ## Positions -/

/-- Where the key of entry `i` starts. -/
def keyStart (d : Draft) (i : Nat) : Nat :=
  d.lead + ((d.records.toList.take i).flatMap Record.keyBytes).length

/-- Where entry `i` starts: behind all keys and the entries before it. -/
def entryStart (d : Draft) (i : Nat) : Nat :=
  d.lead + (d.records.toList.flatMap Record.keyBytes).length + i * d.entrySize

/-- The trailer that is written for entry `i`. -/
def trailer (d : Draft) (i : Nat) (hi : i < d.records.size) : Trailer :=
  d.records[i].trailer i (d.keyStart i) d.entrySize

/-- What is written for entry `i` in front of its trailer. -/
def body (d : Draft) (i : Nat) (hi : i < d.records.size) : Bytes :=
  d.records[i].payload ++ zeros (d.entrySize - trailerSize - d.records[i].payload.length)

theorem length_body (hi : i < d.records.size) :
    (d.body i hi).length = d.entrySize - trailerSize := by
  have hfit := payload_le_entrySize (Array.getElem_mem hi)
  simp only [body, zeros, List.length_append, List.length_replicate]
  omega

theorem toList_build : d.build.toList =
    zeros d.lead ++ d.records.toList.flatMap Record.keyBytes ++
      entryBlock d.entrySize d.records.toList 0 d.lead := rfl

private theorem records_eq (hi : i < d.records.size) : d.records.toList =
    d.records.toList.take i ++ d.records[i] :: d.records.toList.drop (i + 1) := by
  have hi' : i < d.records.toList.length := by simpa using hi
  rw [← Array.getElem_toList hi, ← List.drop_eq_getElem_cons hi', List.take_append_drop]

private theorem keys_eq (hi : i < d.records.size) :
    d.records.toList.flatMap Record.keyBytes =
      (d.records.toList.take i).flatMap Record.keyBytes ++ d.records[i].keyBytes ++
        (d.records.toList.drop (i + 1)).flatMap Record.keyBytes := by
  have h := congrArg (List.flatMap Record.keyBytes) (records_eq hi)
  rwa [List.flatMap_append, List.flatMap_cons, ← List.append_assoc] at h

private theorem block_eq (hi : i < d.records.size) :
    entryBlock d.entrySize d.records.toList 0 d.lead =
      entryBlock d.entrySize (d.records.toList.take i) 0 d.lead ++
        (entryBytes d.entrySize d.records[i].payload (d.trailer i hi) ++
          entryBlock d.entrySize (d.records.toList.drop (i + 1)) (i + 1)
            (d.keyStart i + d.records[i].keyBytes.length)) := by
  have hlen : (d.records.toList.take i).length = i := by
    rw [List.length_take_of_le]
    simpa using Nat.le_of_lt hi
  have h := congrArg (entryBlock d.entrySize · 0 d.lead) (records_eq hi)
  simp only [entryBlock_append, entryBlock, hlen, Nat.zero_add] at h
  exact h

theorem size_build : d.build.size = d.entryStart d.records.size := by
  have hfit : ∀ r ∈ d.records.toList, r.payload.length + trailerSize ≤ d.entrySize :=
    fun r hr => payload_le_entrySize (Array.mem_toList_iff.mp hr)
  have hblock := length_entryBlock hfit 0 d.lead
  rw [← Array.length_toList, toList_build, List.length_append, List.length_append, hblock]
  simp only [zeros, List.length_replicate, Array.length_toList, entryStart]

/-! ## Keys -/

/-- The key of entry `i` among the bytes of the node. -/
theorem exists_around_key (hi : i < d.records.size) :
    ∃ front back, d.build.toList = front ++ d.records[i].first ++ d.records[i].second ++ back ∧
      front.length = d.keyStart i := by
  refine ⟨zeros d.lead ++ (d.records.toList.take i).flatMap Record.keyBytes,
    (d.records.toList.drop (i + 1)).flatMap Record.keyBytes ++
      entryBlock d.entrySize d.records.toList 0 d.lead, ?_, ?_⟩
  · rw [toList_build, keys_eq hi]
    simp only [Record.keyBytes, List.append_assoc]
  · simp only [keyStart, zeros, List.length_append, List.length_replicate]

theorem read_first (hi : i < d.records.size) :
    (⟨d.keyStart i, d.keyStart i + d.records[i].first.length⟩ : Span).read d.build =
      d.records[i].first := by
  obtain ⟨front, back, hb, hfront⟩ := exists_around_key hi
  rw [Span.read_eq_cut, hb, ← hfront, List.append_assoc, Span.cut_between]

theorem read_second (hi : i < d.records.size) :
    (⟨d.keyStart i + d.records[i].first.length,
      d.keyStart i + d.records[i].first.length + d.records[i].second.length⟩ : Span).read
        d.build = d.records[i].second := by
  obtain ⟨front, back, hb, hfront⟩ := exists_around_key hi
  rw [Span.read_eq_cut, hb, ← hfront, ← List.length_append, Span.cut_between]

/-- All keys stand in front of the entries. -/
theorem keyStart_add_le (hi : i < d.records.size) :
    d.keyStart i + d.records[i].keyBytes.length ≤ d.entryStart 0 := by
  have hkeys := congrArg List.length (keys_eq hi)
  simp only [List.length_append] at hkeys
  simp only [keyStart, entryStart]
  omega

/-! ## Entries -/

/-- Entry `i` among the bytes of the node. -/
theorem exists_around_entry (hi : i < d.records.size) :
    ∃ front back, d.build.toList = front ++ d.body i hi ++ (d.trailer i hi).encode ++ back ∧
      front.length = d.entryStart i := by
  have hfit (r) (hr : r ∈ d.records.toList.take i) : r.payload.length + trailerSize ≤ d.entrySize :=
    payload_le_entrySize (Array.mem_toList_iff.mp (List.mem_of_mem_take hr))
  have hlen : (d.records.toList.take i).length = i := by
    rw [List.length_take_of_le]
    simpa using Nat.le_of_lt hi
  refine ⟨zeros d.lead ++ d.records.toList.flatMap Record.keyBytes ++
      entryBlock d.entrySize (d.records.toList.take i) 0 d.lead,
    entryBlock d.entrySize (d.records.toList.drop (i + 1)) (i + 1)
      (d.keyStart i + d.records[i].keyBytes.length), ?_, ?_⟩
  · rw [toList_build, block_eq hi]
    simp only [entryBytes, body, List.append_assoc]
  · rw [List.length_append, length_entryBlock hfit, hlen]
    simp only [entryStart, zeros, List.length_append, List.length_replicate]

theorem read_body (hi : i < d.records.size) :
    (⟨d.entryStart i, d.entryStart i + (d.entrySize - trailerSize)⟩ : Span).read d.build =
      d.body i hi := by
  obtain ⟨front, back, hb, hfront⟩ := exists_around_entry hi
  rw [Span.read_eq_cut, hb, ← hfront, ← length_body hi, List.append_assoc, Span.cut_between]

theorem entryStart_succ (d : Draft) (i : Nat) :
    d.entryStart (i + 1) = d.entryStart i + d.entrySize := by
  simp only [entryStart, Nat.succ_mul, Nat.add_assoc]

/-- The trailer of entry `i` is the one that was written. -/
theorem endingAt?_build (hi : i < d.records.size) :
    Trailer.endingAt? d.build (d.entryStart (i + 1)) = some (d.trailer i hi) := by
  obtain ⟨front, back, hb, hfront⟩ := exists_around_entry hi
  have hroom : trailerSize ≤ d.entrySize :=
    Nat.le_trans (Nat.le_add_left _ _) d.widest_add_trailerSize_le
  have hstart : (front ++ d.body i hi).length = d.entryStart (i + 1) - trailerSize := by
    rw [List.length_append, hfront, length_body, entryStart_succ]
    omega
  have hstop : (front ++ d.body i hi).length + (d.trailer i hi).encode.length =
      d.entryStart (i + 1) := by
    rw [hstart, Trailer.length_encode, entryStart_succ]
    omega
  have hlong : ¬ d.entryStart (i + 1) < trailerSize := by
    rw [entryStart_succ]
    omega
  rw [Trailer.endingAt?, if_neg hlong, ← hstart, ← hstop, Span.read_eq_cut, hb, Span.cut_between,
    Trailer.decode_encode]

end Draft

end IndexNode
