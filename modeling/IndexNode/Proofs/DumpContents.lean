import IndexNode.Proofs.DumpLines
import IndexNode.Proofs.TableReasons

/-!
# Nodes with the same dump

A dump is a text, but nothing that it is made of can be read in two ways. Each kind of line starts
with words of its own, numbers end where the next word starts, and neither of the two key segments
can be taken for the other or for a reason in angle brackets. So nodes with the same dump agree in
everything that it is about.

* `SplitKey.text_inj`: the text of a key tells its two segments apart.
* `Entry.segments`: the segments that a lookup of the key joins. `keyText_eq`: a dump shows them, or
  why there are none; `shown_inj`: in different ways for different results.
* `tableLines_append_inj`, `markLines_inj`: the lines about the table and about the mark.
* `Node.dump_eq_iff`: what nodes with the same dump have in common, and nothing else.
* `dump_tells_what_is_read`: the same of the lookups that a reader can make.
-/

namespace IndexNode

/-! ## Texts of keys -/

theorem Hex.encodeDigits_inj {s t : Bytes} : encodeDigits s = encodeDigits t ↔ s = t := by
  rw [← encode_inj, encode, encode, String.ofList_inj]

/-- Bytes in hexadecimal and the text behind them can be told apart. -/
theorem Hex.encodeDigits_append_inj {s t : Bytes} {x y : List Char}
    (hx : ∀ c ∈ x.head?, (digitValue? c).isSome = false)
    (hy : ∀ c ∈ y.head?, (digitValue? c).isSome = false) :
    encodeDigits s ++ x = encodeDigits t ++ y ↔ s = t ∧ x = y := by
  have hdigit (u : Bytes) : ∀ c ∈ encodeDigits u, (digitValue? c).isSome = true :=
    fun _ hc => isSome_digitValue?_of_mem hc
  rw [append_inj_of_head (hdigit s) (hdigit t) hx hy, encodeDigits_inj]

namespace SplitKey

/-- What follows the first segment in the text of a key. -/
def textOfSecond (second : Bytes) : List Char :=
  if second.isEmpty then [] else " + ".toList ++ Hex.encodeDigits second

theorem toList_text (k : SplitKey) :
    k.text.toList = Hex.encodeDigits k.first ++ textOfSecond k.second := by
  unfold text textOfSecond
  split <;> simp [Hex.encode]

theorem head_textOfSecond (second : Bytes) :
    ∀ c ∈ (textOfSecond second).head?, (Hex.digitValue? c).isSome = false := by
  unfold textOfSecond
  split
  · simp
  · simpa using (by decide : (Hex.digitValue? ' ').isSome = false)

theorem textOfSecond_inj {s t : Bytes} : textOfSecond s = textOfSecond t ↔ s = t := by
  refine ⟨fun h => ?_, congrArg textOfSecond⟩
  cases s with
  | nil =>
    cases t with
    | nil => rfl
    | cons x t => simp [textOfSecond] at h
  | cons x s =>
    cases t with
    | nil => simp [textOfSecond] at h
    | cons y t => simpa [textOfSecond, Hex.encodeDigits_inj] using h

theorem text_inj {k k' : SplitKey} : k.text = k'.text ↔ k = k' := by
  refine ⟨fun h => ?_, congrArg text⟩
  replace h := congrArg String.toList h
  rw [toList_text, toList_text, Hex.encodeDigits_append_inj (head_textOfSecond _)
    (head_textOfSecond _), textOfSecond_inj] at h
  obtain ⟨first, second⟩ := k
  obtain ⟨rfl, rfl⟩ := h
  rfl

theorem bracket_not_mem_text (k : SplitKey) : '<' ∉ k.text.toList := by
  have hdigits := Hex.not_mem_encodeDigits (c := '<') (by decide)
  rw [toList_text, textOfSecond]
  split <;> simp [hdigits]

end SplitKey

/-! ## Results of a lookup -/

/-- The key of entry `i` in its two segments, whatever was found in the buffer before. -/
def Entry.segments (b : Buffer) (i : Int) : Except LookupError SplitKey :=
  query b i fun e => e.trailer.splitKey b

/-- A lookup of the key joins the segments. -/
theorem Node.keyAt_eq_map_segments (b : Buffer) (i : Int) :
    ((ofBuffer b).keyAt i).1 = (Entry.segments b i).map SplitKey.joined := by
  rw [keyAt_ofBuffer, Entry.segments, Entry.query, Entry.query]
  cases Entry.find b i with
  | error e => rfl
  | ok e => cases hsplit : e.trailer.splitKey b <;> simp [hsplit, Except.map]

theorem Entry.segments_eq_storedKey {b : Buffer} {t : Table} (ht : Table.ofBuffer b = .ok t)
    {i : Nat} {k : SplitKey} (h : segments b i = .ok k) : k = t.storedKey b i := by
  obtain ⟨e, he, hsplit⟩ := query_eq_ok_iff.mp h
  exact eq_storedKey ht he hsplit

/-- The reason that a dump gives for a failed lookup. A defect of the key stands there without a
word about the node. -/
def LookupError.reason : LookupError → String
  | notFound b => (notFound b).message
  | corrupt (.offset s) => (Defect.offset s).message
  | corrupt (.size s) => (Defect.size s).message
  | corrupt .index => (corrupt .index).message
  | corrupt .magic => (corrupt .magic).message

theorem LookupError.reason_inj {e e' : LookupError} : e.reason = e'.reason ↔ e = e' := by
  have all (e : LookupError) :
      e ∈ [notFound .low, notFound .high] ++ Defect.all.map corrupt := by
    cases e with
    | notFound b => cases b <;> decide
    | corrupt d => exact List.mem_append_right _ (List.mem_map_of_mem d.mem_all)
  have table : ∀ e ∈ [notFound .low, notFound .high] ++ Defect.all.map corrupt,
      ∀ e' ∈ [notFound .low, notFound .high] ++ Defect.all.map corrupt,
      e.reason = e'.reason → e = e' := by decide
  exact ⟨table e (all e) e' (all e'), congrArg reason⟩

/-- How a dump shows the result of a lookup. -/
def shown : Except LookupError SplitKey → String
  | .ok k => k.text
  | .error e => unreadable e.reason

/-- A reason stands in brackets, and no key has one. -/
theorem SplitKey.text_ne_unreadable (k : SplitKey) (reason : String) :
    k.text ≠ unreadable reason := by
  intro h
  have hbracket : '<' ∈ (unreadable reason).toList := by simp [unreadable]
  exact k.bracket_not_mem_text (h ▸ hbracket)

theorem shown_inj {r r' : Except LookupError SplitKey} : shown r = shown r' ↔ r = r' := by
  refine ⟨fun h => ?_, congrArg shown⟩
  cases r with
  | ok k =>
    cases r' with
    | ok k' => rw [SplitKey.text_inj.mp h]
    | error e => exact absurd h (k.text_ne_unreadable e.reason)
  | error e =>
    cases r' with
    | ok k => exact absurd h.symm (k.text_ne_unreadable e.reason)
    | error e' =>
      have hreason : e.reason = e'.reason := by simpa [shown, unreadable] using h
      rw [LookupError.reason_inj.mp hreason]

theorem keyText_eq (b : Buffer) (i : Nat) : keyText b i = shown (Entry.segments b i) := by
  unfold keyText Entry.segments Entry.query
  cases hfind : Entry.find b i with
  | error e =>
    cases e with
    | notFound bound => rfl
    | corrupt d => rcases Entry.defect_of_find hfind with rfl | rfl <;> rfl
  | ok e =>
    cases hsplit : e.trailer.splitKey b with
    | ok k => simp only [hsplit, shown]
    | error d =>
      obtain ⟨s, hd⟩ := Trailer.defect_of_splitKey hsplit
      simp only [hsplit, shown]
      rcases hd with rfl | rfl <;> rfl

/-! ## Lines -/

theorem keyLines_inj {b b' : Buffer} {n : Nat} :
    (List.range n).map (keyLine b) = (List.range n).map (keyLine b') ↔
      ∀ i < n, Entry.segments b i = Entry.segments b' i := by
  have hline (i : Nat) :
      keyLine b i = keyLine b' i ↔ Entry.segments b i = Entry.segments b' i := by
    rw [← shown_inj, ← keyText_eq, ← keyText_eq, keyLine, keyLine, String.append_right_inj]
  simp only [List.map_inj_left, List.mem_range, hline]

/-- The line about a table that cannot be read is no line with a number of entries. -/
theorem noTableLine_ne_countLine (reason : String) (n : Nat) :
    "  entries     : 0 (" ++ reason ++ ")" ≠ "  entries     : " ++ toString n := by
  intro h
  have hbracket : '(' ∈ ("  entries     : " ++ toString n).toList := by
    rw [← h]
    simp
  have hdigits := not_mem_toDigits (c := '(') (by decide) n
  simp [hdigits] at hbracket

/-- In nodes of one length a table is told by the two numbers that a dump shows. -/
theorem Table.eq_of_count_of_entrySize {b b' : Buffer} {t t' : Table} (ht : ofBuffer b = .ok t)
    (ht' : ofBuffer b' = .ok t') (hsize : b.size = b'.size) (hcount : t.count = t'.count)
    (hentry : t.entrySize = t'.entrySize) : t = t' := by
  have hlength : t.nodeLength = t'.nodeLength := by
    rw [nodeLength_of_ofBuffer ht, nodeLength_of_ofBuffer ht', hsize]
  have hlast : t.last = t'.last := Nat.succ.inj hcount
  obtain ⟨last, entrySize, nodeLength⟩ := t
  obtain ⟨last', entrySize', nodeLength'⟩ := t'
  rw [mk.injEq]
  exact ⟨hlast, hentry, hlength⟩

/-- The lines about the entries end where the number of entries says. -/
theorem tableLines_append_inj {b b' : Buffer} (hsize : b.size = b'.size) {x y : List String} :
    tableLines b ++ x = tableLines b' ++ y ↔
      Table.ofBuffer b = Table.ofBuffer b' ∧
        (∀ i < entryCount b, Entry.segments b i = Entry.segments b' i) ∧ x = y := by
  unfold tableLines
  cases ht : Table.ofBuffer b with
  | error e =>
    cases ht' : Table.ofBuffer b' with
    | error e' => simp [entryCount_of_error ht, TableError.message_inj]
    | ok t' =>
      refine iff_of_false (fun h => ?_) (fun h => nomatch h.1)
      exact noTableLine_ne_countLine _ _ (List.head_eq_of_cons_eq h)
  | ok t =>
    cases ht' : Table.ofBuffer b' with
    | error e' =>
      refine iff_of_false (fun h => ?_) (fun h => nomatch h.1)
      exact noTableLine_ne_countLine _ _ (List.head_eq_of_cons_eq h).symm
    | ok t' =>
      rw [entryCount_of_table ht]
      constructor
      · intro h
        obtain ⟨hcount, hentry, hrest⟩ : t.count = t'.count ∧ t.entrySize = t'.entrySize ∧
            (List.range t.count).map (keyLine b) ++ x =
              (List.range t'.count).map (keyLine b') ++ y := by
          simpa [Nat.repr_eq_ofList_toDigits, String.ofList_inj, toDigits_inj] using h
        obtain rfl : t = t' := Table.eq_of_count_of_entrySize ht ht' hsize hcount hentry
        obtain ⟨hkeys, hxy⟩ := List.append_inj hrest (by simp)
        exact ⟨rfl, keyLines_inj.mp hkeys, hxy⟩
      · rintro ⟨h, hkeys, rfl⟩
        obtain rfl := Except.ok.inj h
        simp only [keyLines_inj.mpr hkeys]

theorem markLines_inj {m m' : Option Defect} : markLines m = markLines m' ↔ m = m' := by
  refine ⟨fun h => ?_, congrArg markLines⟩
  cases m with
  | none =>
    cases m' with
    | none => rfl
    | some d => cases h
  | some d =>
    cases m' with
    | none => cases h
    | some d' =>
      replace h := congrArg String.toList (List.head_eq_of_cons_eq h)
      simp only [String.toList_append, List.append_assoc, List.append_cancel_left_eq,
        Nat.toString_eq_ofList_toDigits, String.toList_ofList] at h
      obtain ⟨hid, -⟩ := (toDigits_append_inj (by simp) (by simp)).mp h
      rw [Defect.id_inj.mp hid]

/-! ## Dumps -/

namespace Node

variable {n n' : Node}

theorem dump_eq_iff_dumpLines_eq : n.dump = n'.dump ↔ n.dumpLines = n'.dumpLines := by
  refine ⟨fun h => ?_, congrArg ("\n".intercalate ·)⟩
  rw [← linesOf_dump, ← linesOf_dump, h]

/-- Nodes have the same dump exactly if they have the same length, the same table or lack it for the
same reason, the same result for each lookup of a key, and the same mark. -/
theorem dump_eq_iff :
    n.dump = n'.dump ↔ n.length = n'.length ∧ Table.ofBuffer n.buffer = Table.ofBuffer n'.buffer ∧
      (∀ i < n.count, Entry.segments n.buffer i = Entry.segments n'.buffer i) ∧
      n.mark = n'.mark := by
  rw [dump_eq_iff_dumpLines_eq]
  have hlines : n.dumpLines = n'.dumpLines ↔ n.length = n'.length ∧
      tableLines n.buffer ++ markLines n.mark = tableLines n'.buffer ++ markLines n'.mark := by
    rw [dumpLines, dumpLines, List.append_left_inj, List.append_assoc, List.append_assoc]
    simp [Nat.repr_eq_ofList_toDigits, String.ofList_inj, toDigits_inj]
  rw [hlines]
  refine and_congr_right fun hlength => ?_
  rw [tableLines_append_inj hlength, markLines_inj]
  rfl

theorem count_eq_of_dump_eq (h : n.dump = n'.dump) : n.count = n'.count := by
  obtain ⟨-, htable, -⟩ := dump_eq_iff.mp h
  rw [count, count, entryCount, entryCount, htable]

/-- A lookup past a bound also gives the same, since the number of entries is the same. -/
theorem segments_eq_of_dump_eq (h : n.dump = n'.dump) (i : Int) :
    Entry.segments n.buffer i = Entry.segments n'.buffer i := by
  obtain ⟨-, -, hsegments, -⟩ := dump_eq_iff.mp h
  by_cases hi : HasEntry n.buffer i
  · obtain ⟨k, rfl⟩ := Int.eq_ofNat_of_zero_le hi.1
    exact hsegments k (Int.ofNat_lt.mp hi.2)
  · have hi' : ¬ HasEntry n'.buffer i := by
      rwa [hasEntry_congr (count_eq_of_dump_eq h).symm]
    unfold Entry.segments
    rw [Entry.query_of_not_hasEntry hi, Entry.query_of_not_hasEntry hi']

end Node

/-- What a dump tells. Nodes with the same dump have the same length, the same number of entries and
the same mark. Their tables are the same, with the size of the entries, or cannot be read for the
same reason. On unmarked nodes a lookup of a key gives the same bytes, in the same two segments, or
fails in the same way. -/
theorem dump_tells_what_is_read (n n' : Node) (h : n.dump = n'.dump) :
    n.length = n'.length ∧ n.count = n'.count ∧ n.mark = n'.mark ∧
    Table.ofBuffer n.buffer = Table.ofBuffer n'.buffer ∧
    (∀ i : Int, ((Node.ofBuffer n.buffer).keyAt i).1 = ((Node.ofBuffer n'.buffer).keyAt i).1) ∧
    ∀ (t : Table) (i : Nat) (k : Bytes), Table.ofBuffer n.buffer = .ok t →
      ((Node.ofBuffer n.buffer).keyAt i).1 = .ok k →
      (t.storedKey n.buffer i).joined = k ∧ t.storedKey n'.buffer i = t.storedKey n.buffer i := by
  obtain ⟨hlength, htable, -, hmark⟩ := Node.dump_eq_iff.mp h
  have hsegments := Node.segments_eq_of_dump_eq h
  refine ⟨hlength, Node.count_eq_of_dump_eq h, hmark, htable, fun i => ?_, fun t i k ht hk => ?_⟩
  · rw [Node.keyAt_eq_map_segments, Node.keyAt_eq_map_segments, hsegments]
  · rw [Node.keyAt_eq_map_segments] at hk
    cases hi : Entry.segments n.buffer i with
    | error e =>
      rw [hi] at hk
      cases hk
    | ok split =>
      rw [hi] at hk
      cases hk
      rw [← Entry.segments_eq_storedKey ht hi,
        ← Entry.segments_eq_storedKey (htable ▸ ht) (hsegments i ▸ hi)]
      exact ⟨rfl, rfl⟩

/-- The key `a` and `b`, with its segments in this order in the node. -/
def forwardKey : Buffer := #[97, 98, 0, 0, 0, 0, 0, 1, 0, 0, 0, 1, 0, 1, 0, 0, 2, 0xcc]

/-- The key `a` and `b`, with its second segment before the first. -/
def backwardKey : Buffer := #[98, 97, 0, 0, 0, 1, 0, 1, 0, 0, 0, 0, 0, 1, 0, 0, 2, 0xcc]

/-- The nodes differ in where they hold the key, which a dump does not show. -/
theorem dump_of_backwardKey :
    forwardKey ≠ backwardKey ∧
    (⟨forwardKey, some .magic⟩ : Node).dump = (⟨backwardKey, some .magic⟩ : Node).dump ∧
    Table.ofBuffer forwardKey = .ok ⟨0, 16, 18⟩ ∧ Table.ofBuffer backwardKey = .ok ⟨0, 16, 18⟩ ∧
    ((Node.ofBuffer forwardKey).keyAt 0).1 = .ok [97, 98] ∧
    ((Node.ofBuffer backwardKey).keyAt 0).1 = .ok [97, 98] ∧
    (⟨0, 16, 18⟩ : Table).storedKey backwardKey 0 = ⟨[97], [98]⟩ := by
  have htable : Table.ofBuffer forwardKey = .ok ⟨0, 16, 18⟩ := rfl
  have htable' : Table.ofBuffer backwardKey = .ok ⟨0, 16, 18⟩ := rfl
  have hcount : entryCount forwardKey = 1 := entryCount_of_table htable
  have hkey : ((Node.ofBuffer forwardKey).keyAt 0).1 = .ok [97, 98] := rfl
  have hsplit : (⟨0, 16, 18⟩ : Table).storedKey forwardKey 0 = ⟨[97], [98]⟩ := rfl
  have hsegments : Entry.segments forwardKey 0 = .ok ⟨[97], [98]⟩ := rfl
  have hsegments' : Entry.segments backwardKey 0 = .ok ⟨[97], [98]⟩ := rfl
  have hdump : (⟨forwardKey, some .magic⟩ : Node).dump =
      (⟨backwardKey, some .magic⟩ : Node).dump := by
    refine Node.dump_eq_iff.mpr ⟨rfl, htable.trans htable'.symm, fun i hi => ?_, rfl⟩
    obtain rfl : i = 0 := Nat.lt_one_iff.mp (hcount ▸ hi)
    exact hsegments.trans hsegments'.symm
  obtain ⟨-, -, -, htables, hkeys, hsplits⟩ := dump_tells_what_is_read _ _ hdump
  exact ⟨by decide, hdump, htable, htables.symm.trans htable, hkey, (hkeys 0).symm.trans hkey,
    (hsplits _ 0 _ htable hkey).2.trans hsplit⟩

end IndexNode
