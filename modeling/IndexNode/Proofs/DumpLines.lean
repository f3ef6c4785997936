import IndexNode.Proofs.EntryBounds

/-!
# Dumps tell what lookups give

A dump reads the node beside its mark, by other steps than a lookup of the key takes. It still shows
for each entry what that lookup gives on an unmarked node: the two segments of the key, or the
defect. Its lines can be told apart, since no text in it holds a line break.

* `linesOf_intercalate`: texts without line breaks are the lines of their join.
* `Node.linesOf_dump`: so the lines of a dump are those it was made of.
* `keyText_of_keyAt_ok`, `keyText_of_keyAt_corrupt`: what is shown for an entry.
* `SplitKey.decode?_text`: the key can be read back from it.
* `dump_agrees_with_keyAt`: the dump line by line.
-/

namespace IndexNode

/-! ## Lines -/

/-- The lines of a text. -/
def linesOf (text : String) : List String := (text.toList.splitOn '\n').map String.ofList

theorem linesOf_intercalate {ls : List String} (hne : ls ≠ []) (h : ∀ s ∈ ls, '\n' ∉ s.toList) :
    linesOf ("\n".intercalate ls) = ls := by
  have hbreak : "\n".toList = ['\n'] := rfl
  have hsplit : (['\n'].intercalate (ls.map String.toList)).splitOn '\n' =
      ls.map String.toList := by
    refine List.splitOn_intercalate _ ?_ (by simpa using hne)
    simp only [List.forall_mem_map]
    exact h
  rw [linesOf, String.toList_intercalate, hbreak, hsplit, List.map_map]
  simp [Function.comp_def]

/-- Nothing but digits stands in a number. -/
theorem not_mem_toDigits {c : Char} (h : c.isDigit = false) (n : Nat) : c ∉ Nat.toDigits 10 n := by
  intro hc
  rw [Nat.isDigit_of_mem_toDigits (by decide) (by decide) hc] at h
  cases h

/-- Nothing but digits stands in the text of bytes. -/
theorem Hex.not_mem_encodeDigits {c : Char} (h : (digitValue? c).isSome = false) (t : Bytes) :
    c ∉ encodeDigits t := by
  intro hc
  rw [isSome_digitValue?_of_mem hc] at h
  cases h

@[simp] theorem newline_not_mem_toDigits (n : Nat) : '\n' ∉ Nat.toDigits 10 n :=
  not_mem_toDigits (by decide) n

@[simp] theorem newline_not_mem_encode (t : Bytes) : '\n' ∉ (Hex.encode t).toList := by
  rw [Hex.encode, String.toList_ofList]
  exact Hex.not_mem_encodeDigits (by decide) t

/-! ## Texts of a dump -/

@[simp] theorem TableError.newline_not_mem_message (e : TableError) : '\n' ∉ e.message.toList := by
  unfold message
  split <;> simp

@[simp] theorem Defect.newline_not_mem_message (d : Defect) : '\n' ∉ d.message.toList := by
  unfold message
  split <;> simp

@[simp] theorem Bound.newline_not_mem_name (b : Bound) : '\n' ∉ b.name.toList := by
  unfold name
  split <;> simp

@[simp] theorem LookupError.newline_not_mem_message (e : LookupError) :
    '\n' ∉ e.message.toList := by
  unfold message
  split <;> simp

@[simp] theorem SplitKey.newline_not_mem_text (k : SplitKey) : '\n' ∉ k.text.toList := by
  unfold text
  split <;> simp

@[simp] theorem newline_not_mem_keyText (b : Buffer) (i : Nat) : '\n' ∉ (keyText b i).toList := by
  unfold keyText
  split
  · simp [unreadable]
  · split <;> simp [unreadable]

theorem newline_not_mem_of_mem_tableLines {b : Buffer} {s : String} (h : s ∈ tableLines b) :
    '\n' ∉ s.toList := by
  unfold tableLines at h
  split at h
  · obtain rfl := List.mem_singleton.mp h
    simp
  · simp only [List.mem_cons, List.mem_map] at h
    rcases h with rfl | rfl | ⟨i, -, rfl⟩
    · simp
    · simp
    · simp [keyLine, paddedIndex, List.leftpad]

theorem newline_not_mem_of_mem_markLines {mark : Option Defect} {s : String}
    (h : s ∈ markLines mark) : '\n' ∉ s.toList := by
  cases mark with
  | none => cases h
  | some d =>
    obtain rfl := List.mem_singleton.mp h
    simp

/-- The lines of a dump are the texts that it was joined from. -/
theorem Node.linesOf_dump (n : Node) : linesOf n.dump = n.dumpLines := by
  refine linesOf_intercalate (by simp [dumpLines]) ?_
  intro s hs
  simp only [dumpLines, List.mem_append, List.mem_cons, List.not_mem_nil, or_false] at hs
  rcases hs with (((rfl | rfl) | hs) | hs) | rfl
  · simp
  · simp
  · exact newline_not_mem_of_mem_tableLines hs
  · exact newline_not_mem_of_mem_markLines hs
  · simp

/-! ## Keys in a dump -/

/-- The text without the blanks and the sign that stand between two segments. -/
def withoutSeparator (text : String) : String :=
  String.ofList (text.toList.filter fun c => c ≠ ' ' && c ≠ '+')

theorem Hex.encodeDigits_append (x y : Bytes) :
    encodeDigits (x ++ y) = encodeDigits x ++ encodeDigits y := List.flatMap_append

private theorem filter_encodeDigits (t : Bytes) :
    (Hex.encodeDigits t).filter (fun c => c ≠ ' ' && c ≠ '+') = Hex.encodeDigits t := by
  rw [List.filter_eq_self]
  intro c hc
  have hblank : c ≠ ' ' := fun h => Hex.not_mem_encodeDigits (by decide) t (h ▸ hc)
  have hsign : c ≠ '+' := fun h => Hex.not_mem_encodeDigits (by decide) t (h ▸ hc)
  simp [hblank, hsign]

/-- The bytes of a key are read back from its text. -/
theorem SplitKey.decode?_text (k : SplitKey) :
    Hex.decode? (withoutSeparator k.text) = some k.joined := by
  have hseparator : " + ".toList.filter (fun c => c ≠ ' ' && c ≠ '+') = [] := by decide
  have htext : withoutSeparator k.text = Hex.encode k.joined := by
    unfold text
    split
    · rename_i hempty
      rw [List.isEmpty_iff] at hempty
      rw [withoutSeparator, joined, hempty, List.append_nil, Hex.encode, String.toList_ofList,
        filter_encodeDigits]
    · rw [withoutSeparator, joined, String.toList_append, String.toList_append, List.filter_append,
        List.filter_append, hseparator, Hex.encode, Hex.encode, String.toList_ofList,
        String.toList_ofList, filter_encodeDigits, filter_encodeDigits, List.append_nil, Hex.encode,
        Hex.encodeDigits_append]
  rw [htext, Hex.decode?_encode]

section KeyText

variable {b : Buffer} {i : Nat}

/-- A key that can be looked up is shown by its segments, as they stand in the node. -/
theorem keyText_of_keyAt_ok {t : Table} (ht : Table.ofBuffer b = .ok t) {k : Bytes}
    (h : ((Node.ofBuffer b).keyAt i).1 = .ok k) :
    (t.storedKey b i).joined = k ∧ keyText b i = (t.storedKey b i).text := by
  rw [Node.keyAt_ofBuffer, Entry.query_eq_ok_iff] at h
  obtain ⟨e, he, hread⟩ := h
  cases hsplit : e.trailer.splitKey b with
  | error d =>
    rw [hsplit] at hread
    cases hread
  | ok split =>
    rw [hsplit] at hread
    cases hread
    rw [← Entry.eq_storedKey ht he hsplit]
    exact ⟨rfl, by simp only [keyText, he, hsplit]⟩

/-- A key that cannot be looked up is shown by its defect. One that is met before the key comes with
a word about the node. -/
theorem keyText_of_keyAt_corrupt {d : Defect}
    (h : ((Node.ofBuffer b).keyAt i).1 = .error (.corrupt d)) :
    keyText b i = if d = .magic ∨ d = .index then "<node corrupt: " ++ d.message ++ ">"
      else "<" ++ d.message ++ ">" := by
  rw [Node.keyAt_ofBuffer, Entry.query_eq_corrupt_iff] at h
  rcases h with he | ⟨e, he, hread⟩
  · have hword : "<node corrupt: " = "<" ++ "node corrupt: " := by decide
    rw [if_pos (Entry.defect_of_find he)]
    calc keyText b i
        = unreadable (LookupError.corrupt d).message := by simp only [keyText, he]
      _ = "<" ++ ("node corrupt: " ++ d.message) ++ ">" := rfl
      _ = "<node corrupt: " ++ d.message ++ ">" := by rw [hword, ← String.append_assoc]
  · cases hsplit : e.trailer.splitKey b with
    | ok split =>
      rw [hsplit] at hread
      cases hread
    | error c =>
      rw [hsplit] at hread
      cases hread
      obtain ⟨s, hd⟩ := Trailer.defect_of_splitKey hsplit
      have hkey : ¬ (d = .magic ∨ d = .index) := by
        rcases hd with rfl | rfl <;> simp
      rw [if_neg hkey]
      simp only [keyText, he, hsplit, unreadable]

end KeyText

/-- A dump line by line: the length, the table with a line for each of its entries, or why there is
no table, then the mark if there is one. Nothing else depends on the mark, and it stays. The line of
an entry shows the key that a lookup on an unmarked node gives, by its segments in hexadecimal; the
second one is left out if it is empty, and the whole key can be read back. If the lookup gives a
defect, that is shown instead. -/
theorem dump_agrees_with_keyAt (n : Node) :
    linesOf n.dump =
      ["Node ".push '{', "  length      : " ++ toString n.buffer.size] ++
      (match Table.ofBuffer n.buffer with
        | .error e => ["  entries     : 0 (" ++ e.message ++ ")"]
        | .ok t =>
          ["  entries     : " ++ toString n.count, "  entry_size  : " ++ toString t.entrySize] ++
          (List.range n.count).map fun i =>
            "  key[" ++ paddedIndex i ++ "]   : " ++ keyText n.buffer i) ++
      (match n.mark with
        | none => []
        | some d => ["  corrupt     : " ++ toString d.id ++ " (" ++ d.message ++ ")"]) ++
      [String.singleton '}'] ∧
    n.step .dump = (.dump n.dump, n) ∧
    ∀ (t : Table) (i : Nat), Table.ofBuffer n.buffer = .ok t → i < n.count →
      let shown := keyText n.buffer i
      let first := (t.segmentSpan n.buffer i .first).read n.buffer
      let second := (t.segmentSpan n.buffer i .second).read n.buffer
      (∀ k, ((Node.ofBuffer n.buffer).keyAt i).1 = .ok k →
        shown = (if second = [] then Hex.encode first
          else Hex.encode first ++ " + " ++ Hex.encode second) ∧
        k = first ++ second ∧ Hex.decode? (withoutSeparator shown) = some k) ∧
      (∀ d, ((Node.ofBuffer n.buffer).keyAt i).1 = .error (.corrupt d) →
        shown = if d = .magic ∨ d = .index then "<node corrupt: " ++ d.message ++ ">"
          else "<" ++ d.message ++ ">") ∧
      ∀ bound, ((Node.ofBuffer n.buffer).keyAt i).1 ≠ .error (.notFound bound) := by
  refine ⟨?_, rfl, ?_⟩
  · rw [Node.linesOf_dump, Node.dumpLines]
    cases ht : Table.ofBuffer n.buffer with
    | error e =>
      simp only [tableLines, ht]
      rfl
    | ok t =>
      have hcount : n.count = t.count := entryCount_of_table ht
      simp only [tableLines, ht, hcount]
      rfl
  · intro t i ht hi shown first second
    refine ⟨?_, fun d => keyText_of_keyAt_corrupt, ?_⟩
    · intro k hk
      obtain ⟨hjoined, htext⟩ := keyText_of_keyAt_ok ht hk
      refine ⟨?_, hjoined.symm, ?_⟩
      · show keyText n.buffer i = _
        rw [htext, SplitKey.text]
        simp only [List.isEmpty_iff]
        rfl
      · show Hex.decode? (withoutSeparator (keyText n.buffer i)) = _
        rw [htext, SplitKey.decode?_text, hjoined]
    · intro bound h
      rw [Node.keyAt_ofBuffer, Entry.query_eq_notFound_iff] at h
      have hentry : HasEntry n.buffer i := ⟨Int.natCast_nonneg i, Int.ofNat_lt.mpr hi⟩
      exact Entry.find_ne_notFound hentry bound h

/-- The key `cat` and `alog`, an entry with the index of another one, and an entry whose key starts
past the end of the node. -/
def threeKeyLines : Buffer :=
  #[99, 97, 116, 97, 108, 111, 103,
    0, 0, 0, 0, 0, 3, 0, 0, 0, 3, 0, 4, 0, 0, 2, 0xcc,
    0, 0, 0, 0, 0, 3, 0, 0, 0, 0, 0, 0, 0, 7, 2, 0xcc,
    0, 0, 0, 99, 0, 1, 0, 0, 0, 0, 0, 0, 0, 2, 2, 0xcc]

/-- A key in two segments and both kinds of defects, on a node that bears another mark. -/
theorem keyText_of_threeKeyLines :
    Table.ofBuffer threeKeyLines = .ok ⟨2, 16, 55⟩ ∧ entryCount threeKeyLines = 3 ∧
    ((Node.ofBuffer threeKeyLines).keyAt 0).1 = .ok [99, 97, 116, 97, 108, 111, 103] ∧
    keyText threeKeyLines 0 = "636174 + 616c6f67" ∧
    ((Node.ofBuffer threeKeyLines).keyAt 1).1 = .error (.corrupt .index) ∧
    keyText threeKeyLines 1 = "<node corrupt: trailer index does not match its table position>" ∧
    ((Node.ofBuffer threeKeyLines).keyAt 2).1 = .error (.corrupt (.offset .first)) ∧
    keyText threeKeyLines 2 = "<key segment 0 offset past end of node>" := by
  have htable : Table.ofBuffer threeKeyLines = .ok ⟨2, 16, 55⟩ := rfl
  have hcount : entryCount threeKeyLines = 3 := entryCount_of_table htable
  have hsplit : ((Node.ofBuffer threeKeyLines).keyAt 0).1 =
      .ok [99, 97, 116, 97, 108, 111, 103] := rfl
  have hindex : ((Node.ofBuffer threeKeyLines).keyAt 1).1 = .error (.corrupt .index) := rfl
  have hoffset : ((Node.ofBuffer threeKeyLines).keyAt 2).1 =
      .error (.corrupt (.offset .first)) := rfl
  have hfirst : ((⟨2, 16, 55⟩ : Table).segmentSpan threeKeyLines 0 .first).read threeKeyLines =
      [99, 97, 116] := rfl
  have hsecond : ((⟨2, 16, 55⟩ : Table).segmentSpan threeKeyLines 0 .second).read threeKeyLines =
      [97, 108, 111, 103] := rfl
  have hhex : Hex.encode [99, 97, 116] ++ " + " ++ Hex.encode [97, 108, 111, 103] =
      "636174 + 616c6f67" := by decide
  obtain ⟨-, -, hkeys⟩ := dump_agrees_with_keyAt ⟨threeKeyLines, some .magic⟩
  have hlt {i : Nat} (hi : i < 3) : i < entryCount threeKeyLines := hcount ▸ hi
  obtain ⟨h0, -⟩ := hkeys _ 0 htable (hlt (by decide))
  obtain ⟨-, h1, -⟩ := hkeys _ 1 htable (hlt (by decide))
  obtain ⟨-, h2, -⟩ := hkeys _ 2 htable (hlt (by decide))
  obtain ⟨h0, -⟩ := h0 _ hsplit
  rw [hfirst, hsecond, if_neg (by decide), hhex] at h0
  exact ⟨htable, hcount, hsplit, h0, hindex, (h1 _ hindex).trans (by decide), hoffset,
    (h2 _ hoffset).trans (by decide)⟩

end IndexNode
