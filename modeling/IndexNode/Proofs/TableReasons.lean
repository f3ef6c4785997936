import IndexNode.Table

/-!
# Reasons why a node has no table

The text of a failure says which check failed and with which numbers, and nothing of that is lost in
it: numbers in a text end where the next word starts.

* `Hex.encode_inj`, `toDigits_inj`: bytes in hexadecimal and numbers in decimal differ in their
  texts.
* `append_inj_of_head`: a word ends where a character of another kind stands;
  `toDigits_append_inj` says so of numbers.
* `TableError.message_inj`: failures with the same text are the same.
* `Table.failsWith_message_iff`: a text that is given as the reason stands for one failure.
-/

namespace IndexNode

/-! ## Numbers in a text -/

theorem Hex.encode_inj {x y : Bytes} : encode x = encode y ↔ x = y := by
  refine ⟨fun h => ?_, congrArg encode⟩
  rw [← Option.some_inj, ← decode?_encode x, ← decode?_encode y, h]

theorem toDigits_inj {m n : Nat} : Nat.toDigits 10 m = Nat.toDigits 10 n ↔ m = n := by
  refine ⟨fun h => ?_, congrArg (Nat.toDigits 10)⟩
  rw [← Nat.ofDigitChars_ten_toDigits (n := m), ← Nat.ofDigitChars_ten_toDigits (n := n), h]

/-- A word is read off a text up to the first character of another kind. -/
theorem takeWhile_append_of_head {p : Char → Bool} {word rest : List Char}
    (hword : ∀ c ∈ word, p c = true) (hrest : ∀ c ∈ rest.head?, p c = false) :
    (word ++ rest).takeWhile p = word := by
  rw [List.takeWhile_append_of_pos hword]
  cases rest with
  | nil => simp
  | cons c rest => simp [hrest c (by simp)]

/-- Two texts that start with words of one kind, and go on with another, are the same in both
parts. -/
theorem append_inj_of_head {p : Char → Bool} {v w x y : List Char}
    (hv : ∀ c ∈ v, p c = true) (hw : ∀ c ∈ w, p c = true) (hx : ∀ c ∈ x.head?, p c = false)
    (hy : ∀ c ∈ y.head?, p c = false) : v ++ x = w ++ y ↔ v = w ∧ x = y := by
  constructor
  · intro h
    have hword := congrArg (List.takeWhile p) h
    rw [takeWhile_append_of_head hv hx, takeWhile_append_of_head hw hy] at hword
    subst hword
    exact ⟨rfl, List.append_cancel_left h⟩
  · rintro ⟨rfl, rfl⟩
    rfl

theorem toDigits_append_inj {m n : Nat} {x y : List Char}
    (hx : ∀ c ∈ x.head?, c.isDigit = false) (hy : ∀ c ∈ y.head?, c.isDigit = false) :
    Nat.toDigits 10 m ++ x = Nat.toDigits 10 n ++ y ↔ m = n ∧ x = y := by
  have hdigit (k : Nat) : ∀ c ∈ Nat.toDigits 10 k, c.isDigit = true :=
    fun c hc => Nat.isDigit_of_mem_toDigits (by decide) (by decide) hc
  rw [append_inj_of_head (hdigit m) (hdigit n) hx hy, toDigits_inj]

/-! ## Texts of failures -/

/-- The text of a failure determines it. -/
theorem TableError.message_inj {e e' : TableError} : e.message = e'.message ↔ e = e' := by
  refine ⟨fun h => ?_, congrArg message⟩
  replace h := congrArg String.toList h
  unfold message at h
  -- Texts of two kinds differ within their first four characters.
  cases e with
  | tooShort =>
    cases e' with
    | tooShort => rfl
    | noMagic _ | smallEntries _ | overrun _ _ => simp at h
  | noMagic x =>
    cases e' with
    | noMagic y =>
      have hbyte : Hex.encode [x] = Hex.encode [y] := by simpa [String.toList_inj] using h
      obtain rfl : x = y := by simpa [Hex.encode_inj] using hbyte
      rfl
    | tooShort | smallEntries _ | overrun _ _ => simp at h
  | smallEntries m =>
    cases e' with
    | smallEntries n =>
      obtain rfl : m = n := by simpa [toDigits_inj] using h
      rfl
    | tooShort | noMagic _ | overrun _ _ => simp at h
  | overrun m l =>
    cases e' with
    | overrun n k =>
      simp only [String.toList_append, List.append_assoc, List.append_cancel_left_eq,
        Nat.toString_eq_ofList_toDigits, String.toList_ofList] at h
      obtain ⟨rfl, hrest⟩ := (toDigits_append_inj (by simp) (by simp)).mp h
      obtain ⟨rfl, -⟩ := (toDigits_append_inj (by simp) (by simp)).mp
        (List.append_cancel_left hrest)
      rfl
    | tooShort | noMagic _ | smallEntries _ => simp at h

/-- The table of the node cannot be read, and `text` is the reason given. -/
def Table.FailsWith (b : Buffer) (text : String) : Prop :=
  ∃ e, ofBuffer b = .error e ∧ e.message = text

theorem Table.failsWith_message_iff {b : Buffer} {e : TableError} :
    FailsWith b e.message ↔ ofBuffer b = .error e := by
  constructor
  · rintro ⟨e', h, htext⟩
    rw [h, TableError.message_inj.mp htext]
  · intro h
    exact ⟨e, h, rfl⟩

end IndexNode
