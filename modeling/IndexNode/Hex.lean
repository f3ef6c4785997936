import IndexNode.Bytes

/-!
# Hexadecimal text

Two lowercase digits a byte, the high half first.

* `decode?_encode`: the text of bytes reads back as those bytes.
* `length_encodeDigits`: bytes take two digits each.
* `isSome_digitValue?_of_mem`: nothing but digits stands in the text.
-/

namespace IndexNode.Hex

/-- The two digits of a byte. -/
def digits (x : UInt8) : List Char :=
  [Nat.digitChar (x.toNat / 16), Nat.digitChar (x.toNat % 16)]

/-- The digits of a byte string. -/
def encodeDigits (t : Bytes) : List Char := t.flatMap digits

/-- The text of a byte string. -/
def encode (t : Bytes) : String := String.ofList (encodeDigits t)

/-- The value of a lowercase digit. -/
def digitValue? (c : Char) : Option Nat :=
  if '0' ≤ c ∧ c ≤ '9' then some (c.toNat - '0'.toNat)
  else if 'a' ≤ c ∧ c ≤ 'f' then some (c.toNat - 'a'.toNat + 10)
  else none

/-- Appends the bytes that the digits stand for to `acc`. Refuses an odd number of digits and
every character that is no lowercase digit. -/
def decodeDigits? (acc : Buffer) : List Char → Option Buffer
  | [] => some acc
  | [_] => none
  | hi :: lo :: rest =>
    match digitValue? hi, digitValue? lo with
    | some h, some l => decodeDigits? (acc.push (UInt8.ofNat (h * 16 + l))) rest
    | _, _ => none

/-- The bytes that a text of lowercase digits stands for. -/
def decode? (text : String) : Option Bytes := (decodeDigits? #[] text.toList).map Array.toList

theorem digitValue?_digitChar {n : Nat} (h : n < 16) : digitValue? (Nat.digitChar n) = some n := by
  have table : ∀ k : Fin 16, digitValue? (Nat.digitChar k.val) = some k.val := by decide
  exact table ⟨n, h⟩

/-- The text of bytes has digits only. -/
theorem isSome_digitValue?_of_mem {t : Bytes} {c : Char} (h : c ∈ encodeDigits t) :
    (digitValue? c).isSome := by
  obtain ⟨x, -, hc⟩ := List.mem_flatMap.mp h
  have hx := x.toNat_lt
  simp only [digits, List.mem_cons, List.not_mem_nil, or_false] at hc
  rcases hc with rfl | rfl
  · rw [digitValue?_digitChar (by omega), Option.isSome_some]
  · rw [digitValue?_digitChar (by omega), Option.isSome_some]

@[simp] theorem length_encodeDigits (t : Bytes) : (encodeDigits t).length = 2 * t.length := by
  induction t with
  | nil => rfl
  | cons x t ih =>
    rw [encodeDigits, List.flatMap_cons, List.length_append, ← encodeDigits, ih, List.length_cons]
    simp only [digits, List.length_cons, List.length_nil]
    omega

theorem decodeDigits?_encodeDigits (acc : Buffer) (t : Bytes) :
    decodeDigits? acc (encodeDigits t) = some (acc ++ t.toArray) := by
  induction t generalizing acc with
  | nil => simp [encodeDigits, decodeDigits?]
  | cons x t ih =>
    have hx := x.toNat_lt
    have hb : UInt8.ofNat (x.toNat / 16 * 16 + x.toNat % 16) = x := by
      rw [Nat.mul_comm, Nat.div_add_mod, UInt8.ofNat_toNat]
    simp only [encodeDigits, List.flatMap_cons, digits, List.cons_append, List.nil_append,
      decodeDigits?, digitValue?_digitChar (show x.toNat / 16 < 16 by omega),
      digitValue?_digitChar (show x.toNat % 16 < 16 by omega), hb]
    rw [← encodeDigits, ih]
    simp

theorem decode?_encode (t : Bytes) : decode? (encode t) = some t := by
  simp [decode?, encode, decodeDigits?_encodeDigits]

end IndexNode.Hex
