import IndexNode.Proofs.KeyOrder

/-!
# Entries carried over to another node

Two nodes whose entry `n` ends with the same trailer. How far a lookup of this entry agrees in
both depends on what else they share.

* `Entry.find_transfer`: the entry is found in both with this trailer, or refused in both.
* `Entry.query_transfer`: a reading that takes both for the same gives the same.
* `Node.trailerAt_transfer`: so both give the same trailer.
* `Node.payloadAt_transfer`: with the same bytes in front of it they give the same payload.
* `Node.keyAt_transfer`, `Node.compareAt_transfer`: a key that can be read in one and has the same
  segments in the other is read and compared alike.
-/

namespace IndexNode

/-! ## Keys of a trailer -/

namespace Trailer

variable {t : Trailer} {b b' : Buffer}

/-- The segments of the trailer that can be read in `b` stand in `b'` too. -/
def Keeps (t : Trailer) (b b' : Buffer) : Prop :=
  ∀ s bytes, t.segment b s = .ok bytes → t.segment b' s = .ok bytes

theorem Keeps.splitKey (h : t.Keeps b b') {k : SplitKey} (hk : t.splitKey b = .ok k) :
    t.splitKey b' = .ok k := by
  obtain ⟨h1, h2⟩ := splitKey_eq_ok_iff.mp hk
  exact splitKey_eq_ok_iff.mpr ⟨h _ _ h1, h _ _ h2⟩

theorem Keeps.compareKey (h : t.Keeps b b') {key : Bytes} {o : Ordering}
    (ho : t.compareKey b key = .ok o) : t.compareKey b' key = .ok o := by
  obtain ⟨first, h1, hreached, hother⟩ := compareKey_eq_ok_iff.mp ho
  refine compareKey_eq_ok_iff.mpr ⟨first, h _ _ h1, ?_, hother⟩
  intro hp
  obtain ⟨second, h2, hcompare⟩ := hreached hp
  exact ⟨second, h _ _ h2, hcompare⟩

end Trailer

/-! ## Entries -/

/-- Entry `n` as its bytes stand, whether or not it passes its checks. -/
def Table.entry (t : Table) (b : Buffer) (n : Nat) : Entry :=
  ⟨t.entrySpan n, Trailer.decode (t.trailerBytes b n)⟩

/-- Entry `n` is in the tables of both nodes and ends with the same trailer. -/
structure SameTrailer (b b' : Buffer) (t t' : Table) (n : Nat) : Prop where
  table : Table.ofBuffer b = .ok t
  table' : Table.ofBuffer b' = .ok t'
  le : n ≤ t.last
  le' : n ≤ t'.last
  bytes : t'.trailerBytes b' n = t.trailerBytes b n

section Transfer

variable {b b' : Buffer} {t t' : Table} {n : Nat} {α : Type}

theorem SameTrailer.trailer_entry (h : SameTrailer b b' t t' n) :
    (t'.entry b' n).trailer = (t.entry b n).trailer := congrArg Trailer.decode h.bytes

/-- The trailer passes its checks in both nodes or fails the same one. -/
theorem Entry.find_transfer (h : SameTrailer b b' t t' n) :
    (find b n = .ok (t.entry b n) ∧ find b' n = .ok (t'.entry b' n)) ∨
      ∃ d, find b n = .error (.corrupt d) ∧ find b' n = .error (.corrupt d) := by
  have hfield (f : Field) : t'.fieldValue b' n f = t.fieldValue b n f := by
    rw [Table.fieldValue, Table.fieldValue, h.bytes]
  rw [find_eq h.table h.le, find_eq h.table' h.le', hfield, hfield]
  by_cases hm : t.fieldValue b n .magic ≠ entryMagic.toNat
  · rw [if_pos hm, if_pos hm]
    exact .inr ⟨_, rfl, rfl⟩
  by_cases hi : t.fieldValue b n .index ≠ n
  · rw [if_neg hm, if_neg hm, if_pos hi, if_pos hi]
    exact .inr ⟨_, rfl, rfl⟩
  rw [if_neg hm, if_neg hm, if_neg hi, if_neg hi]
  exact .inl ⟨rfl, rfl⟩

variable {read read' : Entry → Except Defect α}

/-- Only the reading of the entry can differ. -/
theorem Entry.query_transfer (h : SameTrailer b b' t t' n)
    (hread : read' (t'.entry b' n) = read (t.entry b n)) :
    query b' n read' = query b n read := by
  unfold query
  obtain ⟨hb, hb'⟩ | ⟨d, hb, hb'⟩ := find_transfer h
  · rw [hb, hb']
    simp only [hread]
  · rw [hb, hb']

/-- What can be read in one node can be read in the other, if its reading carries over. -/
theorem Entry.query_ok_transfer (h : SameTrailer b b' t t' n) {a : α}
    (hread : read (t.entry b n) = .ok a → read' (t'.entry b' n) = .ok a)
    (ha : query b n read = .ok a) : query b' n read' = .ok a := by
  obtain ⟨e, he, hok⟩ := query_eq_ok_iff.mp ha
  obtain ⟨hb, hb'⟩ | ⟨d, hb, -⟩ := find_transfer h
  · rw [hb] at he
    cases he
    exact query_eq_ok_iff.mpr ⟨_, hb', hread hok⟩
  · rw [hb] at he
    cases he

namespace Node

theorem trailerAt_transfer (h : SameTrailer b b' t t' n) :
    ((ofBuffer b').trailerAt n).1 = ((ofBuffer b).trailerAt n).1 := by
  rw [trailerAt_ofBuffer, trailerAt_ofBuffer]
  exact Entry.query_transfer h (congrArg Except.ok h.trailer_entry)

theorem payloadAt_transfer (h : SameTrailer b b' t t' n)
    (hp : (t'.entry b' n).payload b' = (t.entry b n).payload b) :
    ((ofBuffer b').payloadAt n).1 = ((ofBuffer b).payloadAt n).1 := by
  rw [payloadAt_ofBuffer, payloadAt_ofBuffer]
  exact Entry.query_transfer h (congrArg Except.ok hp)

theorem keyAt_transfer (h : SameTrailer b b' t t' n) (hk : (t.entry b n).trailer.Keeps b b')
    {k : Bytes} (hkey : ((ofBuffer b).keyAt n).1 = .ok k) : ((ofBuffer b').keyAt n).1 = .ok k := by
  rw [keyAt_ofBuffer] at hkey ⊢
  refine Entry.query_ok_transfer h ?_ hkey
  intro hread
  rw [h.trailer_entry]
  cases hs : (t.entry b n).trailer.splitKey b with
  | error d =>
    rw [hs] at hread
    cases hread
  | ok split =>
    rw [hs] at hread
    rw [hk.splitKey hs, hread]

theorem compareAt_transfer (h : SameTrailer b b' t t' n) (hk : (t.entry b n).trailer.Keeps b b')
    {key : Bytes} {o : Ordering} (ho : ((ofBuffer b).compareAt key n).1 = .ordered o) :
    ((ofBuffer b').compareAt key n).1 = .ordered o := by
  rw [compareAt_eq_ordered_iff] at ho ⊢
  refine Entry.query_ok_transfer h ?_ ho
  intro hread
  rw [h.trailer_entry]
  exact hk.compareKey hread

end Node

end Transfer

end IndexNode
