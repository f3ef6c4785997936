import IndexNode.Proofs.FreshAnswer

/-!
# Comparisons agree with the stored key

A comparison walks along the segments of a stored key and stops as soon as the order is decided;
the lookup of the whole key joins them. On an unmarked node both tell the same order, and both
meet the same defects, except that a comparison may stop before it meets one in the second
segment.

* `compare_eq_lt_iff`: comparing byte strings is their lexicographic order.
* `compare_append`: the order against `s ++ x` is decided by `s` alone unless `s` is a prefix of
  the key (`compare_take_eq_iff`).
* `Trailer.splitKey_eq_ok_iff`, `Trailer.compareKey_eq_ok_iff`: which segments have been read where
  a key or an order comes out.
* `Trailer.compareKey_of_joined`, `Trailer.compareKey_of_defect`,
  `Trailer.compareKey_of_second_defect`: the three cases for one trailer.
* `compareAt_agrees_with_keyAt`: the same for an entry of a node, with the node afterwards.
-/

namespace IndexNode

/-! ## The order of byte strings -/

/-- A byte string compares as less exactly if it stands before the other in the lexicographic
order. -/
theorem compare_eq_lt_iff (x y : Bytes) : compare x y = .lt ↔ x < y := by
  induction x generalizing y with
  | nil => cases y <;> simp
  | cons a x ih =>
    cases y with
    | nil => simp
    | cons c y =>
      rw [List.compare_cons_cons, Ordering.then_eq_lt, ih, List.cons_lt_cons_iff,
        Std.compare_eq_lt, Std.LawfulEqCmp.compare_eq_iff_eq]

instance : Std.LawfulOrderOrd Bytes where
  isLE_compare x y := by
    rw [← List.not_lt, ← compare_eq_lt_iff, ← Std.OrientedCmp.gt_iff_lt]
    cases compare x y <;> decide
  isGE_compare x y := by
    rw [← List.not_lt, ← compare_eq_lt_iff]
    cases compare x y <;> decide

/-- Against `s ++ x` a key is decided by its first `s.length` bytes if they differ from `s`. -/
theorem compare_append (key s x : Bytes) :
    compare key (s ++ x) =
      (compare (key.take s.length) s).then (compare (key.drop s.length) x) := by
  induction s generalizing key with
  | nil => simp
  | cons y s ih =>
    cases key with
    -- A key that ends inside `s` is less, whatever follows.
    | nil => rfl
    | cons z key =>
      rw [List.cons_append, List.compare_cons_cons, ih, List.length_cons, List.take_succ_cons,
        List.drop_succ_cons, List.compare_cons_cons]
      cases compare z y <;> rfl

/-- The first `s.length` bytes of a key are equal to `s` exactly if `s` is a prefix of it. -/
theorem compare_take_eq_iff (key s : Bytes) : compare (key.take s.length) s = .eq ↔ s <+: key := by
  rw [Std.LawfulEqCmp.compare_eq_iff_eq, List.prefix_iff_eq_take, eq_comm]

/-! ## Keys of a trailer -/

/-- The defects that only the second key segment has. -/
def Defect.OfSecond (d : Defect) : Prop := d = .offset .second ∨ d = .size .second

namespace Trailer

variable {t : Trailer} {b : Buffer}

theorem defect_of_segment {s : Segment} {d : Defect} (h : t.segment b s = .error d) :
    d = .offset s ∨ d = .size s := by
  simp only [segment] at h
  split at h
  · cases h
    exact .inl rfl
  · split at h
    · cases h
      exact .inr rfl
    · cases h

theorem splitKey_of_first {d : Defect} (h : t.segment b .first = .error d) :
    t.splitKey b = .error d := by
  rw [splitKey, h]
  rfl

theorem splitKey_of_ok {first : Bytes} (h : t.segment b .first = .ok first) :
    t.splitKey b = (t.segment b .second).map fun second => ⟨first, second⟩ := by
  rw [splitKey, h]
  rfl

theorem compareKey_of_first {d : Defect} (h : t.segment b .first = .error d) (key : Bytes) :
    t.compareKey b key = .error d := by
  rw [compareKey, h]
  rfl

theorem compareKey_of_reached {first key : Bytes} (h : t.segment b .first = .ok first)
    (hp : first <+: key) :
    t.compareKey b key = (t.segment b .second).map (compare (key.drop first.length)) := by
  rw [compareKey, h]
  simp only [bind, Except.bind, (compare_take_eq_iff key first).mpr hp]
  cases t.segment b .second <;> rfl

theorem compareKey_of_not_reached {first key : Bytes} (h : t.segment b .first = .ok first)
    (hp : ¬ first <+: key) (x : Bytes) : t.compareKey b key = .ok (compare key (first ++ x)) := by
  rw [compareKey, h, compare_append]
  have hne := mt (compare_take_eq_iff key first).mp hp
  simp only [bind, Except.bind]
  cases hc : compare (key.take first.length) first with
  | lt => rfl
  | gt => rfl
  | eq => exact absurd hc hne

theorem splitKey_eq_ok_iff {k : SplitKey} : t.splitKey b = .ok k ↔
    t.segment b .first = .ok k.first ∧ t.segment b .second = .ok k.second := by
  obtain ⟨k1, k2⟩ := k
  cases h1 : t.segment b .first with
  | error d => simp [splitKey_of_first h1]
  | ok first =>
    rw [splitKey_of_ok h1]
    cases t.segment b .second <;> simp [Except.map]

/-- A key that cannot be read has a defect in one of its segments. -/
theorem defect_of_splitKey {d : Defect} (h : t.splitKey b = .error d) :
    ∃ s, d = .offset s ∨ d = .size s := by
  cases h1 : t.segment b .first with
  | error c =>
    rw [splitKey_of_first h1] at h
    cases h
    exact ⟨_, defect_of_segment h1⟩
  | ok first =>
    rw [splitKey_of_ok h1] at h
    cases h2 : t.segment b .second with
    | error c =>
      rw [h2] at h
      cases h
      exact ⟨_, defect_of_segment h2⟩
    | ok second =>
      rw [h2] at h
      cases h

/-- A comparison that comes to an order has read as much of the key as the first segment asks
for. -/
theorem compareKey_eq_ok_iff {key : Bytes} {o : Ordering} : t.compareKey b key = .ok o ↔
    ∃ first, t.segment b .first = .ok first ∧
      (first <+: key → ∃ second, t.segment b .second = .ok second ∧
        compare (key.drop first.length) second = o) ∧
      (¬ first <+: key → compare key first = o) := by
  cases h1 : t.segment b .first with
  | error d => simp [compareKey_of_first h1]
  | ok first =>
    by_cases hp : first <+: key
    · rw [compareKey_of_reached h1 hp]
      cases t.segment b .second <;> simp [hp, Except.map]
    · have hother := compareKey_of_not_reached h1 hp []
      rw [List.append_nil] at hother
      simp [hother, hp]

/-- Where the whole key can be read, a comparison is the order against it. -/
theorem compareKey_of_joined {k : Bytes} (h : (t.splitKey b).map SplitKey.joined = .ok k)
    (key : Bytes) : t.compareKey b key = .ok (compare key k) := by
  cases h1 : t.segment b .first with
  | error d =>
    rw [splitKey_of_first h1] at h
    cases h
  | ok first =>
    rw [splitKey_of_ok h1] at h
    cases h2 : t.segment b .second with
    | error d =>
      rw [h2] at h
      cases h
    | ok second =>
      rw [h2] at h
      cases h
      by_cases hp : first <+: key
      · rw [compareKey_of_reached h1 hp, h2, SplitKey.joined, compare_append,
          (compare_take_eq_iff key first).mpr hp]
        rfl
      · exact compareKey_of_not_reached h1 hp second

/-- A defect of the first segment is met by a comparison too. -/
theorem compareKey_of_defect {d : Defect} (h : (t.splitKey b).map SplitKey.joined = .error d)
    (hd : ¬ d.OfSecond) (key : Bytes) : t.compareKey b key = .error d := by
  cases h1 : t.segment b .first with
  | error c =>
    rw [splitKey_of_first h1] at h
    cases h
    exact compareKey_of_first h1 key
  | ok first =>
    rw [splitKey_of_ok h1] at h
    cases h2 : t.segment b .second with
    | error c =>
      rw [h2] at h
      cases h
      exact absurd (defect_of_segment h2) hd
    | ok second =>
      rw [h2] at h
      cases h

/-- A defect of the second segment is met by a comparison only if the first one is a prefix of
the key. Else the first segment alone is ordered, whatever might follow it. -/
theorem compareKey_of_second_defect {d : Defect}
    (h : (t.splitKey b).map SplitKey.joined = .error d) (hd : d.OfSecond) (key : Bytes) :
    ∃ first, t.segment b .first = .ok first ∧
      (first <+: key → t.compareKey b key = .error d) ∧
      (¬ first <+: key → ∀ x, t.compareKey b key = .ok (compare key (first ++ x))) := by
  cases h1 : t.segment b .first with
  | error c =>
    rw [splitKey_of_first h1] at h
    cases h
    rcases defect_of_segment h1 with rfl | rfl <;> rcases hd with hd | hd <;> cases hd
  | ok first =>
    rw [splitKey_of_ok h1] at h
    cases h2 : t.segment b .second with
    | error c =>
      rw [h2] at h
      cases h
      refine ⟨first, rfl, fun hp => ?_, compareKey_of_not_reached h1⟩
      rw [compareKey_of_reached h1 hp, h2]
      rfl
    | ok second =>
      rw [h2] at h
      cases h

end Trailer

/-! ## Comparisons with an entry -/

namespace Node

variable {b : Buffer} {i : Int}

theorem compareAt_of_query_ok {key : Bytes} {o : Ordering}
    (h : Entry.query b i (fun e => e.trailer.compareKey b key) = .ok o) :
    (ofBuffer b).compareAt key i = (.ordered o, ofBuffer b) := by
  rw [compareAt_ofBuffer, h]
  rfl

theorem compareAt_of_query_corrupt {key : Bytes} {d : Defect}
    (h : Entry.query b i (fun e => e.trailer.compareKey b key) = .error (.corrupt d)) :
    (ofBuffer b).compareAt key i = (.corrupt d, ⟨b, some d⟩) := by
  rw [compareAt_ofBuffer, h]
  rfl

theorem compareAt_of_keyAt_notFound {bound : Bound}
    (h : ((ofBuffer b).keyAt i).1 = .error (.notFound bound)) (key : Bytes) :
    (ofBuffer b).compareAt key i = (.notFound bound, ofBuffer b) := by
  rw [keyAt_ofBuffer, Entry.query_eq_notFound_iff] at h
  rw [compareAt_ofBuffer, Entry.query_eq_notFound_iff.mpr h]
  rfl

theorem compareAt_of_keyAt_ok {k : Bytes} (h : ((ofBuffer b).keyAt i).1 = .ok k) (key : Bytes) :
    (ofBuffer b).compareAt key i = (.ordered (compare key k), ofBuffer b) := by
  rw [keyAt_ofBuffer, Entry.query_eq_ok_iff] at h
  obtain ⟨e, he, hk⟩ := h
  exact compareAt_of_query_ok
    (Entry.query_eq_ok_iff.mpr ⟨e, he, Trailer.compareKey_of_joined hk key⟩)

theorem compareAt_of_keyAt_defect {d : Defect}
    (h : ((ofBuffer b).keyAt i).1 = .error (.corrupt d)) (hd : ¬ d.OfSecond) (key : Bytes) :
    (ofBuffer b).compareAt key i = (.corrupt d, ⟨b, some d⟩) := by
  rw [keyAt_ofBuffer, Entry.query_eq_corrupt_iff] at h
  refine compareAt_of_query_corrupt (Entry.query_eq_corrupt_iff.mpr ?_)
  rcases h with h | ⟨e, he, hk⟩
  · exact .inl h
  · exact .inr ⟨e, he, Trailer.compareKey_of_defect hk hd key⟩

/-- With a defect in its second segment an entry has a first one, which decides alone unless it
is a prefix of the key. -/
theorem compareAt_of_keyAt_second_defect {d : Defect}
    (h : ((ofBuffer b).keyAt i).1 = .error (.corrupt d)) (hd : d.OfSecond) (key : Bytes) :
    ∃ t n, Table.ofBuffer b = .ok t ∧ i = Int.ofNat n ∧ n ≤ t.last ∧
      (t.segmentSpan b n .first).stop ≤ b.size ∧
      ((t.storedKey b n).first <+: key →
        (ofBuffer b).compareAt key i = (.corrupt d, ⟨b, some d⟩)) ∧
      (¬ (t.storedKey b n).first <+: key → ∃ o,
        (ofBuffer b).compareAt key i = (.ordered o, ofBuffer b) ∧
          ∀ x, compare key ((t.storedKey b n).first ++ x) = o) := by
  rw [keyAt_ofBuffer, Entry.query_eq_corrupt_iff] at h
  rcases h with h | ⟨e, he, hk⟩
  · rcases Entry.defect_of_find h with rfl | rfl <;> rcases hd with hd | hd <;> cases hd
  · obtain ⟨t, n, ht, hi, hn, htrailer⟩ := Entry.eq_of_find he
    obtain ⟨first, h1, hprefix, hother⟩ := Trailer.compareKey_of_second_defect hk hd key
    -- The segment that the comparison reads is the one that the bytes of the entry describe.
    have hspan : (e.trailer.extent .first).span = t.segmentSpan b n .first := by
      rw [htrailer]
      exact Table.span_extent_trailer (Table.fits_of_ofBuffer ht)
        (Table.nodeLength_of_ofBuffer ht) hn .first
    obtain ⟨hstop, rfl⟩ := Trailer.segment_eq_ok_iff.mp h1
    rw [hspan] at hstop hprefix hother
    refine ⟨t, n, ht, hi, hn, hstop, fun hp => ?_, fun hp => ?_⟩
    · exact compareAt_of_query_corrupt
        (Entry.query_eq_corrupt_iff.mpr (.inr ⟨e, he, hprefix hp⟩))
    · have hall (x : Bytes) := hother hp x
      refine ⟨_, compareAt_of_query_ok (Entry.query_eq_ok_iff.mpr ⟨e, he, hall []⟩), fun x => ?_⟩
      exact Except.ok.inj ((hall x).symm.trans (hall []))

end Node

/-- A comparison on an unmarked node against the key that the node gives for the same entry. -/
theorem compareAt_agrees_with_keyAt (b : Buffer) (key : Bytes) (i : Int) :
    (∀ k, ((Node.ofBuffer b).keyAt i).1 = .ok k →
      (Node.ofBuffer b).compareAt key i = (.ordered (compare key k), Node.ofBuffer b)) ∧
    (∀ bound, ((Node.ofBuffer b).keyAt i).1 = .error (.notFound bound) →
      (Node.ofBuffer b).compareAt key i = (.notFound bound, Node.ofBuffer b)) ∧
    (∀ d, ((Node.ofBuffer b).keyAt i).1 = .error (.corrupt d) → ¬ d.OfSecond →
      (Node.ofBuffer b).compareAt key i = (.corrupt d, ⟨b, some d⟩)) ∧
    ∀ d, ((Node.ofBuffer b).keyAt i).1 = .error (.corrupt d) → d.OfSecond →
      ∃ t n, Table.ofBuffer b = .ok t ∧ i = Int.ofNat n ∧ n ≤ t.last ∧
        (t.segmentSpan b n .first).stop ≤ b.size ∧
        ((t.storedKey b n).first <+: key →
          (Node.ofBuffer b).compareAt key i = (.corrupt d, ⟨b, some d⟩)) ∧
        (¬ (t.storedKey b n).first <+: key → ∃ o,
          (Node.ofBuffer b).compareAt key i = (.ordered o, Node.ofBuffer b) ∧
            ∀ x, compare key ((t.storedKey b n).first ++ x) = o) :=
  ⟨fun _ h => Node.compareAt_of_keyAt_ok h key,
    fun _ h => Node.compareAt_of_keyAt_notFound h key,
    fun _ h hd => Node.compareAt_of_keyAt_defect h hd key,
    fun _ h hd => Node.compareAt_of_keyAt_second_defect h hd key⟩

/-- One entry with the key segments `cat` and `alog`, of which the second is said to start past
the end of the node. -/
def brokenSecond : Buffer :=
  #[99, 97, 116, 97, 108, 111, 103,
    0, 0, 0, 0, 0, 3, 0, 0xff, 0xff, 0xff, 0, 4, 0, 0, 2, 0xcc]

/-- `dog` is ordered by the first segment alone, `cats` gets to the broken one. -/
theorem compareAt_of_brokenSecond :
    ((Node.ofBuffer brokenSecond).keyAt 0).1 = .error (.corrupt (.offset .second)) ∧
    Defect.OfSecond (.offset .second) ∧
    (∃ o, (Node.ofBuffer brokenSecond).compareAt [100, 111, 103] 0 =
      (.ordered o, Node.ofBuffer brokenSecond) ∧
        ∀ x : Bytes, compare [100, 111, 103] ([99, 97, 116] ++ x) = o) ∧
    (Node.ofBuffer brokenSecond).compareAt [99, 97, 116, 115] 0 =
      (.corrupt (.offset .second), ⟨brokenSecond, some (.offset .second)⟩) := by
  have hkey : ((Node.ofBuffer brokenSecond).keyAt 0).1 = .error (.corrupt (.offset .second)) := rfl
  have hsecond : Defect.OfSecond (.offset .second) := .inl rfl
  have hstored {t : Table} {n : Nat} (ht : Table.ofBuffer brokenSecond = .ok t)
      (hn : 0 = Int.ofNat n) : (t.storedKey brokenSecond n).first = [99, 97, 116] := by
    have ht : t = ⟨0, 16, 23⟩ := Except.ok.inj (ht.symm.trans rfl)
    have hn : n = 0 := by simpa using hn.symm
    rw [ht, hn]
    rfl
  refine ⟨hkey, hsecond, ?_, ?_⟩
  · obtain ⟨-, -, -, h⟩ := compareAt_agrees_with_keyAt brokenSecond [100, 111, 103] 0
    obtain ⟨t, n, ht, hn, -, -, -, hother⟩ := h _ hkey hsecond
    rw [hstored ht hn] at hother
    exact hother (by decide)
  · obtain ⟨-, -, -, h⟩ := compareAt_agrees_with_keyAt brokenSecond [99, 97, 116, 115] 0
    obtain ⟨t, n, ht, hn, -, -, hprefix, -⟩ := h _ hkey hsecond
    rw [hstored ht hn] at hprefix
    exact hprefix (by decide)

end IndexNode
