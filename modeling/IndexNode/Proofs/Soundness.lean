import IndexNode.Proofs.KeyBytes
import IndexNode.Proofs.Reordering

/-!
# The mark is sound and a scan is complete

The mark of a node depends on what was asked of it; which entries are defective is a matter of
the bytes alone. No run marks a node with a defect that no entry has, and a lookup of every key
finds the defects that there are.

* `Lookup.splitKey_of_read`: no lookup meets a defect in an entry that its key does not have.
* `Node.Sound`: the mark, if there is one, is the defect of some entry. Every request keeps it
  (`Node.Sound.step`), so every run does (`Node.Sound.after`).
* `Node.lookups_of_not_defective`: without defective entries lookups leave the node as it is.
* `Node.mark_of_scan`: a scan stops at the first defective entry in the order of the scan.
* `mark_sound_and_scan_complete`: both directions.
-/

namespace IndexNode

/-! ## What a lookup meets -/

/-- A comparison reads the segments of the key in their order, so it can stop early but meets no
other defect. -/
theorem Trailer.splitKey_of_compareKey {t : Trailer} {b : Buffer} {key : Bytes} {d : Defect}
    (h : t.compareKey b key = .error d) : t.splitKey b = .error d := by
  cases h1 : t.segment b .first with
  | error c =>
    rw [compareKey_of_first h1] at h
    cases h
    exact splitKey_of_first h1
  | ok first =>
    by_cases hp : first <+: key
    · rw [compareKey_of_reached h1 hp] at h
      rw [splitKey_of_ok h1]
      cases h2 : t.segment b .second with
      | error c =>
        rw [h2] at h
        cases h
        rfl
      | ok second =>
        rw [h2] at h
        cases h
    · rw [compareKey_of_not_reached h1 hp []] at h
      cases h

namespace Lookup

variable {l : Lookup} {b : Buffer} {d : Defect}

/-- No lookup meets a defect in an entry that its key does not have. -/
theorem splitKey_of_read {e : Entry} (h : l.reading.read b e = .error d) :
    (e.trailer.splitKey b).map SplitKey.joined = .error d := by
  cases l with
  | compare key i => rw [Trailer.splitKey_of_compareKey h, Except.map]
  | key i => exact h
  | trailer i | payload i => cases h

/-- A fresh answer with a defect names the one that the entry has. -/
theorem defective_of_fresh (h : (l.fresh b).defect? = some d) :
    ∃ n : Nat, l.index = n ∧ Defective b n d := by
  rw [fresh_eq, Reading.defect?_wrap_iff, Entry.query_eq_corrupt_iff] at h
  rw [← Node.keyAt_eq_corrupt_iff, Node.keyAt_ofBuffer, Entry.query_eq_corrupt_iff]
  rcases h with h | ⟨e, he, hd⟩
  · exact .inl h
  · exact .inr ⟨e, he, splitKey_of_read hd⟩

/-- A lookup of the key misses no defect. -/
theorem defect?_fresh_key (n : Nat) : ((key n).fresh b).defect? = some d ↔ Defective b n d := by
  constructor
  · intro h
    obtain ⟨m, hm, hd⟩ := defective_of_fresh h
    have hmn : m = n := Int.ofNat.inj hm.symm
    exact hmn ▸ hd
  · intro h
    have hkey : ((Node.ofBuffer b).keyAt n).1 = .error (.corrupt d) :=
      Node.keyAt_eq_corrupt_iff.mpr ⟨n, rfl, h⟩
    show Answer.defect? (.key ((Node.ofBuffer b).keyAt n).1) = some d
    rw [hkey]
    rfl

end Lookup

/-! ## Runs -/

namespace Node

/-- The mark, if there is one, is the defect of some entry. -/
def Sound (n : Node) : Prop := ∀ d, n.mark = some d → ∃ i, Defective n.buffer i d

theorem sound_ofBuffer (b : Buffer) : (ofBuffer b).Sound := by
  intro d h
  cases h

variable {n : Node}

theorem Sound.answer (h : n.Sound) (l : Lookup) : (n.answer l).2.Sound := by
  intro d hd
  rw [buffer_answer]
  cases hm : n.mark with
  | some c =>
    rw [mark_answer_of_marked hm] at hd
    exact h d (hm.trans hd)
  | none =>
    rw [answer_of_unmarked hm] at hd
    obtain ⟨i, -, hi⟩ := Lookup.defective_of_fresh hd
    exact ⟨i, hi⟩

theorem Sound.step (h : n.Sound) (r : Request) : (n.step r).2.Sound := by
  cases r with
  | lookup l => exact h.answer l
  | info | dump => exact h
  | clear | reopen => exact fun d hd => nomatch hd

theorem Sound.after (h : n.Sound) (rs : List Request) : (n.after rs).Sound := by
  induction rs generalizing n with
  | nil => exact h
  | cons r rs ih => exact ih (h.step r)

/-- A defect that is answered is the defect of some entry. -/
theorem Sound.replies (h : n.Sound) {rs : List Request} {a : Answer} {d : Defect}
    (ha : .answer a ∈ n.replies rs) (hd : a.defect? = some d) : ∃ i, Defective n.buffer i d := by
  obtain ⟨k, l, -, rfl⟩ := exists_answer_of_mem_replies ha
  have hsound := (h.after (rs.take k)).answer l d (mark_answer_of_defect hd)
  rwa [buffer_answer, buffer_after] at hsound

/-! ## Nodes without defects -/

/-- If the key of every entry can be read, no entry is defective. -/
theorem not_defective_of_readable {b : Buffer}
    (h : ∀ i : Nat, i < entryCount b → ∃ k, ((ofBuffer b).keyAt i).1 = .ok k) (i : Nat)
    (d : Defect) : ¬ Defective b i d := by
  intro hd
  obtain ⟨k, hk⟩ := h i hd.lt_entryCount
  rw [keyAt_eq_corrupt_iff.mpr ⟨i, rfl, hd⟩] at hk
  cases hk

/-- Lookups of a node without defects leave it as it is and do not see each other. -/
theorem lookups_of_not_defective {b : Buffer} (h : ∀ i d, ¬ Defective b i d) (ls : List Lookup) :
    (ofBuffer b).after (ls.map .lookup) = ofBuffer b ∧
      (ofBuffer b).replies (ls.map .lookup) = ls.map fun l => .answer (l.fresh b) := by
  refine lookups_of_no_defect (n := ofBuffer b) rfl ?_
  intro l _
  rw [Option.eq_none_iff_forall_ne_some]
  intro d hd
  obtain ⟨i, -, hi⟩ := Lookup.defective_of_fresh hd
  exact h i d hi

/-! ## Scans -/

/-- The node after its keys at the given indices have been looked up. -/
def scan (n : Node) (is : List Nat) : Node :=
  n.after (is.map fun i : Nat => .lookup (.key i))

variable {b : Buffer} {is : List Nat}

theorem scan_eq (n : Node) (is : List Nat) :
    n.scan is = n.after ((is.map fun i : Nat => Lookup.key i).map .lookup) := by
  rw [List.map_map]
  rfl

private theorem no_defect_of_not_defective (h : ∀ i ∈ is, ∀ d, ¬ Defective b i d) :
    ∀ l ∈ is.map fun i : Nat => Lookup.key i, (l.fresh b).defect? = none := by
  simp only [List.forall_mem_map]
  intro i hi
  rw [Option.eq_none_iff_forall_ne_some]
  intro d hd
  exact h i hi d ((Lookup.defect?_fresh_key i).mp hd)

/-- A scan of entries that are not defective leaves the node as it is. -/
theorem scan_of_not_defective (h : ∀ i ∈ is, ∀ d, ¬ Defective b i d) :
    (ofBuffer b).scan is = ofBuffer b := by
  rw [scan_eq]
  exact (lookups_of_no_defect (n := ofBuffer b) rfl (no_defect_of_not_defective h)).1

/-- A scan stops at the first defective entry in its order. -/
theorem mark_of_scan {pre post : List Nat} {i : Nat} {d : Defect}
    (hpre : ∀ j ∈ pre, ∀ e, ¬ Defective b j e) (hi : Defective b i d) :
    ((ofBuffer b).scan (pre ++ i :: post)).mark = some d := by
  rw [scan_eq, List.map_append, List.map_cons]
  exact (lookups_of_first_defect (no_defect_of_not_defective hpre)
    ((Lookup.defect?_fresh_key i).mpr hi) _).1

end Node

/-- Where some entry of a scan is defective there is a first one. -/
theorem exists_first_defective {b : Buffer} {is : List Nat} (h : ∃ i ∈ is, ∃ d, Defective b i d) :
    ∃ pre i post d, is = pre ++ i :: post ∧ (∀ j ∈ pre, ∀ e, ¬ Defective b j e) ∧
      Defective b i d := by
  have hfresh : ∃ i ∈ is, ((Lookup.key i).fresh b).defect?.isSome := by
    obtain ⟨i, hi, d, hd⟩ := h
    exact ⟨i, hi, Option.isSome_iff_exists.mpr ⟨d, (Lookup.defect?_fresh_key i).mpr hd⟩⟩
  obtain ⟨pre, i, post, d, his, hpre, hd⟩ := exists_first_isSome hfresh
  refine ⟨pre, i, post, d, his, fun j hj e he => ?_, (Lookup.defect?_fresh_key i).mp hd⟩
  rw [← Lookup.defect?_fresh_key, hpre j hj] at he
  cases he

/-- The mark after a run is the defect of some entry, so a node with no defective entry is never
marked and answers no defect. A scan of all entries, in whatever order `is`, leaves the node
unmarked exactly if no entry is defective, and else marks it with the defect of the first one in
that order. -/
theorem mark_sound_and_scan_complete (b : Buffer) :
    (∀ rs d, ((Node.ofBuffer b).after rs).mark = some d → ∃ i, Defective b i d) ∧
    ((∀ i d, ¬ Defective b i d) → ∀ rs, ((Node.ofBuffer b).after rs).mark = none ∧
      ∀ a, .answer a ∈ (Node.ofBuffer b).replies rs → a.defect? = none) ∧
    ∀ is : List Nat, is.Perm (List.range (entryCount b)) →
      (((Node.ofBuffer b).scan is).mark = none ↔ ∀ i d, ¬ Defective b i d) ∧
      ((∃ i d, Defective b i d) → ∃ pre i post d, is = pre ++ i :: post ∧
        (∀ j ∈ pre, ∀ e, ¬ Defective b j e) ∧ Defective b i d ∧
        ((Node.ofBuffer b).scan is).mark = some d) := by
  have hsound := Node.sound_ofBuffer b
  have hmark (rs d) (h : ((Node.ofBuffer b).after rs).mark = some d) : ∃ i, Defective b i d := by
    have hd := hsound.after rs d h
    rwa [Node.buffer_after] at hd
  refine ⟨hmark, ?_, ?_⟩
  · intro hclean rs
    constructor
    · rw [Option.eq_none_iff_forall_ne_some]
      intro d hd
      obtain ⟨i, hi⟩ := hmark rs d hd
      exact hclean i d hi
    · intro a ha
      rw [Option.eq_none_iff_forall_ne_some]
      intro d hd
      obtain ⟨i, hi⟩ := hsound.replies ha hd
      exact hclean i d hi
  · intro is his
    -- Every defective entry is in the table, so the scan comes to it.
    have hfirst (h : ∃ i d, Defective b i d) : ∃ pre i post d, is = pre ++ i :: post ∧
        (∀ j ∈ pre, ∀ e, ¬ Defective b j e) ∧ Defective b i d ∧
        ((Node.ofBuffer b).scan is).mark = some d := by
      obtain ⟨i, d, hi⟩ := h
      have hmem : i ∈ is := his.mem_iff.mpr (List.mem_range.mpr hi.lt_entryCount)
      obtain ⟨pre, j, post, e, rfl, hpre, hj⟩ := exists_first_defective ⟨i, hmem, d, hi⟩
      exact ⟨pre, j, post, e, rfl, hpre, hj, Node.mark_of_scan hpre hj⟩
    refine ⟨⟨?_, ?_⟩, hfirst⟩
    · intro hnone i d hi
      obtain ⟨pre, j, post, e, -, -, -, hsome⟩ := hfirst ⟨i, d, hi⟩
      rw [hnone] at hsome
      cases hsome
    · intro hclean
      rw [Node.scan_of_not_defective fun i _ => hclean i]
      rfl

/-- The entry that the scan comes to first is the last one of the node. -/
theorem scan_of_twoDefects :
    [1, 0].Perm (List.range (entryCount twoDefects)) ∧ (∃ i d, Defective twoDefects i d) ∧
    ((Node.ofBuffer twoDefects).scan [1, 0]).mark = some (.size .first) := by
  have hperm : [1, 0].Perm (List.range (entryCount twoDefects)) := by decide
  have hsize : Defective twoDefects 1 (.size .first) := ⟨⟨1, 16, 32⟩, rfl, by decide, rfl⟩
  obtain ⟨-, -, hscan⟩ := mark_sound_and_scan_complete twoDefects
  obtain ⟨pre, i, post, d, his, hpre, hi, hmark⟩ := (hscan _ hperm).2 ⟨1, _, hsize⟩
  refine ⟨hperm, ⟨1, _, hsize⟩, ?_⟩
  cases pre with
  | nil =>
    cases his
    rw [hmark, hi.unique hsize]
  | cons j pre =>
    -- The first entry of the scan is defective, so nothing stands before it.
    obtain ⟨rfl, -⟩ := List.cons.inj his
    exact absurd hsize (hpre 1 List.mem_cons_self _)

end IndexNode
