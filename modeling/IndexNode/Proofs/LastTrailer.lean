import IndexNode.Proofs.Soundness

/-!
# The last trailer

A node with a table ends with a trailer that is read twice: at the end of the node for the table,
and at the end of the last entry, a position counted in entries, when that entry is looked up. Both
are the same bytes, and what makes a table of them lets the entry pass its checks.

* `Entry.find_last`: the last entry of a table is found, with the trailer of the table.
* `Defective.of_last`: if it is defective, then in its key.
* `keyText_last`: a dump shows its key or a defect of its key.
* `Node.Sound.defect_of_reply`: a run that starts without a mark reports no defect but those of
  entries.
* `last_trailer_agrees_with_table`: the lookup of the last trailer, and runs over a single entry.
-/

namespace IndexNode

/-! ## The last entry -/

section Last

variable {b : Buffer} {t : Table} (ht : Table.ofBuffer b = .ok t)
include ht

theorem Table.stop_entrySpan_last : (t.entrySpan t.last).stop = b.size := by
  simp only [entrySpan, entryStop, nodeLength_of_ofBuffer ht, Nat.sub_self, Nat.mul_zero,
    Nat.sub_zero]

/-- The last entry is found, with the trailer that the table was read from. -/
theorem Entry.find_last :
    ∃ c, Trailer.endingAt? b b.size = some c ∧ c.hasMagic ∧
      t = ⟨c.index.toNat, c.entrySize, b.size⟩ ∧
      find b t.last = .ok ⟨t.entrySpan t.last, c⟩ := by
  obtain ⟨c, hc, hmagic, htable, -⟩ := Table.ofBuffer_eq_ok_iff.mp ht
  have hindex : c.index.toNat = t.last := (congrArg Table.last htable).symm
  refine ⟨c, hc, hmagic, htable, ?_⟩
  rw [find, Slot.find_of_le ht (Nat.le_refl _)]
  simp only [Slot.read, Table.stop_entrySpan_last ht, hc, hmagic, hindex, Bool.not_true,
    Bool.false_eq_true, ne_eq, not_true_eq_false, if_false]

/-- The last entry can be defective in its key only. -/
theorem Defective.of_last {d : Defect} (hd : Defective b t.last d) :
    ∃ s, d = .offset s ∨ d = .size s := by
  obtain ⟨c, -, -, -, hfind⟩ := Entry.find_last ht
  -- The defect is what a lookup of the key answers. It finds the entry, so the key is at fault.
  have hkey : ((Node.ofBuffer b).keyAt t.last).1 = .error (.corrupt d) :=
    Node.keyAt_eq_corrupt_iff.mpr ⟨_, rfl, hd⟩
  rw [Node.keyAt_ofBuffer, Entry.query_eq_corrupt_iff, hfind] at hkey
  obtain hkey | ⟨e, he, hread⟩ := hkey
  · cases hkey
  · cases hsplit : e.trailer.splitKey b with
    | ok k =>
      rw [hsplit] at hread
      cases hread
    | error d' =>
      rw [hsplit] at hread
      cases hread
      exact Trailer.defect_of_splitKey hsplit

/-- The trailer of a single entry cannot be wrong. -/
theorem Defective.of_single (hlast : t.last = 0) {i : Nat} {d : Defect} (hd : Defective b i d) :
    ∃ s, d = .offset s ∨ d = .size s := by
  have hlt := hd.lt_entryCount
  rw [entryCount_of_table ht, Table.count, hlast] at hlt
  obtain rfl : i = t.last := by omega
  exact hd.of_last ht

/-- A dump shows the key of the last entry, or what is wrong with the key. -/
theorem keyText_last :
    (∃ k : SplitKey, keyText b t.last = k.text) ∨
      ∃ d : Defect, (∃ s, d = .offset s ∨ d = .size s) ∧
        keyText b t.last = unreadable d.message := by
  obtain ⟨c, -, -, -, hfind⟩ := Entry.find_last ht
  rw [keyText, hfind]
  simp only
  cases hsplit : c.splitKey b with
  | ok k => exact .inl ⟨k, rfl⟩
  | error d => exact .inr ⟨d, Trailer.defect_of_splitKey hsplit, rfl⟩

end Last

/-! ## What a run reports -/

/-- The defect that a reply names: the one answered, or the mark that was taken off. -/
def Reply.defect? : Reply → Option Defect
  | answer a => a.defect?
  | cleared mark => mark
  | info _ | dump _ | reopened _ => none

namespace Node

variable {n : Node}

/-- A request is answered with a defect only if that is the mark before or after it. -/
theorem mark_of_defect_of_step {r : Request} {d : Defect} (h : (n.step r).1.defect? = some d) :
    n.mark = some d ∨ (n.step r).2.mark = some d := by
  cases r with
  | lookup l => exact .inr (mark_answer_of_defect h)
  | clear => exact .inl h
  | info | dump | reopen => cases h

/-- What a run reports is the defect of some entry. -/
theorem Sound.defect_of_reply (h : n.Sound) {rs : List Request} {reply : Reply} {d : Defect}
    (hreply : reply ∈ n.replies rs) (hd : reply.defect? = some d) :
    ∃ i, Defective n.buffer i d := by
  -- On the requests: the node after the first one is sound too, and has the same bytes.
  induction rs generalizing n with
  | nil => cases hreply
  | cons r rs ih =>
    obtain rfl | hlater := List.mem_cons.mp hreply
    · rcases mark_of_defect_of_step hd with hmark | hmark
      · exact h d hmark
      · obtain ⟨i, hi⟩ := h.step r d hmark
        exact ⟨i, by rwa [buffer_step] at hi⟩
    · have hi := ih (h.step r) hlater
      rwa [buffer_step] at hi

end Node

/-- The last trailer of a node with a table. The table is made of it, and on an unmarked node a
lookup of the last entry gives the same trailer and leaves the node unmarked. If there is one entry
only, no run of requests marks the node for a missing magic or a wrong index, names such a defect in
a reply or shows it for the entry. -/
theorem last_trailer_agrees_with_table (b : Buffer) (t : Table) (ht : Table.ofBuffer b = .ok t) :
    (∃ c, Trailer.endingAt? b b.size = some c ∧
      16 ≤ b.size ∧ c = Trailer.decode ((⟨b.size - 16, b.size⟩ : Span).read b) ∧
      (Node.ofBuffer b).trailerAt t.last = (.ok c, Node.ofBuffer b) ∧
      c.index.toNat = t.last ∧ c.units.toNat * 8 = t.entrySize ∧ c.magic = 0xcc) ∧
    (t.last = 0 → ∀ rs d, d = .magic ∨ d = .index →
      ((Node.ofBuffer b).after rs).mark ≠ some d ∧
      (∀ reply ∈ (Node.ofBuffer b).replies rs, reply.defect? ≠ some d) ∧
      ((∃ k : SplitKey, keyText b 0 = k.text) ∨
        ∃ e : Defect, e ≠ d ∧ keyText b 0 = unreadable e.message)) := by
  constructor
  · obtain ⟨c, hc, hmagic, htable, hfind⟩ := Entry.find_last ht
    have hlong : ¬ b.size < trailerSize := fun hshort => by
      rw [(Trailer.endingAt?_eq_none_iff b b.size).mpr hshort] at hc
      cases hc
    have hdecode : Trailer.endingAt? b b.size = some _ := if_neg hlong
    have hlookup : (Node.ofBuffer b).trailerAt t.last = (.ok c, Node.ofBuffer b) := by
      have hquery : Entry.query b t.last (fun e => .ok e.trailer) = .ok c :=
        Entry.query_eq_ok_iff.mpr ⟨_, hfind, rfl⟩
      rw [Node.trailerAt, Node.lookup_ofBuffer, hquery]
      rfl
    exact ⟨c, hc, Nat.le_of_not_lt hlong, Option.some.inj (hc.symm.trans hdecode), hlookup,
      (congrArg Table.last htable).symm, (congrArg Table.entrySize htable).symm,
      beq_iff_eq.mp hmagic⟩
  · intro hlast rs d hd
    have hsound := Node.sound_ofBuffer b
    have htrailer : ¬ ∃ s, d = .offset s ∨ d = .size s := by
      rintro ⟨s, hs⟩
      rcases hd with rfl | rfl <;> simp at hs
    refine ⟨?_, ?_, ?_⟩
    · intro hmark
      obtain ⟨i, hi⟩ := hsound.after rs d hmark
      rw [Node.buffer_after] at hi
      exact htrailer (hi.of_single ht hlast)
    · intro reply hreply hdefect
      obtain ⟨i, hi⟩ := hsound.defect_of_reply hreply hdefect
      exact htrailer (hi.of_single ht hlast)
    · have htext := keyText_last ht
      rw [hlast] at htext
      refine htext.imp_right ?_
      rintro ⟨e, hs, he⟩
      exact ⟨e, fun hed => htrailer (hed ▸ hs), he⟩

/-- A node that is one entry. Its key starts past the end of the node. -/
def loneEntry : Buffer := #[0, 0, 0, 17, 0, 0, 0, 0, 0, 0, 0, 0, 0, 0, 2, 0xcc]

/-- The key is lost, and that is all that a run over the node can report. -/
theorem lastTrailer_of_loneEntry :
    Table.ofBuffer loneEntry = .ok ⟨0, 16, 16⟩ ∧
    (Node.ofBuffer loneEntry).trailerAt 0 =
      (.ok ⟨⟨17, 0⟩, ⟨0, 0⟩, 0, 2, 0xcc⟩, Node.ofBuffer loneEntry) ∧
    .answer (.key (.error (.corrupt (.offset .first)))) ∈
      (Node.ofBuffer loneEntry).replies [.lookup (.key 0), .clear, .lookup (.trailer 0)] ∧
    ∀ reply ∈ (Node.ofBuffer loneEntry).replies [.lookup (.key 0), .clear, .lookup (.trailer 0)],
      reply.defect? ≠ some .index := by
  have htable : Table.ofBuffer loneEntry = .ok ⟨0, 16, 16⟩ := rfl
  obtain ⟨⟨c, hc, -, -, hlookup, -⟩, hrun⟩ := last_trailer_agrees_with_table loneEntry _ htable
  obtain rfl : c = ⟨⟨17, 0⟩, ⟨0, 0⟩, 0, 2, 0xcc⟩ := Option.some.inj (hc.symm.trans rfl)
  have hfirst : .answer (.key (.error (.corrupt (.offset .first)))) ∈
      (Node.ofBuffer loneEntry).replies [.lookup (.key 0), .clear, .lookup (.trailer 0)] :=
    List.mem_cons_self
  exact ⟨htable, hlookup, hfirst, (hrun rfl _ .index (.inr rfl)).2.1⟩

end IndexNode
