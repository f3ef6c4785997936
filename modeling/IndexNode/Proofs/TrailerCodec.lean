import IndexNode.Proofs.EntryBytes

/-!
# Trailers written and read

The fields of a trailer lie side by side, so writing them one after the other leaves each with the
number that was written last to it. They leave no byte out either: a trailer and the bytes that it
is stored in are the same thing.

* `Field.lt_trailerSize_iff`: each byte of a trailer belongs to one field. `Field.ext_cut`: so
  trailers with the same bytes in every field have the same bytes.
* `Trailer.get_lt`: the numbers of a trailer fit their fields.
* `Trailer.cut_store`: after a store each field holds its number, whatever stood there.
* `Trailer.decode_store`: a stored trailer decodes to itself.
* `Trailer.store_decode`: the bytes of a trailer are what a store of it writes.
* `store_and_decode_are_inverse`: the two together, field by field.
-/

namespace IndexNode

/-! ## Fields and bytes -/

namespace Field

theorem length_span_le (f : Field) : f.span.length ≤ 4 := by
  cases f with
  | offset s | size s => cases s <;> decide
  | index | units | magic => decide

theorem exists_of_lt {p : Nat} (hp : p < trailerSize) :
    ∃ f : Field, f.span.start ≤ p ∧ p < f.span.stop := by
  have table : ∀ p : Fin trailerSize, ∃ f ∈ all, f.span.start ≤ p ∧ p < f.span.stop := by decide
  obtain ⟨f, -, hf⟩ := table ⟨p, hp⟩
  exact ⟨f, hf⟩

/-- The bytes of a trailer are those that belong to a field, and none belongs to two. -/
theorem lt_trailerSize_iff {p : Nat} :
    p < trailerSize ↔ ∃! f : Field, f.span.start ≤ p ∧ p < f.span.stop := by
  constructor
  · intro hp
    obtain ⟨f, hf⟩ := exists_of_lt hp
    refine ⟨f, hf, fun g hg => ?_⟩
    by_contra hne
    have hapart := disjoint hne
    omega
  · rintro ⟨f, hf, -⟩
    exact Nat.lt_of_lt_of_le hf.2 f.stop_le_trailerSize

theorem ext_cut {x y : Bytes} (hx : x.length = trailerSize) (hy : y.length = trailerSize)
    (h : ∀ f : Field, f.span.cut x = f.span.cut y) : x = y := by
  apply List.ext_getElem?
  intro p
  by_cases hp : p < trailerSize
  · obtain ⟨f, hstart, hstop⟩ := exists_of_lt hp
    rw [← Span.getElem?_cut f.span x hstart hstop, h f, Span.getElem?_cut f.span y hstart hstop]
  · rw [List.getElem?_eq_none (by omega), List.getElem?_eq_none (by omega)]

end Field

/-! ## Trailers -/

namespace Trailer

/-- A trailer is the numbers in its fields. -/
theorem ext_get {t u : Trailer} (h : ∀ f, t.get f = u.get f) : t = u := by
  obtain ⟨⟨o1, s1⟩, ⟨o2, s2⟩, i, n, m⟩ := t
  obtain ⟨⟨o1', s1'⟩, ⟨o2', s2'⟩, i', n', m'⟩ := u
  have ho1 : o1 = o1' := UInt32.toNat_inj.mp (h (.offset .first))
  have hs1 : s1 = s1' := UInt16.toNat_inj.mp (h (.size .first))
  have ho2 : o2 = o2' := UInt32.toNat_inj.mp (h (.offset .second))
  have hs2 : s2 = s2' := UInt16.toNat_inj.mp (h (.size .second))
  have hi : i = i' := UInt16.toNat_inj.mp (h .index)
  have hn : n = n' := UInt8.toNat_inj.mp (h .units)
  have hm : m = m' := UInt8.toNat_inj.mp (h .magic)
  rw [ho1, hs1, ho2, hs2, hi, hn, hm]

/-- A field is as wide as the type of its number. -/
theorem get_lt (t : Trailer) (f : Field) : t.get f < 256 ^ f.span.length := by
  cases f with
  | offset s => cases s <;> exact UInt32.toNat_lt _
  | size s => cases s <;> exact UInt16.toNat_lt _
  | index => exact UInt16.toNat_lt _
  | units | magic => exact UInt8.toNat_lt _

variable {t : Trailer} {block : Bytes} {f : Field}

/-- A field that is not written keeps its bytes. -/
theorem cut_write_of_not_mem {fs : List Field} (h : block.length = trailerSize) (hf : f ∉ fs) :
    f.span.cut (t.write fs block) = f.span.cut block := by
  induction fs generalizing block with
  | nil => rfl
  | cons g fs ih =>
    have hne : g ≠ f := fun hg => hf (hg ▸ List.mem_cons_self)
    have hfs : f ∉ fs := fun hfs => hf (List.mem_cons_of_mem _ hfs)
    show f.span.cut (t.write fs (BigEndian.put block g.span (t.get g))) = _
    rw [ih (g.length_put h _) hfs, BigEndian.cut_put_of_disjoint (Nat.le_of_lt g.start_lt_stop)
      (h ▸ g.stop_le_trailerSize) (Field.disjoint hne)]

/-- A field that is written holds its number. -/
theorem cut_write_of_mem {fs : List Field} (h : block.length = trailerSize) (hf : f ∈ fs) :
    f.span.cut (t.write fs block) = BigEndian.encode f.span.length (t.get f) := by
  induction fs generalizing block with
  | nil => cases hf
  | cons g fs ih =>
    have hlen := g.length_put h (t.get g)
    show f.span.cut (t.write fs (BigEndian.put block g.span (t.get g))) = _
    by_cases hfs : f ∈ fs
    · exact ih hlen hfs
    · -- No later write reaches the field, so the first one stays.
      obtain rfl : f = g := (List.mem_cons.mp hf).resolve_right hfs
      rw [cut_write_of_not_mem hlen hfs, BigEndian.cut_put (Nat.le_of_lt f.start_lt_stop)
        (h ▸ f.stop_le_trailerSize)]

theorem cut_store (h : block.length = trailerSize) (f : Field) :
    f.span.cut (t.store block) = BigEndian.encode f.span.length (t.get f) :=
  cut_write_of_mem h f.mem_all

/-- A trailer that has been stored is read back, whatever block it was stored into. -/
theorem decode_store (h : block.length = trailerSize) : decode (t.store block) = t := by
  apply ext_get
  intro f
  rw [get_decode (length_store t h), cut_store h, BigEndian.value_encode,
    Nat.mod_eq_of_lt (t.get_lt f)]

theorem length_encode (t : Trailer) : t.encode.length = trailerSize :=
  length_store t (by simp [zeros])

theorem decode_encode (t : Trailer) : decode t.encode = t := decode_store (by simp [zeros])

/-- The bytes that a trailer is decoded from are the only ones that it is stored as. -/
theorem store_decode {raw : Bytes} (hraw : raw.length = trailerSize)
    (h : block.length = trailerSize) : (decode raw).store block = raw := by
  refine Field.ext_cut (length_store _ h) hraw fun f => ?_
  rw [cut_store h, get_decode hraw, ← f.length_cut hraw, BigEndian.encode_value]

/-- No cast to the width of its field drops a bit of a decoded number. -/
theorem get_decode_eq_toNat {raw : Bytes} (hraw : raw.length = trailerSize) (f : Field) :
    (decode raw).get f = (BigEndian.decode32 (f.span.cut raw)).toNat := by
  rw [get_decode hraw, BigEndian.toNat_decode32 (f.length_cut hraw ▸ f.length_span_le)]

/-- Two sizes of sixteen bits are added in a word of 64 bits without a carry out of it. -/
theorem toNat_add_sizes (t : Trailer) :
    (t.first.size.toUInt64 + t.second.size.toUInt64).toNat = t.keyLength := by
  have hfirst := t.first.size.toNat_lt
  have hsecond := t.second.size.toNat_lt
  rw [UInt64.toNat_add, UInt16.toNat_toUInt64, UInt16.toNat_toUInt64, keyLength]
  omega

end Trailer

/-- Trailers and the blocks of bytes that they are stored in. Decoding a block and storing the
trailer into any block gives the first block, and storing a trailer into any block and decoding it
gives the trailer. Each field of a decoded trailer is the whole number in its bytes. The fields
divide the bytes among them, and the two sizes add up to the length of the key. -/
theorem store_and_decode_are_inverse :
    (∀ raw block : Bytes, raw.length = 16 → block.length = 16 →
      (Trailer.decode raw).store block = raw) ∧
    (∀ (t : Trailer) (block : Bytes), block.length = 16 → Trailer.decode (t.store block) = t) ∧
    (∀ raw : Bytes, raw.length = 16 → ∀ f : Field,
      (Trailer.decode raw).get f = (BigEndian.decode32 (f.span.cut raw)).toNat) ∧
    (∀ p, p < 16 ↔ ∃! f : Field, f.span.start ≤ p ∧ p < f.span.stop) ∧
    ∀ t : Trailer, t.keyLength = t.get (.size .first) + t.get (.size .second) ∧
      (t.first.size.toUInt64 + t.second.size.toUInt64).toNat = t.keyLength :=
  ⟨fun _ _ hraw hblock => Trailer.store_decode hraw hblock,
    fun _ _ hblock => Trailer.decode_store hblock,
    fun _ hraw => Trailer.get_decode_eq_toNat hraw,
    fun _ => Field.lt_trailerSize_iff,
    fun t => ⟨rfl, t.toNat_add_sizes⟩⟩

/-- A trailer with another number in each field. -/
def sevenNumbers : Bytes := [0, 0, 1, 0x0a, 0, 3, 0, 1, 0, 0, 1, 0, 0, 7, 4, 0xcc]

/-- It is stored over other bytes. So is the one with the largest numbers that there are, of which
the two sizes do not fit sixteen bits together. -/
theorem store_of_sevenNumbers :
    let largest : Trailer := ⟨⟨0xffffffff, 0xffff⟩, ⟨0xffffffff, 0xffff⟩, 0xffff, 0xff, 0xff⟩
    Trailer.decode sevenNumbers = ⟨⟨0x10a, 3⟩, ⟨0x10000, 0x100⟩, 7, 4, 0xcc⟩ ∧
    (Trailer.decode sevenNumbers).store (List.replicate 16 0x5a) = sevenNumbers ∧
    Trailer.decode (largest.store sevenNumbers) = largest ∧ largest.keyLength = 131070 := by
  intro largest
  obtain ⟨hbytes, htrailer, -⟩ := store_and_decode_are_inverse
  exact ⟨by decide, hbytes _ _ rfl rfl, htrailer _ _ rfl, by decide⟩

end IndexNode
