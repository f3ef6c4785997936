import IndexNode.Proofs.EntryBytes
import IndexNode.Session

/-!
# Answers with and without a mark

The three things a lookup can do, for all four lookups at once. `Lookup.reading` is the only case
analysis over them; the rules after it are about `Node.lookup`.

* `Lookup.fresh`: the answer on a node that is not marked, a function of the bytes
  (`Lookup.fresh_eq`).
* `Node.answer_of_not_hasEntry`: past a bound each lookup fails and leaves the node as it is.
* `Node.answer_of_marked`: for an entry a marked node answers its mark.
* `Node.answer_of_unmarked`: else the answer is fresh, and the defect in it becomes the mark.
-/

namespace IndexNode

/-! ## Results without a history -/

/-- What `read` makes of entry `i`, whatever was found in the buffer before. -/
def Entry.query {α : Type} (b : Buffer) (i : Int) (read : Entry → Except Defect α) :
    Except LookupError α :=
  match Entry.find b i with
  | .error e => .error e
  | .ok e =>
    match read e with
    | .error d => .error (.corrupt d)
    | .ok a => .ok a

namespace Entry

variable {α : Type} {b : Buffer} {i : Int} {read : Entry → Except Defect α}

theorem query_eq_ok_iff {a : α} :
    query b i read = .ok a ↔ ∃ e, find b i = .ok e ∧ read e = .ok a := by
  unfold query
  cases find b i with
  | error e => simp
  | ok e => cases hr : read e <;> simp [hr]

theorem query_eq_notFound_iff {bound : Bound} :
    query b i read = .error (.notFound bound) ↔ find b i = .error (.notFound bound) := by
  unfold query
  cases find b i with
  | error e => simp
  | ok e => cases hr : read e <;> simp [hr]

/-- A defect is met on the way to the entry or in it. -/
theorem query_eq_corrupt_iff {d : Defect} :
    query b i read = .error (.corrupt d) ↔
      find b i = .error (.corrupt d) ∨ ∃ e, find b i = .ok e ∧ read e = .error d := by
  unfold query
  cases find b i with
  | error e => simp
  | ok e => cases hr : read e <;> simp [hr]

/-- Past a bound there is nothing to read. -/
theorem query_of_not_hasEntry (h : ¬ HasEntry b i) :
    query b i read = .error (.notFound (.past i)) := by
  rw [query_eq_notFound_iff, find, Slot.find_of_not_hasEntry h]

theorem hasEntry_of_query_ok {a : α} (h : query b i read = .ok a) : HasEntry b i := by
  refine Classical.byContradiction fun hi => ?_
  rw [query_of_not_hasEntry hi] at h
  cases h

end Entry

namespace Node

/-- On an unmarked node a lookup gives the result without a history and records its defect. -/
theorem lookup_ofBuffer {α : Type} (b : Buffer) (i : Int) (read : Entry → Except Defect α) :
    (ofBuffer b).lookup i read =
      (Entry.query b i read, (ofBuffer b).settle (Entry.query b i read)) := by
  cases hs : Slot.find b i with
  | error bound =>
    have hf : Entry.find b i = .error (.notFound bound) := by simp only [Entry.find, hs]
    rw [lookup_of_find_error _ _ _ hs, Entry.query_eq_notFound_iff.mpr hf]
    rfl
  | ok s =>
    have hf : Entry.find b i = s.read b := by simp only [Entry.find, hs]
    have hq : Entry.query b i read = s.query b read := by
      rw [Entry.query, hf]
      rfl
    rw [lookup_of_unmarked _ _ _ hs rfl, hq]
    rfl

variable (b : Buffer) (i : Int)

theorem trailerAt_ofBuffer :
    ((ofBuffer b).trailerAt i).1 = Entry.query b i fun e => .ok e.trailer := by
  rw [trailerAt, lookup_ofBuffer]

theorem payloadAt_ofBuffer :
    ((ofBuffer b).payloadAt i).1 = Entry.query b i fun e => .ok (e.payload b) := by
  rw [payloadAt, lookup_ofBuffer]
  rfl

theorem keyAt_ofBuffer :
    ((ofBuffer b).keyAt i).1 =
      Entry.query b i fun e => (e.trailer.splitKey b).map SplitKey.joined := by
  rw [keyAt, lookup_ofBuffer]
  rfl

theorem compareAt_ofBuffer (key : Bytes) :
    (ofBuffer b).compareAt key i =
      let r := Entry.query b i fun e => e.trailer.compareKey b key
      (Outcome.ofResult r, (ofBuffer b).settle r) := by
  rw [compareAt, lookup_ofBuffer]
  rfl

theorem compareAt_eq_ordered_iff {key : Bytes} {o : Ordering} :
    ((ofBuffer b).compareAt key i).1 = .ordered o ↔
      Entry.query b i (fun e => e.trailer.compareKey b key) = .ok o := by
  rw [compareAt_ofBuffer]
  cases Entry.query b i fun e => e.trailer.compareKey b key with
  | error e => cases e <;> simp [Outcome.ofResult, Outcome.ofError]
  | ok a => simp [Outcome.ofResult]

end Node

/-! ## Answers -/

namespace Lookup

/-- The answer that reports failure `e`. -/
def failure (l : Lookup) (e : LookupError) : Answer :=
  match l with
  | compare _ _ => .outcome (.ofError e)
  | trailer _ => .trailer (.error e)
  | key _ => .key (.error e)
  | payload _ => .payload (.error e)

/-- The answer of a node over `b` that is not marked. -/
def fresh (l : Lookup) (b : Buffer) : Answer := ((Node.ofBuffer b).answer l).1

@[simp] theorem error?_failure (l : Lookup) (e : LookupError) : (l.failure e).error? = some e := by
  cases l <;> cases e <;> rfl

@[simp] theorem defect?_failure_corrupt (l : Lookup) (d : Defect) :
    (l.failure (.corrupt d)).defect? = some d := by
  rw [Answer.defect?, error?_failure]

@[simp] theorem defect?_failure_notFound (l : Lookup) (bound : Bound) :
    (l.failure (.notFound bound)).defect? = none := by
  rw [Answer.defect?, error?_failure]

@[simp] theorem bound?_failure_corrupt (l : Lookup) (d : Defect) :
    (l.failure (.corrupt d)).bound? = none := by
  rw [Answer.bound?, error?_failure]

@[simp] theorem bound?_failure_notFound (l : Lookup) (bound : Bound) :
    (l.failure (.notFound bound)).bound? = some bound := by
  rw [Answer.bound?, error?_failure]

end Lookup

/-! ## Lookups as readings of one entry -/

/-- A lookup as what it reads out of an entry and how it answers the result. -/
structure Lookup.Reading (l : Lookup) where
  α : Type
  read : Buffer → Entry → Except Defect α
  wrap : Except LookupError α → Answer
  answer_eq : ∀ n : Node, n.answer l =
    (wrap (n.lookup l.index (read n.buffer)).1, (n.lookup l.index (read n.buffer)).2)
  wrap_error : ∀ e, wrap (.error e) = l.failure e
  defect?_wrap_ok : ∀ a, (wrap (.ok a)).defect? = none

/-- Each of the lookups is one reading. -/
def Lookup.reading : (l : Lookup) → l.Reading
  | compare k _ =>
    { α := Ordering
      read := fun b e => e.trailer.compareKey b k
      wrap := fun r => .outcome (.ofResult r)
      answer_eq := fun _ => rfl
      wrap_error := fun _ => rfl
      defect?_wrap_ok := fun _ => rfl }
  | trailer _ =>
    { α := Trailer
      read := fun _ e => .ok e.trailer
      wrap := .trailer
      answer_eq := fun _ => rfl
      wrap_error := fun _ => rfl
      defect?_wrap_ok := fun _ => rfl }
  | key _ =>
    { α := Bytes
      read := fun b e => (e.trailer.splitKey b).map SplitKey.joined
      wrap := .key
      answer_eq := fun _ => rfl
      wrap_error := fun _ => rfl
      defect?_wrap_ok := fun _ => rfl }
  | payload _ =>
    { α := Bytes
      read := fun b e => .ok (e.payload b)
      wrap := .payload
      answer_eq := fun _ => rfl
      wrap_error := fun _ => rfl
      defect?_wrap_ok := fun _ => rfl }

/-- A reading answers a defect exactly if it meets one. -/
theorem Lookup.Reading.defect?_wrap_iff {l : Lookup} (R : l.Reading) {r : Except LookupError R.α}
    {d : Defect} : (R.wrap r).defect? = some d ↔ r = .error (.corrupt d) := by
  cases r with
  | error e =>
    rw [R.wrap_error]
    cases e <;> simp
  | ok a => simp [R.defect?_wrap_ok]

/-- The fresh answer is the reading of the entry in the bytes. -/
theorem Lookup.fresh_eq (l : Lookup) (b : Buffer) :
    l.fresh b = l.reading.wrap (Entry.query b l.index (l.reading.read b)) := by
  rw [fresh, l.reading.answer_eq, Node.lookup_ofBuffer]
  rfl

namespace Node

variable {n : Node} {l : Lookup}

/-- Past a bound a lookup fails on every node and leaves it as it is. -/
theorem answer_of_not_hasEntry (h : ¬ HasEntry n.buffer l.index) :
    n.answer l = (l.failure (.notFound (.past l.index)), n) := by
  rw [l.reading.answer_eq, lookup_of_find_error _ _ _ (Slot.find_of_not_hasEntry h),
    l.reading.wrap_error]

/-- A marked node answers its mark for every entry. -/
theorem answer_of_marked {d : Defect} (hd : n.mark = some d) (h : HasEntry n.buffer l.index) :
    n.answer l = (l.failure (.corrupt d), n) := by
  obtain ⟨s, hs⟩ := Slot.exists_find_of_hasEntry h
  rw [l.reading.answer_eq, lookup_of_marked _ _ _ hs hd, l.reading.wrap_error]

/-- A node that is not marked gives the fresh answer, and the defect in it becomes the mark. -/
theorem answer_of_unmarked (hd : n.mark = none) :
    n.answer l = (l.fresh n.buffer, { n with mark := (l.fresh n.buffer).defect? }) := by
  obtain ⟨b, mark⟩ := n
  subst hd
  have hnode : ((ofBuffer b).answer l).2 = ⟨b, (l.fresh b).defect?⟩ := by
    rw [l.fresh_eq, l.reading.answer_eq, lookup_ofBuffer]
    show (ofBuffer b).settle (Entry.query b l.index (l.reading.read b)) = _
    cases Entry.query b l.index (l.reading.read b) with
    | error e =>
      rw [l.reading.wrap_error]
      cases e <;> simp [settle, record, ofBuffer]
    | ok a => simp [settle, l.reading.defect?_wrap_ok, ofBuffer]
  exact Prod.ext rfl hnode

end Node

/-- Past a bound the fresh answer is that failure. -/
theorem Lookup.fresh_of_not_hasEntry {l : Lookup} {b : Buffer} (h : ¬ HasEntry b l.index) :
    l.fresh b = l.failure (.notFound (.past l.index)) := by
  rw [fresh, Node.answer_of_not_hasEntry (n := Node.ofBuffer b) h]

end IndexNode
