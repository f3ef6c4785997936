import IndexNode.Proofs.FreshAnswer

/-!
# The mark over a run

A run is a list of requests to a node that starts unmarked. `MarkLaw` says what one request may
do to the mark and what it may answer; every step obeys it (`Node.markLaw_step`), so every step
of every run does (`markLaw_of_run`).

* `Node.getElem?_trace`: step `k` of a run is taken from the node after the first `k` requests.
* `Node.buffer_after`: a run does not change the bytes.
* `Node.mark_answer_of_defect`: a defect that is answered is the mark, marked before or not.
-/

namespace IndexNode

namespace Node

/-! ## Runs -/

/-- The node after a list of requests. -/
def after (n : Node) (rs : List Request) : Node := rs.foldl (fun n r => (n.step r).2) n

theorem after_append (n : Node) (rs ss : List Request) :
    n.after (rs ++ ss) = (n.after rs).after ss := List.foldl_append

@[simp] theorem buffer_after (n : Node) (rs : List Request) : (n.after rs).buffer = n.buffer := by
  induction rs generalizing n with
  | nil => rfl
  | cons r rs ih =>
    show ((n.step r).2.after rs).buffer = n.buffer
    rw [ih, buffer_step]

theorem trace_append (n : Node) (rs ss : List Request) :
    n.trace (rs ++ ss) = n.trace rs ++ (n.after rs).trace ss := by
  induction rs generalizing n with
  | nil => rfl
  | cons r rs ih =>
    rw [List.cons_append, trace, trace, ih, List.cons_append]
    rfl

/-- Step `k` of a run is taken from the node after the requests before it. -/
theorem getElem?_trace (n : Node) (rs : List Request) (k : Nat) :
    (n.trace rs)[k]? = rs[k]?.map (n.after (rs.take k)).step := by
  induction rs generalizing n k with
  | nil => rfl
  | cons r rs ih =>
    cases k with
    | zero => rfl
    | succ k => exact ih (n.step r).2 k

theorem after_take_succ (n : Node) {rs : List Request} {k : Nat} {r : Request}
    (h : rs[k]? = some r) : n.after (rs.take (k + 1)) = ((n.after (rs.take k)).step r).2 := by
  rw [List.take_add_one, h, after_append]
  rfl

/-! ## One step -/

variable {n : Node} {l : Lookup}

/-- The mark after a lookup on an unmarked node is the defect that it answers. -/
theorem mark_answer_of_unmarked (hd : n.mark = none) :
    (n.answer l).2.mark = (n.answer l).1.defect? := by
  rw [answer_of_unmarked hd]

theorem mark_answer_of_marked {d : Defect} (hd : n.mark = some d) :
    (n.answer l).2.mark = some d := by
  by_cases h : HasEntry n.buffer l.index
  · rw [answer_of_marked hd h, hd]
  · rw [answer_of_not_hasEntry h, hd]

/-- A defect that is answered is the mark afterwards, marked before or not. -/
theorem mark_answer_of_defect {d : Defect} (h : (n.answer l).1.defect? = some d) :
    (n.answer l).2.mark = some d := by
  cases hd : n.mark with
  | none => rw [mark_answer_of_unmarked hd, h]
  | some c =>
    by_cases he : HasEntry n.buffer l.index
    · rw [answer_of_marked hd he] at h ⊢
      rw [hd, ← h, Lookup.defect?_failure_corrupt]
    · rw [answer_of_not_hasEntry he, Lookup.defect?_failure_notFound] at h
      cases h

end Node

/-! ## The law of the mark -/

/-- What request `r` to node `n` over the bytes `b` may lead to: `reply` and the node `n'`. -/
structure MarkLaw (b : Buffer) (n : Node) (r : Request) (reply : Reply) (n' : Node) : Prop where
  /-- An unmarked node is marked by the lookups that answer a defect, with this defect, and by
  nothing else. -/
  mark_of_unmarked : n.mark = none → ∀ d, n'.mark = some d ↔
    ∃ l a, r = .lookup l ∧ reply = .answer a ∧ a.error? = some (.corrupt d)
  /-- A mark stays unless it is cleared or the node is opened anew. -/
  mark_of_marked : ∀ d, n.mark = some d → r ≠ .clear → r ≠ .reopen → n'.mark = some d
  /-- To clear takes the mark off and answers it. -/
  clear : r = .clear → reply = .cleared n.mark ∧ n'.mark = none
  reopen : r = .reopen → reply = .reopened b ∧ n'.mark = none
  /-- For an entry a marked node answers the mark. -/
  answer_of_marked : ∀ d l, n.mark = some d → r = .lookup l → HasEntry b l.index →
    reply = .answer (l.failure (.corrupt d))
  /-- Where there is no entry, every node answers what an unmarked one does: not found. -/
  answer_of_not_hasEntry : ∀ l, r = .lookup l → ¬ HasEntry b l.index →
    reply = .answer (l.fresh b) ∧ ∃ bound, l.fresh b = l.failure (.notFound bound)
  /-- A defect that is answered is the mark. -/
  mark_of_answer : ∀ a d, reply = .answer a → a.error? = some (.corrupt d) → n'.mark = some d
  buffer : n'.buffer = b

theorem Answer.defect?_eq_some_iff {a : Answer} {d : Defect} :
    a.defect? = some d ↔ a.error? = some (.corrupt d) := by
  unfold Answer.defect?
  cases a.error? with
  | none => simp
  | some e => cases e <;> simp

theorem Node.markLaw_lookup (n : Node) (l : Lookup) :
    MarkLaw n.buffer n (.lookup l) (.answer (n.answer l).1) (n.answer l).2 where
  mark_of_unmarked := by
    intro hd d
    rw [mark_answer_of_unmarked hd, Answer.defect?_eq_some_iff]
    constructor
    · exact fun h => ⟨l, _, rfl, rfl, h⟩
    · rintro ⟨_, a, -, ha, h⟩
      cases ha
      exact h
  mark_of_marked := fun d hd _ _ => mark_answer_of_marked hd
  clear := by rintro ⟨⟩
  reopen := by rintro ⟨⟩
  answer_of_marked := by
    rintro d _ hd ⟨⟩ h
    rw [answer_of_marked hd h]
  answer_of_not_hasEntry := by
    rintro _ ⟨⟩ h
    rw [Node.answer_of_not_hasEntry h, Lookup.fresh_of_not_hasEntry h]
    exact ⟨rfl, _, rfl⟩
  mark_of_answer := by
    rintro _ d ⟨⟩ h
    exact mark_answer_of_defect (Answer.defect?_eq_some_iff.mpr h)
  buffer := buffer_answer n l

/-- A request that is no lookup obeys the law if it sets no mark and takes none off without being
asked to. -/
theorem MarkLaw.of_no_lookup {b : Buffer} {n n' : Node} {r : Request} {reply : Reply}
    (hl : ∀ l, r ≠ .lookup l) (ha : ∀ a, reply ≠ .answer a)
    (hu : n.mark = none → n'.mark = none)
    (hm : ∀ d, n.mark = some d → r ≠ .clear → r ≠ .reopen → n'.mark = some d)
    (hc : r = .clear → reply = .cleared n.mark ∧ n'.mark = none)
    (hr : r = .reopen → reply = .reopened b ∧ n'.mark = none) (hb : n'.buffer = b) :
    MarkLaw b n r reply n' where
  mark_of_unmarked := by
    intro hd d
    rw [hu hd]
    constructor
    · rintro ⟨⟩
    · rintro ⟨l, -, h, -⟩
      exact absurd h (hl l)
  mark_of_marked := hm
  clear := hc
  reopen := hr
  answer_of_marked := fun _ l _ h => absurd h (hl l)
  answer_of_not_hasEntry := fun l h => absurd h (hl l)
  mark_of_answer := fun a _ h => absurd h (ha a)
  buffer := hb

theorem Node.markLaw_step (n : Node) (r : Request) :
    MarkLaw n.buffer n r (n.step r).1 (n.step r).2 := by
  cases r with
  | lookup l => exact markLaw_lookup n l
  | info | dump =>
    refine .of_no_lookup ?_ ?_ (fun h => h) (fun _ h _ _ => h) ?_ ?_ rfl
    · rintro _ ⟨⟩
    · rintro _ ⟨⟩
    · rintro ⟨⟩
    · rintro ⟨⟩
  | clear =>
    refine .of_no_lookup ?_ ?_ (fun _ => rfl) (fun _ _ h _ => absurd rfl h)
      (fun _ => ⟨rfl, rfl⟩) ?_ rfl
    · rintro _ ⟨⟩
    · rintro _ ⟨⟩
    · rintro ⟨⟩
  | reopen =>
    refine .of_no_lookup ?_ ?_ (fun _ => rfl) (fun _ _ _ h => absurd rfl h) ?_
      (fun _ => ⟨rfl, rfl⟩) rfl
    · rintro _ ⟨⟩
    · rintro _ ⟨⟩
    · rintro ⟨⟩

/-- Every step of every run from an unmarked node obeys the law of the mark. Step `k` leads from
the node after the first `k` requests to the node after the first `k + 1`. -/
theorem markLaw_of_run (b : Buffer) (rs : List Request) (k : Nat) {r : Request}
    (hr : rs[k]? = some r) :
    ∃ reply n', ((Node.ofBuffer b).trace rs)[k]? = some (reply, n') ∧
      n' = (Node.ofBuffer b).after (rs.take (k + 1)) ∧
      MarkLaw b ((Node.ofBuffer b).after (rs.take k)) r reply n' := by
  have hlaw := ((Node.ofBuffer b).after (rs.take k)).markLaw_step r
  rw [Node.buffer_after] at hlaw
  refine ⟨_, _, ?_, (Node.after_take_succ _ hr).symm, hlaw⟩
  rw [Node.getElem?_trace, hr]
  rfl

/-- Two entries without payload. The key of the first starts past the end of the node, the key
of the second runs past it. -/
def twoDefects : Buffer :=
  #[0, 0, 0, 33, 0, 0, 0, 0, 0, 0, 0, 0, 0, 0, 2, 0xcc,
    0, 0, 0, 0, 0, 33, 0, 0, 0, 0, 0, 0, 0, 1, 2, 0xcc]

/-- The defect met first is answered for the other entry too, and stays. -/
theorem mark_of_twoDefects :
    [Request.lookup (.key 1), .lookup (.key 0)][1]? = some (.lookup (.key 0)) ∧
    ∃ n', ((Node.ofBuffer twoDefects).trace [.lookup (.key 1), .lookup (.key 0)])[1]? =
        some (.answer (.key (.error (.corrupt (.size .first)))), n') ∧
      n'.mark = some (.size .first) ∧ n'.buffer = twoDefects := by
  obtain ⟨reply, n', htrace, -, hlaw⟩ := markLaw_of_run twoDefects
    [.lookup (.key 1), .lookup (.key 0)] 1 rfl
  have hmark : ((Node.ofBuffer twoDefects).after
      ([Request.lookup (.key 1), .lookup (.key 0)].take 1)).mark = some (.size .first) := rfl
  have hreply := hlaw.answer_of_marked _ _ hmark rfl (by decide)
  subst hreply
  exact ⟨rfl, n', htrace, hlaw.mark_of_marked _ hmark (by decide) (by decide), hlaw.buffer⟩

end IndexNode
