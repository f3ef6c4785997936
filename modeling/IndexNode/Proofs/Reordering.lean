import IndexNode.Proofs.Marking

/-!
# Lookups in any order

Lookups of one node share its mark, so the order in which they are made can show. It shows only
from the first defect on, and not in whether there is one.

* `exists_first_isSome`: where something is found in a list there is a first place of it.
* `Node.lookups_of_no_defect`: as long as no defect is met, every answer is fresh.
* `Node.lookups_of_marked`: a mark stops all lookups after it, `Lookup.stopped`.
* `Node.lookups_of_first_defect`: a run of lookups is a clean part and a stopped part.
* `lookups_in_any_order`: what holds for all orders of a list of lookups.
-/

namespace IndexNode

/-- Where `f` finds something in a list there is a first place. -/
theorem exists_first_isSome {α β : Type} {f : α → Option β} {as : List α}
    (h : ∃ a ∈ as, (f a).isSome) :
    ∃ pre a post b, as = pre ++ a :: post ∧ (∀ x ∈ pre, f x = none) ∧ f a = some b := by
  obtain ⟨a, ha⟩ := Option.isSome_iff_exists.mp (List.find?_isSome.mpr h)
  obtain ⟨hb, pre, post, rfl, hpre⟩ := List.find?_eq_some_iff_append.mp ha
  obtain ⟨b, hb⟩ := Option.isSome_iff_exists.mp hb
  exact ⟨pre, a, post, b, rfl, fun x hx => by simpa using hpre x hx, hb⟩

namespace Lookup

variable {l : Lookup} {b : Buffer} {d : Defect}

/-- The answer once the defect `d` has been met: an entry is refused, a bound is still told. -/
def stopped (l : Lookup) (b : Buffer) (d : Defect) : Answer :=
  if HasEntry b l.index then l.failure (.corrupt d) else l.fresh b

/-- A fresh answer with a defect says nothing but this defect. -/
theorem fresh_of_defect (h : (l.fresh b).defect? = some d) :
    l.fresh b = l.failure (.corrupt d) := by
  rw [fresh_eq, Reading.defect?_wrap_iff] at h
  rw [fresh_eq, h, l.reading.wrap_error]

theorem stopped_of_defect (h : (l.fresh b).defect? = some d) : l.stopped b d = l.fresh b := by
  rw [stopped]
  split
  · rw [fresh_of_defect h]
  · rfl

end Lookup

namespace Node

variable {n : Node} {ls : List Lookup}

/-- The replies to a list of requests. -/
def replies (n : Node) (rs : List Request) : List Reply := (n.trace rs).map (·.1)

theorem replies_append (n : Node) (rs ss : List Request) :
    n.replies (rs ++ ss) = n.replies rs ++ (n.after rs).replies ss := by
  rw [replies, trace_append, List.map_append]
  rfl

/-- Every answer of a run is given by the node after some of the requests. -/
theorem exists_answer_of_mem_replies {rs : List Request} {a : Answer}
    (h : .answer a ∈ n.replies rs) :
    ∃ k l, rs[k]? = some (.lookup l) ∧ a = ((n.after (rs.take k)).answer l).1 := by
  obtain ⟨⟨reply, m⟩, hmem, ha⟩ := List.mem_map.mp h
  obtain ⟨k, hk⟩ := List.mem_iff_getElem?.mp hmem
  rw [getElem?_trace] at hk
  obtain ⟨r, hr, hstep⟩ := Option.map_eq_some_iff.mp hk
  cases ha
  cases r with
  | lookup l =>
    cases hstep
    exact ⟨k, l, hr, rfl⟩
  | info | dump | clear | reopen => cases hstep

/-- Lookups that leave the node as it is are answered as if each were the only one. -/
theorem lookups_of_answer_eq {f : Lookup → Answer} (h : ∀ l ∈ ls, n.answer l = (f l, n)) :
    n.after (ls.map .lookup) = n ∧ n.replies (ls.map .lookup) = ls.map fun l => .answer (f l) := by
  induction ls with
  | nil => exact ⟨rfl, rfl⟩
  | cons l ls ih =>
    obtain ⟨hl, hls⟩ := List.forall_mem_cons.mp h
    -- The step changes nothing, so the hypothesis holds of the rest as it stands.
    obtain ⟨hafter, hreplies⟩ := ih hls
    have hstep : n.step (.lookup l) = (.answer (f l), n) := by
      rw [step, hl]
    constructor
    · show (n.step (.lookup l)).2.after (ls.map .lookup) = n
      rw [hstep, hafter]
    · show (n.step (.lookup l)).1 :: (n.step (.lookup l)).2.replies (ls.map .lookup) = _
      rw [hstep, hreplies]
      rfl

/-- Without a defect the node stays unmarked and every answer is fresh. -/
theorem lookups_of_no_defect (hm : n.mark = none)
    (h : ∀ l ∈ ls, (l.fresh n.buffer).defect? = none) :
    n.after (ls.map .lookup) = n ∧
      n.replies (ls.map .lookup) = ls.map fun l => .answer (l.fresh n.buffer) := by
  refine lookups_of_answer_eq fun l hl => ?_
  rw [answer_of_unmarked hm, h l hl, ← hm]

/-- A mark stops all lookups after it. -/
theorem lookups_of_marked {d : Defect} (hm : n.mark = some d) (ls : List Lookup) :
    n.after (ls.map .lookup) = n ∧
      n.replies (ls.map .lookup) = ls.map fun l => .answer (l.stopped n.buffer d) := by
  refine lookups_of_answer_eq fun l _ => ?_
  by_cases h : HasEntry n.buffer l.index
  · rw [answer_of_marked hm h, Lookup.stopped, if_pos h]
  · rw [answer_of_not_hasEntry h, Lookup.stopped, if_neg h, Lookup.fresh_of_not_hasEntry h]

/-- Lookups up to the first defect are answered freshly, the others are stopped by it. -/
theorem lookups_of_first_defect {b : Buffer} {pre : List Lookup} {l : Lookup} {d : Defect}
    (hpre : ∀ x ∈ pre, (x.fresh b).defect? = none) (hl : (l.fresh b).defect? = some d)
    (post : List Lookup) :
    ((ofBuffer b).after ((pre ++ l :: post).map .lookup)).mark = some d ∧
      (ofBuffer b).replies ((pre ++ l :: post).map .lookup) =
        pre.map (fun x => .answer (x.fresh b)) ++
          (l :: post).map fun x => .answer (x.stopped b d) := by
  obtain ⟨hafter, hreplies⟩ := lookups_of_no_defect (n := ofBuffer b) rfl hpre
  have hstep : (ofBuffer b).step (.lookup l) = (.answer (l.fresh b), ⟨b, some d⟩) := by
    rw [step, answer_of_unmarked rfl, show (ofBuffer b).buffer = b from rfl, hl]
  obtain ⟨hafter', hreplies'⟩ := lookups_of_marked (n := ⟨b, some d⟩) rfl post
  rw [List.map_append, after_append, replies_append, hafter, hreplies, List.map_cons]
  constructor
  · show (((ofBuffer b).step (.lookup l)).2.after (post.map .lookup)).mark = some d
    rw [hstep, hafter']
  · show _ ++ ((ofBuffer b).step (.lookup l)).1 ::
      ((ofBuffer b).step (.lookup l)).2.replies (post.map .lookup) = _
    rw [hstep, hreplies', List.map_cons, Lookup.stopped_of_defect hl]
    rfl

end Node

/-- Lookups of an unmarked node in any order `ms` of a list `ls`. Whether the node ends marked
does not depend on the order. Which defect it is, and which answers are stopped by it, is decided
by the first lookup of `ms` that has one. -/
theorem lookups_in_any_order (b : Buffer) {ls ms : List Lookup} (h : ms.Perm ls) :
    (((Node.ofBuffer b).after (ms.map .lookup)).mark.isSome ↔
      ∃ l ∈ ls, (l.fresh b).defect?.isSome) ∧
    ((∀ l ∈ ls, (l.fresh b).defect? = none) →
      (Node.ofBuffer b).replies (ms.map .lookup) = ms.map fun l => .answer (l.fresh b)) ∧
    ((∃ l ∈ ls, (l.fresh b).defect?.isSome) →
      ∃ pre l post d, ms = pre ++ l :: post ∧ (∀ x ∈ pre, (x.fresh b).defect? = none) ∧
        (l.fresh b).defect? = some d ∧
        ((Node.ofBuffer b).after (ms.map .lookup)).mark = some d ∧
        (Node.ofBuffer b).replies (ms.map .lookup) =
          pre.map (fun x => .answer (x.fresh b)) ++
            (l :: post).map fun x => .answer (x.stopped b d)) ∧
    ∀ l : Lookup, ¬ HasEntry b l.index → ∃ bound, l.fresh b = l.failure (.notFound bound) := by
  -- All that an order keeps of the list is which lookups are in it.
  have hmem : (∃ l ∈ ls, (l.fresh b).defect?.isSome) ↔ ∃ l ∈ ms, (l.fresh b).defect?.isSome := by
    simp only [h.mem_iff]
  have hclean (hls : ∀ l ∈ ls, (l.fresh b).defect? = none) :=
    Node.lookups_of_no_defect (n := Node.ofBuffer b) rfl fun l hl => hls l (h.mem_iff.mp hl)
  refine ⟨⟨?_, ?_⟩, fun hls => (hclean hls).2, ?_, fun l hl => ⟨_, Lookup.fresh_of_not_hasEntry hl⟩⟩
  · intro hmark
    refine Classical.byContradiction fun hno => ?_
    have hls (l) (hl : l ∈ ls) : (l.fresh b).defect? = none :=
      Option.not_isSome_iff_eq_none.mp fun hd => hno ⟨l, hl, hd⟩
    rw [(hclean hls).1] at hmark
    cases hmark
  · intro hd
    obtain ⟨pre, l, post, d, rfl, hpre, hl⟩ := exists_first_isSome (hmem.mp hd)
    rw [(Node.lookups_of_first_defect hpre hl post).1]
    rfl
  · intro hd
    obtain ⟨pre, l, post, d, rfl, hpre, hl⟩ := exists_first_isSome (hmem.mp hd)
    obtain ⟨hmark, hreplies⟩ := Node.lookups_of_first_defect hpre hl post
    exact ⟨pre, l, post, d, rfl, hpre, hl, hmark, hreplies⟩

/-- An index past the last entry, then both defects: the first one met is the mark. -/
theorem twoDefects_in_any_order :
    [Lookup.key 5, .key 1, .key 0].Perm [.key 0, .key 1, .key 5] ∧
    ((Node.ofBuffer twoDefects).after ([Lookup.key 5, .key 1, .key 0].map .lookup)).mark.isSome ∧
    ∃ pre l post d, [Lookup.key 5, .key 1, .key 0] = pre ++ l :: post ∧
      (∀ x ∈ pre, (x.fresh twoDefects).defect? = none) ∧
      (l.fresh twoDefects).defect? = some d ∧
      (Node.ofBuffer twoDefects).replies ([Lookup.key 5, .key 1, .key 0].map .lookup) =
        pre.map (fun x => .answer (x.fresh twoDefects)) ++
          (l :: post).map fun x => .answer (x.stopped twoDefects d) := by
  have hperm : [Lookup.key 5, .key 1, .key 0].Perm [.key 0, .key 1, .key 5] := by decide
  have hdefect : ∃ l ∈ [Lookup.key 0, .key 1, .key 5], (l.fresh twoDefects).defect?.isSome :=
    ⟨.key 0, by decide, rfl⟩
  obtain ⟨hmark, -, hfirst, -⟩ := lookups_in_any_order twoDefects hperm
  obtain ⟨pre, l, post, d, hms, hpre, hl, -, hreplies⟩ := hfirst hdefect
  exact ⟨hperm, hmark.mpr hdefect, pre, l, post, d, hms, hpre, hl, hreplies⟩

end IndexNode
