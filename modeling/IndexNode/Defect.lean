import IndexNode.Trailer

/-!
# Defects and failed lookups

A lookup fails in one of two ways. Past a `Bound` there is no entry, which is expected while
probing. A `Defect` is an entry that contradicts the node it stands in; after one has been found
the node is no longer trusted.

* `Defect.id_inj`: the number of a defect identifies it.
-/

namespace IndexNode

/-- How an entry contradicts its node. -/
inductive Defect
  /-- A key segment starts past the end of the node. -/
  | offset (s : Segment)
  /-- A key segment starts in the node and runs past its end. -/
  | size (s : Segment)
  /-- The trailer carries another entry's index. -/
  | index
  /-- The trailer lacks the magic byte. -/
  | magic
  deriving DecidableEq, Repr

namespace Defect

/-- A stable number for reports. -/
def id : Defect → Nat
  | offset .first => 1
  | size .first => 2
  | offset .second => 3
  | size .second => 4
  | index => 5
  | magic => 6

def message : Defect → String
  | offset .first => "key segment 0 offset past end of node"
  | size .first => "key segment 0 runs past end of node"
  | offset .second => "key segment 1 offset past end of node"
  | size .second => "key segment 1 runs past end of node"
  | index => "trailer index does not match its table position"
  | magic => "trailer magic byte missing"

/-- All defects, by number. -/
def all : List Defect :=
  [offset .first, size .first, offset .second, size .second, index, magic]

theorem mem_all (d : Defect) : d ∈ all := by
  cases d with
  | offset s | size s => cases s <;> decide
  | index | magic => decide

theorem id_inj {d e : Defect} : d.id = e.id ↔ d = e := by
  have table : ∀ d ∈ all, ∀ e ∈ all, d.id = e.id → d = e := by decide
  exact ⟨table d (mem_all d) e (mem_all e), congrArg id⟩

end Defect

/-- The end of the entries that an index lies past. -/
inductive Bound
  /-- Before the first entry. -/
  | low
  /-- After the last entry, or the node has none. -/
  | high
  deriving DecidableEq, Repr

def Bound.name : Bound → String
  | low => "low"
  | high => "high"

/-- Why a lookup gives no entry. -/
inductive LookupError
  | notFound (b : Bound)
  | corrupt (d : Defect)
  deriving DecidableEq, Repr

def LookupError.message : LookupError → String
  | notFound b => "no entry past the " ++ b.name ++ " bound"
  | corrupt d => "node corrupt: " ++ d.message

end IndexNode
