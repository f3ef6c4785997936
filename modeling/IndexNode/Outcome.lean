import IndexNode.Defect

/-!
# Outcomes of a comparison

A key is ordered against an entry, or there is no entry to compare with, or the node is corrupt.
`Outcome.code` folds the three into one integer for callers that go by its sign: a missing entry
before the first one counts as smaller than every key, one past the last as larger.

* `Outcome.code_corrupt_lt`: the codes of defects lie below all other codes.
-/

namespace IndexNode

/-- Code of a missing entry before the first one. -/
def lowCode : Int := 999

/-- Code of a missing entry past the last one. -/
def highCode : Int := -999

/-- The codes of defects count down from here. -/
def corruptBase : Int := -1000

/-- How a lookup key compares with the key of an entry. -/
inductive Outcome
  /-- The order of the lookup key relative to the stored key. -/
  | ordered (o : Ordering)
  | notFound (b : Bound)
  | corrupt (d : Defect)
  deriving DecidableEq, Repr

namespace Outcome

def ofError : LookupError → Outcome
  | .notFound b => notFound b
  | .corrupt d => corrupt d

def ofResult : Except LookupError Ordering → Outcome
  | .ok o => ordered o
  | .error e => ofError e

def ordering? : Outcome → Option Ordering
  | ordered o => some o
  | _ => none

def isCorrupt : Outcome → Bool
  | corrupt _ => true
  | _ => false

/-- The outcome as one integer. -/
def code : Outcome → Int
  | ordered .lt => -1
  | ordered .eq => 0
  | ordered .gt => 1
  | notFound .low => lowCode
  | notFound .high => highCode
  | corrupt d => corruptBase - d.id

theorem code_corrupt_lt (d : Defect) (o : Outcome) (h : o.isCorrupt = false) :
    (corrupt d).code < o.code := by
  have base : ∀ d ∈ Defect.all, (corrupt d).code ≤ -1001 := by decide
  refine Int.lt_of_le_of_lt (base d d.mem_all) ?_
  cases o with
  | ordered o => cases o <;> decide
  | notFound b => cases b <;> decide
  | corrupt e => simp [isCorrupt] at h

end Outcome

end IndexNode
