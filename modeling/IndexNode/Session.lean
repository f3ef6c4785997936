import IndexNode.Dump

/-!
# Sessions

A session is a list of requests to one node. `Node.step` answers one request and gives the node
after it; `Node.trace` runs a list and keeps the node after each step.

* `Node.buffer_step`: no request changes the bytes.
* `Node.length_trace`: there is one reply to each request.
-/

namespace IndexNode

/-- The requests that read an entry. -/
inductive Lookup
  | compare (key : Bytes) (i : Int)
  | trailer (i : Int)
  | key (i : Int)
  | payload (i : Int)
  deriving DecidableEq, Repr

/-- The index that is looked up. -/
def Lookup.index : Lookup → Int
  | compare _ i => i
  | trailer i => i
  | key i => i
  | payload i => i

/-- What a lookup gives. -/
inductive Answer
  | outcome (o : Outcome)
  | trailer (r : Except LookupError Trailer)
  | key (r : Except LookupError Bytes)
  | payload (r : Except LookupError Bytes)

namespace Answer

/-- The failure of a result. -/
def errorOf? {α : Type} : Except LookupError α → Option LookupError
  | .error e => some e
  | .ok _ => none

/-- The failure that an answer reports. -/
def error? : Answer → Option LookupError
  | outcome (.notFound b) => some (.notFound b)
  | outcome (.corrupt d) => some (.corrupt d)
  | outcome (.ordered _) => none
  | trailer r => errorOf? r
  | key r => errorOf? r
  | payload r => errorOf? r

/-- The defect that an answer reports. -/
def defect? (a : Answer) : Option Defect :=
  match a.error? with
  | some (.corrupt d) => some d
  | _ => none

/-- The bound that an answer reports. -/
def bound? (a : Answer) : Option Bound :=
  match a.error? with
  | some (.notFound b) => some b
  | _ => none

end Answer

/-- Facts about a node that no entry is read for. -/
structure Info where
  length : Nat
  count : Nat
  isCorrupt : Bool
  deriving DecidableEq, Repr

inductive Request
  | lookup (l : Lookup)
  | info
  | dump
  /-- Take the mark off. -/
  | clear
  /-- Take the bytes out and make a new node of them. -/
  | reopen
  deriving DecidableEq, Repr

inductive Reply
  | answer (a : Answer)
  | info (i : Info)
  | dump (text : String)
  /-- The mark that was taken off. -/
  | cleared (mark : Option Defect)
  /-- The bytes that were taken out. -/
  | reopened (b : Buffer)

namespace Node

def info (n : Node) : Info := ⟨n.length, n.count, n.isCorrupt⟩

/-- Performs one lookup. -/
def answer (n : Node) : Lookup → Answer × Node
  | .compare key i =>
    let (o, n') := n.compareAt key i
    (.outcome o, n')
  | .trailer i =>
    let (r, n') := n.trailerAt i
    (.trailer r, n')
  | .key i =>
    let (r, n') := n.keyAt i
    (.key r, n')
  | .payload i =>
    let (r, n') := n.payloadAt i
    (.payload r, n')

/-- Performs one request. -/
def step (n : Node) : Request → Reply × Node
  | .lookup l =>
    let (a, n') := n.answer l
    (.answer a, n')
  | .info => (.info n.info, n)
  | .dump => (.dump n.dump, n)
  | .clear => (.cleared n.mark, n.clear)
  | .reopen => (.reopened n.buffer, ofBuffer n.buffer)

/-- The reply to each request and the node after it. -/
def trace (n : Node) : List Request → List (Reply × Node)
  | [] => []
  | r :: rs =>
    let s := n.step r
    s :: s.2.trace rs

@[simp] theorem buffer_answer (n : Node) (l : Lookup) : (n.answer l).2.buffer = n.buffer := by
  cases l <;> simp [answer, compareAt, trailerAt, keyAt, payloadAt]

@[simp] theorem buffer_step (n : Node) (r : Request) : (n.step r).2.buffer = n.buffer := by
  cases r <;> simp [step, clear, ofBuffer]

@[simp] theorem length_trace (n : Node) (rs : List Request) :
    (n.trace rs).length = rs.length := by
  induction rs generalizing n with
  | nil => rfl
  | cons r rs ih => simp [trace, ih]

end Node

end IndexNode
