import IndexNode.Node

/-!
# Dumps

The text of a node, for people: its length, its table, the key of each entry in hexadecimal and
the mark. A key that cannot be read is replaced by the reason in angle brackets. A dump reads
the bytes beside the mark: it neither answers the mark nor sets it.

* `length_tableLines`: a node with a table has one line for each entry after two others.
-/

namespace IndexNode

/-- The segments in hexadecimal, the second one only if there is one. -/
def SplitKey.text (k : SplitKey) : String :=
  if k.second.isEmpty then Hex.encode k.first
  else Hex.encode k.first ++ " + " ++ Hex.encode k.second

/-- A reason in the place of a key. -/
def unreadable (reason : String) : String := "<" ++ reason ++ ">"

/-- The key of entry `i`, or why it cannot be read. -/
def keyText (b : Buffer) (i : Nat) : String :=
  match Entry.find b i with
  | .error e => unreadable e.message
  | .ok e =>
    match e.trailer.splitKey b with
    | .error d => unreadable d.message
    | .ok k => k.text

/-- A number, filled up with blanks on the left to four places. -/
def paddedIndex (i : Nat) : String := String.ofList ((toString i).toList.leftpad 4 ' ')

/-- The line about entry `i`. -/
def keyLine (b : Buffer) (i : Nat) : String := "  key[" ++ paddedIndex i ++ "]   : " ++ keyText b i

/-- The lines about the entries of a node. -/
def tableLines (b : Buffer) : List String :=
  match Table.ofBuffer b with
  | .error e => ["  entries     : 0 (" ++ e.message ++ ")"]
  | .ok t =>
    ("  entries     : " ++ toString t.count) :: ("  entry_size  : " ++ toString t.entrySize) ::
      (List.range t.count).map (keyLine b)

/-- The line about the mark, if there is one. -/
def markLines : Option Defect → List String
  | none => []
  | some d => ["  corrupt     : " ++ toString d.id ++ " (" ++ d.message ++ ")"]

namespace Node

/-- The dump, line by line. -/
def dumpLines (n : Node) : List String :=
  ["Node ".push '{', "  length      : " ++ toString n.length] ++ tableLines n.buffer ++
    markLines n.mark ++ [String.singleton '}']

/-- The lines of the dump, with line breaks between them and none after the last. -/
def dump (n : Node) : String := "\n".intercalate n.dumpLines

end Node

theorem length_tableLines (b : Buffer) :
    (tableLines b).length = if entryCount b = 0 then 1 else entryCount b + 2 := by
  unfold tableLines entryCount
  cases Table.ofBuffer b with
  | error e => rfl
  | ok t => simp [Table.count]

end IndexNode
