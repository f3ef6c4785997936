import Mathlib.Algebra.Group.Nat.Defs
import IndexNode.Session

/-!
# Checked reads

The reads of a node once more, as steps that can fail: each access has to lie inside the bytes
it is made to, and arithmetic on positions has to stay within 64 bits and above zero. A step
that breaks one of these rules ends the read with a `Fault`. So does an entry that ends too
early to have a trailer, for which the plain reads answer that there is no entry.

The plain reads use unbounded numbers and clip an access to the bytes that there are. Where
checked reads have no fault the two agree.
-/

namespace IndexNode

/-- A step that cannot be taken. -/
inductive Fault
  /-- Access to `span` of `length` bytes. -/
  | outOfRange (span : Span) (length : Nat)
  /-- A difference below zero. -/
  | underflow (a b : Nat)
  /-- A sum or product of more than 64 bits. -/
  | overflow (n : Nat)
  /-- No trailer fits in front of this position. -/
  | noTrailer (stop : Nat)
  deriving DecidableEq, Repr

/-- The result of checked steps. -/
abbrev Checked (α : Type) := Except Fault α

namespace Checked

/-! ## Steps -/

/-- `n`, if it has at most 64 bits. -/
def word (n : Nat) : Checked Nat := if n < 2 ^ 64 then .ok n else .error (.overflow n)

def add (a b : Nat) : Checked Nat := word (a + b)

def mul (a b : Nat) : Checked Nat := word (a * b)

def sub (a b : Nat) : Checked Nat := if b ≤ a then .ok (a - b) else .error (.underflow a b)

/-- Accepts a span of `length` bytes. -/
def inside (s : Span) (length : Nat) : Checked Unit :=
  if s.start ≤ s.stop ∧ s.stop ≤ length then .ok () else .error (.outOfRange s length)

def read (s : Span) (b : Buffer) : Checked Bytes := do
  inside s b.size
  return s.read b

def cut (s : Span) (t : Bytes) : Checked Bytes := do
  inside s t.length
  return s.cut t

/-! ## The table -/

def trailer (block : Bytes) : Checked Trailer := do
  let field (f : Field) : Checked UInt32 := do return BigEndian.decode32 (← cut f.span block)
  return {
    first := ⟨← field (.offset .first), (← field (.size .first)).toUInt16⟩
    second := ⟨← field (.offset .second), (← field (.size .second)).toUInt16⟩
    index := (← field .index).toUInt16
    units := (← field .units).toUInt8
    magic := (← field .magic).toUInt8 }

/-- The trailer at the end of the first `stop` bytes. -/
def trailerEndingAt? (b : Buffer) (stop : Nat) : Checked (Option Trailer) := do
  inside ⟨0, stop⟩ b.size
  if stop < trailerSize then return none
  let start ← sub stop trailerSize
  return some (← trailer (← read ⟨start, stop⟩ b))

def table (b : Buffer) : Checked (Except TableError Table) := do
  match ← trailerEndingAt? b b.size with
  | none => return .error .tooShort
  | some t =>
    if !t.hasMagic then return .error (.noMagic t.magic)
    let size ← mul t.units.toNat sizeUnit
    if size < trailerSize then return .error (.smallEntries size)
    let length ← mul size (← add t.index.toNat 1)
    if b.size < length then return .error (.overrun length b.size)
    return .ok ⟨t.index.toNat, size, b.size⟩

def entrySpan? (t : Table) (i : Nat) : Checked (Option Span) := do
  if t.last < i then return none
  let back ← mul t.entrySize (← sub (← add t.last 1) i)
  let start ← sub t.nodeLength back
  return some ⟨start, ← add start t.entrySize⟩

def entryCount (b : Buffer) : Checked Nat := do
  match ← table b with
  | .ok t => add t.last 1
  | .error _ => return 0

/-! ## Entries -/

def findSlot (b : Buffer) : Int → Checked (Except Bound Slot)
  | .negSucc _ => return .error .low
  | .ofNat i => do
    match ← table b with
    | .error _ => return .error .high
    | .ok t =>
      match ← entrySpan? t i with
      | none => return .error .high
      | some s => return .ok ⟨i, s⟩

def readSlot (s : Slot) (b : Buffer) : Checked (Except Defect Entry) := do
  match ← trailerEndingAt? b s.span.stop with
  | none => .error (.noTrailer s.span.stop)
  | some t =>
    if !t.hasMagic then return .error .magic
    if t.index.toNat ≠ s.index then return .error .index
    return .ok ⟨s.span, t⟩

def payload (e : Entry) (b : Buffer) : Checked Bytes := do
  read ⟨e.span.start, ← sub e.span.stop trailerSize⟩ b

/-! ## Keys -/

def segment (t : Trailer) (b : Buffer) (s : Segment) : Checked (Except Defect Bytes) := do
  let e := t.extent s
  if b.size < e.offset.toNat then return .error (.offset s)
  let room ← sub b.size e.offset.toNat
  if room < e.size.toNat then return .error (.size s)
  return .ok (← read ⟨e.offset.toNat, ← add e.offset.toNat e.size.toNat⟩ b)

def splitKey (t : Trailer) (b : Buffer) : Checked (Except Defect SplitKey) := do
  match ← segment t b .first with
  | .error d => return .error d
  | .ok first =>
    match ← segment t b .second with
    | .error d => return .error d
    | .ok second => return .ok ⟨first, second⟩

/-- The whole key. Its length is computed from the trailer before the segments are joined. -/
def joinedKey (t : Trailer) (b : Buffer) : Checked (Except Defect Bytes) := do
  match ← splitKey t b with
  | .error d => return .error d
  | .ok k =>
    let _length ← add t.first.size.toNat t.second.size.toNat
    return .ok k.joined

def compareKey (t : Trailer) (b : Buffer) (key : Bytes) :
    Checked (Except Defect Ordering) := do
  match ← segment t b .first with
  | .error d => return .error d
  | .ok first =>
    let shared : Span := ⟨0, min key.length first.length⟩
    match compare (← cut shared key) (← cut shared first) with
    | .eq =>
      if key.length < first.length then return .ok .lt
      match ← segment t b .second with
      | .error d => return .error d
      | .ok second => return .ok (compare (← cut ⟨first.length, key.length⟩ key) second)
    | o => return .ok o

/-! ## Nodes -/

def lookup {α : Type} (n : Node) (i : Int) (read : Entry → Checked (Except Defect α)) :
    Checked (Except LookupError α × Node) := do
  match ← findSlot n.buffer i with
  | .error bound => return (.error (.notFound bound), n)
  | .ok s =>
    match n.mark with
    | some d => return (.error (.corrupt d), n)
    | none =>
      match ← readSlot s n.buffer with
      | .error d => return (.error (.corrupt d), n.record d)
      | .ok e =>
        match ← read e with
        | .error d => return (.error (.corrupt d), n.record d)
        | .ok a => return (.ok a, n)

def answer (n : Node) : Lookup → Checked (Answer × Node)
  | .compare key i => do
    let (r, n') ← lookup n i fun e => compareKey e.trailer n.buffer key
    return (.outcome (.ofResult r), n')
  | .trailer i => do
    let (r, n') ← lookup n i fun e => return .ok e.trailer
    return (.trailer r, n')
  | .key i => do
    let (r, n') ← lookup n i fun e => joinedKey e.trailer n.buffer
    return (.key r, n')
  | .payload i => do
    let (r, n') ← lookup n i fun e => return .ok (← payload e n.buffer)
    return (.payload r, n')

/-! ## Dumps -/

def keyText (b : Buffer) (i : Nat) : Checked String := do
  match ← findSlot b i with
  | .error bound => return unreadable (LookupError.notFound bound).message
  | .ok s =>
    match ← readSlot s b with
    | .error d => return unreadable (LookupError.corrupt d).message
    | .ok e =>
      match ← splitKey e.trailer b with
      | .error d => return unreadable d.message
      | .ok k => return k.text

def keyLine (b : Buffer) (i : Nat) : Checked String := do
  return "  key[" ++ paddedIndex i ++ "]   : " ++ (← keyText b i)

def tableLines (b : Buffer) : Checked (List String) := do
  match ← table b with
  | .error e => return ["  entries     : 0 (" ++ e.message ++ ")"]
  | .ok t =>
    let count ← add t.last 1
    let keys ← (List.range count).mapM (keyLine b)
    return ("  entries     : " ++ toString count) ::
      ("  entry_size  : " ++ toString t.entrySize) :: keys

def dump (n : Node) : Checked String := do
  return "\n".intercalate (["Node ".push '{', "  length      : " ++ toString n.length] ++
    (← tableLines n.buffer) ++ markLines n.mark ++ [String.singleton '}'])

end Checked

end IndexNode
