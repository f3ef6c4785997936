import IndexNode.Draft

/-!
# What a list of instructions asks for

A key opens a record, and a payload goes to the record that was opened last. So a record is decided
by its key and by the instructions up to the next one. Where instructions overwrite each other the
last one counts.

* `Draft.leadOf`, `Draft.recordsOf`: the leading bytes and the records, read off the list alone.
* `Draft.records_step_payload`: what a payload does to the newest record.
* `Draft.lead_ofSteps`, `Draft.records_ofSteps`: the draft holds what was asked for.
-/

namespace IndexNode

namespace Draft

namespace Step

/-- The number of leading bytes that the instruction sets, if it sets one. -/
def lead? : Step → Option Nat
  | .lead n => some n
  | .key _ _ | .payload _ => none

/-- The payload that the instruction sets, if it sets one. -/
def payload? : Step → Option Bytes
  | .payload p => some p
  | .lead _ | .key _ _ => none

/-- The instruction opens a record. -/
def isKey : Step → Bool
  | .key _ _ => true
  | .lead _ | .payload _ => false

end Step

/-- The number of leading bytes: the last one that is set, or zero. -/
def leadOf (steps : List Step) : Nat := (steps.filterMap Step.lead?).getLastD 0

/-- The payload of a record that has `p` when `steps` begin: the last one that is set before the
next key, or `p`. -/
def payloadAfter (p : Bytes) (steps : List Step) : Bytes :=
  ((steps.takeWhile fun s => !s.isKey).filterMap Step.payload?).getLastD p

/-- One record for each key, in order, with the payload that is left to it. -/
def recordsOf : List Step → List Record
  | [] => []
  | .key first second :: steps => ⟨first, second, payloadAfter [] steps⟩ :: recordsOf steps
  | .lead _ :: steps | .payload _ :: steps => recordsOf steps

section Lemmas

variable (p : Bytes) (steps : List Step)

@[simp] theorem payloadAfter_nil : payloadAfter p [] = p := rfl

@[simp] theorem payloadAfter_key (first second : Bytes) :
    payloadAfter p (.key first second :: steps) = p := rfl

@[simp] theorem payloadAfter_lead (n : Nat) :
    payloadAfter p (.lead n :: steps) = payloadAfter p steps := rfl

@[simp] theorem payloadAfter_payload (q : Bytes) :
    payloadAfter p (.payload q :: steps) = payloadAfter q steps := List.getLastD_cons

end Lemmas

variable {d : Draft}

/-! ## Leading bytes -/

theorem lead_foldl_step (d : Draft) (steps : List Step) :
    (steps.foldl step d).lead = (steps.filterMap Step.lead?).getLastD d.lead := by
  induction steps generalizing d with
  | nil => rfl
  | cons s steps ih =>
    rw [List.foldl_cons, ih]
    cases s with
    | lead n => exact List.getLastD_cons.symm
    | key first second | payload p => rfl

theorem lead_ofSteps (steps : List Step) : (ofSteps steps).lead = leadOf steps :=
  lead_foldl_step empty steps

/-! ## Records -/

/-- A payload replaces that of the newest record and leaves the others alone. -/
theorem records_step_payload {rs : List Record} {r : Record} (h : d.records.toList = rs ++ [r])
    (p : Bytes) : (d.step (.payload p)).records.toList = rs ++ [{ r with payload := p }] := by
  have hlast : d.records.size - 1 = rs.length := by simp [← Array.length_toList, h]
  have hmodify := List.modifyTailIdx_add (List.modifyHead fun r : Record => { r with payload := p })
    0 rs [r]
  rw [step, Array.toList_modify, h, hlast]
  exact hmodify

theorem records_step_key (first second : Bytes) :
    (d.step (.key first second)).records.toList = d.records.toList ++ [⟨first, second, []⟩] :=
  Array.toList_push

/-- Instructions finish the newest record and add those that they ask for. -/
theorem records_foldl_step_of_last {rs : List Record} {r : Record}
    (h : d.records.toList = rs ++ [r]) (steps : List Step) :
    (steps.foldl step d).records.toList =
      rs ++ { r with payload := payloadAfter r.payload steps } :: recordsOf steps := by
  induction steps generalizing d rs r with
  | nil => exact h
  | cons s steps ih =>
    rw [List.foldl_cons]
    cases s with
    | lead n => rw [ih (d := d.step (.lead n)) h, payloadAfter_lead, recordsOf]
    | payload p => rw [ih (records_step_payload h p), payloadAfter_payload, recordsOf]
    | key first second =>
      -- The record that was newest is finished, the one that is opened takes its place.
      have hopened := records_step_key (d := d) first second
      rw [ih hopened, h, payloadAfter_key, recordsOf, List.append_assoc]
      rfl

/-- As long as there is no record, leading bytes and payloads leave it so. -/
theorem records_foldl_step_of_empty (h : d.records = #[]) (steps : List Step) :
    (steps.foldl step d).records.toList = recordsOf steps := by
  induction steps generalizing d with
  | nil => rw [List.foldl_nil, h, recordsOf]
  | cons s steps ih =>
    rw [List.foldl_cons]
    cases s with
    | lead n => exact ih h
    | payload p => exact ih (by simp [step, h])
    | key first second =>
      have hopened : (d.step (.key first second)).records.toList = [] ++ [⟨first, second, []⟩] := by
        rw [records_step_key, h]
      exact records_foldl_step_of_last hopened steps

theorem records_ofSteps (steps : List Step) : (ofSteps steps).records.toList = recordsOf steps :=
  records_foldl_step_of_empty rfl steps

end Draft

end IndexNode
