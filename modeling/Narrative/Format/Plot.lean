import Narrative.Format.Attribute
import Narrative.Plot

/-!
# `Narrative.Format.Plot` — conditions, actions and plots in JSON

## Contents
- **Conditions.** `Precondition` and `Effect` are written and read alike, each with its own operators.
- **Actions.** `Action`.
- **Plots.** `Plot`; the validation mark is not written, so a plot that is read back has to be
  validated again.
-/

namespace Narrative

open Json

/-! ## Conditions -/

section Conditions

variable {op : Type}

/-- A condition with its operator. -/
def conditionToJson [ToJson op] (t : Target) (operator : op) (operand : Value) : Json := .object [
  ("character", toJson t.character),
  ("class", toJson t.category),
  ("type", toJson t.subtype),
  ("operation", toJson operator),
  ("value", toJson operand)]

/-- The target, the operator and the operand of a condition. -/
def conditionOfJson? [OfJson op] (j : Json) : Option (Target × op × Value) := do
  let r ← record? 5 j
  let character ← r.required 0 ["character"]
  let category ← r.required 1 ["class", "category"]
  let subtype ← r.required 2 ["type", "subtype"]
  let operator ← r.required 3 ["operation", "op"]
  let operand ← r.required 4 ["value"]
  return (⟨character, category, subtype⟩, operator, operand)

end Conditions

instance : ToJson Precondition := ⟨fun p => conditionToJson p.toTarget p.op p.value⟩

instance : OfJson Precondition :=
  ⟨fun j => (conditionOfJson? j).map fun (t, op, value) => ⟨t, op, value⟩⟩

instance : ToJson Effect := ⟨fun e => conditionToJson e.toTarget e.op e.value⟩

instance : OfJson Effect := ⟨fun j => (conditionOfJson? j).map fun (t, op, value) => ⟨t, op, value⟩⟩

/-! ## Actions -/

instance : ToJson Action := ⟨fun a => .object [
  ("uid", toJson a.uid),
  ("name", toJson a.name),
  ("preconditions", toJson a.preconditions),
  ("expressions", toJson a.effects),
  ("category", toJson a.label),
  ("children", toJson a.children),
  ("parents", toJson a.parents)]⟩

instance : OfJson Action := ⟨fun j => do
  let r ← record? 7 j
  return {
    uid := ← r.required 0 ["uid"]
    name := ← r.required 1 ["name"]
    preconditions := ← r.required 2 ["preconditions"]
    effects := ← r.required 3 ["expressions"]
    label := ← r.nullable 4 ["category"]
    children := ← r.required 5 ["children"]
    parents := ← r.required 6 ["parents"] }⟩

/-! ## Plots -/

instance : ToJson Plot := ⟨fun p => .object [("roots", toJson p.roots), ("actions", toJson p.actions)]⟩

instance : OfJson Plot := ⟨fun j => do
  let r ← record? 2 j
  return ⟨← r.required 0 ["roots"], ← r.required 1 ["actions"], false⟩⟩

end Narrative
