import Narrative.Category
import Narrative.Number.Binary32

/-!
# `Narrative.Characteristic` — one attribute of one character

A characteristic is the value of an attribute for a character. Integers carry the range that their
category had when they were created.

## Contents
- **Characteristics.** `Characteristic`, `Characteristic.ofCategory` and `Characteristic.change?`.
- **Changes.** `Change`, with `isNoop` and `magnitude`.
-/

namespace Narrative

/-! ## Changes -/

/-- What a mutation did to a value. -/
structure Change where
  before : Value
  after : Value
  /-- The range of the value; none for truth values. -/
  range : Option Range
deriving DecidableEq

namespace Change

/-- Whether the value stayed as it was. -/
def isNoop (c : Change) : Bool := c.before = c.after

/-- How much of the range a change covered: a truth value flips fully or not at all, an integer
counts its distance over the width of the range, at most one. Any change without width is full. -/
def magnitude (c : Change) : Binary32 :=
  match c.before, c.after with
  | .bool a, .bool b => if a = b then .zero else .one
  | .int a, .int b =>
    let distance := (a.toInt - b.toInt).natAbs
    if distance = 0 then .zero
    else
      match c.range with
      | some range =>
        if 0 < range.width then
          (Binary32.ofInt distance / Binary32.ofInt range.width.toInt).min .one
        else .one
      | none => .one
  | _, _ => .one

end Change

/-! ## Characteristics -/

/-- The value of an attribute for one character. -/
structure Characteristic where
  category : String
  subtype : String
  value : Value
  /-- The range of the value; none for truth values. -/
  range : Option Range
deriving DecidableEq

namespace Characteristic

/-- An attribute of a category at its default. -/
def ofCategory (c : Category) (subtype : String) : Characteristic :=
  ⟨c.name, subtype, c.default, c.range?⟩

/-- Whether the value is a truth value: it has no range. -/
def isBoolean (c : Characteristic) : Bool := c.range.isNone

/-- The attribute as shown in messages. -/
def pair (c : Characteristic) : String := Key.join c.category c.subtype

/-- The value after a mutation. An integer stops at the far end of its range when it is added to or
subtracted from, and takes any value that is assigned. A truth value can only be assigned. -/
def mutated (c : Characteristic) (op : Mutation) (operand : Value) : Except EvaluationError Value :=
  match op, c.range, c.value, operand with
  | .assign, none, .bool _, .bool b => .ok (.bool b)
  | .assign, some _, .int _, .int n => .ok (.int n)
  | .add, none, _, _ => .error (.booleanArithmetic c.pair op)
  | .subtract, none, _, _ => .error (.booleanArithmetic c.pair op)
  | .add, some range, .int v, .int n => .ok (.int (min (saturate (v.toInt + n.toInt)) range.max))
  | .subtract, some range, .int v, .int n => .ok (.int (max (saturate (v.toInt - n.toInt)) range.min))
  | _, _, _, _ => .error (.kindMismatch c.pair c.value.kind operand)

/-- Mutates the value, and reports the change. -/
def change? (c : Characteristic) (op : Mutation) (operand : Value) :
    Except EvaluationError (Characteristic × Change) :=
  (c.mutated op operand).map fun after => ({ c with value := after }, ⟨c.value, after, c.range⟩)

end Characteristic

end Narrative
