import Narrative.Memory
import Narrative.World

/-!
# `Narrative.Evaluation` — conditions against a world

Preconditions are decided and effects carried out against the sheets of a world. An attribute that is
not on a sheet reads as the default that the registry gives it.

## Contents
- **Checks.** `check` and `checkEffect` need the registry alone.
- **Queries.** `resolve` and `evaluate` leave the world as it is.
- **Writes.** `evaluateInPlace` puts what it reads onto the sheet, `enact` carries out an effect.
- **Recording.** `recordAll` carries out effects in order and remembers what they changed.
-/

namespace Narrative

namespace Registry

/-! ## Checks -/

/-- Checks that an attribute is registered, and gives its category. -/
def check (r : Registry) (category subtype : String) : Except EvaluationError Category :=
  match r.category? category with
  | none => .error (.unknownCategory category)
  | some definition =>
    if definition.hasSubtype subtype then .ok definition else .error (.unknownSubtype category subtype)

/-- Checks that an effect can be carried out: its attribute is registered, the operand is of the
category's kind, and truth values are only assigned. -/
def checkEffect (r : Registry) (e : Effect) : Except EvaluationError Unit := do
  let definition ← r.check e.category e.subtype
  if e.value.kind ≠ definition.default.kind then
    throw (.kindMismatch e.pair definition.default.kind e.value)
  if definition.isBoolean && e.op != .assign then throw (.booleanArithmetic e.pair e.op)

/-! ## Queries -/

variable {ω : Type} [World ω]

/-- The value of an attribute: the one on the sheet, or the default. -/
def resolve (r : Registry) (w : ω) (t : Target) : Except EvaluationError Value :=
  match sheet? w t.character with
  | none => .error (.unknownCharacter t.character)
  | some sheet => do
    let definition ← r.check t.category t.subtype
    return (sheet.value? t.category t.subtype).getD definition.default

/-- Whether a precondition holds. -/
def evaluate (r : Registry) (w : ω) (p : Precondition) : Except EvaluationError Bool := do
  p.holdsOf (← r.resolve w p.toTarget)

/-- Whether all preconditions hold, tried in order up to the first that does not. -/
def evaluateAll (r : Registry) (w : ω) : List Precondition → Except EvaluationError Bool
  | [] => .ok true
  | p :: ps => do if ← r.evaluate w p then r.evaluateAll w ps else return false

/-! ## Writes -/

/-- Runs an operation on the sheet of a character. -/
def onSheet {α : Type} (w : ω) (character : String) (f : Sheet → Attempt Sheet EvaluationError α) :
    Attempt ω EvaluationError α :=
  match sheet? w character with
  | none => .error (.unknownCharacter character) w
  | some sheet => (f sheet).within (setSheet w character)

/-- Whether a precondition holds; its attribute is on the sheet afterwards. -/
def evaluateInPlace (r : Registry) (w : ω) (p : Precondition) : Attempt ω EvaluationError Bool :=
  (onSheet w p.character fun s => s.materialize r p.category p.subtype).andThen fun c w =>
    ⟨p.holdsOf c.value, w⟩

/-- Carries out an effect. -/
def enact (r : Registry) (w : ω) (e : Effect) : Attempt ω EvaluationError Change :=
  onSheet w e.character fun s => s.mutate r e.category e.subtype e.op e.value

/-! ## Recording

The same step serves a path that is taken and a path that is only imagined: effects are carried out
in order on some world, and each change is recorded in a memory. -/

/-- Carries out effects in order, up to the first that cannot be, and records each change. -/
def recordAll (r : Registry) : List Effect → Memory → ω → Attempt ω EvaluationError Memory
  | [], m, w => .ok m w
  | e :: es, m, w => (r.enact w e).andThen fun change w => recordAll r es (m.encode e.toTarget change) w

end Registry

end Narrative
