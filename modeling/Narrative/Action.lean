import Narrative.Registry

/-!
# `Narrative.Action` — one choice that a character can take

A precondition compares an attribute with an operand and gates the choice; an effect changes an
attribute. Both name a character, who need not be the one that acts.

## Contents
- **Targets.** `Target`, the attribute that a condition is about.
- **Conditions.** `Precondition` and `Effect`, each with its check against a registry.
- **Actions.** `Action`, with its conditions, its label and its links; `Action.new` and
  `Action.withLabel`.
-/

namespace Narrative

/-! ## Targets -/

/-- The attribute of a character that a condition reads or changes. -/
structure Target where
  character : String
  category : String
  subtype : String
deriving DecidableEq

namespace Target

/-- The attribute as shown in messages. -/
def pair (t : Target) : String := Key.join t.category t.subtype

/-- The key under which changes of the attribute are remembered. -/
def memoryKey (t : Target) : String := Key.memory t.character t.category t.subtype

/-- Refuses an operand of the wrong kind. A category that is not registered yet fits every operand. -/
def checkKind (t : Target) (registry : Registry) (operand : Value) : Except AuthoringError Unit :=
  match registry.category? t.category with
  | none => .ok ()
  | some definition =>
    if operand.kind = definition.default.kind then .ok ()
    else .error (.valueKind t.category t.subtype definition.default.kind operand)

end Target

/-! ## Conditions -/

/-- A comparison that has to hold for an action to be open. -/
structure Precondition extends Target where
  op : Comparison
  value : Value
deriving DecidableEq

/-- Checks the operand of a precondition. -/
def Precondition.validate (p : Precondition) (registry : Registry) : Except AuthoringError Unit :=
  p.toTarget.checkKind registry p.value

/-- Whether a precondition holds of a value; the two have to be of one kind. -/
def Precondition.holdsOf (p : Precondition) (actual : Value) : Except EvaluationError Bool :=
  match p.op.compare? actual p.value with
  | some b => .ok b
  | none => .error (.kindMismatch p.pair actual.kind p.value)

/-- A change that an action makes. -/
structure Effect extends Target where
  op : Mutation
  value : Value
deriving DecidableEq

/-- Checks the operand of an effect, and that truth values are only assigned. -/
def Effect.validate (e : Effect) (registry : Registry) : Except AuthoringError Unit := do
  e.toTarget.checkKind registry e.value
  if (registry.category? e.category).any (·.isBoolean) && e.op != .assign then
    throw (.booleanMutation e.category e.subtype e.op)

/-! ## Actions -/

/-- A choice: what opens it, what it changes, and which actions it leads to. -/
structure Action where
  uid : Uid
  name : String
  /-- All of them have to hold for the action to be open. -/
  preconditions : List Precondition
  /-- Carried out in order when the action is taken. -/
  effects : List Effect
  /-- Of the paths with one label at most one is offered. -/
  label : Option String
  /-- The actions that may follow, in author order. -/
  children : List Uid
  /-- The actions that this one may follow. -/
  parents : List Uid
deriving DecidableEq

namespace Action

/-- An action without conditions, label and links. -/
def new (uid : Uid) (name : String) : Action := ⟨uid, name, [], [], none, [], []⟩

/-- The action with a label; the empty label is none. -/
def withLabel (a : Action) (label : String) : Action :=
  { a with label := if label = "" then none else some label }

/-- Whether nothing leads to the action. -/
def isFirst (a : Action) : Bool := a.parents.isEmpty

/-- Whether the action leads nowhere. -/
def isLeaf (a : Action) : Bool := a.children.isEmpty

end Action

end Narrative
