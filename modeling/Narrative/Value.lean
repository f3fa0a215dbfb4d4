import Narrative.Number.Word

/-!
# `Narrative.Value` — attribute values and the operators on them

An attribute holds a truth value or a 64-bit integer; integers of one category share a range. A
precondition compares values, an effect changes them; both are written with one or two characters.

## Contents
- **Values.** `Value` and its `Kind`, with their texts.
- **Ranges.** `Range`, an inclusive interval of integers.
- **Comparisons.** `Comparison` and `Comparison.compare?`.
- **Mutations.** `Mutation`.
-/

namespace Narrative

/-! ## Values -/

/-- What an attribute holds: truth values or integers. -/
inductive Kind where
  | boolean
  | integer
deriving DecidableEq

/-- The kind as shown in messages. -/
def Kind.text : Kind → String
  | boolean => "boolean"
  | integer => "integer"

/-- The value of an attribute, or the operand of a condition. -/
inductive Value where
  | bool (b : Bool)
  | int (n : Int64)
deriving DecidableEq

namespace Value

/-- The kind of a value. -/
def kind : Value → Kind
  | bool _ => .boolean
  | int _ => .integer

/-- The truth value, if the value is one. -/
def bool? : Value → Option Bool
  | bool b => some b
  | int _ => none

/-- The integer, if the value is one. -/
def int? : Value → Option Int64
  | bool _ => none
  | int n => some n

/-- The value as shown in messages. -/
def text : Value → String
  | bool b => if b then "true" else "false"
  | int n => toString n.toInt

end Value

/-! ## Ranges -/

/-- The integers from `min` to `max`, both included. -/
structure Range where
  min : Int64
  max : Int64
deriving DecidableEq

namespace Range

/-- Whether `n` lies in the range. -/
def contains (r : Range) (n : Int64) : Bool := r.min ≤ n && n ≤ r.max

/-- The distance between the bounds, at most the largest 64-bit integer. -/
def width (r : Range) : Int64 := saturate (r.max.toInt - r.min.toInt)

end Range

/-! ## Comparisons -/

/-- How a precondition compares the current value with its operand. -/
inductive Comparison where
  | greater
  | less
  | equal
deriving DecidableEq

namespace Comparison

/-- The comparison as written. -/
def symbol : Comparison → String
  | greater => ">"
  | less => "<"
  | equal => "=="

/-- The comparison written as `s`. -/
def ofSymbol? (s : String) : Option Comparison := [greater, less, equal].find? (·.symbol = s)

/-- Whether the comparison holds of two things in the given order. -/
def holds : Comparison → Ordering → Bool
  | greater, o => o = .gt
  | less, o => o = .lt
  | equal, o => o = .eq

/-- Compares two values of one kind; `false` is below `true`. Values of different kinds do not
compare. -/
def compare? (c : Comparison) : Value → Value → Option Bool
  | .int a, .int b => some (c.holds (compare a b))
  | .bool a, .bool b => some (c.holds (compare a b))
  | _, _ => none

/-- **Integers compare as it is written**, the first with the second. -/
theorem compare?_int (c : Comparison) (a b : Int64) : c.compare? (.int a) (.int b) = some (match c with
    | greater => b < a
    | less => a < b
    | equal => a = b) := by
  unfold compare? holds
  cases c <;> simp [Std.compare_eq_lt, Std.compare_eq_gt]

/-- Of two truth values only `true` and `false` differ, and `true` is the greater one. -/
theorem compare?_bool (c : Comparison) (a b : Bool) : c.compare? (.bool a) (.bool b) = some (match c with
    | greater => a && !b
    | less => !a && b
    | equal => a == b) := by
  cases c <;> cases a <;> cases b <;> rfl

end Comparison

/-! ## Mutations -/

/-- How an effect changes a value. -/
inductive Mutation where
  | assign
  | add
  | subtract
deriving DecidableEq

namespace Mutation

/-- The mutation as written. -/
def symbol : Mutation → String
  | assign => "="
  | add => "+"
  | subtract => "-"

/-- The mutation written as `s`. -/
def ofSymbol? (s : String) : Option Mutation := [assign, add, subtract].find? (·.symbol = s)

end Mutation

end Narrative
