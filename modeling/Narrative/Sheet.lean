import Narrative.Attempt
import Narrative.Characteristic
import Narrative.Registry

/-!
# `Narrative.Sheet` — the characteristics of one character

A sheet holds the characteristics that have been referred to so far, by category and subtype. What is
not on the sheet reads as the default of its category, and comes onto it with the first write.

## Contents
- **Reading.** `get?`, `value?`, `toList`, `size`.
- **Writing.** `insert`, `materialize`, `mutate`.
- **Removing.** `removeCategory`, `removeSubtype`.
-/

namespace Narrative

/-- The characteristics of one character: by category, then by subtype. -/
structure Sheet where
  characteristics : SortedMap String (SortedMap String Characteristic)
deriving DecidableEq

namespace Sheet

/-- The sheet without characteristics. -/
def empty : Sheet := ⟨.empty⟩

instance : Inhabited Sheet := ⟨empty⟩

/-! ## Reading -/

/-- The characteristics of a category. -/
def row (s : Sheet) (category : String) : SortedMap String Characteristic :=
  (s.characteristics.get? category).getD .empty

/-- The characteristic of an attribute. -/
def get? (s : Sheet) (category subtype : String) : Option Characteristic := (s.row category).get? subtype

/-- The value of an attribute. -/
def value? (s : Sheet) (category subtype : String) : Option Value :=
  (s.get? category subtype).map (·.value)

/-- All characteristics, by category and then by subtype. -/
def toList (s : Sheet) : List Characteristic := s.characteristics.values.flatMap (·.values)

/-- The number of characteristics. -/
def size (s : Sheet) : Nat := s.characteristics.values.foldl (fun n row => n + row.size) 0

/-- Whether no category has an entry. -/
def isEmpty (s : Sheet) : Bool := s.characteristics.isEmpty

/-- Whether a category has an entry. -/
def hasCategory (s : Sheet) (category : String) : Bool := s.characteristics.contains category

/-! ## Writing -/

/-- Puts a characteristic at an attribute. -/
def put (s : Sheet) (category subtype : String) (c : Characteristic) : Sheet :=
  ⟨s.characteristics.insert category ((s.row category).insert subtype c)⟩

@[simp] theorem get?_empty (category subtype : String) : empty.get? category subtype = none := rfl

/-- A characteristic is found where it was put, and the others where they were. -/
theorem get?_put (s : Sheet) (category subtype category' subtype' : String) (c : Characteristic) :
    (s.put category subtype c).get? category' subtype' =
      if category' = category ∧ subtype' = subtype then some c else s.get? category' subtype' := by
  unfold get? put row
  rw [SortedMap.get?_insert]
  by_cases hc : category' = category
  · subst hc
    rw [if_pos rfl, Option.getD_some, SortedMap.get?_insert]
    by_cases hs : subtype' = subtype
    · rw [if_pos hs, if_pos ⟨rfl, hs⟩]
    · rw [if_neg hs, if_neg fun h => hs h.2]
  · rw [if_neg hc, if_neg fun h => hc h.1]

/-- Puts a characteristic at the attribute that it names. -/
def insert (s : Sheet) (c : Characteristic) : Sheet := s.put c.category c.subtype c

/-- The characteristic of a registered attribute, put onto the sheet at its default if it was not
there. -/
def materialize (s : Sheet) (registry : Registry) (category subtype : String) :
    Attempt Sheet EvaluationError Characteristic :=
  match registry.category? category with
  | none => .error (.unknownCategory category) s
  | some definition =>
    if definition.hasSubtype subtype then
      match s.get? category subtype with
      | some c => .ok c s
      | none =>
        let c := Characteristic.ofCategory definition subtype
        .ok c (s.put category subtype c)
    else .error (.unknownSubtype category subtype) s

/-- Mutates a registered attribute. Where only the mutation fails, the attribute is on the sheet
afterwards. -/
def mutate (s : Sheet) (registry : Registry) (category subtype : String) (op : Mutation)
    (operand : Value) :
    Attempt Sheet EvaluationError Change :=
  (s.materialize registry category subtype).andThen fun c s =>
    match c.change? op operand with
    | .ok (c', change) => .ok change (s.put category subtype c')
    | .error e => .error e s

/-! ## Removing -/

/-- Drops the characteristics of a category. -/
def removeCategory (s : Sheet) (category : String) : Sheet := ⟨s.characteristics.erase category⟩

/-- Drops one characteristic, and its category with the last one. -/
def removeSubtype (s : Sheet) (category subtype : String) : Sheet :=
  match s.characteristics.get? category with
  | none => s
  | some row =>
    let rest := row.erase subtype
    if rest.isEmpty then ⟨s.characteristics.erase category⟩ else ⟨s.characteristics.insert category rest⟩

end Sheet

end Narrative
