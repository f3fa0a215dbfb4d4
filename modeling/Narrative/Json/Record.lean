import Narrative.Data.SortedMap
import Narrative.Json.Tree
import Narrative.Number.Word

/-!
# `Narrative.Json.Record` — reading and writing typed values

How values of a type are written as JSON and read back. A structure may be given as an object with
its fields by name, or as an array with its fields in order.

## Contents
- **Classes.** `ToJson` and `OfJson`, with instances for truth values, numbers, texts, lists, maps
  and optional values.
- **Records.** `Record` is a structure as written; `required`, `defaulted`, `nullable` and
  `nullableDefaulted` read one field of it.
- **Tags.** `tag?` reads the name of a choice without content.
-/

namespace Narrative

/-- Types whose values can be written as JSON. -/
class ToJson (α : Type) where
  toJson : α → Json

/-- Types whose values can be read from JSON; all that does not fit is refused. -/
class OfJson (α : Type) where
  ofJson? : Json → Option α

export ToJson (toJson)
export OfJson (ofJson?)

/-- Reads a value from a text. -/
def ofText? (α : Type) [OfJson α] (text : String) : Option α := (Json.parse? text).bind ofJson?

namespace Json

/-! ## Single values -/

instance : ToJson Bool := ⟨.bool⟩
instance : OfJson Bool := ⟨fun | .bool b => some b | _ => none⟩

instance : ToJson String := ⟨.string⟩
instance : OfJson String := ⟨fun | .string s => some s | _ => none⟩

/-- The integer that a value spells without point and exponent. -/
def int? : Json → Option Int
  | .number n => n.int?
  | _ => none

/-- The JSON number of an integer. -/
def ofInt (n : Int) : Json := .number (Numeral.ofInt n)

instance : ToJson Int64 := ⟨fun n => ofInt n.toInt⟩
instance : OfJson Int64 := ⟨fun j => j.int?.bind int64?⟩

instance : ToJson UInt32 := ⟨fun n => ofInt n.toNat⟩
instance : OfJson UInt32 := ⟨fun j => j.int?.bind uint32?⟩

instance : ToJson UInt64 := ⟨fun n => ofInt n.toNat⟩
instance : OfJson UInt64 := ⟨fun j => j.int?.bind uint64?⟩

instance : OfJson Binary32 := ⟨fun | .number n => n.toBinary32? | _ => none⟩

/-! ## Collections -/

instance {α : Type} [ToJson α] : ToJson (List α) := ⟨fun xs => .array (xs.map toJson)⟩
instance {α : Type} [OfJson α] : OfJson (List α) := ⟨fun
  | .array xs => xs.mapM ofJson?
  | _ => none⟩

instance {α : Type} [ToJson α] : ToJson (Option α) := ⟨fun
  | none => .null
  | some a => toJson a⟩
instance {α : Type} [OfJson α] : OfJson (Option α) := ⟨fun
  | .null => some none
  | j => (ofJson? j).map some⟩

/-- Reads the values of an object's members. -/
def members? {α : Type} [OfJson α] : Json → Option (List (String × α))
  | .object ms => ms.mapM fun (name, j) => (ofJson? j).map fun a => (name, a)
  | _ => none

instance {α : Type} [ToJson α] : ToJson (SortedMap String α) :=
  ⟨fun m => .object (m.entries.map fun (k, a) => (k, toJson a))⟩
instance {α : Type} [OfJson α] : OfJson (SortedMap String α) :=
  ⟨fun j => (members? j).map SortedMap.ofList⟩

instance : ToJson (SortedSet String) := ⟨fun s => toJson s.keys⟩
instance : OfJson (SortedSet String) :=
  ⟨fun j => (ofJson? j : Option (List String)).map SortedSet.ofList⟩

/-- The number that a member's name spells: a numeral and nothing around it. -/
def uintKey? (name : String) : Option UInt32 :=
  match Token.scanNumeral name.toList with
  | some (n, []) => ofJson? (.number n)
  | _ => none

instance {α : Type} [ToJson α] : ToJson (SortedMap UInt32 α) :=
  ⟨fun m => .object (m.entries.map fun (k, a) => (toString k, toJson a))⟩
instance {α : Type} [OfJson α] : OfJson (SortedMap UInt32 α) := ⟨fun j => do
  let ms ← (members? j : Option (List (String × α)))
  return SortedMap.ofList (← ms.mapM fun (name, a) => (uintKey? name).map fun k => (k, a))⟩

/-! ## Records -/

/-- A structure as written: its fields by name, or its fields in order. -/
inductive Record where
  | named (members : List (String × Json))
  | listed (items : List Json)

/-- The record that a value spells for a structure of `arity` fields. -/
def record? (arity : Nat) : Json → Option Record
  | .object ms => some (.named ms)
  | .array xs => if xs.length ≤ arity then some (.listed xs) else none
  | _ => none

namespace Record

variable {α : Type} [OfJson α]

/-- What is written for the field at `place` with the given names; `none` if that is more than one
value, `some none` if it is left out. -/
def find? (r : Record) (place : Nat) (names : List String) : Option (Option Json) :=
  match r with
  | .named ms =>
    match ms.filter fun m => names.contains m.1 with
    | [] => some none
    | [m] => some (some m.2)
    | _ => none
  | .listed xs => some xs[place]?

/-- A field that has to be given. -/
def required (r : Record) (place : Nat) (names : List String) : Option α :=
  match r.find? place names with
  | some (some j) => ofJson? j
  | _ => none

/-- A field with a default. -/
def defaulted (r : Record) (place : Nat) (names : List String) (default : α) : Option α :=
  match r.find? place names with
  | some (some j) => ofJson? j
  | some none => some default
  | none => none

/-- A field that may be null. By name it may be left out, in order it has to stand. -/
def nullable (r : Record) (place : Nat) (names : List String) : Option (Option α) :=
  match r with
  | .named _ => r.defaulted place names none
  | .listed _ => r.required place names

end Record

/-! ## Tags -/

/-- The name of a choice without content: a string, or an object with that one name and null. -/
def tag? : Json → Option String
  | .string s => some s
  | .object [(name, .null)] => some name
  | _ => none

end Json

end Narrative
