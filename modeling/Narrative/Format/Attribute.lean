import Narrative.Json.Record
import Narrative.Sheet

/-!
# `Narrative.Format.Attribute` — attributes in JSON

## Contents
- **Values.** Truth values and integers are written plainly; choices by their names.
- **Categories.** `CategoryDecl` with its two sets of field names, `Category`, `Registry`.
- **Characteristics.** `Characteristic`, `Change`, `Sheet`.
-/

namespace Narrative

open Json

/-! ## Values -/

instance : ToJson Value := ⟨fun
  | .bool b => toJson b
  | .int n => toJson n⟩

instance : OfJson Value := ⟨fun j =>
  match j with
  | .bool b => some (.bool b)
  | j => (ofJson? j).map .int⟩

instance : ToJson Kind := ⟨fun
  | .boolean => .string "Boolean"
  | .integer => .string "Integer"⟩

instance : OfJson Kind := ⟨fun j =>
  match tag? j with
  | some "Boolean" => some .boolean
  | some "Integer" => some .integer
  | _ => none⟩

instance : ToJson Comparison := ⟨fun c => .string c.symbol⟩
instance : OfJson Comparison := ⟨fun j => (tag? j).bind Comparison.ofSymbol?⟩

instance : ToJson Mutation := ⟨fun m => .string m.symbol⟩
instance : OfJson Mutation := ⟨fun j => (tag? j).bind Mutation.ofSymbol?⟩

instance : ToJson Range := ⟨fun r => .object [("min", toJson r.min), ("max", toJson r.max)]⟩

instance : OfJson Range := ⟨fun j => do
  let r ← record? 2 j
  return ⟨← r.required 0 ["min"], ← r.required 1 ["max"]⟩⟩

/-! ## Categories -/

instance : ToJson CategoryDecl := ⟨fun d => .object [
  ("class", toJson d.name),
  ("types", toJson d.subtypes),
  ("isBoolean", toJson d.isBoolean),
  ("min", toJson d.min),
  ("max", toJson d.max),
  ("defaultVal", toJson d.default)]⟩

instance : OfJson CategoryDecl := ⟨fun j => do
  let r ← record? 6 j
  return {
    name := ← r.required 0 ["class", "name"]
    subtypes := ← r.defaulted 1 ["types", "subtypes"] []
    isBoolean := ← r.defaulted 2 ["isBoolean", "is_boolean"] false
    min := ← r.defaulted 3 ["min"] none
    max := ← r.defaulted 4 ["max"] none
    default := ← r.required 5 ["defaultVal", "default"] }⟩

instance : ToJson CategoryKind := ⟨fun
  | .boolean default => .object [("Boolean", .object [("default", toJson default)])]
  | .numeric range default =>
    .object [("Numeric", .object [("range", toJson range), ("default", toJson default)])]⟩

instance : OfJson CategoryKind := ⟨fun
  | .object [("Boolean", j)] => do
    let r ← record? 1 j
    return .boolean (← r.required 0 ["default"])
  | .object [("Numeric", j)] => do
    let r ← record? 2 j
    return .numeric (← r.required 0 ["range"]) (← r.required 1 ["default"])
  | _ => none⟩

instance : ToJson Category := ⟨fun c => .object [
  ("name", toJson c.name), ("subtypes", toJson c.subtypes), ("kind", toJson c.kind)]⟩

instance : OfJson Category := ⟨fun j => do
  let r ← record? 3 j
  return ⟨← r.required 0 ["name"], ← r.required 1 ["subtypes"], ← r.required 2 ["kind"]⟩⟩

instance : ToJson Registry := ⟨fun r => .object [("categories", toJson r.categories)]⟩

instance : OfJson Registry := ⟨fun j => do
  let r ← record? 1 j
  return ⟨← r.required 0 ["categories"]⟩⟩

/-! ## Characteristics -/

instance : ToJson Characteristic := ⟨fun c => .object [
  ("category", toJson c.category),
  ("subtype", toJson c.subtype),
  ("value", toJson c.value),
  ("range", toJson c.range)]⟩

instance : OfJson Characteristic := ⟨fun j => do
  let r ← record? 4 j
  return {
    category := ← r.required 0 ["category"]
    subtype := ← r.required 1 ["subtype"]
    value := ← r.required 2 ["value"]
    range := ← r.nullable 3 ["range"] }⟩

instance : ToJson Change := ⟨fun c => .object [
  ("before", toJson c.before), ("after", toJson c.after), ("range", toJson c.range)]⟩

instance : OfJson Change := ⟨fun j => do
  let r ← record? 3 j
  return ⟨← r.required 0 ["before"], ← r.required 1 ["after"], ← r.nullable 2 ["range"]⟩⟩

instance : ToJson Sheet := ⟨fun s => .object [("characteristics", toJson s.characteristics)]⟩

instance : OfJson Sheet := ⟨fun j => do
  let r ← record? 1 j
  return ⟨← r.required 0 ["characteristics"]⟩⟩

end Narrative
