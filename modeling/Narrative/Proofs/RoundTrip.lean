import Narrative.Format.Script
import Narrative.Proofs.Spelling

/-!
# `Proofs.RoundTrip` — a script comes back from its story file

Writing goes from a typed value to a JSON value and from there to text; reading goes back through
the same two stages. The lower stage is `Json.parse?_render`. The upper one is a class: a type is
**lawful** if reading undoes writing, and the types of a story file are shown to be lawful from the
inside out.

Two points take more than composition. An optional value that is there is written plainly, so it must not
look like `null`. And a field is found by any of its names, so no other field may be written under one of
them: a record is read back field by field, and for each the names are compared.

## Contents
- **Lawful types.** `LawfulJson`, `NeverNull`; words, lists, optional values, maps.
- **Records.** `required_eq` and `defaulted_eq` read back one field.
- **Story files.** Values, operators, conditions, declarations; the main result `parse_render`.
-/

namespace Narrative
open Json

/-! ## Lawful types -/

/-- A type is **lawful** if each value is read back from the JSON that is written for it. -/
class LawfulJson (α : Type) [ToJson α] [OfJson α] : Prop where
  ofJson?_toJson : ∀ a : α, ofJson? (toJson a) = some a

export LawfulJson (ofJson?_toJson)

/-- No value of the type is written as `null`. -/
class NeverNull (α : Type) [ToJson α] : Prop where
  toJson_ne_null : ∀ a : α, toJson a ≠ .null

export NeverNull (toJson_ne_null)

instance : LawfulJson Bool := ⟨fun _ => rfl⟩

instance : LawfulJson String := ⟨fun _ => rfl⟩

instance : NeverNull String := ⟨fun _ h => nomatch h⟩

instance : LawfulJson Int64 where
  ofJson?_toJson n := by
    show (Numeral.ofInt n.toInt).int?.bind int64? = some n
    rw [Numeral.int?_ofInt]
    exact int64?_toInt n

instance : NeverNull Int64 := ⟨fun _ h => nomatch h⟩

instance : LawfulJson UInt32 where
  ofJson?_toJson n := by
    show (Numeral.ofInt n.toNat).int?.bind uint32? = some n
    rw [Numeral.int?_ofInt]
    exact uint32?_toNat n

section Collections

variable {α : Type} [ToJson α] [OfJson α] [LawfulJson α]

instance : LawfulJson (List α) where
  ofJson?_toJson xs := by
    show (xs.map toJson).mapM ofJson? = some xs
    induction xs with
    | nil => rfl
    | cons x xs ih =>
      rw [List.map_cons, List.mapM_cons, ofJson?_toJson, ih]
      rfl

/-- A value that is there is told from one that is not, because it is not written as `null`. -/
instance [NeverNull α] : LawfulJson (Option α) where
  ofJson?_toJson x := by
    cases x with
    | none => rfl
    | some a =>
      have hnull : toJson a ≠ .null := toJson_ne_null a
      have hread : ofJson? (toJson a) = some a := ofJson?_toJson a
      show (match toJson a with
        | .null => some none
        | j => (ofJson? j).map some) = _
      split
      · next h => exact absurd h hnull
      · rw [hread]
        rfl

instance : LawfulJson (SortedMap String α) where
  ofJson?_toJson m := by
    have hentries : members? (toJson m) = some m.entries := by
      show (m.entries.map fun (k, a) => (k, toJson a)).mapM
        (fun (name, j) => (ofJson? j : Option α).map fun a => (name, a)) = some m.entries
      induction m.entries with
      | nil => rfl
      | cons e es ih =>
        have hvalue : ofJson? (toJson e.2) = some e.2 := ofJson?_toJson e.2
        rw [List.map_cons, List.mapM_cons, ih]
        show ((ofJson? (toJson e.2)).map (fun a => (e.1, a)) >>= _) = _
        rw [hvalue]
        rfl
    show (members? (toJson m)).map SortedMap.ofList = some m
    rw [hentries, Option.map_some, SortedMap.ofList_entries]

end Collections

/-! ## Records -/

namespace Json.Record

variable {α : Type} [ToJson α] [OfJson α] [LawfulJson α] {r : Record} {place : Nat}
  {names : List String} {a b : α}

/-- A field that has to be given is read back from where it was written. -/
theorem required_eq (h : r.find? place names = some (some (toJson a))) :
    r.required place names = some a := by
  rw [required, h]
  exact ofJson?_toJson a

/-- So is a field with a default. -/
theorem defaulted_eq (h : r.find? place names = some (some (toJson a))) :
    r.defaulted place names b = some a := by
  rw [defaulted, h]
  exact ofJson?_toJson a

end Json.Record

/-! ## Story files -/

instance : LawfulJson Value where
  ofJson?_toJson v := by
    cases v with
    | bool b => rfl
    | int n =>
      show (ofJson? (toJson n)).map Value.int = some (.int n)
      rw [ofJson?_toJson]
      rfl

instance : LawfulJson Comparison := ⟨fun c => by cases c <;> rfl⟩

instance : LawfulJson Mutation := ⟨fun m => by cases m <;> rfl⟩

/-- A condition is read back with its operator, if the operator is. -/
theorem conditionOfJson?_conditionToJson {op : Type} [ToJson op] [OfJson op] [LawfulJson op] (t : Target)
    (operator : op) (operand : Value) :
    conditionOfJson? (conditionToJson t operator operand) = some (t, operator, operand) := by
  show (record? 5 (.object _) >>= _) = _
  simp only [record?, Option.bind_eq_bind, Option.bind_some]
  rw [Record.required_eq (a := t.character) rfl, Record.required_eq (a := t.category) rfl,
    Record.required_eq (a := t.subtype) rfl, Record.required_eq (a := operator) rfl,
    Record.required_eq (a := operand) rfl]
  rfl

instance : LawfulJson Precondition where
  ofJson?_toJson p := by
    show (conditionOfJson? (conditionToJson p.toTarget p.op p.value)).map _ = _
    rw [conditionOfJson?_conditionToJson]
    rfl

instance : LawfulJson Effect where
  ofJson?_toJson e := by
    show (conditionOfJson? (conditionToJson e.toTarget e.op e.value)).map _ = _
    rw [conditionOfJson?_conditionToJson]
    rfl

instance : LawfulJson CategoryDecl where
  ofJson?_toJson d := by
    show (record? 6 (.object _) >>= _) = _
    simp only [record?, Option.bind_eq_bind, Option.bind_some]
    rw [Record.required_eq (a := d.name) rfl, Record.defaulted_eq (a := d.subtypes) rfl,
      Record.defaulted_eq (a := d.isBoolean) rfl, Record.defaulted_eq (a := d.min) rfl,
      Record.defaulted_eq (a := d.max) rfl, Record.required_eq (a := d.default) rfl]
    rfl

instance : LawfulJson CharacteristicDecl where
  ofJson?_toJson d := by
    show (record? 4 (.object _) >>= _) = _
    simp only [record?, Option.bind_eq_bind, Option.bind_some]
    rw [Record.required_eq (a := d.character) rfl, Record.required_eq (a := d.category) rfl,
      Record.required_eq (a := d.subtype) rfl, Record.required_eq (a := d.value) rfl]
    rfl

instance : LawfulJson ActionDecl where
  ofJson?_toJson d := by
    show (record? 7 (.object _) >>= _) = _
    simp only [record?, Option.bind_eq_bind, Option.bind_some]
    rw [Record.required_eq (a := d.uid) rfl, Record.required_eq (a := d.name) rfl,
      Record.defaulted_eq (a := d.first) rfl, Record.defaulted_eq (a := d.label) rfl,
      Record.defaulted_eq (a := d.preconditions) rfl, Record.defaulted_eq (a := d.effects) rfl,
      Record.defaulted_eq (a := d.leadsTo) rfl]
    rfl

instance : LawfulJson Script where
  ofJson?_toJson s := by
    show (record? 4 (.object _) >>= _) = _
    simp only [record?, Option.bind_eq_bind, Option.bind_some]
    rw [Record.defaulted_eq (a := s.categories) rfl, Record.defaulted_eq (a := s.characters) rfl,
      Record.defaulted_eq (a := s.characteristics) rfl, Record.defaulted_eq (a := s.actions) rfl]
    rfl

/-- **A script is read back from its story file**, and the story file is a JSON text: it spells the
object of the written fields and nothing else. -/
theorem Script.parse_render (s : Script) :
    Json.parse? s.render = some (toJson s) ∧ Script.parse s.render = .ok s := by
  have htext : Json.parse? s.render = some (toJson s) := parse?_render (toJson s)
  have hread : ofText? Script s.render = some s := by
    unfold ofText?
    rw [htext]
    exact ofJson?_toJson s
  exact ⟨htext, by rw [Script.parse, hread]⟩

end Narrative
