import Narrative.Sheet

/-!
# `Narrative.World` — reaching the sheets of all characters

Conditions are evaluated against something that holds one sheet per character: a map by name, the
cast of a story, or a scratch layer over either.

## Contents
- **The class.** `World`, and `LawfulWorld` for worlds in which a sheet is found where it was set.
- **Scratch layers.** `Scratch` keeps written sheets apart from the world below it.
-/

namespace Narrative

/-- Types whose values hold one sheet per character. -/
class World (ω : Type) where
  /-- The sheet of a character, if there is such a character. -/
  sheet? : ω → String → Option Sheet
  /-- Replaces the sheet of a character that has one. -/
  setSheet : ω → String → Sheet → ω

export World (sheet? setSheet)

/-- Worlds in which setting the sheet of a character changes that sheet and nothing else. -/
class LawfulWorld (ω : Type) [World ω] : Prop where
  /-- A character that has a sheet has the one that was set. -/
  sheet?_setSheet : ∀ (w : ω) (name name' : String) (s : Sheet), (sheet? w name).isSome →
    sheet? (setSheet w name s) name' = if name' = name then some s else sheet? w name'

instance : World (SortedMap String Sheet) where
  sheet? w name := w.get? name
  setSheet w name s := w.insert name s

instance : LawfulWorld (SortedMap String Sheet) where
  sheet?_setSheet w name name' s _ := SortedMap.get?_insert w name name' s

/-- A scratch layer: sheets are read from the world below until they are written. -/
structure Scratch (ω : Type) where
  base : ω
  /-- The sheets that have been written. -/
  touched : SortedMap String Sheet

namespace Scratch

/-- A scratch layer without writes. -/
def fresh {ω : Type} (base : ω) : Scratch ω := ⟨base, .empty⟩

/-- The number of characters whose sheets have been written. -/
def touchedCount {ω : Type} (w : Scratch ω) : Nat := w.touched.size

end Scratch

instance {ω : Type} [World ω] : World (Scratch ω) where
  sheet? w name := (w.touched.get? name).or (sheet? w.base name)
  setSheet w name s := { w with touched := w.touched.insert name s }

instance {ω : Type} [World ω] : LawfulWorld (Scratch ω) where
  sheet?_setSheet w name name' s _ := by
    show ((w.touched.insert name s).get? name').or _ = _
    rw [SortedMap.get?_insert]
    by_cases h : name' = name
    · rw [if_pos h, if_pos h]
      rfl
    · rw [if_neg h, if_neg h]
      rfl

end Narrative
