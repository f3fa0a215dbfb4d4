import Narrative.Memory
import Narrative.Plot
import Narrative.World

/-!
# `Narrative.Character` — characters and the cast of a story

## Contents
- **Characters.** `Character`: a sheet, a plot and a memory bank under one name.
- **The cast.** `Cast`, characters by name; it is a world.
-/

namespace Narrative

/-! ## Characters -/

/-- A character. -/
structure Character where
  name : String
  sheet : Sheet
  plot : Plot
  memory : MemoryBank
deriving DecidableEq

/-- A character with an empty sheet and plot, and a bank of the given recency weight. -/
def Character.new (name : String) (recencyWeight : Binary32) : Character :=
  ⟨name, .empty, .empty, .new recencyWeight⟩

/-! ## The cast -/

/-- The characters of a story by name. -/
structure Cast where
  characters : SortedMap String Character
deriving DecidableEq

namespace Cast

/-- The cast without characters. -/
def empty : Cast := ⟨.empty⟩

instance : Inhabited Cast := ⟨empty⟩

/-- The character of a name. -/
def get? (c : Cast) (name : String) : Option Character := c.characters.get? name

/-- Whether there is a character of a name. -/
def contains (c : Cast) (name : String) : Bool := c.characters.contains name

/-- The names, ascending. -/
def names (c : Cast) : List String := c.characters.keys

/-- The number of characters. -/
def size (c : Cast) : Nat := c.characters.size

/-- Adds a character. Its name must be new, not empty and free of the key separator. -/
def insert (c : Cast) (character : Character) : Except AuthoringError Cast := do
  if character.name = "" then throw .emptyCharacterName
  Key.checkName character.name
  if c.contains character.name then throw (.duplicateCharacter character.name)
  return ⟨c.characters.insert character.name character⟩

/-- Takes a character out. -/
def remove (c : Cast) (name : String) : Cast := ⟨c.characters.erase name⟩

/-- Changes a character in place. -/
def update (c : Cast) (name : String) (f : Character → Character) : Cast := ⟨c.characters.modify name f⟩

/-- Changes every character in place. -/
def updateAll (c : Cast) (f : Character → Character) : Cast := ⟨c.characters.map f⟩

end Cast

instance : World Cast where
  sheet? c name := (c.get? name).map (·.sheet)
  setSheet c name s := c.update name fun character => { character with sheet := s }

instance : LawfulWorld Cast where
  sheet?_setSheet c name name' s h := by
    obtain ⟨m⟩ := c
    show ((m.modify name fun character => { character with sheet := s }).get? name').map _ = _
    rw [SortedMap.get?_modify]
    by_cases hn : name' = name
    · rw [if_pos hn, if_pos hn]
      cases hg : m.get? name with
      | none => simp [sheet?, Cast.get?, hg] at h
      | some character => rfl
    · rw [if_neg hn, if_neg hn]
      rfl

end Narrative
