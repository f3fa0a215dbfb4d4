import Narrative.Error

/-!
# `Narrative.Key` — names joined by colons

A memory records changes under `character:category:subtype`. Names that become parts of such keys
must not hold a colon, so a key can be taken apart again.

## Contents
- **Names.** `checkName` refuses a name with a colon.
- **Keys.** `join`, `memory`, and `parts?` back; `category?`, `subtype?` and `belongsTo`.
-/

namespace Narrative

namespace Key

/-- The character between the parts of a key. -/
def separator : Char := ':'

/-- Refuses a name that would make keys ambiguous. -/
def checkName (name : String) : Except AuthoringError Unit :=
  if name.toList.contains separator then .error (.reservedSeparator name) else .ok ()

/-- Two names with the separator between them. -/
def join (a b : String) : String := a ++ separator.toString ++ b

/-- The key under which changes of a character's attribute are remembered. -/
def memory (character category subtype : String) : String := join (join character category) subtype

/-- Cuts a text at every separator. -/
def split : List Char → List (List Char)
  | [] => [[]]
  | c :: cs =>
    if c = separator then [] :: split cs
    else
      match split cs with
      | [] => [[c]]
      | part :: parts => (c :: part) :: parts

/-- The parts of a key. -/
def parts (key : String) : List String := (split key.toList).map String.ofList

/-- The category of a memory key. -/
def category? (key : String) : Option String := (parts key)[1]?

/-- The subtype of a memory key. -/
def subtype? (key : String) : Option String := (parts key)[2]?

/-- Whether a key starts with a character's name and the separator. -/
def belongsTo (key character : String) : Bool := (join character "").toList.isPrefixOf key.toList

end Key

end Narrative
