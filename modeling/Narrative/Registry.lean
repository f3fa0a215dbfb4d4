import Narrative.Category

/-!
# `Narrative.Registry` — every category that a story may refer to

## Contents
- **The type.** `Registry`, categories by name.
- **Reading.** `category?` and `contains`.
- **Writing.** `addCategory`, `addSubtypes`, `removeCategory` and `removeSubtype`.
-/

namespace Narrative

/-- The categories of a story by name. -/
structure Registry where
  categories : SortedMap String Category
deriving DecidableEq

namespace Registry

/-- The registry without categories. -/
def empty : Registry := ⟨.empty⟩

instance : Inhabited Registry := ⟨empty⟩

/-! ## Reading -/

/-- The category of a name. -/
def category? (r : Registry) (name : String) : Option Category := r.categories.get? name

/-- Whether a category has a subtype. -/
def contains (r : Registry) (category subtype : String) : Bool :=
  (r.category? category).any (·.hasSubtype subtype)

/-! ## Writing -/

/-- Adds a declared category under a name that is not taken. -/
def addCategory (r : Registry) (decl : CategoryDecl) : Except AuthoringError Registry := do
  if r.categories.contains decl.name then throw (.duplicateCategory decl.name)
  let category ← Category.ofDecl decl
  return ⟨r.categories.insert category.name category⟩

/-- Gives a category more subtypes, all or none of them. -/
def addSubtypes (r : Registry) (name : String) (subtypes : List String) :
    Except AuthoringError Registry :=
  match r.category? name with
  | none => .error (.unknownCategory name)
  | some category => do
    subtypes.forM Key.checkName
    return ⟨r.categories.insert name { category with subtypes := category.subtypes.addAll subtypes }⟩

/-- Takes a category out; what refers to it is left to the caller. -/
def removeCategory (r : Registry) (name : String) : Registry := ⟨r.categories.erase name⟩

/-- Takes a subtype out of a category. -/
def removeSubtype (r : Registry) (name subtype : String) : Registry :=
  ⟨r.categories.modify name fun c => { c with subtypes := c.subtypes.erase subtype }⟩

end Registry

end Narrative
