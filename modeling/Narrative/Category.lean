import Narrative.Data.SortedMap
import Narrative.Key

/-!
# `Narrative.Category` — families of attributes

A category is a family of attributes, its subtypes, that share a kind, a default and, for integers,
a range. Authors declare categories; a declaration becomes a category once it is checked.

## Contents
- **Declarations.** `CategoryDecl`, with `CategoryDecl.boolean` and `CategoryDecl.numeric`.
- **Categories.** `Category`, `Category.ofDecl` and what a category says about its attributes.
-/

namespace Narrative

/-! ## Declarations -/

/-- A category as an author declares it. -/
structure CategoryDecl where
  name : String
  subtypes : List String
  isBoolean : Bool
  min : Option Int64
  max : Option Int64
  default : Value
deriving DecidableEq

namespace CategoryDecl

/-- Declares a category of truth values. -/
def boolean (name : String) (subtypes : List String) (default : Bool) : CategoryDecl :=
  ⟨name, subtypes, true, none, none, .bool default⟩

/-- Declares a category of integers. -/
def numeric (name : String) (subtypes : List String) (min max default : Int64) : CategoryDecl :=
  ⟨name, subtypes, false, some min, some max, .int default⟩

end CategoryDecl

/-! ## Categories -/

/-- What the attributes of a category hold, and what they start with. -/
inductive CategoryKind where
  | boolean (default : Bool)
  | numeric (range : Range) (default : Int64)
deriving DecidableEq

/-- A family of attributes. -/
structure Category where
  name : String
  subtypes : SortedSet String
  kind : CategoryKind
deriving DecidableEq

namespace CategoryKind

/-- The kind that a declaration asks for: a boolean default without a range, or an integer default
inside a range. -/
def ofDecl (decl : CategoryDecl) : Except AuthoringError CategoryKind :=
  if decl.isBoolean then
    match decl.default with
    | .bool b => .ok (.boolean b)
    | found => .error (.booleanDefault decl.name found)
  else
    match decl.default with
    | .int n =>
      match decl.min, decl.max with
      | some min, some max =>
        if max < min then .error (.invertedRange decl.name ⟨min, max⟩)
        else if Range.contains ⟨min, max⟩ n then .ok (.numeric ⟨min, max⟩ n)
        else .error (.defaultOutOfRange decl.name n ⟨min, max⟩)
      | _, _ => .error (.missingRange decl.name)
    | found => .error (.numericDefault decl.name found)

end CategoryKind

namespace Category

/-- The category that a declaration describes. Its name must not be empty, and no name in it may
hold the key separator. -/
def ofDecl (decl : CategoryDecl) : Except AuthoringError Category := do
  if decl.name = "" then throw .emptyCategoryName
  Key.checkName decl.name
  decl.subtypes.forM Key.checkName
  return ⟨decl.name, SortedSet.ofList decl.subtypes, ← CategoryKind.ofDecl decl⟩

/-- Whether the attributes are truth values. -/
def isBoolean (c : Category) : Bool :=
  match c.kind with
  | .boolean _ => true
  | .numeric .. => false

/-- The range of the attributes, if they are integers. -/
def range? (c : Category) : Option Range :=
  match c.kind with
  | .boolean _ => none
  | .numeric range _ => some range

/-- The value that an attribute starts with. -/
def default (c : Category) : Value :=
  match c.kind with
  | .boolean b => .bool b
  | .numeric _ n => .int n

/-- Whether the category has a subtype. -/
def hasSubtype (c : Category) (subtype : String) : Bool := c.subtypes.contains subtype

end Category

end Narrative
