import Narrative.Action
import Narrative.Category

/-!
# `Narrative.Script` — a story as its authors write it

A script declares categories, characters, starting values and, for each character, actions.

## Contents
- `CharacteristicDecl`: a starting value.
- `ActionDecl`: an action, with `ActionDecl.toAction`.
- `Script`: all of a story.
-/

namespace Narrative

/-- The starting value of an attribute of a character. -/
structure CharacteristicDecl extends Target where
  value : Value
deriving DecidableEq

/-- An action as an author declares it. -/
structure ActionDecl where
  uid : Uid
  name : String
  /-- Whether a path may start here. -/
  first : Bool
  label : Option String
  preconditions : List Precondition
  effects : List Effect
  /-- The actions that may follow. -/
  leadsTo : List Uid
deriving DecidableEq

namespace ActionDecl

/-- Declares an action without conditions and links. -/
def new (uid : Uid) (name : String) : ActionDecl := ⟨uid, name, false, none, [], [], []⟩

/-- The label that the action and its descendants get; the empty label is none. -/
def ownLabel (d : ActionDecl) : Option String := d.label.filter (· != "")

/-- Of the label that was written nothing is left out but the empty one. -/
theorem ownLabel_eq (d : ActionDecl) : d.ownLabel = d.label.filter (· ≠ "") := by
  unfold ownLabel
  refine congrArg (d.label.filter ·) (funext fun label => ?_)
  by_cases h : label = "" <;> simp [h]

/-- The action without its links. -/
def toAction (d : ActionDecl) : Action :=
  { Action.new d.uid d.name with
    preconditions := d.preconditions
    effects := d.effects
    label := d.ownLabel }

end ActionDecl

/-- A whole story as written. -/
structure Script where
  categories : List CategoryDecl
  characters : List String
  characteristics : List CharacteristicDecl
  /-- The actions of each character. -/
  actions : SortedMap String (List ActionDecl)
deriving DecidableEq

/-- The script that declares nothing. -/
def Script.empty : Script := ⟨[], [], [], .empty⟩

end Narrative
