import Narrative.Story.Basic

/-!
# `Narrative.Story.Removal` — taking definitions out, with all that refers to them

## Contents
- **Filters.** `ConditionFilter` picks conditions by where they stand and what they are about.
- **Conditions.** `removePreconditions`, `removeEffects`.
- **Definitions.** `removeCategory`, `removeSubtype`, `removeCharacter`, `removeAction`.
-/

namespace Narrative

/-! ## Filters -/

/-- Picks conditions; a field that is not set fits all of them. -/
structure ConditionFilter where
  /-- The character whose plot holds the condition. -/
  owner : Option String
  /-- The action that holds the condition. -/
  uid : Option Uid
  /-- The character that the condition is about. -/
  target : Option String
  category : Option String
  subtype : Option String
deriving DecidableEq

namespace ConditionFilter

/-- The filter that fits every condition. -/
def any : ConditionFilter := ⟨none, none, none, none, none⟩

/-- Whether a field that may be set fits a value. -/
def fits {α : Type} [DecidableEq α] (field : Option α) (a : α) : Bool := field.all (· = a)

/-- Whether a condition about `t`, in an action of a plot, is picked. -/
def picks (f : ConditionFilter) (owner : String) (uid : Uid) (t : Target) : Bool :=
  fits f.owner owner && fits f.uid uid && fits f.target t.character && fits f.category t.category
    && fits f.subtype t.subtype

end ConditionFilter

namespace Story

/-! ## Conditions -/

/-- Changes every action of every plot, given the name of its owner. -/
def mapActions (s : Story) (f : String → Action → Action) : Story :=
  { s with cast := s.cast.updateAll fun c => { c with plot := c.plot.updateAll (f c.name) } }

/-- The sum over all actions of all plots of a number that depends on the owner's name as well. -/
def sumActions (s : Story) (f : String → Action → Nat) : Nat :=
  s.cast.characters.values.foldl (fun n c => c.plot.actions.values.foldl (fun n a => n + f c.name a) n) 0

/-- Whether a precondition of an action is picked. -/
def picksPrecondition (f : ConditionFilter) (owner : String) (a : Action) (p : Precondition) : Bool :=
  f.picks owner a.uid p.toTarget

/-- Whether an effect of an action is picked. -/
def picksEffect (f : ConditionFilter) (owner : String) (a : Action) (e : Effect) : Bool :=
  f.picks owner a.uid e.toTarget

/-- The story without the preconditions that a filter picks. -/
def withoutPreconditions (s : Story) (f : ConditionFilter) : Story :=
  s.mapActions fun owner a =>
    { a with preconditions := a.preconditions.filter (!picksPrecondition f owner a ·) }

/-- The story without the effects that a filter picks. -/
def withoutEffects (s : Story) (f : ConditionFilter) : Story :=
  s.mapActions fun owner a => { a with effects := a.effects.filter (!picksEffect f owner a ·) }

/-- The story without the conditions that a filter picks. -/
def withoutConditions (s : Story) (f : ConditionFilter) : Story :=
  (s.withoutPreconditions f).withoutEffects f

/-- Removes preconditions, and tells how many there were. -/
def removePreconditions (s : Story) (f : ConditionFilter) : Nat × Story :=
  (s.sumActions fun owner a => a.preconditions.countP (picksPrecondition f owner a),
    s.withoutPreconditions f)

/-- Removes effects, and tells how many there were. -/
def removeEffects (s : Story) (f : ConditionFilter) : Nat × Story :=
  (s.sumActions fun owner a => a.effects.countP (picksEffect f owner a), s.withoutEffects f)

/-! ## Definitions -/

/-- Removes a category: its characteristics, its keys in memories and the conditions about it. -/
def removeCategory (s : Story) (category : String) : Except StoryError Story :=
  match s.registry.category? category with
  | none => .error (.missing (.category category))
  | some _ =>
    let cast := s.cast.updateAll fun c =>
      { c with
        sheet := c.sheet.removeCategory category
        memory := c.memory.retainKeys fun key => Key.category? key != some category }
    .ok ({ s with registry := s.registry.removeCategory category, cast := cast }.withoutConditions
      { ConditionFilter.any with category := some category })

/-- Removes a subtype of a category, likewise. -/
def removeSubtype (s : Story) (category subtype : String) : Except StoryError Story :=
  match s.registry.category? category with
  | none => .error (.missing (.category category))
  | some definition =>
    if definition.hasSubtype subtype then
      let cast := s.cast.updateAll fun c =>
        { c with
          sheet := c.sheet.removeSubtype category subtype
          memory := c.memory.retainKeys fun key =>
            Key.category? key != some category || Key.subtype? key != some subtype }
      .ok ({ s with
          registry := s.registry.removeSubtype category subtype
          cast := cast }.withoutConditions
        { ConditionFilter.any with category := some category, subtype := some subtype })
    else .error (.missing (.subtype category subtype))

/-- Removes a character, with the conditions about it and its keys in the memories of others. -/
def removeCharacter (s : Story) (name : String) : Except StoryError Story := do
  let _ ← s.character? name
  let cast := (s.cast.remove name).updateAll fun c =>
    { c with memory := c.memory.retainKeys fun key => !Key.belongsTo key name }
  return { s with cast := cast }.withoutConditions { ConditionFilter.any with target := some name }

/-- Removes an action from the plot of a character. -/
def removeAction (s : Story) (name : String) (uid : Uid) : Except StoryError Story := do
  let _ ← s.action? name uid
  return { s with cast := s.cast.update name fun c => { c with plot := c.plot.removeAction uid } }

end Story

end Narrative
