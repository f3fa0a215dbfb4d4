import Narrative.Plot
import Narrative.Script
import Narrative.Story.Basic

/-!
# `Narrative.Story.Load` — bringing declarations into a story

Categories, characters and starting values are brought in one by one; what came before a fault stays.
The actions of a character come in all together or not at all.

## Contents
- **Plots.** `Plot.extend` adds declared actions to a plot.
- **Loading.** `loadCategories`, `loadCharacters`, `loadCharacteristics`, `loadActions`, and `load` for
  a whole script.
-/

namespace Narrative

/-! ## Plots -/

namespace Plot

/-- Checks the conditions of a declared action and maps it. -/
def declare (registry : Registry) (owner : String) (p : Plot) (d : ActionDecl) :
    Except StoryError Plot := do
  (d.preconditions.forM (·.validate registry)).mapError StoryError.authoring
  (d.effects.forM (·.validate registry)).mapError StoryError.authoring
  let p ← (p.insert d.toAction).mapError (StoryError.plot owner)
  return if d.first then p.addFirst d.uid else p

/-- Links a declared action to those it leads to. -/
def link (p : Plot) (d : ActionDecl) : Except PlotError Plot := d.leadsTo.foldlM (·.addChild d.uid ·) p

/-- Spreads the label of a declared action. -/
def spread (p : Plot) (d : ActionDecl) : Except PlotError Plot :=
  match d.ownLabel with
  | none => .ok p
  | some label => p.spreadLabel d.uid label

/-- Adds declared actions: all are mapped, then linked, then the plot is validated, and then labels are
spread in the order of the declarations. -/
def extend (registry : Registry) (owner : String) (p : Plot) (ds : List ActionDecl) :
    Except StoryError Plot := do
  let p ← ds.foldlM (declare registry owner) p
  (do
    let p ← ds.foldlM link p
    let p ← p.validate
    ds.foldlM spread p : Except PlotError Plot).mapError (StoryError.plot owner)

end Plot

/-! ## Loading -/

namespace Story

/-- Defines a category, or gives one that is there more subtypes. -/
def loadCategory (d : CategoryDecl) (s : Story) : Attempt Story StoryError Unit :=
  let grown :=
    if (s.registry.category? d.name).isNone then s.registry.addCategory d
    else do
      let category ← Category.ofDecl d
      s.registry.addSubtypes category.name category.subtypes.keys
  .ofExcept s ((grown.map fun r => { s with registry := r }).mapError StoryError.authoring)

/-- Defines categories. -/
def loadCategories (s : Story) (ds : List CategoryDecl) : Attempt Story StoryError Unit :=
  Attempt.forEach loadCategory ds s

/-- Adds a character, unless there is one of that name. -/
def loadCharacter (name : String) (s : Story) : Attempt Story StoryError Unit :=
  if s.cast.contains name then .ok () s
  else
    let joined := s.cast.insert (Character.new name s.settings.recencyWeight)
    .ofExcept s ((joined.map fun c => { s with cast := c }).mapError StoryError.authoring)

/-- Adds characters. -/
def loadCharacters (s : Story) (names : List String) : Attempt Story StoryError Unit :=
  Attempt.forEach loadCharacter names s

/-- Checks a starting value against the registry. -/
def checkCharacteristic (r : Registry) (d : CharacteristicDecl) : Except AuthoringError Unit :=
  match (r.category? d.category).filter (·.hasSubtype d.subtype) with
  | none => .error (.unknownAttribute d.category d.subtype)
  | some category =>
    if d.value.kind = category.default.kind then .ok ()
    else .error (.valueKind d.category d.subtype category.default.kind d.value)

/-- Sets a starting value. -/
def loadCharacteristic (d : CharacteristicDecl) (s : Story) : Attempt Story StoryError Unit :=
  match checkCharacteristic s.registry d with
  | .error e => .error (.authoring e) s
  | .ok () =>
    if s.cast.contains d.character then
      let enacted := s.registry.enact s.cast ⟨d.toTarget, .assign, d.value⟩
      ((enacted.mapError StoryError.evaluation).within fun c => { s with cast := c }).andThen
        fun _ s => .ok () s
    else .error (.authoring (.unknownCharacter d.character)) s

/-- Sets starting values. -/
def loadCharacteristics (s : Story) (ds : List CharacteristicDecl) : Attempt Story StoryError Unit :=
  Attempt.forEach loadCharacteristic ds s

/-- Adds declared actions to the plot of a character; on a fault the plot stays as it was. -/
def loadActions (s : Story) (name : String) (ds : List ActionDecl) : Attempt Story StoryError Unit :=
  match s.cast.get? name with
  | none => .error (.authoring (.unknownCharacter name)) s
  | some c =>
    .ofExcept s ((Plot.extend s.registry name c.plot ds).map fun p =>
      { s with cast := s.cast.update name fun c => { c with plot := p } })

/-- Loads a script: categories, characters, starting values, and then the actions by character. -/
def load (s : Story) (script : Script) : Attempt Story StoryError Unit :=
  (s.loadCategories script.categories).andThen fun _ s =>
  (s.loadCharacters script.characters).andThen fun _ s =>
  (s.loadCharacteristics script.characteristics).andThen fun _ s =>
  Attempt.forEach (fun (name, ds) s => s.loadActions name ds) script.actions.entries s

end Story

end Narrative
