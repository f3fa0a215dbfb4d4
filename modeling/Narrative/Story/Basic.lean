import Narrative.Discovery

/-!
# `Narrative.Story.Basic` — a story and what can be asked of it

A story holds its settings, the registry, the cast and the source that orders equal scores.

## Contents
- **Settings.** `Settings`, with `Settings.default` and `Settings.validate`.
- **The type.** `Story` and `Story.new?`.
- **Questions.** `character?`, `actionName?`, `paths?`.
- **Tuning.** `setConversationType`.
-/

namespace Narrative

/-! ## Settings -/

/-- The tunables of one story. -/
structure Settings where
  /-- The wanted salience of a path, from zero to one. -/
  conversationType : Binary32
  /-- How much each step raises the weights of its memory. -/
  recencyWeight : Binary32
  /-- The number of options when none is asked for. -/
  defaultMaxOptions : UInt64
  /-- The seed of the order of equal scores. -/
  seed : Option UInt64
deriving DecidableEq

namespace Settings

/-- The settings of a story that is not told others: a balanced salience of `0.5`. -/
def default : Settings := ⟨⟨0x3f000000⟩, MemoryBank.defaultRecencyWeight, 3, none⟩

/-- Refuses a salience outside of zero to one and a recency weight that is negative or not a number. -/
def validate (s : Settings) : Except SettingsError Unit :=
  if !(Binary32.zero.le s.conversationType && s.conversationType.le .one) then
    .error (.conversationType s.conversationType)
  else if s.recencyWeight.isNaN || s.recencyWeight.lt .zero then .error (.recencyWeight s.recencyWeight)
  else .ok ()

end Settings

/-! ## The type -/

/-- One story. -/
structure Story where
  settings : Settings
  registry : Registry
  cast : Cast
  source : Source
deriving DecidableEq

namespace Story

/-- A story without content. The source is used if the settings name no seed. -/
def start (settings : Settings) (source : Source) : Story :=
  ⟨settings, .empty, .empty, (settings.seed.map Source.ofSeed).getD source⟩

/-- A story without content, if its settings are in bounds. -/
def new? (settings : Settings) (source : Source) : Except StoryError Story := do
  settings.validate.mapError StoryError.settings
  return start settings source

/-! ## Questions -/

/-- The character of a name. -/
def character? (s : Story) (name : String) : Except StoryError Character :=
  match s.cast.get? name with
  | some c => .ok c
  | none => .error (.missing (.character name))

/-- The action of a character. -/
def action? (s : Story) (name : String) (uid : Uid) : Except StoryError Action := do
  let c ← s.character? name
  match c.plot.action? uid with
  | some a => return a
  | none => throw (.missing (.action name uid))

/-- The name of an action. -/
def actionName? (s : Story) (name : String) (uid : Uid) : Except StoryError String :=
  (s.action? name uid).map (·.name)

/-- Every path of a character's plot, open or not. -/
def paths? (s : Story) (name : String) : Except StoryError (List (List Uid)) := do
  let c ← s.character? name
  c.plot.paths?.mapError (StoryError.plot name)

/-- Every open path of a character with its score. -/
def candidates? (s : Story) (name : String) : Except StoryError (List Candidate) := do
  Discovery.candidates s.registry s.cast s.settings.conversationType (← s.character? name)

/-! ## Tuning -/

/-- Changes the wanted salience, if the new one is in bounds. -/
def setConversationType (s : Story) (x : Binary32) : Except StoryError Story := do
  let settings := { s.settings with conversationType := x }
  settings.validate.mapError StoryError.settings
  return { s with settings := settings }

end Story

end Narrative
