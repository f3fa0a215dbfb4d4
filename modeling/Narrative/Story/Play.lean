import Narrative.Story.Basic

/-!
# `Narrative.Story.Play` — reading values, offering options, taking paths

## Contents
- **Values.** `value`.
- **Options.** `scoredOptions`, `options`, `defaultOptions`.
- **Paths.** `effectsOf?` and `checkEffects` come before `execute`, so that a refused path changes
  nothing.
-/

namespace Narrative.Story

/-! ## Values -/

/-- The value of an attribute; it is on the character's sheet afterwards. -/
def value (s : Story) (name category subtype : String) : Attempt Story StoryError Value :=
  match s.cast.get? name with
  | none => .error (.missing (.character name)) s
  | some c =>
    let read := c.sheet.materialize s.registry category subtype
    ((read.mapError StoryError.evaluation).within fun sheet =>
      { s with cast := setSheet s.cast name sheet }).andThen
      fun c s => .ok c.value s

/-! ## Options -/

/-- The best open paths of a character, with scores and labels. -/
def scoredOptions (s : Story) (name : String) (count : Nat) :
    Attempt Story StoryError (List Candidate) :=
  match s.candidates? name with
  | .error e => .error e s
  | .ok cs =>
    let (chosen, source) := Candidate.select cs count s.source
    .ok chosen { s with source := source }

/-- The best open paths of a character. -/
def options (s : Story) (name : String) (count : Nat) : Attempt Story StoryError (List (List Uid)) :=
  (s.scoredOptions name count).andThen fun cs s => .ok (cs.map (·.path)) s

/-- As many of the best open paths as the settings say. -/
def defaultOptions (s : Story) (name : String) : Attempt Story StoryError (List (List Uid)) :=
  s.options name s.settings.defaultMaxOptions.toNat

/-! ## Paths -/

/-- The effects of the actions on a path, in order. -/
def effectsOf? (c : Character) (name : String) : List Uid → Except StoryError (List Effect)
  | [] => .ok []
  | uid :: uids =>
    match c.plot.action? uid with
    | none => .error (.missing (.action name uid))
    | some a => do return a.effects ++ (← effectsOf? c name uids)

/-- Checks that an effect can be carried out and that its target is in the cast. -/
def checkEffect (s : Story) (e : Effect) : Except EvaluationError Unit := do
  s.registry.checkEffect e
  if !s.cast.contains e.character then throw (.unknownCharacter e.character)

/-- The effects of a path, once all of them are checked. -/
def checkedEffects? (s : Story) (name : String) (path : List Uid) : Except StoryError (List Effect) := do
  let c ← s.character? name
  let es ← effectsOf? c name path
  (es.forM s.checkEffect).mapError StoryError.evaluation
  return es

/-- Takes a path: carries out its effects in order and remembers what changed. The empty path is
ignored. -/
def execute (s : Story) (name : String) (path : List Uid) : Attempt Story StoryError Unit :=
  match s.checkedEffects? name path with
  | .error e => .error e s
  | .ok es =>
    if path.isEmpty then .ok () s
    else
      let taken := s.registry.recordAll es (Memory.new path) s.cast
      ((taken.mapError StoryError.evaluation).within fun c => { s with cast := c }).andThen
        fun memory s =>
          .ok () { s with cast := s.cast.update name fun c => { c with memory := c.memory.add memory } }

end Narrative.Story
