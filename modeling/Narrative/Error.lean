import Narrative.Number.Decimal
import Narrative.Value

/-!
# `Narrative.Error` — what can go wrong

Each family of errors is a type whose constructors are causes; `message` is the wording.

## Contents
- `AuthoringError`: a definition is malformed.
- `EvaluationError`: a condition cannot be resolved.
- `PlotError`: the actions of a character do not form a well-shaped plot.
- `Missing`: something asked for does not exist.
- `SettingsError`: the settings are out of bounds.
- `StoryError`: any of these.
-/

namespace Narrative

/-- The number of an action, unique within one plot. -/
abbrev Uid := UInt32

/-- Malformed definitions. -/
inductive AuthoringError where
  | emptyCategoryName
  | duplicateCategory (name : String)
  | unknownCategory (name : String)
  | booleanDefault (category : String) (found : Value)
  | numericDefault (category : String) (found : Value)
  | missingRange (category : String)
  | invertedRange (category : String) (range : Range)
  | defaultOutOfRange (category : String) (default : Int64) (range : Range)
  | unknownAttribute (category subtype : String)
  | valueKind (category subtype : String) (expected : Kind) (found : Value)
  | booleanMutation (category subtype : String) (op : Mutation)
  | reservedSeparator (name : String)
  | emptyCharacterName
  | duplicateCharacter (name : String)
  | unknownCharacter (name : String)
deriving DecidableEq

/-- The wording of an authoring error. -/
def AuthoringError.message : AuthoringError → String
  | emptyCategoryName => "Category name must not be empty"
  | duplicateCategory name => "Category '" ++ name ++ "' is already defined"
  | unknownCategory name => "Category '" ++ name ++ "' is not defined"
  | booleanDefault category found =>
    "Boolean category '" ++ category ++ "' needs a boolean default, found " ++ found.text
  | numericDefault category found =>
    "Numeric category '" ++ category ++ "' needs an integer default, found " ++ found.text
  | missingRange category => "Numeric category '" ++ category ++ "' is missing its min/max range"
  | invertedRange category range =>
    "Category '" ++ category ++ "' has min " ++ toString range.min.toInt ++ " greater than max "
      ++ toString range.max.toInt
  | defaultOutOfRange category default range =>
    "Category '" ++ category ++ "' default " ++ toString default.toInt ++ " lies outside ["
      ++ toString range.min.toInt ++ ", " ++ toString range.max.toInt ++ "]"
  | unknownAttribute category subtype =>
    "'" ++ category ++ ":" ++ subtype ++ "' does not exist in the story database"
  | valueKind category subtype expected found =>
    "'" ++ category ++ ":" ++ subtype ++ "' holds " ++ expected.text ++ " values, found " ++ found.text
  | booleanMutation category subtype op =>
    "Boolean attribute '" ++ category ++ ":" ++ subtype ++ "' only supports '=', found '" ++
      op.symbol ++ "'"
  | reservedSeparator name => "Name '" ++ name ++ "' must not contain ':'"
  | emptyCharacterName => "Character name must not be empty"
  | duplicateCharacter name => "Character '" ++ name ++ "' is already defined"
  | unknownCharacter name => "Character '" ++ name ++ "' is not defined"

/-- References that cannot be resolved while a condition is evaluated or applied. -/
inductive EvaluationError where
  | unknownCategory (name : String)
  | unknownSubtype (category subtype : String)
  | unknownCharacter (name : String)
  | kindMismatch (pair : String) (expected : Kind) (found : Value)
  | booleanArithmetic (pair : String) (op : Mutation)
deriving DecidableEq

/-- The wording of an evaluation error. -/
def EvaluationError.message : EvaluationError → String
  | unknownCategory name => "There's no category called '" ++ name ++ "'"
  | unknownSubtype category subtype =>
    "There's no subtype '" ++ subtype ++ "' in category '" ++ category ++ "'"
  | unknownCharacter name => "There's no character named '" ++ name ++ "'"
  | kindMismatch pair expected found =>
    "'" ++ pair ++ "' holds " ++ expected.text ++ " values but was used with " ++ found.text
  | booleanArithmetic pair op =>
    "Boolean attribute '" ++ pair ++ "' cannot be changed with '" ++ op.symbol ++ "'"

/-- Problems with the shape of a plot. -/
inductive PlotError where
  | duplicateUid (uid : Uid)
  | unmappedAction (uid : Uid)
  | danglingChild (parent child : Uid)
  | cycle (path : List Uid)
  | notValidated
deriving DecidableEq

/-- A list of uids in brackets. -/
def showUids (uids : List Uid) : String := "[" ++ ", ".intercalate (uids.map toString) ++ "]"

/-- The wording of a plot error. -/
def PlotError.message : PlotError → String
  | duplicateUid uid => "An action with uid " ++ toString uid ++ " has already been mapped"
  | unmappedAction uid => "Action " ++ toString uid ++ " has not been mapped"
  | danglingChild parent child =>
    "Action " ++ toString parent ++ " leads to uid " ++ toString child ++ ", which was never mapped"
  | cycle path => "Cycle detected along path " ++ showUids path
  | notValidated => "The action tree must be validated before it is traversed"

/-- Something asked for that does not exist. -/
inductive Missing where
  | character (name : String)
  | action (owner : String) (uid : Uid)
  | category (name : String)
  | subtype (category subtype : String)
deriving DecidableEq

/-- The wording of a missing reference. -/
def Missing.message : Missing → String
  | .character name => "There's no character named '" ++ name ++ "'"
  | .action owner uid => "There's no action with uid " ++ toString uid ++ " for '" ++ owner ++ "'"
  | .category name => "There's no category called '" ++ name ++ "'"
  | .subtype c s => "There's no subtype '" ++ s ++ "' in category '" ++ c ++ "'"

/-- Settings that cannot be used. -/
inductive SettingsError where
  | unreadable
  | conversationType (found : Binary32)
  | recencyWeight (found : Binary32)
deriving DecidableEq

/-- The wording of a settings error. -/
def SettingsError.message : SettingsError → String
  | unreadable => "Failed to parse story config"
  | conversationType found => "conversation_type must lie in [0, 1], found " ++ found.toText
  | recencyWeight found => "recency_weight must be non-negative, found " ++ found.toText

/-- Everything that an operation on a story can fail with. -/
inductive StoryError where
  | authoring (cause : AuthoringError)
  | evaluation (cause : EvaluationError)
  | plot (character : String) (cause : PlotError)
  | missing (cause : Missing)
  | settings (cause : SettingsError)
  | unreadableScript
deriving DecidableEq

/-- The wording of a story error. -/
def StoryError.message : StoryError → String
  | authoring cause => cause.message
  | evaluation cause => cause.message
  | plot character cause => "Invalid action tree for '" ++ character ++ "': " ++ cause.message
  | missing cause => cause.message
  | settings cause => cause.message
  | unreadableScript => "Failed to parse story definition"

end Narrative
