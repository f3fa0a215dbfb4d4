import Narrative.Character
import Narrative.Evaluation
import Narrative.Random.Source

/-!
# `Narrative.Discovery` — which paths a character can take, and how they score

The plot is walked from its first actions. An action whose preconditions do not hold closes all that
lies below it. On the way the effects are carried out on a scratch layer, which gives the memory that
the path would leave. A path that has reached a leaf is scored by what that memory would do to the
aggregate, and the best are offered, one of each label.

## Contents
- **Candidates.** `Candidate`, a scored path. `rank` sorts by score, `choose` takes the best with one
  path per label, and `select` shuffles first, so that equal scores come in random order.
- **Walks.** `Walk` is a path under way; `enter` goes on to one more action.
- **Exploring.** `explore` gives the walks that end in a leaf, in author order.
- **Scores.** `score`.
- **Results.** `candidates` and `options`.
-/

namespace Narrative

/-! ## Candidates -/

/-- A path that a character could take. -/
structure Candidate where
  /-- The uids of the path, from a first action to a leaf. -/
  path : List Uid
  /-- The distance from the wanted salience; lower is better. -/
  score : Binary32
  /-- The first label along the path. -/
  label : Option String
deriving DecidableEq

namespace Candidate

/-- Sorts by score, lowest first; equal scores stay in order. -/
def rank (cs : List Candidate) : List Candidate :=
  cs.mergeSort fun a b => a.score.totalKey ≤ b.score.totalKey

/-- Takes candidates from the front, at most `count` of them, and none whose label is already taken. -/
def choose : (count : Nat) → (taken : List String) → List Candidate → List Candidate
  | 0, _, _ => []
  | _, _, [] => []
  | count + 1, taken, c :: cs =>
    match c.label with
    | none => c :: choose count taken cs
    | some label =>
      if taken.contains label then choose (count + 1) taken cs
      else c :: choose count (label :: taken) cs

/-- The best candidates, at most `count` of them and one of each label. -/
def select (cs : List Candidate) (count : Nat) (source : Source) : List Candidate × Source :=
  let (shuffled, source) := source.shuffle cs
  (choose count [] (rank shuffled), source)

end Candidate

namespace Discovery

variable {ω : Type} [World ω]

/-! ## Walks -/

/-- A path under way: the memory it would leave, the scratch layer and the first label on it. -/
structure Walk (ω : Type) where
  memory : Memory
  scratch : Scratch ω
  label : Option String

/-- The start of every path. -/
def Walk.start (w : ω) : Walk ω := ⟨.new [], .fresh w, none⟩

/-- Goes on to an action: carries out its effects and takes its label if there is none yet. -/
def Walk.enter (registry : Registry) (walk : Walk ω) (uid : Uid) (a : Action) :
    Except EvaluationError (Walk ω) :=
  let longer := { walk.memory with path := walk.memory.path ++ [uid] }
  let taken := registry.recordAll a.effects longer walk.scratch
  taken.result.map fun memory => ⟨memory, taken.state, walk.label.or a.label⟩

/-! ## Exploring -/

/-- The walks of at most `depth` more actions that go on with `uid` and end in a leaf. Preconditions
are decided against the world itself, whatever has happened on the scratch layer. -/
def explore (registry : Registry) (w : ω) (p : Plot) :
    (depth : Nat) → Uid → Walk ω → Except EvaluationError (List (Walk ω))
  | 0, _, _ => .ok []
  | depth + 1, uid, walk =>
    match p.action? uid with
    | none => .ok []
    | some a => do
      if ← registry.evaluateAll w a.preconditions then
        let walk ← walk.enter registry uid a
        if a.isLeaf then return [walk]
        else return (← a.children.mapM fun child => explore registry w p depth child walk).flatten
      else return []

/-- The walks from the first actions of a plot. Without cycles a path has at most as many actions as
the plot. -/
def walks (registry : Registry) (w : ω) (p : Plot) : Except EvaluationError (List (Walk ω)) := do
  return (← p.roots.mapM fun root => explore registry w p p.size root (Walk.start w)).flatten

/-! ## Scores -/

/-- The distance between the wanted salience and the similarity of two directions: the aggregate as it
would be with `vector` remembered next, and `target`. -/
def score (salience : Binary32) (bank : MemoryBank) (target vector : Weights) : Binary32 :=
  (salience - (bank.preview vector).normalized.similarity target).abs

/-- The candidate of a walk, against the direction of the aggregate as it is. -/
def candidateOf (salience : Binary32) (bank : MemoryBank) (walk : Walk ω) : Candidate :=
  ⟨walk.memory.path, score salience bank bank.aggregate.normalized walk.memory.vector, walk.label⟩

/-! ## Results -/

/-- Every open path of a character with its score, in the order of the walk. -/
def candidates (registry : Registry) (w : ω) (salience : Binary32) (c : Character) :
    Except StoryError (List Candidate) := do
  c.plot.ensureValidated.mapError (StoryError.plot c.name)
  let found ← (walks registry w c.plot).mapError StoryError.evaluation
  return found.map (candidateOf salience c.memory)

/-- The best open paths of a character. -/
def options (registry : Registry) (w : ω) (salience : Binary32) (c : Character) (count : Nat)
    (source : Source) :
    Except StoryError (List Candidate × Source) := do
  return Candidate.select (← candidates registry w salience c) count source

end Discovery

end Narrative
