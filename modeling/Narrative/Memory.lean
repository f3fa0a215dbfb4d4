import Narrative.Characteristic
import Narrative.Action
import Narrative.Weights

/-!
# `Narrative.Memory` — what a character remembers of the paths it took

Each path that was taken leaves a memory: how far it moved which attributes. A bank keeps the
memories in order, and an aggregate in which later memories weigh more.

## Contents
- **Memories.** `Memory`, `Memory.encode` and `Memory.pathKey`.
- **Banks.** `MemoryBank`, with `preview`, `add` and `retainKeys`; `aggregate_add` says that the
  preview of a memory is what comes of adding it.
-/

namespace Narrative

/-! ## Memories -/

/-- A path and what it changed. -/
structure Memory where
  /-- The uids of the path, first action first. -/
  path : List Uid
  /-- How far each attribute moved. -/
  vector : Weights
deriving DecidableEq

namespace Memory

/-- A memory of a path that changed nothing. -/
def new (path : List Uid) : Memory := ⟨path, .empty⟩

/-- The largest weight of a key within one memory. -/
def maxKeyWeight : Binary32 := .one

/-- Records a change of an attribute, unless nothing moved. -/
def encode (m : Memory) (t : Target) (change : Change) : Memory :=
  if change.isNoop then m
  else { m with vector := m.vector.addCapped t.memoryKey change.magnitude maxKeyWeight }

/-- The path in one word: its uids between brackets, with colons. -/
def pathKey (m : Memory) : String := "[" ++ ":".intercalate (m.path.map toString) ++ "]"

end Memory

/-! ## Banks -/

/-- All memories of a character. -/
structure MemoryBank where
  memories : List Memory
  /-- The number of memories added so far. -/
  steps : UInt32
  /-- The sum of the memories, each raised by its step. -/
  aggregate : Weights
  /-- How much each step raises the weights of its memory. -/
  recencyWeight : Binary32
deriving DecidableEq

namespace MemoryBank

/-- The recency weight of a bank that is not told another: `0.1`. -/
def defaultRecencyWeight : Binary32 := ⟨0x3dcccccd⟩

/-- A bank without memories. -/
def new (recencyWeight : Binary32) : MemoryBank := ⟨[], 0, .empty, recencyWeight⟩

/-- What is added to the weights of the memory of a step, counted from one. -/
def boost (b : MemoryBank) (step : UInt32) : Binary32 :=
  b.recencyWeight * Binary32.ofInt (step.toNat - 1 : Nat)

/-- The aggregate as it would be if a memory with this vector came next. -/
def preview (b : MemoryBank) (vector : Weights) : Weights :=
  b.aggregate.combine vector (b.boost (b.steps + 1))

/-- Adds a memory as the next step, and its weights, each raised by the boost of that step, to the
aggregate. -/
def add (b : MemoryBank) (m : Memory) : MemoryBank :=
  let steps := b.steps + 1
  let boost := b.boost steps
  { b with
    memories := b.memories ++ [m]
    steps
    aggregate := m.vector.toList.foldl (fun sum (key, w) => sum.add key (w + boost)) b.aggregate }

@[simp] theorem memories_add (b : MemoryBank) (m : Memory) : (b.add m).memories = b.memories ++ [m] :=
  rfl

@[simp] theorem steps_add (b : MemoryBank) (m : Memory) : (b.add m).steps = b.steps + 1 := rfl

@[simp] theorem recencyWeight_add (b : MemoryBank) (m : Memory) :
    (b.add m).recencyWeight = b.recencyWeight :=
  rfl

/-- **The aggregate becomes what the preview shows**: both add the same weights, in the order of the
keys. -/
theorem aggregate_add (b : MemoryBank) (m : Memory) : (b.add m).aggregate = b.preview m.vector := by
  unfold add preview Weights.combine
  rfl

/-- Forgets the keys on which `keep` does not hold, in the aggregate and in every memory. -/
def retainKeys (b : MemoryBank) (keep : String → Bool) : MemoryBank :=
  { b with
    memories := b.memories.map fun m => { m with vector := m.vector.retain keep }
    aggregate := b.aggregate.retain keep }

/-- The latest memory. -/
def last? (b : MemoryBank) : Option Memory := b.memories.getLast?

/-- Whether there are no memories. -/
def isEmpty (b : MemoryBank) : Bool := b.memories.isEmpty

end MemoryBank

end Narrative
