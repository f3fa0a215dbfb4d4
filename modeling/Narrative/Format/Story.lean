import Narrative.Discovery
import Narrative.Character
import Narrative.Format.Plot

/-!
# `Narrative.Format.Story` — memories and characters in JSON

## Contents
- **Memories.** `Weights`, `Memory`, `MemoryBank`.
- **Characters.** `Candidate`, `Character`.
-/

namespace Narrative

open Json

/-! ## Memories -/

instance : OfJson Weights := ⟨fun j => (ofJson? j).map .mk⟩

instance : OfJson Memory := ⟨fun j => do
  let r ← record? 2 j
  return ⟨← r.required 0 ["path"], ← r.required 1 ["vector"]⟩⟩

instance : OfJson MemoryBank := ⟨fun j => do
  let r ← record? 4 j
  return {
    memories := ← r.required 0 ["memories"]
    steps := ← r.required 1 ["steps"]
    aggregate := ← r.required 2 ["aggregate"]
    recencyWeight := ← r.required 3 ["recency_weight"] }⟩

/-! ## Characters -/

instance : OfJson Candidate := ⟨fun j => do
  let r ← record? 3 j
  return ⟨← r.required 0 ["path"], ← r.required 1 ["score"], ← r.nullable 2 ["category"]⟩⟩

instance : OfJson Character := ⟨fun j => do
  let r ← record? 4 j
  return {
    name := ← r.required 0 ["name"]
    sheet := ← r.required 1 ["attributes"]
    plot := ← r.required 2 ["tree"]
    memory := ← r.required 3 ["memory"] }⟩

end Narrative
