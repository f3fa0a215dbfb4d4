import Narrative.Data.SortedMap
import Narrative.Number.Binary32

/-!
# `Narrative.Weights` — sparse vectors of weights

A vector gives weights to some keys and nothing to all others. All sums run over the keys in
ascending order and round after every step.

## Contents
- **The type.** `Weights`, with `get`, `size` and `toList`.
- **Changing.** `set`, `add`, `addCapped` and `retain`, with a lemma each on what is at a key afterwards.
- **Geometry.** `magnitude`, `normalized` with `get?_normalized`, `similarity` and `combine`.
-/

namespace Narrative

/-- A finite vector of weights by key. -/
structure Weights where
  weights : SortedMap String Binary32
deriving DecidableEq

namespace Weights

/-- The vector without keys. -/
def empty : Weights := ⟨.empty⟩

instance : Inhabited Weights := ⟨empty⟩

/-! ## Reading -/

/-- The weight of a key; zero if it has none. -/
def get (v : Weights) (key : String) : Binary32 := (v.weights.get? key).getD .zero

/-- The number of keys. -/
def size (v : Weights) : Nat := v.weights.size

/-- Whether no key has a weight. -/
def isEmpty (v : Weights) : Bool := v.weights.isEmpty

/-- Keys and weights in key order. -/
def toList (v : Weights) : List (String × Binary32) := v.weights.entries

/-! ## Changing -/

/-- Sets the weight of a key. -/
def set (v : Weights) (key : String) (w : Binary32) : Weights := ⟨v.weights.insert key w⟩

/-- Adds to the weight of a key. -/
def add (v : Weights) (key : String) (w : Binary32) : Weights := v.set key (v.get key + w)

/-- Adds to the weight of a key, up to a cap. -/
def addCapped (v : Weights) (key : String) (w cap : Binary32) : Weights :=
  v.set key ((v.get key + w).min cap)

/-- Keeps the keys on which `keep` holds. -/
def retain (v : Weights) (keep : String → Bool) : Weights := ⟨v.weights.filter fun key _ => keep key⟩

theorem ext {v u : Weights} (h : ∀ key, v.weights.get? key = u.weights.get? key) : v = u := by
  obtain ⟨m⟩ := v
  obtain ⟨n⟩ := u
  exact congrArg Weights.mk (SortedMap.ext h)

theorem get?_set (v : Weights) (key key' : String) (w : Binary32) :
    (v.set key w).weights.get? key' = if key' = key then some w else v.weights.get? key' :=
  SortedMap.get?_insert v.weights key key' w

theorem get?_add (v : Weights) (key key' : String) (w : Binary32) :
    (v.add key w).weights.get? key' = if key' = key then some (v.get key + w) else v.weights.get? key' :=
  get?_set v key key' _

theorem get?_addCapped (v : Weights) (key key' : String) (w cap : Binary32) :
    (v.addCapped key w cap).weights.get? key' =
      if key' = key then some ((v.get key + w).min cap) else v.weights.get? key' :=
  get?_set v key key' _

theorem get?_retain (v : Weights) (keep : String → Bool) (key : String) :
    (v.retain keep).weights.get? key = if keep key = true then v.weights.get? key else none := by
  show (v.weights.filter fun key _ => keep key).get? key = _
  rw [SortedMap.get?_filter]
  by_cases hk : keep key = true
  · rw [if_pos hk, hk]
    cases v.weights.get? key <;> rfl
  · rw [if_neg hk, Bool.eq_false_iff.mpr hk]
    cases v.weights.get? key <;> rfl

/-! ## Geometry -/

/-- The Euclidean length. -/
def magnitude (v : Weights) : Binary32 := (Binary32.sum (v.weights.values.map fun w => w * w)).sqrt

/-- The vector scaled to unit length; a vector of length zero has no direction and gives none. -/
def normalized (v : Weights) : Weights :=
  let length := v.magnitude
  if length.le .zero then empty else ⟨v.weights.map (· / length)⟩

/-- **A vector with a length has each of its weights divided by it**, and one without has none. -/
theorem get?_normalized (v : Weights) (key : String) :
    v.normalized.weights.get? key =
      if v.magnitude.le .zero = true then none else (v.weights.get? key).map (· / v.magnitude) := by
  unfold normalized
  by_cases hlength : v.magnitude.le .zero = true
  · simp [hlength, empty]
  · simp [hlength]

/-- The products of the weights of `v` with those of `u`, over the keys of `v` that are in both. -/
def products (v u : Weights) : List Binary32 :=
  v.weights.entries.filterMap fun (key, w) => (u.weights.get? key).map fun x => w * x

/-- The dot product, taken over the keys of the shorter vector. -/
def similarity (v u : Weights) : Binary32 :=
  Binary32.sum (if v.size ≤ u.size then v.products u else u.products v)

/-- The sum with a vector of which every weight is raised by `boost`. -/
def combine (v u : Weights) (boost : Binary32) : Weights :=
  u.toList.foldl (fun acc (key, w) => acc.add key (w + boost)) v

end Weights

end Narrative
