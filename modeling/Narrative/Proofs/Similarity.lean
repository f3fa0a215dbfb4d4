import Mathlib.Data.List.Basic
import Narrative.Weights

/-!
# `Proofs.Similarity` — a dot product is the same from either side

The dot product of two vectors goes through the shorter one and looks its keys up in the longer one.
Which of them is shorter decides where the keys come from and in which order the factors stand, and
sums of floats do not bear being rearranged. Still the products are the same numbers in the same
order:

* what is left of a map in key order, when only the keys of another are kept, are the keys that both
  have, again in key order, and that does not depend on which of them is cut down;
* a product of two floats has the same bits whichever of them comes first.

## Contents
- **Products.** `Binary32.mul_comm`.
- **Shared keys.** `shared`, with `get?_shared`, `shared_comm`, `mem_keys_shared` and
  `ascending_keys_shared`.
- **Similarity.** `products_eq`, `products_comm` and `similarity_eq`; the main result
  `similarity_over_shared`.
-/

namespace Narrative

/-! ## Products -/

namespace Binary32
open Float.Model (UnpackedFloat Format)

theorem sign_mul_comm (s t : UnpackedFloat.Sign) : s * t = t * s := by
  cases s <;> cases t <;> rfl

/-- Signs and mantissas are multiplied and exponents added, and of a NaN nothing is kept but that it
is one. -/
theorem unpacked_mul_comm (format : Format) (x y : UnpackedFloat) :
    UnpackedFloat.mul format x y = UnpackedFloat.mul format y x := by
  cases x <;> cases y <;> dsimp only [UnpackedFloat.mul] <;>
    simp only [sign_mul_comm, Nat.mul_comm, Int.add_comm]

/-- **A product has the same bits either way round.** -/
theorem mul_comm (a b : Binary32) : a * b = b * a := by
  have hmodel :
      a.toFloat32.toModel.mul b.toFloat32.toModel = b.toFloat32.toModel.mul a.toFloat32.toModel :=
    congrArg Float32.Model.pack (unpacked_mul_comm _ _ _)
  exact congrArg (fun m => ofFloat32 ⟨m⟩) hmodel

end Binary32

namespace Weights

variable {v u : Weights} {key : String}

/-! ## Shared keys -/

/-- The keys that have a weight in both of two vectors. -/
def shared (v u : Weights) : SortedSet String :=
  (v.weights.filter fun key _ => u.weights.contains key).map fun _ => ()

theorem get?_shared (v u : Weights) (key : String) : (v.shared u).get? key =
    if v.weights.contains key = true ∧ u.weights.contains key = true then some () else none := by
  unfold shared SortedMap.contains
  rw [SortedMap.get?_map, SortedMap.get?_filter]
  cases v.weights.get? key with
  | none => simp
  | some w => cases u.weights.get? key <;> simp

/-- **It does not matter which vector is cut down to the keys of the other.** -/
theorem shared_comm (v u : Weights) : v.shared u = u.shared v := by
  apply SortedMap.ext
  intro key
  simp only [get?_shared, and_comm]

theorem mem_keys_shared :
    key ∈ (v.shared u).keys ↔ v.weights.contains key = true ∧ u.weights.contains key = true := by
  rw [SortedMap.mem_keys, SortedMap.contains, get?_shared]
  split <;> simp_all

theorem ascending_keys_shared (v u : Weights) :
    (v.shared u).keys.Pairwise fun a b => compare a b = .lt := by
  apply List.pairwise_map.mpr
  exact (v.shared u).ascending

/-! ## Similarity -/

/-- The products run over the shared keys. -/
theorem products_eq (v u : Weights) :
    v.products u = (v.shared u).keys.map fun key => v.get key * u.get key := by
  have hterm : ∀ e ∈ v.weights.entries, (u.weights.get? e.1).map (e.2 * ·) =
      if u.weights.contains e.1 then some (v.get e.1 * u.get e.1) else none := by
    intro e he
    have hv : v.weights.get? e.1 = some e.2 := SortedMap.get?_eq_some_iff.mpr he
    cases hu : u.weights.get? e.1 <;> simp [SortedMap.contains, get, hv, hu]
  have hkeys :
      (v.shared u).keys = (v.weights.entries.filter fun e => u.weights.contains e.1).map (·.1) := by
    simp [shared, SortedMap.keys, SortedMap.map, SortedMap.filter]
  calc v.products u
      = v.weights.entries.filterMap fun e =>
        if u.weights.contains e.1 then some (v.get e.1 * u.get e.1) else none :=
        List.filterMap_congr hterm
    _ = (v.weights.entries.filter fun e => u.weights.contains e.1).map fun e =>
      v.get e.1 * u.get e.1 := by
        rw [← List.filterMap_filter, List.filterMap_eq_map']
    _ = (v.shared u).keys.map fun key => v.get key * u.get key := by
        rw [hkeys, List.map_map]
        rfl

/-- **From either side the products are the same, and in the same order.** -/
theorem products_comm (v u : Weights) : v.products u = u.products v := by
  rw [products_eq, products_eq, shared_comm]
  simp only [Binary32.mul_comm]

theorem similarity_eq (v u : Weights) : v.similarity u = Binary32.sum (v.products u) := by
  unfold similarity
  split
  · rfl
  · rw [products_comm]

/-- **The similarity of two vectors does not depend on which of them is gone through.** It is the
same, to the bit, from either side. Whichever vector is shorter, it is what comes of adding up, from
the left, the products of the weights of the keys that both vectors have, of all of these and no
others, in ascending order. -/
theorem similarity_over_shared (v u : Weights) :
    v.similarity u = u.similarity v ∧
    v.similarity u = (v.shared u).keys.foldl (fun sum key => sum + v.get key * u.get key) .negZero ∧
    ((v.shared u).keys.Pairwise fun a b => compare a b = .lt) ∧
    ∀ key, key ∈ (v.shared u).keys ↔ v.weights.contains key = true ∧ u.weights.contains key = true := by
  refine ⟨?_, ?_, ascending_keys_shared v u, fun _ => mem_keys_shared⟩
  · rw [similarity_eq, similarity_eq, products_comm]
  · rw [similarity_eq, products_eq, Binary32.sum, Binary32.sumFrom, List.foldl_map]

end Weights
end Narrative
