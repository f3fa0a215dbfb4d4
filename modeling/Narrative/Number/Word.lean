/-!
# `Narrative.Number.Word` — integers of fixed width

Attribute values are signed 64-bit integers, counts and uids are unsigned words. Arithmetic on values
is exact and then stops at the limits.

## Contents
- **Reading.** `int64?`, `uint32?`, `uint64?` give the word of an integer that is in range;
  `int64?_toInt` and `uint32?_toNat`.
- **Saturation.** `saturate` and its value `toInt_saturate`.
-/

namespace Narrative

/-! ## Reading -/

/-- The signed 64-bit integer equal to `n`, if there is one. -/
def int64? (n : Int) : Option Int64 :=
  if Int64.minValue.toInt ≤ n ∧ n ≤ Int64.maxValue.toInt then some (Int64.ofInt n) else none

/-- The unsigned 32-bit integer equal to `n`, if there is one. -/
def uint32? (n : Int) : Option UInt32 :=
  if 0 ≤ n ∧ n.toNat < UInt32.size then some (UInt32.ofNat n.toNat) else none

/-- The unsigned 64-bit integer equal to `n`, if there is one. -/
def uint64? (n : Int) : Option UInt64 :=
  if 0 ≤ n ∧ n.toNat < UInt64.size then some (UInt64.ofNat n.toNat) else none

/-- A signed word is read back from its value. -/
theorem int64?_toInt (n : Int64) : int64? n.toInt = some n := by
  unfold int64?
  rw [if_pos ⟨Int64.minValue_le_toInt n, Int64.toInt_le n⟩, Int64.ofInt_toInt]

/-- An unsigned word is read back from its value. -/
theorem uint32?_toNat (n : UInt32) : uint32? n.toNat = some n := by
  have hn : n.toNat < UInt32.size := n.toNat_lt_size
  unfold uint32?
  rw [if_pos ⟨Int.natCast_nonneg _, hn⟩]
  exact congrArg some UInt32.ofNat_toNat

/-! ## Saturation -/

/-- The 64-bit integer nearest to `n`. -/
def saturate (n : Int) : Int64 :=
  if n < Int64.minValue.toInt then Int64.minValue
  else if Int64.maxValue.toInt < n then Int64.maxValue
  else Int64.ofInt n

/-- Saturation clamps to the range of 64-bit integers. -/
theorem toInt_saturate (n : Int) :
    (saturate n).toInt = max Int64.minValue.toInt (min n Int64.maxValue.toInt) := by
  have hmin : Int64.minValue.toInt = -2 ^ 63 := by decide
  have hmax : Int64.maxValue.toInt = 2 ^ 63 - 1 := by decide
  unfold saturate
  by_cases h₁ : n < Int64.minValue.toInt
  · rw [if_pos h₁]
    omega
  · by_cases h₂ : Int64.maxValue.toInt < n
    · rw [if_neg h₁, if_pos h₂]
      omega
    · rw [if_neg h₁, if_neg h₂, Int64.toInt_ofInt_of_le (by omega) (by omega)]
      omega

end Narrative
