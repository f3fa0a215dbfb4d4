/-!
# `Narrative.Number.Binary32` — single-precision floats as bit patterns

Weights, scores and settings are IEEE 754 binary32 values. A value is its 32 bits, so every NaN
keeps its sign and payload until an operation computes with it; each operation rounds once, to
nearest, ties to even.

## Contents
- **Arithmetic.** `+`, `-`, `*`, `/`, `sqrt`, `abs`, `min`, `<` and `≤` as Boolean tests; `lt_min`;
  `sumFrom` and `sum`.
- **Conversion.** `round` rounds `m · 2 ^ e`; `ofInt` and `ofFloat` come from it.
- **Order.** `totalKey` ranks all bit patterns from `-NaN` up to `+NaN`.
-/

namespace Narrative

/-- A binary32 value: one sign bit, eight exponent bits, twenty-three fraction bits. -/
structure Binary32 where
  /-- The bit pattern. -/
  bits : UInt32
deriving DecidableEq, Inhabited

namespace Binary32

open Float.Model (UnpackedFloat Format)

/-! ## Arithmetic -/

/-- The value as a machine float. -/
def toFloat32 (x : Binary32) : Float32 := Float32.ofBits x.bits

/-- The bits of a machine float. -/
def ofFloat32 (x : Float32) : Binary32 := ⟨x.toBits⟩

instance : Add Binary32 := ⟨fun a b => ofFloat32 (a.toFloat32 + b.toFloat32)⟩
instance : Sub Binary32 := ⟨fun a b => ofFloat32 (a.toFloat32 - b.toFloat32)⟩
instance : Mul Binary32 := ⟨fun a b => ofFloat32 (a.toFloat32 * b.toFloat32)⟩
instance : Div Binary32 := ⟨fun a b => ofFloat32 (a.toFloat32 / b.toFloat32)⟩

/-- The value `+0`. -/
def zero : Binary32 := ⟨0⟩

/-- The value `-0`. What is added to it stays as it is, `-0` included, which added to `+0` is `+0`. -/
def negZero : Binary32 := ⟨0x80000000⟩

/-- The value `1`. -/
def one : Binary32 := ⟨0x3f800000⟩

/-- Whether the sign bit is set; a NaN has a sign too. -/
def isNegative (x : Binary32) : Bool := x.bits ≥ 0x80000000

/-- The bits without the sign. -/
def magnitudeBits (x : Binary32) : UInt32 := x.bits &&& 0x7fffffff

/-- Whether the value is not a number. -/
def isNaN (x : Binary32) : Bool := x.magnitudeBits > 0x7f800000

/-- The value without its sign. -/
def abs (x : Binary32) : Binary32 := ⟨x.magnitudeBits⟩

/-- The square root. -/
def sqrt (x : Binary32) : Binary32 := ofFloat32 x.toFloat32.sqrt

/-- Numeric `<`; false if either side is a NaN. -/
def lt (a b : Binary32) : Bool := a.toFloat32.lt b.toFloat32

/-- Numeric `≤`; false if either side is a NaN. -/
def le (a b : Binary32) : Bool := a.toFloat32.le b.toFloat32

/-- The smaller of two values; a NaN gives way to the other one. -/
def min (a b : Binary32) : Binary32 :=
  if a.isNaN then b else if b.isNaN then a else if b.lt a then b else a

/-- An unpacked number is not below itself; signs, exponents and mantissas compare as equal. -/
theorem unpacked_lt_self (u : UnpackedFloat) : u.lt u = false := by
  cases u with
  | notANumber => rfl
  | infinity s => cases s <;> rfl
  | zero s => rfl
  | finite s m e h =>
    have hsame : (compare e e).then (compare m m) = .eq := by
      rw [show compare e e = .eq from Std.ReflCmp.compare_self,
        show compare m m = .eq from Std.ReflCmp.compare_self]
      rfl
    cases s with
    | positive =>
      show (some ((compare e e).then (compare m m)) == some .lt) = false
      rw [hsame]
      rfl
    | negative =>
      show (some ((compare e e).then (compare m m)).swap == some .lt) = false
      rw [hsame]
      rfl

theorem lt_self (x : Binary32) : x.lt x = false := by
  have hmodel : x.toFloat32.toModel.lt x.toFloat32.toModel = false := unpacked_lt_self _
  unfold lt Float32.lt
  rw [decide_eq_false_iff_not]
  show ¬x.toFloat32.toModel.lt x.toFloat32.toModel = true
  rw [hmodel]
  exact Bool.false_ne_true

/-- **What is cut off at a number is not above it**, a NaN included. -/
theorem lt_min (a : Binary32) {b : Binary32} (hb : b.isNaN = false) : b.lt (a.min b) = false := by
  unfold min
  split
  · exact lt_self b
  · split
    · next hnan => exact absurd hnan (Bool.eq_false_iff.mp hb)
    · split
      · exact lt_self b
      · next hnot => exact Bool.eq_false_iff.mpr hnot

/-- The sum of a list on top of a start, added from the left. -/
def sumFrom (start : Binary32) (xs : List Binary32) : Binary32 := xs.foldl (· + ·) start

/-- The sum of a list on its own. It starts at the neutral element, so a sum of nothing is `-0`. -/
def sum (xs : List Binary32) : Binary32 := sumFrom negZero xs

/-! ## Conversion -/

/-- Packs an unpacked number whose mantissa already fits. -/
def pack (u : UnpackedFloat) : Binary32 := ⟨(Float32.Model.pack u).toBits⟩

/-- The value nearest to `± m · 2 ^ e`, of two the one with an even mantissa. -/
def round (negative : Bool) (m : Nat) (e : Int) : Binary32 :=
  let sign : UnpackedFloat.Sign := if negative then .negative else .positive
  if m = 0 then pack (.zero sign) else pack (UnpackedFloat.round Format.binary32 sign m e)

/-- The value nearest to an integer. -/
def ofInt (n : Int) : Binary32 := round (n < 0) n.natAbs 0

/-- The value nearest to a double-precision float. -/
def ofFloat (x : Float) : Binary32 :=
  match x.toModel.unpack with
  | .finite sign m e _ => pack (UnpackedFloat.round Format.binary32 sign m e)
  | u => pack u

/-! ## Order -/

/-- Ranks the bit patterns: negative ones downwards from `-0`, then positive ones upwards from `+0`,
with the NaNs at both ends. -/
def totalKey (x : Binary32) : Nat :=
  if x.isNegative then 0xffffffff - x.bits.toNat else 0x80000000 + x.bits.toNat

end Binary32

end Narrative
