import Narrative.Number.Binary32
import Narrative.Number.Word

/-!
# `Narrative.Json.Numeral` — numbers as they are written

A numeral keeps what a JSON number says: its sign, the digits before and after the point, and the
exponent. Reading it as an integer is exact; reading it as a float follows the fixed steps below.

## Contents
- **The type.** `Numeral`, with `ofInt` and `int?`.
- **Floats.** `toFloat?` gathers the digits that fit into 64 bits and scales them by one power of
  ten; `toBinary32?` rounds an integer directly and anything else by way of `toFloat?`.
-/

namespace Narrative

/-- A number as written: `-` or not, the digits before the point, those after it, and the exponent.
The digits before the point have no leading zero, so that a natural number holds them. -/
structure Numeral where
  negative : Bool
  whole : Nat
  fraction : List (Fin 10)
  exponent : Option Int
deriving DecidableEq, Inhabited

namespace Numeral

/-! ## Integers -/

/-- The numeral of an integer. -/
def ofInt (n : Int) : Numeral := ⟨n < 0, n.natAbs, [], none⟩

/-- The integer that a numeral without point and exponent stands for. The spelling `-0` is not an
integer. -/
def int? (n : Numeral) : Option Int :=
  match n with
  | ⟨false, w, [], none⟩ => some w
  | ⟨true, w, [], none⟩ => if w = 0 then none else some (-w)
  | _ => none

@[simp] theorem int?_ofInt (n : Int) : (ofInt n).int? = some n := by
  cases n with
  | ofNat k =>
    have h : ¬ Int.ofNat k < 0 := Int.not_lt.mpr (Int.natCast_nonneg k)
    simp only [ofInt, int?, h, decide_false]
    rfl
  | negSucc k =>
    have h : Int.negSucc k < 0 := Int.negSucc_lt_zero k
    simp only [ofInt, int?, h, decide_true, Int.natAbs_negSucc, Nat.succ_ne_zero, if_false]
    rfl

/-! ## Floats -/

/-- The value of a decimal digit. -/
def digit (c : Char) : Fin 10 := ⟨(c.toNat - '0'.toNat) % 10, Nat.mod_lt _ (by decide)⟩

/-- The decimal digits of a natural number, most significant first. -/
def digits (n : Nat) : List (Fin 10) := (Nat.toDigits 10 n).map digit

/-- Appends digits to `n` as long as the result fits into 64 bits; also counts the digits that are
left over. -/
def appendDigits : Nat → List (Fin 10) → Nat × Nat
  | n, [] => (n, 0)
  | n, d :: ds =>
    if n * 10 + d.val < UInt64.size then appendDigits (n * 10 + d.val) ds else (n, ds.length + 1)

/-- The double nearest to `10 ^ n`. -/
def tenTo (n : Nat) : Float := Float.ofScientific 1 false n

/-- Scales by `10 ^ e` in steps of at most `10 ^ 308`; fails where the result is too large. -/
def scale (f : Float) (e : Int) : Option Float :=
  if e.natAbs ≤ 308 then
    if 0 ≤ e then
      let g := f * tenTo e.natAbs
      if g.isInf then none else some g
    else some (f / tenTo e.natAbs)
  else if f == 0 then some f
  else if 0 ≤ e then none
  else scale (f / tenTo 308) (e + 308)
termination_by e.natAbs

/-- The double that a numeral stands for. Digits before the point that no longer fit count as
zeros, digits after it are dropped. -/
def toFloat? (n : Numeral) : Option Float :=
  let (whole, left) := appendDigits 0 (digits n.whole)
  let (significand, dropped) := appendDigits whole n.fraction
  let places := n.fraction.length - dropped
  let f := scale significand.toUInt64.toFloat (n.exponent.getD 0 + left - places)
  if n.negative then f.map fun x => -x else f

/-- The binary32 value that a numeral stands for: an integer of at most 64 bits is rounded once, any
other number is first read as a double. -/
def toBinary32? (n : Numeral) : Option Binary32 :=
  match n.int? with
  | some i =>
    if (int64? i).isSome || (uint64? i).isSome then some (Binary32.ofInt i)
    else n.toFloat?.map Binary32.ofFloat
  | none => n.toFloat?.map Binary32.ofFloat

end Numeral

end Narrative
