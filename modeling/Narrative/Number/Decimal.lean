import Narrative.Number.Binary32

/-!
# `Narrative.Number.Decimal` — floats written as decimals, and read from them

A binary32 value is shown with the fewest digits that read back as the same value, and of those with
the digits nearest to it; halfway between two, the larger magnitude is taken. A decimal is read as the
double nearest to it.

## Contents
- **Interval.** `Neighbourhood` holds a positive value and the reals that round to it, as integers
  over one common denominator.
- **Digits.** `shortest` tries decimal grids from coarse to fine and stops at the first with a point
  in the interval.
- **Text.** `positional` writes digits without an exponent; `Binary32.toText` adds sign and names.
- **Reading.** `decimalToFloat`.
-/

namespace Narrative

/-- A positive value `value / unit` with the interval of reals that round to it. -/
structure Neighbourhood where
  /-- The common denominator. -/
  unit : Nat
  /-- The value itself, in units. -/
  value : Nat
  /-- The lower end of the interval, in units. -/
  low : Nat
  /-- The upper end of the interval, in units. -/
  high : Nat
  /-- Whether the ends round to the value as well. -/
  closed : Bool

namespace Neighbourhood

/-- The interval of the value `m · 2 ^ e`. Its ends lie halfway to the neighbours; below a power of
two (`narrow`) the neighbour is only half as far away. An even mantissa owns both ends. -/
def ofBinary (m : Nat) (e : Int) (narrow : Bool) : Neighbourhood :=
  let scale := Nat.pow 2 (e - 2).toNat
  { unit := Nat.pow 2 (2 - e).toNat
    value := 4 * m * scale
    low := (4 * m - if narrow then 1 else 2) * scale
    high := (4 * m + 2) * scale
    closed := m % 2 = 0 }

/-- Whether `p / (q · unit)` lies in the interval. -/
def contains (i : Neighbourhood) (p q : Nat) : Bool :=
  if i.closed then i.low * q ≤ p && p ≤ i.high * q else i.low * q < p && p < i.high * q

/-- The point of the grid of multiples of `10 ^ s` that is nearest to the value, if one of the two
grid points around the value lies in the interval. -/
def gridPoint? (i : Neighbourhood) (s : Int) : Option Nat :=
  let step := Nat.pow 10 s.toNat * i.unit
  let split := Nat.pow 10 (-s).toNat
  let below := i.value * split / step
  let belowIn := i.contains (below * step) split
  let aboveIn := i.contains ((below + 1) * step) split
  if belowIn && aboveIn then
    if i.value * split - below * step < (below + 1) * step - i.value * split then some below
    else some (below + 1)
  else if belowIn then some below
  else if aboveIn then some (below + 1)
  else none

/-- The first hit on the grids `10 ^ s`, `10 ^ (s - 1)`, …, of which `n` are tried. -/
def search (i : Neighbourhood) : Nat → Int → Option (Nat × Int)
  | 0, _ => none
  | n + 1, s =>
    match i.gridPoint? s with
    | some d => some (d, s)
    | none => search i n (s - 1)

/-- The digits `d` and exponent `s` of the shortest decimal `d · 10 ^ s` in the interval. Every
binary32 value has one between `10 ^ 39` and `10 ^ (-60)`. -/
def shortest (i : Neighbourhood) : Nat × Int := (i.search 100 39).getD (0, 0)

end Neighbourhood

/-- Writes `d · 10 ^ s` without an exponent: zeros up to the units, or a point and the places after
it. -/
def positional (d : Nat) (s : Int) : String :=
  if 0 ≤ s then toString (d * Nat.pow 10 s.toNat)
  else
    let places := (-s).toNat
    let fraction := toString (d % Nat.pow 10 places)
    toString (d / Nat.pow 10 places) ++ "." ++ "".pushn '0' (places - fraction.length) ++ fraction

namespace Binary32

/-- The shortest decimal text that reads back as the value: no exponent, no trailing point. -/
def toText (x : Binary32) : String :=
  if x.isNaN then "NaN"
  else
    let sign := if x.isNegative then "-" else ""
    let exponent : Nat := x.magnitudeBits.toNat / 0x800000
    let fraction : Nat := x.magnitudeBits.toNat % 0x800000
    if exponent = 255 then sign ++ "inf"
    else if x.magnitudeBits = 0 then sign ++ "0"
    else
      let i :=
        if exponent = 0 then Neighbourhood.ofBinary fraction (-149) false
        else Neighbourhood.ofBinary (0x800000 + fraction) ((exponent : Int) - 150) (fraction = 0)
      let (d, s) := i.shortest
      sign ++ positional d s

end Binary32

/-! ## Reading -/

/-- The double nearest to `n · 10 ^ e`. Decimals far beyond the range of doubles are not computed:
they are zero or infinite. -/
def decimalToFloat (n : Nat) (e : Int) : Float :=
  let size := e + (Nat.toDigits 10 n).length
  if n = 0 ∨ size < -400 then 0
  else if 400 < size then 1 / 0
  else Float.ofScientific n (e < 0) e.natAbs

end Narrative
