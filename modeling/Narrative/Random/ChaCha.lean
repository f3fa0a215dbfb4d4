/-!
# `Narrative.Random.ChaCha` — a stream of words from a seed

The ChaCha stream cipher with twelve rounds, used as a generator of 32-bit words. Every word is a
function of the key and its position.

## Contents
- **Blocks.** `Row` is four words side by side; `doubleRound` mixes columns, then diagonals.
- **Keys.** `Key.ofSeed` stretches a 64-bit seed.
- **The stream.** `Key.word`.
-/

namespace Narrative.ChaCha

/-! ## Blocks -/

/-- Four words, one for each column of a block. -/
structure Row where
  a : UInt32
  b : UInt32
  c : UInt32
  d : UInt32
deriving DecidableEq

namespace Row

/-- Combines two rows column by column. -/
def zip (f : UInt32 → UInt32 → UInt32) (x y : Row) : Row := ⟨f x.a y.a, f x.b y.b, f x.c y.c, f x.d y.d⟩

/-- Changes every word of a row. -/
def map (f : UInt32 → UInt32) (x : Row) : Row := ⟨f x.a, f x.b, f x.c, f x.d⟩

/-- Moves every word one column to the left. -/
def shift (x : Row) : Row := ⟨x.b, x.c, x.d, x.a⟩

/-- The words from left to right. -/
def toList (x : Row) : List UInt32 := [x.a, x.b, x.c, x.d]

end Row

/-- Rotates a word to the left by `n` bits, `0 < n < 32`. -/
def rotateLeft (n w : UInt32) : UInt32 := (w <<< n) ||| (w >>> (32 - n))

/-- Sixteen words in four rows. -/
structure Block where
  r₀ : Row
  r₁ : Row
  r₂ : Row
  r₃ : Row
deriving DecidableEq

namespace Block

/-- Half of a quarter round on every column: two sums, and two rotations by `m` and `n`. -/
def halfQuarter (m n : UInt32) (x : Block) : Block :=
  let r₀ := x.r₀.zip (· + ·) x.r₁
  let r₃ := (x.r₃.zip (· ^^^ ·) r₀).map (rotateLeft m)
  let r₂ := x.r₂.zip (· + ·) r₃
  let r₁ := (x.r₁.zip (· ^^^ ·) r₂).map (rotateLeft n)
  ⟨r₀, r₁, r₂, r₃⟩

/-- The quarter round on every column. -/
def quarter (x : Block) : Block := halfQuarter 8 7 (halfQuarter 16 12 x)

/-- Turns the diagonals into columns. -/
def skew (x : Block) : Block := ⟨x.r₀, x.r₁.shift, x.r₂.shift.shift, x.r₃.shift.shift.shift⟩

/-- Turns the columns into diagonals. -/
def unskew (x : Block) : Block := ⟨x.r₀, x.r₁.shift.shift.shift, x.r₂.shift.shift, x.r₃.shift⟩

/-- A round on the columns and a round on the diagonals. -/
def doubleRound (x : Block) : Block := unskew (quarter (skew (quarter x)))

/-- Adds two blocks word by word. -/
def add (x y : Block) : Block :=
  ⟨x.r₀.zip (· + ·) y.r₀, x.r₁.zip (· + ·) y.r₁, x.r₂.zip (· + ·) y.r₂, x.r₃.zip (· + ·) y.r₃⟩

/-- Twelve rounds, and the sum with the block before them. -/
def mix (x : Block) : Block := (Nat.repeat doubleRound 6 x).add x

/-- The words of a block in order. -/
def toList (x : Block) : List UInt32 := x.r₀.toList ++ x.r₁.toList ++ x.r₂.toList ++ x.r₃.toList

end Block

/-! ## Keys -/

/-- Eight key words. -/
structure Key where
  low : Row
  high : Row
deriving DecidableEq

namespace Key

/-- One step of the seed expansion: the next state of a linear congruential generator, and the word
that its permuted output gives. -/
def expand (s : UInt64) : UInt64 × UInt32 :=
  let s := s * 6364136223846793005 + 11634580027462260723
  let x := (((s >>> 18) ^^^ s) >>> 27).toUInt32
  let turn := (s >>> 59).toUInt32
  (s, (x >>> turn) ||| (x <<< ((32 - turn) % 32)))

/-- Four words of the seed expansion. -/
def expandRow (s : UInt64) : UInt64 × Row :=
  let (s, a) := expand s
  let (s, b) := expand s
  let (s, c) := expand s
  let (s, d) := expand s
  (s, ⟨a, b, c, d⟩)

/-- The key of a seed. -/
def ofSeed (seed : UInt64) : Key :=
  let (s, low) := expandRow seed
  ⟨low, (expandRow s).2⟩

/-! ## The stream -/

/-- The block of a counter: the constants, the key and the counter, mixed. -/
def block (k : Key) (counter : UInt64) : Block :=
  Block.mix ⟨⟨0x61707865, 0x3320646e, 0x79622d32, 0x6b206574⟩, k.low, k.high,
    ⟨counter.toUInt32, (counter >>> 32).toUInt32, 0, 0⟩⟩

/-- The word at a position of the stream; a block gives sixteen. -/
def word (k : Key) (position : Nat) : UInt32 :=
  ((k.block (UInt64.ofNat (position / 16))).toList[position % 16]?).getD 0

end Key

end Narrative.ChaCha
