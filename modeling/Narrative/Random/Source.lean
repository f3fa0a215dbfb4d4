import Narrative.Random.ChaCha

/-!
# `Narrative.Random.Source` — random words, indices and shuffles

## Contents
- **Sources.** `Source`, a stream of words with the place reached in it.
- **Indices.** `index` draws a number below a bound without bias.
- **Shuffles.** `shuffle`.
-/

namespace Narrative

/-- A stream of random words. -/
inductive Source where
  /-- Given words, then zeros for ever. -/
  | listed (words : List UInt32)
  /-- The words of a key from a position on. -/
  | keyed (key : ChaCha.Key) (position : Nat)
deriving DecidableEq

namespace Source

/-- The stream of a seed. -/
def ofSeed (seed : UInt64) : Source := .keyed (.ofSeed seed) 0

/-- The next word. -/
def next : Source → UInt32 × Source
  | .listed [] => (0, .listed [])
  | .listed (w :: ws) => (w, .listed ws)
  | .keyed key position => (key.word position, .keyed key (position + 1))

/-- How many words are drawn before all that a stream can hold have been seen: a listed stream is
zeros after its words, a keyed one starts again after `2 ^ 64` blocks. -/
def horizon : Source → Nat
  | .listed words => words.length + 1
  | .keyed .. => 0x100000000000000000

/-! ## Indices -/

/-- The largest low half of a product that is accepted, so that every index has equally many
words. -/
def zone (n : UInt32) : UInt32 := (n <<< UInt32.ofNat (31 - n.toNat.log2)) - 1

/-- The index below `n` that a word gives, if the word is accepted. -/
def indexOf? (n word : UInt32) : Option UInt32 :=
  let product := word.toUInt64 * n.toUInt64
  if product.toUInt32 ≤ zone n then some (product >>> 32).toUInt32 else none

/-- Draws words, at most as many as the bound, up to the first that is accepted. -/
def indexWithin (n : UInt32) : (bound : Nat) → Source → UInt32 × Source
  | 0, s => (0, s)
  | bound + 1, s =>
    let (word, s) := s.next
    match indexOf? n word with
    | some i => (i, s)
    | none => indexWithin n bound s

/-- A random index below `n`. -/
def index (s : Source) (n : UInt32) : UInt32 × Source := indexWithin n s.horizon s

/-! ## Shuffles -/

/-- Swaps each place from `i` down to the second with a random place up to itself. -/
def shuffleFrom {α : Type} : (i : Nat) → Array α → Source → Array α × Source
  | 0, xs, s => (xs, s)
  | i + 1, xs, s =>
    let (j, s) := s.index (UInt32.ofNat (i + 2))
    shuffleFrom i (xs.swapIfInBounds (i + 1) j.toNat) s

/-- Puts a list into random order. Lists of fewer than two members draw nothing. -/
def shuffle {α : Type} (s : Source) (xs : List α) : List α × Source :=
  let (ys, s) := shuffleFrom (xs.length - 1) xs.toArray s
  (ys.toList, s)

end Source

end Narrative
