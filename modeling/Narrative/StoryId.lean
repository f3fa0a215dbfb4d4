import Narrative.Json.Record

/-!
# `Narrative.StoryId` — names of story instances

A story instance is known by a 128-bit number, written as 32 hexadecimal digits in groups.

## Contents
- **The type.** `StoryId`, `isNil`.
- **Text.** `toText` writes the groups with hyphens; `parse?` also takes the digits without hyphens,
  in braces or after `urn:uuid:`.
-/

namespace Narrative

/-- The identity of a story instance. -/
structure StoryId where
  number : BitVec 128
deriving DecidableEq

namespace StoryId

/-- Whether the identity is the number zero. -/
def isNil (id : StoryId) : Bool := id.number = 0

/-- The lengths of the groups of digits. -/
def groups : List Nat := [8, 4, 4, 4, 12]

/-- The digits of the number. -/
def digits (id : StoryId) : List Char :=
  (List.range 32).map fun i => Token.hexChar ((id.number.toNat >>> (4 * (31 - i))) % 16)

/-- Splits digits into groups joined by hyphens. -/
def hyphenated : List Nat → List Char → List Char
  | [], _ => []
  | [n], cs => cs.take n
  | n :: ns, cs => cs.take n ++ '-' :: hyphenated ns (cs.drop n)

/-- The identity in lower case with hyphens. -/
def toText (id : StoryId) : String := String.ofList (hyphenated groups id.digits)

/-- The identity that 32 digits name. -/
def ofDigits? (cs : List Char) : Option StoryId := do
  if cs.length ≠ 32 then none
  return ⟨BitVec.ofNat 128 ((← cs.mapM Token.hexDigit?).foldl (fun n d => n * 16 + d) 0)⟩

/-- The identity that groups of digits with hyphens name. -/
def ofHyphenated? (cs : List Char) : Option StoryId := do
  let plain := cs.filter (· ≠ '-')
  if hyphenated groups plain = cs then ofDigits? plain else none

/-- Reads an identity in any of its spellings. -/
def parse? (text : String) : Option StoryId :=
  let cs := text.toList
  match cs with
  | '{' :: rest => if rest.getLast? = some '}' then ofHyphenated? rest.dropLast else none
  | 'u' :: 'r' :: 'n' :: ':' :: 'u' :: 'u' :: 'i' :: 'd' :: ':' :: rest => ofHyphenated? rest
  | _ => (ofDigits? cs).or (ofHyphenated? cs)

end StoryId

instance : ToJson StoryId := ⟨fun id => .string id.toText⟩
instance : OfJson StoryId := ⟨fun j => (ofJson? j : Option String).bind StoryId.parse?⟩

end Narrative
