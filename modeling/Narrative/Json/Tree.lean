import Narrative.Json.Token

/-!
# `Narrative.Json.Tree` — JSON values as written

The tree keeps what the text says: the members of an object in order, repeated names included, and
numbers as numerals. What a document means is decided where it is read into a type.

## Contents
- **The type.** `Json`.
- **Reading.** `Json.parse?` takes exactly one value, with nothing after it.
- **Writing.** `Json.tokens` and `Json.render`.
-/

namespace Narrative

/-- A JSON value. -/
inductive Json where
  | null
  | bool (value : Bool)
  | number (value : Numeral)
  | string (text : String)
  | array (items : List Json)
  | object (members : List (String × Json))
  /-- Well-formed text that no value can be read from: a string with half of a surrogate pair, or an
  object that has one as a name. It may still be passed over. -/
  | unreadable
deriving Inhabited

namespace Json

/-! ## Reading -/

/-- Gives members read so far one more, unless one of the names has no text. -/
def addMember (name : Option String) (value : Json) (more : Option (List (String × Json))) :
    Option (List (String × Json)) :=
  match name, more with
  | some n, some ms => some ((n, value) :: ms)
  | _, _ => none

/-- The object of members whose names all have text. -/
def ofMembers : Option (List (String × Json)) → Json
  | some ms => .object ms
  | none => .unreadable

mutual

/-- Reads one value off the front of the tokens. The bound falls with every token read. -/
def readValue : (bound : Nat) → List Token → Option (Json × List Token)
  | 0, _ => none
  | n + 1, ts =>
    match ts with
    | .null :: rest => some (.null, rest)
    | .bool b :: rest => some (.bool b, rest)
    | .number x :: rest => some (.number x, rest)
    | .string (some s) :: rest => some (.string s, rest)
    | .string none :: rest => some (.unreadable, rest)
    | .leftBracket :: .rightBracket :: rest => some (.array [], rest)
    | .leftBracket :: rest => (readItems n rest).map fun (xs, rest) => (.array xs, rest)
    | .leftBrace :: .rightBrace :: rest => some (.object [], rest)
    | .leftBrace :: rest => (readMembers n rest).map fun (ms, rest) => (ofMembers ms, rest)
    | _ => none

/-- Reads the items of an array that has at least one, with the closing bracket. -/
def readItems : (bound : Nat) → List Token → Option (List Json × List Token)
  | 0, _ => none
  | n + 1, ts =>
    match readValue n ts with
    | some (x, .rightBracket :: rest) => some ([x], rest)
    | some (x, .comma :: rest) => (readItems n rest).map fun (xs, rest) => (x :: xs, rest)
    | _ => none

/-- Reads the members of an object that has at least one, with the closing brace. -/
def readMembers : (bound : Nat) → List Token → Option (Option (List (String × Json)) × List Token)
  | 0, _ => none
  | n + 1, ts =>
    match ts with
    | .string name :: .colon :: rest =>
      match readValue n rest with
      | some (x, .rightBrace :: rest) => some (addMember name x (some []), rest)
      | some (x, .comma :: rest) =>
        (readMembers n rest).map fun (ms, rest) => (addMember name x ms, rest)
      | _ => none
    | _ => none

end

/-- The value that a list of tokens spells, if it spells exactly one. -/
def ofTokens? (ts : List Token) : Option Json :=
  match readValue (ts.length + 1) ts with
  | some (j, []) => some j
  | _ => none

/-- The value that a text spells. -/
def parse? (text : String) : Option Json := (Token.all? text.toList).bind ofTokens?

/-! ## Writing -/

mutual

/-- The tokens of a value. -/
def tokens : Json → List Token
  | .null => [.null]
  | .bool b => [.bool b]
  | .number n => [.number n]
  | .string s => [.string (some s)]
  | .array xs => .leftBracket :: itemTokens xs
  | .object ms => .leftBrace :: memberTokens ms
  | .unreadable => [.string none]

/-- The tokens of the items of an array, with the closing bracket. -/
def itemTokens : List Json → List Token
  | [] => [.rightBracket]
  | [x] => x.tokens ++ [.rightBracket]
  | x :: y :: xs => x.tokens ++ .comma :: itemTokens (y :: xs)

/-- The tokens of the members of an object, with the closing brace. -/
def memberTokens : List (String × Json) → List Token
  | [] => [.rightBrace]
  | [(n, x)] => .string (some n) :: .colon :: x.tokens ++ [.rightBrace]
  | (n, x) :: m :: ms => .string (some n) :: .colon :: x.tokens ++ .comma :: memberTokens (m :: ms)

end

/-- The text of a value, without white space. -/
def render (j : Json) : String := String.ofList (j.tokens.flatMap Token.chars)

end Json

end Narrative
