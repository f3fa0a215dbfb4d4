import Narrative.Json.Numeral

/-!
# `Narrative.Json.Token` — the words of a JSON text

A text is first cut into tokens. White space stands only between tokens, so two texts that differ
in white space alone have the same tokens.

## Contents
- **The type.** `Token`: punctuation, the three words, numerals and strings.
- **Strings.** `scanString` reads up to the closing quote; `joinUnits` puts escaped surrogate pairs
  together. A string with an unpaired surrogate is a token without text.
- **Numerals.** `scanNumeral` reads sign, whole part, fraction and exponent.
- **Lexing.** `Token.next?` takes one token, `Token.all?` takes them all.
- **Writing.** `Token.chars` is the written form of a token.
-/

namespace Narrative

/-- One token of a JSON text. -/
inductive Token where
  | leftBrace
  | rightBrace
  | leftBracket
  | rightBracket
  | comma
  | colon
  | null
  | bool (value : Bool)
  | number (value : Numeral)
  /-- A string; `none` if an escape in it names half of a surrogate pair. -/
  | string (text : Option String)
deriving DecidableEq

namespace Token

/-! ## Characters -/

/-- The four characters that may stand between tokens. -/
def isSpace (c : Char) : Bool := c = ' ' || c = '\t' || c = '\n' || c = '\r'

/-- The value of a hexadecimal digit. -/
def hexDigit? (c : Char) : Option Nat :=
  if '0' ≤ c && c ≤ '9' then some (c.toNat - '0'.toNat)
  else if 'a' ≤ c && c ≤ 'f' then some (c.toNat - 'a'.toNat + 10)
  else if 'A' ≤ c && c ≤ 'F' then some (c.toNat - 'A'.toNat + 10)
  else none

/-- The code unit named by four hexadecimal digits. -/
def codeUnit? (a b c d : Char) : Option Nat := do
  return (((← hexDigit? a) * 16 + (← hexDigit? b)) * 16 + (← hexDigit? c)) * 16 + (← hexDigit? d)

/-! ## Strings -/

/-- A piece of a string: a character, or a code unit from an escape. -/
inductive Piece where
  | char (c : Char)
  | unit (n : Nat)

/-- The character that a backslash and `c` stand for. -/
def shortEscape? : Char → Option Char
  | '"' => some '"'
  | '\\' => some '\\'
  | '/' => some '/'
  | 'b' => some '\x08'
  | 'f' => some '\x0c'
  | 'n' => some '\n'
  | 'r' => some '\r'
  | 't' => some '\t'
  | _ => none

/-- Reads the pieces of a string up to its closing quote, and gives the rest. A control character
has to be escaped. -/
def scanString : List Char → Option (List Piece × List Char)
  | [] => none
  | '"' :: rest => some ([], rest)
  | '\\' :: 'u' :: a :: b :: c :: d :: rest => do
    let n ← codeUnit? a b c d
    let (ps, rest) ← scanString rest
    return (.unit n :: ps, rest)
  | '\\' :: c :: rest => do
    let e ← shortEscape? c
    let (ps, rest) ← scanString rest
    return (.char e :: ps, rest)
  | c :: rest =>
    if c.toNat < 0x20 || c = '\\' then none
    else do
      let (ps, rest) ← scanString rest
      return (.char c :: ps, rest)

/-- Joins pieces into characters; a high and a low surrogate in a row are one character, and half a
pair is nothing. -/
def joinUnits : List Piece → Option (List Char)
  | [] => some []
  | .char c :: ps => (joinUnits ps).map (c :: ·)
  | .unit n :: .unit m :: ps =>
    if 0xd800 ≤ n && n < 0xdc00 then
      if 0xdc00 ≤ m && m < 0xe000 then
        (joinUnits ps).map (Char.ofNat (0x10000 + (n - 0xd800) * 0x400 + (m - 0xdc00)) :: ·)
      else none
    else if 0xdc00 ≤ n && n < 0xe000 then none
    else (joinUnits (.unit m :: ps)).map (Char.ofNat n :: ·)
  | .unit n :: ps =>
    if 0xd800 ≤ n && n < 0xe000 then none else (joinUnits ps).map (Char.ofNat n :: ·)

/-! ## Numerals -/

/-- Splits off the longest run of decimal digits. -/
def scanDigits (cs : List Char) : List Char × List Char :=
  (cs.takeWhile Char.isDigit, cs.dropWhile Char.isDigit)

/-- The number that a run of decimal digits names. -/
def digitsValue (cs : List Char) : Nat := cs.foldl (fun n c => n * 10 + (c.toNat - '0'.toNat)) 0

/-- Reads the digits before the point: a lone zero, or digits that do not start with one. -/
def scanWhole : List Char → Option (Nat × List Char)
  | '0' :: rest => some (0, rest)
  | cs =>
    match scanDigits cs with
    | ([], _) => none
    | (ds, rest) => some (digitsValue ds, rest)

/-- Reads a point and the digits after it, if a point comes next. -/
def scanFraction : List Char → Option (List (Fin 10) × List Char)
  | '.' :: cs =>
    match scanDigits cs with
    | ([], _) => none
    | (ds, rest) => some (ds.map Numeral.digit, rest)
  | cs => some ([], cs)

/-- Reads a signed run of digits. -/
def scanSigned : List Char → Option (Int × List Char)
  | '-' :: cs => do
    match scanDigits cs with
    | ([], _) => none
    | (ds, rest) => some (-(digitsValue ds : Int), rest)
  | cs =>
    match scanDigits (if cs.head? = some '+' then cs.tail else cs) with
    | ([], _) => none
    | (ds, rest) => some ((digitsValue ds : Int), rest)

/-- Reads an exponent, if one comes next. -/
def scanExponent : List Char → Option (Option Int × List Char)
  | 'e' :: cs => (scanSigned cs).map fun (e, rest) => (some e, rest)
  | 'E' :: cs => (scanSigned cs).map fun (e, rest) => (some e, rest)
  | cs => some (none, cs)

/-- Reads a numeral. -/
def scanNumeral (cs : List Char) : Option (Numeral × List Char) := do
  let negative := cs.head? = some '-'
  let (whole, cs) ← scanWhole (if negative then cs.tail else cs)
  let (fraction, cs) ← scanFraction cs
  let (exponent, cs) ← scanExponent cs
  return (⟨negative, whole, fraction, exponent⟩, cs)

/-! ## Lexing -/

/-- Takes one token off the front of a text that does not start with white space. -/
def next? : List Char → Option (Token × List Char)
  | '{' :: cs => some (.leftBrace, cs)
  | '}' :: cs => some (.rightBrace, cs)
  | '[' :: cs => some (.leftBracket, cs)
  | ']' :: cs => some (.rightBracket, cs)
  | ',' :: cs => some (.comma, cs)
  | ':' :: cs => some (.colon, cs)
  | 'n' :: 'u' :: 'l' :: 'l' :: cs => some (.null, cs)
  | 't' :: 'r' :: 'u' :: 'e' :: cs => some (.bool true, cs)
  | 'f' :: 'a' :: 'l' :: 's' :: 'e' :: cs => some (.bool false, cs)
  | '"' :: cs => do
    let (pieces, rest) ← scanString cs
    return (.string ((joinUnits pieces).map String.ofList), rest)
  | cs => (scanNumeral cs).map fun (n, rest) => (.number n, rest)

/-- The tokens of a text, of which at most `bound` characters are looked at. -/
def allWithin : (bound : Nat) → List Char → Option (List Token)
  | _, [] => some []
  | 0, _ :: _ => none
  | n + 1, c :: cs =>
    if isSpace c then allWithin n cs
    else do
      let (t, rest) ← next? (c :: cs)
      return t :: (← allWithin n rest)

/-- The tokens of a text; every step takes at least one character. -/
def all? (cs : List Char) : Option (List Token) := allWithin cs.length cs

/-! ## Writing -/

/-- A hexadecimal digit below sixteen. -/
def hexChar (n : Nat) : Char :=
  if n < 10 then Char.ofNat ('0'.toNat + n) else Char.ofNat ('a'.toNat + n - 10)

/-- A character inside a written string: control characters are escaped, by a letter where there is
one. -/
def escaped : Char → List Char
  | '"' => ['\\', '"']
  | '\\' => ['\\', '\\']
  | '\x08' => ['\\', 'b']
  | '\x0c' => ['\\', 'f']
  | '\n' => ['\\', 'n']
  | '\r' => ['\\', 'r']
  | '\t' => ['\\', 't']
  | c =>
    if c.toNat < 0x20 then ['\\', 'u', '0', '0', hexChar (c.toNat / 16), hexChar (c.toNat % 16)]
    else [c]

/-- A point and the digits after it, if there are any. -/
def fractionChars : List (Fin 10) → List Char
  | [] => []
  | d :: ds => '.' :: (d :: ds).map fun d => Char.ofNat ('0'.toNat + d.val)

/-- An integer with its digits. -/
def signedChars (n : Int) : List Char := (if n < 0 then ['-'] else []) ++ Nat.toDigits 10 n.natAbs

/-- An exponent, if there is one. -/
def exponentChars : Option Int → List Char
  | none => []
  | some e => 'e' :: signedChars e

/-- The written form of a numeral. -/
def numeralChars (n : Numeral) : List Char :=
  (if n.negative then ['-'] else []) ++
    (Nat.toDigits 10 n.whole ++ (fractionChars n.fraction ++ exponentChars n.exponent))

/-- The written form of a token. A string without text is written as a lone surrogate. -/
def chars : Token → List Char
  | leftBrace => ['{']
  | rightBrace => ['}']
  | leftBracket => ['[']
  | rightBracket => [']']
  | comma => [',']
  | colon => [':']
  | null => ['n', 'u', 'l', 'l']
  | bool true => ['t', 'r', 'u', 'e']
  | bool false => ['f', 'a', 'l', 's', 'e']
  | number n => numeralChars n
  | string (some s) => '"' :: s.toList.flatMap escaped ++ ['"']
  | string none => ['"', '\\', 'u', 'd', '8', '0', '0', '"']

end Token

end Narrative
