import Narrative.Json.Token
import Narrative.Number.Decimal
import Narrative.Number.Word
import Narrative.Toml.Document

/-!
# `Narrative.Toml.Scalar` — characters, strings, numbers and dates

Every reader takes characters off the front of a text and gives what it read with the rest.

## Contents
- **Characters.** White space, line ends and comments.
- **Strings.** Basic and literal, on one line or on several.
- **Numbers.** Integers in four bases, floats, `inf` and `nan`.
- **Dates.** Dates, times and offsets, checked against the calendar.
-/

namespace Narrative.Toml

/-! ## Characters -/

/-- A space or a tab. -/
def isBlank (c : Char) : Bool := c = ' ' || c = '\t'

/-- Drops spaces and tabs. -/
def skipBlanks (cs : List Char) : List Char := cs.dropWhile isBlank

/-- What may stand in a comment or in a string: no control character but the tab. -/
def isPlain (c : Char) : Bool := c = '\t' || (0x20 ≤ c.toNat && c.toNat != 0x7f)

/-- Takes a line end. -/
def newline? : List Char → Option (List Char)
  | '\n' :: cs => some cs
  | '\r' :: '\n' :: cs => some cs
  | _ => none

/-- Drops a comment, up to the end of its line. -/
def skipComment : List Char → List Char
  | '#' :: cs => cs.dropWhile isPlain
  | cs => cs

/-- Takes what may follow a statement on its line, with the line end. -/
def lineEnd? (cs : List Char) : Option (List Char) :=
  match skipComment (skipBlanks cs) with
  | [] => some []
  | rest => newline? rest

/-- Drops spaces, tabs and line ends. -/
def skipLines : List Char → List Char
  | '\r' :: '\n' :: cs => skipLines cs
  | c :: cs => if isBlank c || c = '\n' then skipLines cs else c :: cs
  | [] => []

/-! ## Strings -/

/-- The character of a code point, if it has one. -/
def charOf? (n : Nat) : Option Char := if n.isValidChar then some (Char.ofNat n) else none

/-- The number that hexadecimal digits name. -/
def hexValue? (cs : List Char) : Option Nat :=
  (cs.mapM Token.hexDigit?).map (·.foldl (fun n d => n * 16 + d) 0)

/-- Takes what follows a backslash. -/
def escape? : List Char → Option (Char × List Char)
  | 'b' :: cs => some ('\x08', cs)
  | 't' :: cs => some ('\t', cs)
  | 'n' :: cs => some ('\n', cs)
  | 'f' :: cs => some ('\x0c', cs)
  | 'r' :: cs => some ('\r', cs)
  | '"' :: cs => some ('"', cs)
  | '\\' :: cs => some ('\\', cs)
  | 'u' :: cs =>
    if cs.length < 4 then none else do return (← charOf? (← hexValue? (cs.take 4)), cs.drop 4)
  | 'U' :: cs =>
    if cs.length < 8 then none else do return (← charOf? (← hexValue? (cs.take 8)), cs.drop 8)
  | _ => none

/-- Puts characters before what a reader read. -/
def before (cs : List Char) : Option (List Char × List Char) → Option (List Char × List Char) :=
  Option.map fun (ds, rest) => (cs ++ ds, rest)

/-- Reads a string in double quotes after the first of them. -/
def basicString : (bound : Nat) → List Char → Option (List Char × List Char)
  | 0, _ => none
  | n + 1, cs =>
    match cs with
    | '"' :: rest => some ([], rest)
    | '\\' :: rest => do
      let (c, rest) ← escape? rest
      before [c] (basicString n rest)
    | c :: rest => if isPlain c then before [c] (basicString n rest) else none
    | [] => none

/-- Reads a string in single quotes after the first of them. -/
def literalString (cs : List Char) : Option (List Char × List Char) :=
  match cs.span fun c => isPlain c && c != '\'' with
  | (text, '\'' :: rest) => some (text, rest)
  | _ => none

/-- Reads a string of several lines after its three opening quotes. Up to two quotes are text; three
close the string, with up to two more before them. A backslash at the end of a line drops what is
blank after it. -/
def longString (quote : Char) : (bound : Nat) → List Char → Option (List Char × List Char)
  | 0, _ => none
  | n + 1, cs =>
    match cs with
    | [] => none
    | '\r' :: rest => (newline? cs).bind fun _ => before ['\n'] (longString quote n rest.tail)
    | c :: rest =>
      if c = quote then
        let run := cs.takeWhile (· = quote)
        let rest := cs.drop run.length
        if run.length < 3 then before run (longString quote n rest)
        else if run.length ≤ 5 then some (run.drop 3, rest)
        else none
      else if c = '\\' && quote = '"' then
        match newline? (skipBlanks rest) with
        | some rest => longString quote n (skipLines rest)
        | none => do
          let (c, rest) ← escape? rest
          before [c] (longString quote n rest)
      else if isPlain c || c = '\n' then before [c] (longString quote n rest)
      else none

/-- Reads a string. A line end right after three opening quotes is dropped. -/
def string? (cs : List Char) : Option (String × List Char) :=
  let read := match cs with
    | '"' :: '"' :: '"' :: rest => longString '"' cs.length ((newline? rest).getD rest)
    | '\'' :: '\'' :: '\'' :: rest => longString '\'' cs.length ((newline? rest).getD rest)
    | '"' :: rest => basicString cs.length rest
    | '\'' :: rest => literalString rest
    | _ => none
  read.map fun (text, rest) => (String.ofList text, rest)

/-! ## Numbers -/

/-- Takes digits for which `isDigit` holds; an underscore may stand between two of them. -/
def digits (isDigit : Char → Bool) : List Char → List Char × List Char
  | [] => ([], [])
  | c :: cs =>
    if isDigit c then
      let (ds, rest) := match cs with
        | '_' :: d :: cs => if isDigit d then digits isDigit (d :: cs) else ([], '_' :: d :: cs)
        | cs => digits isDigit cs
      (c :: ds, rest)
    else ([], c :: cs)

/-- Takes at least one decimal digit. -/
def decimals? (cs : List Char) : Option (List Char × List Char) :=
  match digits Char.isDigit cs with
  | ([], _) => none
  | (ds, rest) => some (ds, rest)

/-- Takes a sign; whether it is a minus. -/
def sign : List Char → Bool × List Char
  | '-' :: cs => (true, cs)
  | '+' :: cs => (false, cs)
  | cs => (false, cs)

/-- Takes the whole part of a decimal number: a zero, or digits that do not start with one. -/
def whole? : List Char → Option (List Char × List Char)
  | '0' :: cs => some (['0'], cs)
  | cs => decimals? cs

/-- Takes a fraction: a point and digits. -/
def fraction? : List Char → Option (List Char × List Char)
  | '.' :: cs => decimals? cs
  | _ => none

/-- Takes an exponent. -/
def exponent? : List Char → Option (Int × List Char)
  | c :: cs =>
    if c = 'e' || c = 'E' then do
      let (negative, cs) := sign cs
      let (ds, rest) ← decimals? cs
      let n : Int := Token.digitsValue ds
      return (if negative then -n else n, rest)
    else none
  | [] => none

/-- Whether a character is a digit in a base of at most sixteen. -/
def isDigitIn (base : Nat) (c : Char) : Bool := (Token.hexDigit? c).any (· < base)

/-- Takes an integer with the given digits after its mark. -/
def based? (base : Nat) (cs : List Char) : Option (Toml × List Char) :=
  match digits (isDigitIn base) cs with
  | ([], _) => none
  | (ds, rest) => do
    let n ← ds.mapM Token.hexDigit?
    return (.integer (← int64? (n.foldl (fun n d => n * base + d) 0 : Nat)), rest)

/-- Takes an integer. -/
def integer? : List Char → Option (Toml × List Char)
  | '0' :: 'x' :: cs => based? 16 cs
  | '0' :: 'o' :: cs => based? 8 cs
  | '0' :: 'b' :: cs => based? 2 cs
  | cs => do
    let (negative, cs) := sign cs
    let (ds, rest) ← whole? cs
    let n : Int := Token.digitsValue ds
    return (.integer (← int64? (if negative then -n else n)), rest)

/-- Takes `inf` or `nan`. -/
def named? : List Char → Option (Float × List Char)
  | 'i' :: 'n' :: 'f' :: cs => some (1 / 0, cs)
  | 'n' :: 'a' :: 'n' :: cs => some (0 / 0, cs)
  | _ => none

/-- Takes the digits of a float: a whole part with a fraction, an exponent or both. A value too large
for a double is refused unless it is negative. -/
def decimalFloat? (negative : Bool) (cs : List Char) : Option (Float × List Char) := do
  let (whole, cs) ← whole? cs
  let (fraction, cs') := (fraction? cs).getD ([], cs)
  let (exponent, rest) := (exponent? cs').getD (0, cs')
  if fraction.isEmpty && rest.length = cs'.length then none
  let x := decimalToFloat (Token.digitsValue (whole ++ fraction)) (exponent - fraction.length)
  if x.isInf && !negative then none
  return (x, rest)

/-- Takes a float. -/
def float? (cs : List Char) : Option (Toml × List Char) := do
  let (negative, cs) := sign cs
  let (x, rest) ← (decimalFloat? negative cs).or (named? cs)
  return (.float (if negative then -x else x), rest)

/-! ## Dates -/

/-- Takes `n` decimal digits whose value lies between two bounds. -/
def fixed? (n low high : Nat) (cs : List Char) : Option (Nat × List Char) :=
  let ds := cs.take n
  let value := Token.digitsValue ds
  if ds.length = n && ds.all Char.isDigit && low ≤ value && value ≤ high then some (value,
    cs.drop n) else none

/-- Takes one given character. -/
def char? (c : Char) : List Char → Option (List Char)
  | d :: cs => if d = c then some cs else none
  | [] => none

/-- The number of days of a month. -/
def daysIn (year month : Nat) : Nat :=
  if month = 2 then if year % 4 = 0 && (year % 100 != 0 || year % 400 = 0) then 29 else 28
  else if month = 4 || month = 6 || month = 9 || month = 11 then 30
  else 31

/-- Takes a date. -/
def date? (cs : List Char) : Option (List Char) := do
  let (year, cs) ← fixed? 4 0 9999 cs
  let (month, cs) ← fixed? 2 1 12 (← char? '-' cs)
  let (_, cs) ← fixed? 2 1 (daysIn year month) (← char? '-' cs)
  return cs

/-- Takes a time of day, with a fraction of the second if there is one. -/
def time? (cs : List Char) : Option (List Char) := do
  let (_, cs) ← fixed? 2 0 23 cs
  let (_, cs) ← fixed? 2 0 59 (← char? ':' cs)
  let (_, cs) ← fixed? 2 0 60 (← char? ':' cs)
  match cs with
  | '.' :: rest =>
    let fraction := rest.takeWhile Char.isDigit
    return if fraction.isEmpty then cs else rest.drop fraction.length
  | _ => return cs

/-- Takes the offset of a time. -/
def offset? : List Char → Option (List Char)
  | c :: cs =>
    if c = 'Z' || c = 'z' then some cs
    else if c = '+' || c = '-' then do
      let (_, cs) ← fixed? 2 0 23 cs
      let (_, cs) ← fixed? 2 0 59 (← char? ':' cs)
      return cs
    else none
  | [] => none

/-- Takes a date, a time, or both with an offset. -/
def datetime? (cs : List Char) : Option (List Char) :=
  match date? cs with
  | none => time? cs
  | some rest =>
    match rest with
    | c :: cs =>
      if c = 'T' || c = 't' || c = ' ' then
        match time? cs with
        | some cs => some ((offset? cs).getD cs)
        | none => some rest
      else some rest
    | [] => some []

/-- Takes a date, a float or an integer. -/
def number? (cs : List Char) : Option (Toml × List Char) :=
  match datetime? cs with
  | some rest => some (.datetime, rest)
  | none => (float? cs).or (integer? cs)

end Narrative.Toml
