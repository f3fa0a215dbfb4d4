import Narrative.Toml.Scalar

/-!
# `Narrative.Toml.Parser` — TOML documents

## Contents
- **Keys.** `key?` reads a dotted key.
- **Values.** `value?` reads a value; arrays and written tables may be nested, fewer than eighty deep.
- **Documents.** `parse?` reads statement after statement into the root table.
-/

namespace Narrative.Toml

/-- Values and dotted keys are nested less deep than this. -/
def depthLimit : Nat := 80

/-! ## Keys -/

/-- Whether a character may stand in a key without quotes. -/
def isKeyChar (c : Char) : Bool := c.isAlphanum || c = '_' || c = '-'

/-- Takes one part of a key. -/
def simpleKey? (cs : List Char) : Option (String × List Char) :=
  match cs with
  | '"' :: rest => (basicString cs.length rest).map fun (k, rest) => (String.ofList k, rest)
  | '\'' :: rest => (literalString rest).map fun (k, rest) => (String.ofList k, rest)
  | _ =>
    match cs.span isKeyChar with
    | ([], _) => none
    | (k, rest) => some (String.ofList k, rest)

/-- Takes the parts of a key, with the blanks around them. -/
def keyParts? : (bound : Nat) → List Char → Option (List String × List Char)
  | 0, _ => none
  | n + 1, cs => do
    let (k, rest) ← simpleKey? (skipBlanks cs)
    match skipBlanks rest with
    | '.' :: rest => (keyParts? n rest).map fun (ks, rest) => (k :: ks, rest)
    | rest => return ([k], rest)

/-- Takes a dotted key: the tables it leads through, and its last part. -/
def key? (cs : List Char) : Option ((List String × String) × List Char) := do
  let (parts, rest) ← keyParts? (depthLimit - 1) cs
  return ((parts.dropLast, ← parts.getLast?), rest)

/-! ## Values -/

/-- Drops blanks, line ends and comments. -/
def skipFiller : (bound : Nat) → List Char → List Char
  | 0, cs => cs
  | n + 1, cs =>
    match skipLines cs with
    | '#' :: rest => skipFiller n (rest.dropWhile isPlain)
    | rest => rest

mutual

/-- Takes a value that is nested `depth` deep. -/
def value? : (bound : Nat) → (depth : Nat) → List Char → Option (Toml × List Char)
  | 0, _, _ => none
  | n + 1, depth, cs =>
    match cs with
    | '"' :: _ => (string? cs).map fun (s, rest) => (.string s, rest)
    | '\'' :: _ => (string? cs).map fun (s, rest) => (.string s, rest)
    | 't' :: 'r' :: 'u' :: 'e' :: rest => some (.bool true, rest)
    | 'f' :: 'a' :: 'l' :: 's' :: 'e' :: rest => some (.bool false, rest)
    | '[' :: rest =>
      if depthLimit ≤ depth + 1 then none
      else (items? n (depth + 1) rest).map fun (xs, rest) => (.array xs, rest)
    | '{' :: rest =>
      if depthLimit ≤ depth + 1 then none
      else
        match skipBlanks rest with
        | '}' :: rest => some (.table .written [], rest)
        | rest => (entries? n (depth + 1) [] rest).map fun (ms, rest) => (.table .written ms, rest)
    | _ => number? cs

/-- Takes the items of an array with the closing bracket. -/
def items? : (bound : Nat) → (depth : Nat) → List Char → Option (List Toml × List Char)
  | 0, _, _ => none
  | n + 1, depth, cs =>
    match skipFiller cs.length cs with
    | ']' :: rest => some ([], rest)
    | cs => do
      let (x, rest) ← value? n depth cs
      match skipFiller rest.length rest with
      | ']' :: rest => return ([x], rest)
      | ',' :: rest => (items? n depth rest).map fun (xs, rest) => (x :: xs, rest)
      | _ => none

/-- Takes the entries of a written table, of which there is at least one more, with the closing
brace. -/
def entries? : (bound : Nat) → (depth : Nat) → Members → List Char → Option (Members × List Char)
  | 0, _, _, _ => none
  | n + 1, depth, ms, cs => do
    let ((path, k), rest) ← key? cs
    let (v, rest) ← value? n depth (skipBlanks (← char? '=' rest))
    let ms ← ms.define path k v
    match skipBlanks rest with
    | '}' :: rest => return (ms, rest)
    | ',' :: rest => entries? n depth ms rest
    | _ => none

end

/-! ## Documents -/

/-- A table being filled: the root, and the path of the table that entries go to. -/
structure Filling where
  root : Members
  path : List String

/-- Takes one statement: an entry or a header, with its line end. -/
def statement? (f : Filling) (cs : List Char) : Option (Filling × List Char) :=
  match cs with
  | '[' :: '[' :: rest => do
    let ((path, k), rest) ← key? rest
    let rest ← lineEnd? (← char? ']' (← char? ']' rest))
    return (⟨← f.root.modifyAt path (·.openElement k), path ++ [k]⟩, rest)
  | '[' :: rest => do
    let ((path, k), rest) ← key? rest
    let rest ← lineEnd? (← char? ']' rest)
    return (⟨← f.root.modifyAt path (·.openTable k), path ++ [k]⟩, rest)
  | _ => do
    let ((path, k), rest) ← key? cs
    let (v, rest) ← value? cs.length 0 (skipBlanks (← char? '=' rest))
    let rest ← lineEnd? rest
    return (⟨← f.root.modifyAt f.path (·.define path k v), f.path⟩, rest)

/-- Takes all statements; each one takes at least one character. -/
def statements? : (bound : Nat) → Filling → List Char → Option Members
  | bound, f, cs =>
    match skipBlanks cs with
    | [] => some f.root
    | c :: cs =>
      match bound with
      | 0 => none
      | n + 1 =>
        if c = '\n' || c = '\r' || c = '#' then (lineEnd? (c :: cs)).bind (statements? n f)
        else (statement? f (c :: cs)).bind fun (f, rest) => statements? n f rest

/-- The root table of a document. A byte order mark at the start is dropped. -/
def parse? (text : String) : Option Members :=
  match text.toList with
  | '\ufeff' :: cs => statements? cs.length ⟨[], []⟩ cs
  | cs => statements? cs.length ⟨[], []⟩ cs

end Narrative.Toml
