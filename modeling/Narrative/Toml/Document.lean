/-!
# `Narrative.Toml.Document` — TOML values and how a document builds them

A document fills one root table, statement by statement. Each table remembers how it came about, since
that decides what may still be added to it.

## Contents
- **The type.** `Toml` and `Origin`; `Members` are the entries of a table.
- **Entries.** `define` sets a value under a dotted key.
- **Headers.** `openTable` and `openElement` start the table that the following entries belong to.
-/

namespace Narrative

namespace Toml

/-- How a table came about. -/
inductive Origin where
  /-- By a header of its own. -/
  | header
  /-- As part of a longer header. -/
  | implied
  /-- As part of a dotted key. -/
  | dotted
  /-- Written out as a value. -/
  | written
deriving DecidableEq

end Toml

/-- A TOML value. -/
inductive Toml where
  | string (text : String)
  | integer (value : Int64)
  | float (value : Float)
  | bool (value : Bool)
  /-- A date, a time or both; only its form is checked. -/
  | datetime
  | array (items : List Toml)
  | table (origin : Toml.Origin) (members : List (String × Toml))
  /-- The tables of repeated `[[…]]` headers. -/
  | tables (elements : List (List (String × Toml)))

namespace Toml

/-- The entries of a table; no key stands twice. -/
abbrev Members := List (String × Toml)

namespace Members

/-- The value of a key. -/
def get? (ms : Members) (key : String) : Option Toml := ms.lookup key

/-- Replaces the value of a key that is there. -/
def replace (ms : Members) (key : String) (v : Toml) : Members :=
  ms.map fun m => if m.1 = key then (key, v) else m

/-- Adds a key that is not there. -/
def add (ms : Members) (key : String) (v : Toml) : Members := ms ++ [(key, v)]

/-! ## Entries -/

/-- Sets a value under a dotted key: the tables of `path`, then `key`. The last of the tables must have
come about by dotted keys alone, the others may be implied by headers as well. -/
def define : (path : List String) → (key : String) → Toml → Members → Option Members
  | [], key, v, ms => if (ms.get? key).isSome then none else some (ms.add key v)
  | p :: ps, key, v, ms =>
    match ms.get? p with
    | none => (define ps key v []).map fun inner => ms.add p (.table .dotted inner)
    | some (.table origin inner) =>
      if origin = .dotted || (origin = .implied && !ps.isEmpty) then
        (define ps key v inner).map fun inner => ms.replace p (.table origin inner)
      else none
    | some _ => none

/-! ## Headers -/

/-- Changes the table at the end of `path`. Tables on the way that are not there are implied; of
repeated tables the latest is meant; a value is no way through. -/
def modifyAt : (path : List String) → (Members → Option Members) → Members → Option Members
  | [], f, ms => f ms
  | p :: ps, f, ms =>
    match ms.get? p with
    | none => (modifyAt ps f []).map fun inner => ms.add p (.table .implied inner)
    | some (.table origin inner) =>
      if origin = .written then none
      else (modifyAt ps f inner).map fun inner => ms.replace p (.table origin inner)
    | some (.tables elements) =>
      match elements.getLast? with
      | none => none
      | some inner =>
        (modifyAt ps f inner).map fun inner => ms.replace p (.tables (elements.dropLast ++ [inner]))
    | some _ => none

/-- Starts a table under `key`; one that was only implied may get its header now. -/
def openTable (key : String) (ms : Members) : Option Members :=
  match ms.get? key with
  | none => some (ms.add key (.table .header []))
  | some (.table .implied inner) => some (ms.replace key (.table .header inner))
  | some _ => none

/-- Starts one more of the repeated tables under `key`. -/
def openElement (key : String) (ms : Members) : Option Members :=
  match ms.get? key with
  | none => some (ms.add key (.tables [[]]))
  | some (.tables elements) => some (ms.replace key (.tables (elements ++ [[]])))
  | some _ => none

end Members

end Toml

end Narrative
