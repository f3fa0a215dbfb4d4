import Narrative.Json.Record
import Narrative.Story.Basic
import Narrative.Toml.Parser

/-!
# `Narrative.Format.Settings` — settings files

Settings are read from JSON or from TOML. Every field has a default, and fields with other names are
passed over.

## Contents
- **JSON.** The instance for `Settings`.
- **TOML.** `Settings.ofMembers?` reads a root table; `Settings.parse` reads a file and checks it.
-/

namespace Narrative

open Json

/-! ## JSON -/

instance : OfJson Settings := ⟨fun j => do
  let r ← record? 4 j
  return {
    conversationType := ← r.defaulted 0 ["conversation_type"] Settings.default.conversationType
    recencyWeight := ← r.defaulted 1 ["recency_weight"] Settings.default.recencyWeight
    defaultMaxOptions := ← r.defaulted 2 ["default_max_options"] Settings.default.defaultMaxOptions
    seed := ← r.defaulted 3 ["seed"] Settings.default.seed }⟩

/-! ## TOML -/

/-- A float or an integer as a binary32 value. -/
def Toml.binary32? : Toml → Option Binary32
  | .float x => some (.ofFloat x)
  | .integer n => some (.ofInt n.toInt)
  | _ => none

/-- An integer that is not negative. -/
def Toml.uint64? : Toml → Option UInt64
  | .integer n => if 0 ≤ n then some n.toUInt64 else none
  | _ => none

/-- Reads an entry with a default. -/
def Toml.Members.read? {α : Type} (ms : Members) (key : String) (default : α)
    (read : Toml → Option α) : Option α :=
  match ms.get? key with
  | none => some default
  | some v => read v

namespace Settings

/-- The settings that a root table holds. -/
def ofMembers? (ms : Toml.Members) : Option Settings := do
  return {
    conversationType := ← ms.read? "conversation_type" default.conversationType Toml.binary32?
    recencyWeight := ← ms.read? "recency_weight" default.recencyWeight Toml.binary32?
    defaultMaxOptions := ← ms.read? "default_max_options" default.defaultMaxOptions Toml.uint64?
    seed := ← ms.read? "seed" default.seed fun v => v.uint64?.map some }

/-- Reads a settings file and checks the bounds. -/
def parse (text : String) : Except SettingsError Settings :=
  match (Toml.parse? text).bind ofMembers? with
  | none => .error .unreadable
  | some s => s.validate.map fun _ => s

end Settings

end Narrative
