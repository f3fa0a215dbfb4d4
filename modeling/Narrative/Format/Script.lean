import Narrative.Format.Plot
import Narrative.Script

/-!
# `Narrative.Format.Script` — story files

A story file is the JSON form of a script. Most fields have two names, of which the first is written;
a field that is left out has its default.

## Contents
- `CharacteristicDecl`, `ActionDecl`, `Script`.
- `Script.parse` reads a story file.
-/

namespace Narrative

open Json

instance : ToJson CharacteristicDecl := ⟨fun d => .object [
  ("name", toJson d.character),
  ("class", toJson d.category),
  ("type", toJson d.subtype),
  ("value", toJson d.value)]⟩

instance : OfJson CharacteristicDecl := ⟨fun j => do
  let r ← record? 4 j
  return {
    character := ← r.required 0 ["name", "character"]
    category := ← r.required 1 ["class", "category"]
    subtype := ← r.required 2 ["type", "subtype"]
    value := ← r.required 3 ["value"] }⟩

instance : ToJson ActionDecl := ⟨fun d => .object [
  ("uid", toJson d.uid),
  ("name", toJson d.name),
  ("first", toJson d.first),
  ("class", toJson d.label),
  ("preconditions", toJson d.preconditions),
  ("expressions", toJson d.effects),
  ("leadsTo", toJson d.leadsTo)]⟩

instance : OfJson ActionDecl := ⟨fun j => do
  let r ← record? 7 j
  return {
    uid := ← r.required 0 ["uid"]
    name := ← r.required 1 ["name"]
    first := ← r.defaulted 2 ["first"] false
    label := ← r.defaulted 3 ["class", "category"] none
    preconditions := ← r.defaulted 4 ["preconditions"] []
    effects := ← r.defaulted 5 ["expressions"] []
    leadsTo := ← r.defaulted 6 ["leadsTo", "leads_to"] [] }⟩

instance : ToJson Script := ⟨fun s => .object [
  ("categories", toJson s.categories),
  ("characters", toJson s.characters),
  ("characteristics", toJson s.characteristics),
  ("actions", toJson s.actions)]⟩

instance : OfJson Script := ⟨fun j => do
  let r ← record? 4 j
  return {
    categories := ← r.defaulted 0 ["categories"] []
    characters := ← r.defaulted 1 ["characters"] []
    characteristics := ← r.defaulted 2 ["characteristics"] []
    actions := ← r.defaulted 3 ["actions"] .empty }⟩

namespace Script

/-- Reads a story file. -/
def parse (text : String) : Except StoryError Script :=
  match ofText? Script text with
  | some s => .ok s
  | none => .error .unreadableScript

/-- Writes a story file. -/
def render (s : Script) : String := (toJson s).render

end Script

end Narrative
