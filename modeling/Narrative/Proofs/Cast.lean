import Narrative.Proofs.Outcome
import Narrative.Story.Removal

/-!
# `Proofs.Cast` — what a change of a story does to one character

Invariants speak of single characters, operations of the whole cast. The lemmas here say, for each way
in which the cast changes, which character stands under a name afterwards; the removals of a definition
come out as one map over the characters.

## Contents
- **The cast.** `get?` after `insert`, `remove`, `update`, `updateAll` and `setSheet`; who is still
  there; `Story.ext_cast`.
- **Conditions.** What the filters of the removals pick; `Action.without`, `Character.without` and
  the stories without picked conditions.
- **Removals.** `removeCategory_ok`, `removeSubtype_ok`, `removeCharacter_ok`, `removeAction_ok`.
-/

namespace Narrative
open Outcome

/-! ## The cast -/

namespace Cast

variable {cast cast' : Cast} {name : String}

theorem get?_update (cast : Cast) (name : String) (f : Character → Character) (name' : String) :
    (cast.update name f).get? name' = if name' = name then (cast.get? name).map f else cast.get? name' :=
  SortedMap.get?_modify cast.characters name name' f

/-- Changes of one character come to one change. -/
theorem update_update (cast : Cast) (name : String) (f g : Character → Character) :
    (cast.update name f).update name g = cast.update name fun c => g (f c) := by
  refine congrArg Cast.mk (SortedMap.ext fun name' => ?_)
  show ((cast.update name f).update name g).get? name' = (cast.update name _).get? name'
  rw [get?_update, get?_update, get?_update, get?_update, if_pos rfl, Option.map_map]
  split <;> rfl

theorem get?_updateAll (cast : Cast) (f : Character → Character) (name : String) :
    (cast.updateAll f).get? name = (cast.get? name).map f :=
  SortedMap.get?_map f cast.characters name

theorem get?_remove (cast : Cast) (removed name : String) :
    (cast.remove removed).get? name = if name = removed then none else cast.get? name :=
  SortedMap.get?_erase cast.characters removed name

theorem contains_iff : cast.contains name = true ↔ ∃ c, cast.get? name = some c :=
  Option.isSome_iff_exists

theorem not_contains_iff : cast.contains name = false ↔ cast.get? name = none := by
  rw [← Bool.not_eq_true]
  exact Option.not_isSome_iff_eq_none

/-- A character that joins has a name that is new, not empty and free of the separator. -/
theorem insert_eq_ok {c : Character} (h : cast.insert c = .ok cast') :
    c.name ≠ "" ∧ Key.checkName c.name = .ok () ∧ cast.get? c.name = none ∧
      ∀ name, cast'.get? name = if name = c.name then some c else cast.get? name := by
  unfold insert at h
  obtain ⟨hempty, h⟩ := guard_eq_ok.mp h
  obtain ⟨_, hsep, h⟩ := bind_eq_ok.mp h
  obtain ⟨hnew, h⟩ := guard_eq_ok.mp h
  cases h
  refine ⟨hempty, hsep, Option.not_isSome_iff_eq_none.mp hnew, fun name => ?_⟩
  exact SortedMap.get?_insert cast.characters c.name name c

/-- Setting a sheet changes the sheet of one character and nothing else of anyone. -/
theorem get?_setSheet (cast : Cast) (name : String) (sheet : Sheet) (name' : String) :
    (setSheet cast name sheet).get? name' =
      if name' = name then (cast.get? name).map fun c => { c with sheet := sheet }
        else cast.get? name' :=
  get?_update cast name _ name'

theorem contains_update (cast : Cast) (name : String) (f : Character → Character) (name' : String) :
    (cast.update name f).contains name' = cast.contains name' := by
  show ((cast.update name f).get? name').isSome = (cast.get? name').isSome
  rw [get?_update]
  by_cases hn : name' = name
  · rw [if_pos hn, hn, Option.isSome_map]
  · rw [if_neg hn]

/-- Where a change maps over the characters, the cast is the same. -/
theorem contains_of_map {name : String} {f : Character → Character}
    (h : cast'.get? name = (cast.get? name).map f) :
    cast'.contains name = cast.contains name := by
  show (cast'.get? name).isSome = (cast.get? name).isSome
  rw [h, Option.isSome_map]

end Cast

theorem sheet?_cast (cast : Cast) (name : String) :
    sheet? cast name = (cast.get? name).map (·.sheet) :=
  rfl

theorem isSome_sheet?_cast (cast : Cast) (name : String) :
    (sheet? cast name).isSome = cast.contains name := by
  rw [sheet?_cast, Option.isSome_map]; rfl

/-- Two stories are the same if their parts are, the cast name by name. -/
theorem Story.ext_cast {s s' : Story} (hsettings : s.settings = s'.settings)
    (hregistry : s.registry = s'.registry) (hsource : s.source = s'.source)
    (hcast : ∀ name, s.cast.get? name = s'.cast.get? name) : s = s' := by
  have hsame : s.cast = s'.cast := congrArg Cast.mk (SortedMap.ext hcast)
  cases s
  cases s'
  simp only at hsettings hregistry hsource hsame
  rw [hsettings, hregistry, hsource, hsame]

/-! ## Conditions -/

namespace ConditionFilter

variable {f : ConditionFilter} {owner category subtype target : String} {uid : Uid} {t : Target}

theorem fits_iff {α : Type} [DecidableEq α] {field : Option α} {a : α} :
    fits field a = true ↔ ∀ b, field = some b → b = a := by
  unfold fits
  rw [Option.all_eq_true]
  simp

/-- **A filter picks what agrees with it in every field that it sets**: the owner of the plot and
the uid of the action on one side, the character, category and subtype that the condition is about
on the other. -/
theorem picks_iff : f.picks owner uid t = true ↔
    ((∀ name, f.owner = some name → name = owner) ∧ ∀ n, f.uid = some n → n = uid) ∧
      (∀ name, f.target = some name → name = t.character) ∧
      (∀ name, f.category = some name → name = t.category) ∧
      ∀ name, f.subtype = some name → name = t.subtype := by
  unfold picks
  rw [Bool.and_eq_true, Bool.and_eq_true, Bool.and_eq_true, Bool.and_eq_true, fits_iff, fits_iff,
    fits_iff, fits_iff, fits_iff, and_assoc, and_assoc]

/-- A filter by category looks at the category only; the other two likewise. -/
theorem picks_category :
    picks { any with category := some category } owner uid t = true ↔ t.category = category := by
  rw [picks_iff]
  simpa [any] using eq_comm

theorem picks_subtype :
    picks { any with category := some category, subtype := some subtype } owner uid t = true ↔
    t.category = category ∧ t.subtype = subtype := by
  rw [picks_iff]
  simpa [any] using and_congr eq_comm eq_comm

theorem picks_target :
    picks { any with target := some target } owner uid t = true ↔ t.character = target := by
  rw [picks_iff]
  simpa [any] using eq_comm

end ConditionFilter

/-- The action of an owner's plot without the preconditions and effects that a filter picks. -/
def Action.without (f : ConditionFilter) (owner : String) (a : Action) : Action :=
  { a with
    preconditions := a.preconditions.filter (!Story.picksPrecondition f owner a ·)
    effects := a.effects.filter (!Story.picksEffect f owner a ·) }

/-- The character without the conditions in its plot that a filter picks. -/
def Character.without (f : ConditionFilter) (c : Character) : Character :=
  { c with plot := c.plot.updateAll (Action.without f c.name) }

namespace Plot

theorem action?_updateAll (p : Plot) (f : Action → Action) (uid : Uid) :
    (p.updateAll f).action? uid = (p.action? uid).map f :=
  SortedMap.get?_map f p.actions uid

theorem updateAll_updateAll (p : Plot) (f g : Action → Action) :
    (p.updateAll f).updateAll g = p.updateAll fun a => g (f a) := by
  unfold updateAll
  refine congrArg (fun actions => { p with actions := actions }) (SortedMap.ext fun uid => ?_)
  rw [SortedMap.get?_map, SortedMap.get?_map, SortedMap.get?_map, Option.map_map]
  rfl

end Plot

namespace Story

variable {s s' : Story} {category subtype name : String}

theorem get?_mapActions (s : Story) (f : String → Action → Action) (name : String) :
    (s.mapActions f).cast.get? name =
      (s.cast.get? name).map fun c => { c with plot := c.plot.updateAll (f c.name) } :=
  Cast.get?_updateAll s.cast _ name

/-- Removing the conditions that a filter picks is one pass over the plots. -/
theorem get?_withoutConditions (s : Story) (f : ConditionFilter) (name : String) :
    (s.withoutConditions f).cast.get? name = (s.cast.get? name).map (Character.without f) := by
  unfold withoutConditions withoutEffects withoutPreconditions
  rw [get?_mapActions, get?_mapActions, Option.map_map]
  refine congrArg (Option.map · _) (funext fun c => ?_)
  show { c with plot := (c.plot.updateAll _).updateAll _ } = { c with plot := c.plot.updateAll _ }
  rw [Plot.updateAll_updateAll]
  rfl

/-! ## Removals -/

theorem removeCategory_ok (h : s.removeCategory category = .ok s') :
    s'.settings = s.settings ∧ s'.source = s.source ∧ s'.registry = s.registry.removeCategory category ∧
    ∀ name, s'.cast.get? name = (s.cast.get? name).map fun c =>
      { c with
        sheet := c.sheet.removeCategory category
        memory := c.memory.retainKeys fun key => Key.category? key != some category
        plot := c.plot.updateAll (Action.without
          { ConditionFilter.any with category := some category } c.name) } := by
  unfold removeCategory at h
  split at h
  · cases h
  · cases h
    refine ⟨rfl, rfl, rfl, fun name => ?_⟩
    rw [get?_withoutConditions, Cast.get?_updateAll, Option.map_map]
    rfl

theorem removeSubtype_ok (h : s.removeSubtype category subtype = .ok s') :
    s'.settings = s.settings ∧ s'.source = s.source ∧
    s'.registry = s.registry.removeSubtype category subtype ∧
    ∀ name, s'.cast.get? name = (s.cast.get? name).map fun c =>
      { c with
        sheet := c.sheet.removeSubtype category subtype
        memory := c.memory.retainKeys fun key =>
          Key.category? key != some category || Key.subtype? key != some subtype
        plot := c.plot.updateAll (Action.without
          { ConditionFilter.any with category := some category, subtype := some subtype }
          c.name) } := by
  unfold removeSubtype at h
  split at h
  · cases h
  · split at h
    · cases h
      refine ⟨rfl, rfl, rfl, fun name => ?_⟩
      rw [get?_withoutConditions, Cast.get?_updateAll, Option.map_map]
      rfl
    · cases h

theorem removeCharacter_ok {removed : String} (h : s.removeCharacter removed = .ok s') :
    s'.settings = s.settings ∧ s'.source = s.source ∧ s'.registry = s.registry ∧
    ∀ name, s'.cast.get? name = if name = removed then none else (s.cast.get? name).map fun c =>
      { c with
        memory := c.memory.retainKeys fun key => !Key.belongsTo key removed
        plot := c.plot.updateAll (Action.without
          { ConditionFilter.any with target := some removed } c.name) } := by
  obtain ⟨_, _, h⟩ := bind_eq_ok.mp h
  cases h
  refine ⟨rfl, rfl, rfl, fun name => ?_⟩
  rw [get?_withoutConditions, Cast.get?_updateAll, Cast.get?_remove]
  by_cases hn : name = removed
  · rw [if_pos hn, if_pos hn]; rfl
  · rw [if_neg hn, if_neg hn, Option.map_map]
    rfl

theorem removeAction_ok {uid : Uid} (h : s.removeAction name uid = .ok s') :
    s' = { s with cast := s.cast.update name fun c => { c with plot := c.plot.removeAction uid } } := by
  obtain ⟨_, _, h⟩ := bind_eq_ok.mp h
  exact (Except.ok.inj h).symm

end Story

end Narrative
