import Narrative.Proofs.Cast
import Narrative.Proofs.Run
import Narrative.Proofs.Typing

/-!
# `Proofs.Agreement` — sheets agree with the registry

A characteristic carries a copy of the range that its category had when it was first referred to. Since
then categories may have been taken out and defined anew, with another kind or another range. The copy is
never stale nevertheless: what takes an attribute out of the registry takes it off every sheet, and what
gives a category more subtypes leaves its kind alone.

## Contents
- **Sheets.** `Sheet.Agrees` and how writes, removals and growing registries keep it.
- **Stories.** `Story.Sound`, kept by every step; the main result `sheets_agree`.
-/

namespace Narrative
open Outcome

/-! ## Sheets -/

namespace Sheet

/-- A sheet **agrees** with a registry: each characteristic names the place where it stands, its
attribute is registered, and it has the registered range and kind; no row is empty. -/
structure Agrees (s : Sheet) (r : Registry) : Prop where
  entry : ∀ {category subtype : String} {c : Characteristic}, s.get? category subtype = some c →
    c.category = category ∧ c.subtype = subtype ∧ ∃ d, r.check category subtype = .ok d ∧ c.Fits d
  tidy : s.Tidy

variable {s : Sheet} {r r' : Registry} {category subtype : String} {d : Category}

theorem agrees_empty (r : Registry) : Agrees empty r := ⟨fun h => (nomatch h), tidy_empty⟩

/-- A sheet that agrees with a registry fits it. -/
theorem Agrees.fits (hs : s.Agrees r) : s.Fits r := by
  intro category subtype d c h hc
  obtain ⟨_, _, d', hd', hfits⟩ := hs.entry hc
  rw [h] at hd'
  cases hd'
  exact hfits

/-- A growing registry takes no agreement away. -/
theorem Agrees.mono (hs : s.Agrees r) (hr : r.Extends r') : s.Agrees r' := by
  refine ⟨fun {category subtype c} hc => ?_, hs.tidy⟩
  obtain ⟨hcat, hsub, d, hd, hfits⟩ := hs.entry hc
  obtain ⟨d', hd', hkind⟩ := hr category subtype d hd
  exact ⟨hcat, hsub, d', hd', hfits.of_kind_eq hkind⟩

theorem Agrees.put (hs : s.Agrees r) (h : r.check category subtype = .ok d) {c : Characteristic}
    (hcat : c.category = category) (hsub : c.subtype = subtype) (hc : c.Fits d) :
    (s.put category subtype c).Agrees r := by
  refine ⟨fun {category' subtype' c'} hget => ?_, tidy_put hs.tidy category subtype c⟩
  rw [get?_put] at hget
  by_cases heq : category' = category ∧ subtype' = subtype
  · rw [if_pos heq] at hget
    obtain ⟨rfl, rfl⟩ := heq
    cases hget
    exact ⟨hcat, hsub, d, h, hc⟩
  · rw [if_neg heq] at hget
    exact hs.entry hget

/-- What an attribute has now names that attribute. -/
theorem Agrees.current_names (hs : s.Agrees r) (hr : r.Keyed) (h : r.check category subtype = .ok d) :
    (s.current d category subtype).category = category ∧
    (s.current d category subtype).subtype = subtype := by
  unfold Sheet.current
  cases hc : s.get? category subtype with
  | none => exact ⟨hr category d (Registry.check_eq_ok.mp h).1, rfl⟩
  | some c =>
    obtain ⟨hcat, hsub, _⟩ := hs.entry hc
    exact ⟨hcat, hsub⟩

theorem Agrees.materialize (hs : s.Agrees r) (hr : r.Keyed) (category subtype : String) :
    (s.materialize r category subtype).state.Agrees r := by
  cases h : r.check category subtype with
  | error e => rw [materialize_error h]; exact hs
  | ok d =>
    obtain ⟨hcat, hsub⟩ := hs.current_names hr h
    rw [materialize_ok h]
    exact hs.put h hcat hsub (hs.fits.current h)

theorem Agrees.mutate (hs : s.Agrees r) (hr : r.Keyed) (category subtype : String) (op : Mutation)
    (operand : Value) :
    (s.mutate r category subtype op operand).state.Agrees r := by
  cases h : r.check category subtype with
  | error e => rw [mutate_error h]; exact hs
  | ok d =>
    obtain ⟨hcat, hsub⟩ := hs.current_names hr h
    have hfits := hs.fits.current h
    rw [mutate_ok h]
    -- a mutation that fails has still put the attribute onto the sheet
    cases hch : (s.current d category subtype).change? op operand with
    | error e => exact hs.put h hcat hsub hfits
    | ok x =>
      obtain ⟨c, change⟩ := x
      obtain ⟨a, _, rfl, _⟩ := Characteristic.change?_eq_ok.mp hch
      exact hs.put h hcat hsub (hfits.of_change? hch)

/-- A category goes from the registry and from the sheet together. -/
theorem Agrees.removeCategory (hs : s.Agrees r) (removed : String) :
    (s.removeCategory removed).Agrees (r.removeCategory removed) := by
  refine ⟨fun {category subtype c} hc => ?_, tidy_removeCategory hs.tidy removed⟩
  rw [get?_removeCategory] at hc
  by_cases hne : category = removed
  · rw [if_pos hne] at hc; cases hc
  · rw [if_neg hne] at hc
    obtain ⟨hcat, hsub, d, hd, hfits⟩ := hs.entry hc
    exact ⟨hcat, hsub, d, Registry.check_removeCategory hne hd, hfits⟩

/-- A subtype goes from the registry and from the sheet together. -/
theorem Agrees.removeSubtype (hs : s.Agrees r) (removed gone : String) :
    (s.removeSubtype removed gone).Agrees (r.removeSubtype removed gone) := by
  refine ⟨fun {category subtype c} hc => ?_, tidy_removeSubtype hs.tidy removed gone⟩
  rw [get?_removeSubtype] at hc
  by_cases hne : category = removed ∧ subtype = gone
  · rw [if_pos hne] at hc; cases hc
  · rw [if_neg hne] at hc
    obtain ⟨hcat, hsub, d, hd, hfits⟩ := hs.entry hc
    obtain ⟨d', hd', hkind⟩ := Registry.check_removeSubtype hne hd
    exact ⟨hcat, hsub, d', hd', hfits.of_kind_eq hkind⟩

end Sheet

/-! ## Stories -/

namespace Story

/-- A story is **sound**: its categories stand under their names, and every sheet agrees with the
registry. -/
structure Sound (s : Story) : Prop where
  keyed : s.registry.Keyed
  sheets : ∀ {name : String} {c : Character}, s.cast.get? name = some c → c.sheet.Agrees s.registry

variable {P : Story → List ActionDecl → Prop} {s s' : Story}

theorem sound_start (settings : Settings) (source : Source) : (start settings source).Sound :=
  ⟨Registry.keyed_empty, fun h => (nomatch h)⟩

/-- A cast whose sheets fit the registry is a world that does. -/
theorem fits_cast {r : Registry} {cast : Cast} (h : ∀ name c, cast.get? name = some c → c.sheet.Fits r) :
    World.Fits r cast := by
  intro name sheet hsheet
  rw [sheet?_cast] at hsheet
  obtain ⟨c, hc, rfl⟩ := Option.map_eq_some_iff.mp hsheet
  exact h name c hc

theorem Sound.fits (hs : s.Sound) : World.Fits s.registry s.cast :=
  fits_cast fun _ _ hc => (hs.sheets hc).fits

/-- A registry may grow under a cast that stays. -/
theorem Sound.grow (hs : s.Sound) {r : Registry} (hkeyed : r.Keyed) (hr : s.registry.Extends r) :
    Sound { s with registry := r } :=
  ⟨hkeyed, fun hc => (hs.sheets hc).mono hr⟩

/-- The cast may change in any way that puts only agreeing sheets under its names. -/
theorem Sound.recast (hs : s.Sound) {cast : Cast}
    (h : ∀ name c, cast.get? name = some c → c.sheet.Agrees s.registry) :
    Sound { s with cast := cast } :=
  ⟨hs.keyed, fun hc => h _ _ hc⟩

/-- A sheet may be exchanged for one that agrees. -/
theorem Sound.setSheet (hs : s.Sound) (name : String) {sheet : Sheet} (h : sheet.Agrees s.registry) :
    Sound { s with cast := World.setSheet s.cast name sheet } := by
  refine hs.recast fun name' c hc => ?_
  rw [Cast.get?_setSheet] at hc
  by_cases hn : name' = name
  · rw [if_pos hn] at hc
    obtain ⟨_, _, rfl⟩ := Option.map_eq_some_iff.mp hc
    exact h
  · rw [if_neg hn] at hc
    exact hs.sheets hc

/-- What does not touch the sheet of a character keeps a story sound. -/
theorem Sound.update (hs : s.Sound) (name : String) {f : Character → Character}
    (hf : ∀ c, (f c).sheet = c.sheet) :
    Sound { s with cast := s.cast.update name f } := by
  refine hs.recast fun name' c hc => ?_
  rw [Cast.get?_update] at hc
  by_cases hn : name' = name
  · rw [if_pos hn] at hc
    obtain ⟨c₀, hc₀, rfl⟩ := Option.map_eq_some_iff.mp hc
    rw [hf]
    exact hs.sheets hc₀
  · rw [if_neg hn] at hc
    exact hs.sheets hc

theorem Sound.enact (hs : s.Sound) (e : Effect) :
    Sound { s with cast := (s.registry.enact s.cast e).state } := by
  cases hc : s.cast.get? e.character with
  | none =>
    have hnone : sheet? s.cast e.character = none := by rw [sheet?_cast, hc]; rfl
    rw [Registry.enact_of_none hnone]
    exact hs
  | some c =>
    have hsome : sheet? s.cast e.character = some c.sheet := by rw [sheet?_cast, hc]; rfl
    rw [Registry.enact_of_some hsome]
    exact hs.setSheet e.character ((hs.sheets hc).mutate hs.keyed _ _ _ _)

theorem Sound.recordAll (hs : s.Sound) (es : List Effect) (m : Memory) :
    Sound { s with cast := (s.registry.recordAll es m s.cast).state } :=
  recordAll_keeps (I := fun cast => Sound { s with cast := cast }) (fun e _ hs => hs.enact e) es m hs

theorem Sound.mapActions (hs : s.Sound) (f : String → Action → Action) : (s.mapActions f).Sound := by
  refine ⟨hs.keyed, fun hc => ?_⟩
  rw [get?_mapActions] at hc
  obtain ⟨c₀, hc₀, rfl⟩ := Option.map_eq_some_iff.mp hc
  show c₀.sheet.Agrees s.registry
  exact hs.sheets hc₀

/-- **Every step keeps a story sound.** -/
theorem Sound.step (hstep : Step P s s') (hs : s.Sound) : s'.Sound := by
  cases hstep with
  | define h => exact hs.grow (Registry.keyed_addCategory hs.keyed h) (Registry.extends_addCategory h)
  | grow h => exact hs.grow (Registry.keyed_addSubtypes hs.keyed h) (Registry.extends_addSubtypes h)
  | join h =>
    obtain ⟨_, _, _, hget⟩ := Cast.insert_eq_ok h
    refine hs.recast fun name c hc => ?_
    rw [hget] at hc
    split at hc
    · cases hc
      exact Sheet.agrees_empty _
    · exact hs.sheets hc
  | enact e => exact hs.enact e
  | read hc category subtype =>
    exact hs.setSheet _ ((hs.sheets hc).materialize hs.keyed category subtype)
  | extend _ _ _ => exact hs.update _ fun _ => rfl
  | @play _ path es _ _ _ _ h =>
    -- the effects change sheets, the memory changes none
    have hplayed := hs.recordAll es (.new path)
    rw [h] at hplayed
    exact hplayed.update _ fun _ => rfl
  | draw source => exact ⟨hs.keyed, hs.sheets⟩
  | tune _ => exact ⟨hs.keyed, hs.sheets⟩
  | removeCategory h =>
    -- the registry and every sheet lose the category together
    obtain ⟨_, _, hr, hcast⟩ := removeCategory_ok h
    refine ⟨hr ▸ Registry.keyed_removeCategory hs.keyed _, fun hc => ?_⟩
    rw [hcast] at hc
    obtain ⟨c₀, hc₀, rfl⟩ := Option.map_eq_some_iff.mp hc
    exact hr ▸ (hs.sheets hc₀).removeCategory _
  | removeSubtype h =>
    obtain ⟨_, _, hr, hcast⟩ := removeSubtype_ok h
    refine ⟨hr ▸ Registry.keyed_removeSubtype hs.keyed _ _, fun hc => ?_⟩
    rw [hcast] at hc
    obtain ⟨c₀, hc₀, rfl⟩ := Option.map_eq_some_iff.mp hc
    exact hr ▸ (hs.sheets hc₀).removeSubtype _ _
  | removeCharacter h =>
    obtain ⟨_, _, hr, hcast⟩ := removeCharacter_ok h
    refine ⟨hr ▸ hs.keyed, fun hc => ?_⟩
    rw [hcast] at hc
    split at hc
    · cases hc
    · obtain ⟨c₀, hc₀, rfl⟩ := Option.map_eq_some_iff.mp hc
      show c₀.sheet.Agrees s'.registry
      rw [hr]
      exact hs.sheets hc₀
  | removeAction h =>
    rw [removeAction_ok h]
    exact hs.update _ fun _ => rfl
  | removePreconditions f => exact hs.mapActions _
  | removeEffects f => exact hs.mapActions _

/-- Every reachable story is sound. -/
theorem ReachableBy.sound (h : ReachableBy P s) : s.Sound :=
  h.invariant (fun settings source _ => sound_start settings source) fun _ _ => Sound.step

/-- **Sheets agree with the registry in every reachable story.** What stands on a sheet under a category
and a subtype names them, is registered now, and has the range and the kind that the registry gives it
now: no range exactly for truth values. No row is empty, so a sheet without rows is one without
characteristics. -/
theorem sheets_agree (h : Reachable s) {name : String} {c : Character} (hc : s.cast.get? name = some c) :
    (∀ category subtype x, c.sheet.get? category subtype = some x →
      x.category = category ∧ x.subtype = subtype ∧ s.registry.contains category subtype = true ∧
      ∃ d, s.registry.category? category = some d ∧ x.range = d.range? ∧
        (x.range = none ↔ d.isBoolean = true) ∧ x.value.kind = d.default.kind) ∧
    (∀ category row, c.sheet.characteristics.get? category = some row → row.isEmpty = false) ∧
    (c.sheet.isEmpty = true ↔ c.sheet.size = 0) := by
  have hagrees : c.sheet.Agrees s.registry := h.sound.sheets hc
  refine ⟨?_, hagrees.tidy, hagrees.tidy.isEmpty_iff⟩
  intro category subtype x hx
  obtain ⟨hcat, hsub, d, hd, hfits⟩ := hagrees.entry hx
  obtain ⟨hd, hsubtype⟩ := Registry.check_eq_ok.mp hd
  refine ⟨hcat, hsub, ?_, d, hd, hfits.range, ?_, hfits.kind⟩
  · unfold Registry.contains
    rw [hd]
    exact hsubtype
  · rw [hfits.range]
    unfold Category.range? Category.isBoolean
    cases d.kind with
    | boolean b => exact ⟨fun _ => rfl, fun _ => rfl⟩
    | numeric range n => exact ⟨fun h => (nomatch h), fun h => (nomatch h)⟩

/-- A mood is read as a number; then its category is removed, defined anew for truth values, and read
once more. -/
def redefined : Story :=
  [Operation.loadCategories [.numeric "Mood" ["happy"] 0 10 5], .loadCharacters ["Bob"],
    .value "Bob" "Mood" "happy", .removeCategory "Mood",
    .loadCategories [.boolean "Mood" ["happy", "angry"] true], .value "Bob" "Mood" "happy"].foldl
    (fun s op => op.after s) (start .default (.listed []))

/-- In that story the sheet has followed the registry. -/
theorem sheets_agree_redefined :
    Reachable redefined ∧ ∃ c x d,
      redefined.cast.get? "Bob" = some c ∧ c.sheet.get? "Mood" "happy" = some x ∧
      redefined.registry.category? "Mood" = some d ∧ d.isBoolean = true ∧ x.range = none ∧
      x.value.kind = d.default.kind ∧ c.sheet.size ≠ 0 := by
  have hreach : Reachable redefined := reachable_calls (reachable_start_default _) _
  obtain ⟨c, hc⟩ : ∃ c, redefined.cast.get? "Bob" = some c := Option.isSome_iff_exists.mp (by decide)
  obtain ⟨x, hx⟩ : ∃ x, c.sheet.get? "Mood" "happy" = some x := by
    refine Option.isSome_iff_exists.mp ?_
    have hread :
        (redefined.cast.get? "Bob").all (fun c => (c.sheet.get? "Mood" "happy").isSome) = true := by
      decide
    rw [hc] at hread
    exact hread
  have hbool : (redefined.registry.category? "Mood").all (·.isBoolean) = true := by decide
  obtain ⟨hentries, _, hempty⟩ := sheets_agree hreach hc
  obtain ⟨_, _, _, d, hd, _, hrange, hkind⟩ := hentries "Mood" "happy" x hx
  rw [hd] at hbool
  refine ⟨hreach, c, x, d, hc, hx, hd, hbool, hrange.mpr hbool, hkind, ?_⟩
  intro hsize
  -- an empty sheet would hold no mood
  have hnone := SortedMap.isEmpty_iff.mp (hempty.mpr hsize) "Mood"
  obtain ⟨row, hrow, _⟩ := Sheet.get?_eq_some_iff.mp hx
  rw [hnone] at hrow
  cases hrow

end Story
end Narrative
