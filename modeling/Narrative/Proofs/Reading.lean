import Narrative.Proofs.Execution
import Narrative.Proofs.Filling

/-!
# `Proofs.Reading` — reading a value leaves no trace in what follows

To read a value puts its attribute onto the sheet, at the default and the range of that moment. The
story is another one afterwards, and later the category may be taken out, defined anew with another
default, or given more subtypes. Still no later call can tell that the value has been read.

Two runs are followed side by side, one with the read and one without. Their stories are the same up to
defaults on the sheets, where a default is one of the registry as it is at that time. Every operation
answers alike in both and keeps them so: writing puts the same characteristic onto both sheets, a removal
takes what was filled in from the one together with the definition, and all that asks for an attribute
goes past the sheet to the default.

## Contents
- **Casts.** `Character.Filled` and `Cast.Filled`, kept by every change of a cast.
- **Stories.** `Story.Filled`; what is asked of a story.
- **Operations.** One lemma per operation: it is paired in stories that are the same up to defaults.
- **Runs.** `Answer`, `Operation.answer`, `answers`; the main result `reading_leaves_no_trace`.
-/

namespace Narrative
open Outcome

/-! ## Casts -/

/-- A character **filled** in is the same up to defaults on its sheet. -/
def Character.Filled (r : Registry) (c c' : Character) : Prop :=
  ∃ sheet, c.sheet.Filled r sheet ∧ c' = { c with sheet := sheet }

/-- A change that neither looks at the sheet nor touches it goes past filling in. -/
theorem Character.filled_frame {r : Registry} {f : Character → Character}
    (hf : ∀ c sheet, f { c with sheet := sheet } = { f c with sheet := sheet })
    (hsheet : ∀ c, (f c).sheet = c.sheet) (c c' : Character) (h : c.Filled r c') :
    (f c).Filled r (f c') := by
  obtain ⟨sheet, hfilled, rfl⟩ := h
  refine ⟨sheet, ?_, hf c sheet⟩
  rw [hsheet]
  exact hfilled

namespace Cast

/-- A cast **filled** in has the same characters up to defaults on their sheets. -/
def Filled (r : Registry) (cast cast' : Cast) : Prop :=
  ∀ name, Option.Rel (Character.Filled r) (cast.get? name) (cast'.get? name)

variable {r r' : Registry} {cast cast' : Cast} {f f' : Character → Character}

theorem filled_refl (r : Registry) (cast : Cast) : cast.Filled r cast := by
  intro name
  cases cast.get? name with
  | none => exact .none
  | some c => exact .some ⟨c.sheet, Sheet.filled_refl r c.sheet, rfl⟩

theorem Filled.get?_cases (h : cast.Filled r cast') (name : String) :
    (cast.get? name = none ∧ cast'.get? name = none) ∨
      ∃ c sheet, cast.get? name = some c ∧ c.sheet.Filled r sheet ∧
        cast'.get? name = some { c with sheet := sheet } := by
  rcases rel_cases (h name) with hnone | ⟨c, _, hc, hc', sheet, hsheet, rfl⟩
  · exact .inl hnone
  · exact .inr ⟨c, sheet, hc, hsheet, hc'⟩

theorem Filled.contains (h : cast.Filled r cast') (name : String) :
    cast'.contains name = cast.contains name := by
  show (cast'.get? name).isSome = (cast.get? name).isSome
  rcases h.get?_cases name with ⟨hc, hc'⟩ | ⟨_, _, hc, _, hc'⟩
  · rw [hc, hc']
  · rw [hc, hc']
    rfl

theorem Filled.updateAll (h : cast.Filled r cast')
    (hf : ∀ c c', c.Filled r c' → (f c).Filled r' (f c')) :
    (cast.updateAll f).Filled r' (cast'.updateAll f) := by
  intro name
  rw [get?_updateAll, get?_updateAll]
  exact rel_map (h name) hf

theorem Filled.update (h : cast.Filled r cast') (name : String)
    (hf : ∀ c c', c.Filled r c' → (f c).Filled r (f' c')) :
    (cast.update name f).Filled r (cast'.update name f') := by
  intro name'
  rw [get?_update, get?_update]
  by_cases hn : name' = name
  · rw [if_pos hn, if_pos hn]
    exact rel_map (h name) hf
  · rw [if_neg hn, if_neg hn]
    exact h name'

theorem Filled.remove (h : cast.Filled r cast') (removed : String) :
    (cast.remove removed).Filled r (cast'.remove removed) := by
  intro name
  rw [get?_remove, get?_remove]
  by_cases hn : name = removed
  · rw [if_pos hn, if_pos hn]
    exact .none
  · rw [if_neg hn, if_neg hn]
    exact h name

/-- The same character may join both casts, or neither. -/
theorem Filled.insert (h : cast.Filled r cast') (c : Character) :
    Outcome.Paired (Filled r) (cast.insert c) (cast'.insert c) := by
  unfold Cast.insert
  rw [h.contains]
  refine paired_guard fun _ => paired_bind fun _ _ => paired_guard fun _ => .ok fun name => ?_
  show Option.Rel _ ((cast.characters.insert c.name c).get? name)
    ((cast'.characters.insert c.name c).get? name)
  rw [SortedMap.get?_insert, SortedMap.get?_insert]
  by_cases hn : name = c.name
  · rw [if_pos hn, if_pos hn]
    exact .some ⟨c.sheet, Sheet.filled_refl r c.sheet, rfl⟩
  · rw [if_neg hn, if_neg hn]
    exact h name

theorem Filled.shows (h : cast.Filled r cast') : World.Shows (Sheet.Filled r) cast cast' := by
  intro name
  refine rel_map (h name) ?_
  rintro c _ ⟨sheet, hsheet, rfl⟩
  exact hsheet

/-- Effects do the same to both casts. -/
theorem carries_filled : World.Carries (Sheet.Filled r) (Filled r) := by
  refine ⟨fun h => h.shows, fun {cast cast'} h {name s t} _ hst => ?_⟩
  refine h.update name ?_
  rintro c _ ⟨_, _, rfl⟩
  exact ⟨t, hst, rfl⟩

end Cast

/-! ## Stories -/

namespace Story

/-- A story **filled** in is the same up to defaults on the sheets, as its registry gives them now. -/
structure Filled (s s' : Story) : Prop where
  settings : s'.settings = s.settings
  registry : s'.registry = s.registry
  source : s'.source = s.source
  cast : s.cast.Filled s.registry s'.cast
  /-- Categories stand under their names, so their defaults stay what they are when subtypes come
  and go. -/
  keyed : s.registry.Keyed

variable {s s' : Story} {name : String}

/-- All but the cast is the same. -/
theorem Filled.eq_recast (h : s.Filled s') : ∃ cast, s' = { s with cast := cast } := by
  obtain ⟨settings, registry, cast, source⟩ := s'
  obtain ⟨rfl, rfl, rfl, _, _⟩ := h
  exact ⟨cast, rfl⟩

theorem Filled.recast (h : s.Filled s') {cast cast' : Cast} (hcast : cast.Filled s.registry cast') :
    Filled { s with cast := cast } { s' with cast := cast' } :=
  ⟨h.settings, h.registry, h.source, hcast, h.keyed⟩

/-- A change that leaves the sheet of a character alone. -/
theorem Filled.update (h : s.Filled s') (name : String) (f : Character → Character)
    (hf : ∀ c sheet, f { c with sheet := sheet } = { f c with sheet := sheet })
    (hsheet : ∀ c, (f c).sheet = c.sheet) :
    Filled { s with cast := s.cast.update name f } { s' with cast := s'.cast.update name f } := by
  exact h.recast (h.cast.update name (Character.filled_frame hf hsheet))

theorem Filled.grow (h : s.Filled s') {r : Registry} (hr : r.Keyed) (hgrow : s.registry.Extends r) :
    Filled { s with registry := r } { s' with registry := r } := by
  refine ⟨h.settings, rfl, h.source, fun name => ?_, hr⟩
  rcases h.cast.get?_cases name with ⟨hc, hc'⟩ | ⟨c, sheet, hc, hsheet, hc'⟩
  · rw [hc, hc']
    exact .none
  · rw [hc, hc']
    exact .some ⟨sheet, hsheet.mono h.keyed hr hgrow, rfl⟩

theorem Filled.mapActions (h : s.Filled s') (f : String → Action → Action) :
    (s.mapActions f).Filled (s'.mapActions f) := by
  exact h.recast (h.cast.updateAll (Character.filled_frame (fun _ _ => rfl) fun _ => rfl))

theorem Filled.withoutPreconditions (h : s.Filled s') (f : ConditionFilter) :
    (s.withoutPreconditions f).Filled (s'.withoutPreconditions f) := h.mapActions _

theorem Filled.withoutEffects (h : s.Filled s') (f : ConditionFilter) :
    (s.withoutEffects f).Filled (s'.withoutEffects f) := h.mapActions _

theorem Filled.withoutConditions (h : s.Filled s') (f : ConditionFilter) :
    (s.withoutConditions f).Filled (s'.withoutConditions f) :=
  (h.withoutPreconditions f).withoutEffects f

/-! What is asked of a story does not depend on what has been filled in. -/

theorem Filled.character? (h : s.Filled s') (name : String) :
    Outcome.Paired (Character.Filled s.registry) (s.character? name) (s'.character? name) := by
  unfold Story.character?
  rcases h.cast.get?_cases name with ⟨hc, hc'⟩ | ⟨c, sheet, hc, hsheet, hc'⟩
  · rw [hc, hc']
    exact .error _
  · rw [hc, hc']
    exact .ok ⟨sheet, hsheet, rfl⟩

theorem Filled.action? (h : s.Filled s') (name : String) (uid : Uid) :
    s'.action? name uid = s.action? name uid := by
  refine ((h.character? name).bind_eq ?_).symm
  rintro c _ ⟨_, _, rfl⟩
  rfl

theorem Filled.paths? (h : s.Filled s') (name : String) : s'.paths? name = s.paths? name := by
  refine ((h.character? name).bind_eq ?_).symm
  rintro c _ ⟨_, _, rfl⟩
  rfl

theorem Filled.candidates? (h : s.Filled s') (name : String) :
    s'.candidates? name = s.candidates? name := by
  refine ((h.character? name).bind_eq ?_).symm
  rintro c _ ⟨sheet, _, rfl⟩
  rw [h.settings, h.registry]
  exact (Discovery.candidates_filled h.cast.shows _ c sheet).symm

theorem Filled.checkedEffects? (h : s.Filled s') (name : String) (path : List Uid) :
    s'.checkedEffects? name path = s.checkedEffects? name path := by
  refine checkedEffects?_congr h.registry (fun name => ?_) name path
  rcases h.cast.get?_cases name with ⟨hc, hc'⟩ | ⟨c, sheet, hc, _, hc'⟩
  · rw [hc, hc']
  · rw [hc, hc']
    rfl

/-- A count over all actions is one over the plots, which are the same. -/
theorem Filled.sumActions (h : s.Filled s') (f : String → Action → Nat) :
    s'.sumActions f = s.sumActions f := by
  have hplots : s'.cast.characters.map (fun c => (c.name, c.plot)) =
      s.cast.characters.map (fun c => (c.name, c.plot)) := by
    refine SortedMap.ext fun name => ?_
    rw [SortedMap.get?_map, SortedMap.get?_map]
    rcases h.cast.get?_cases name with ⟨hc, hc'⟩ | ⟨c, sheet, hc, _, hc'⟩
    · rw [show s.cast.characters.get? name = none from hc,
        show s'.cast.characters.get? name = none from hc']
    · rw [show s.cast.characters.get? name = some c from hc,
        show s'.cast.characters.get? name = some _ from hc']
      rfl
  have hsum :
      ∀ s : Story, s.sumActions f = (s.cast.characters.map fun c => (c.name, c.plot)).values.foldl
      (fun n c => c.2.actions.values.foldl (fun n a => n + f c.1 a) n) 0 := by
    intro s
    have hvalues : (s.cast.characters.map fun c => (c.name, c.plot)).values =
        s.cast.characters.values.map fun c => (c.name, c.plot) := by
      unfold SortedMap.values SortedMap.map
      rw [List.map_map, List.map_map]
      rfl
    rw [hvalues, List.foldl_map]
    rfl
  rw [hsum, hsum, hplots]

/-! ## Operations -/

theorem loadCategory_filled (h : s.Filled s') (d : CategoryDecl) :
    (loadCategory d s).Paired Filled (loadCategory d s') := by
  obtain ⟨cast', rfl⟩ := h.eq_recast
  refine Attempt.paired_ofExcept h ((paired_map fun r hr => ?_).mapError _)
  split at hr
  · exact h.grow (Registry.keyed_addCategory h.keyed hr) (Registry.extends_addCategory hr)
  · obtain ⟨category, _, hr⟩ := bind_eq_ok.mp hr
    exact h.grow (Registry.keyed_addSubtypes h.keyed hr) (Registry.extends_addSubtypes hr)

theorem loadCategories_filled (h : s.Filled s') (ds : List CategoryDecl) :
    (s.loadCategories ds).Paired Filled (s'.loadCategories ds) :=
  Attempt.paired_forEach (fun d _ _ _ h => loadCategory_filled h d) h

theorem loadCharacter_filled (h : s.Filled s') (name : String) :
    (loadCharacter name s).Paired Filled (loadCharacter name s') := by
  obtain ⟨cast', rfl⟩ := h.eq_recast
  unfold loadCharacter
  rw [h.cast.contains]
  by_cases hname : s.cast.contains name = true
  · rw [if_pos hname, if_pos hname]
    exact Attempt.paired_ok () h
  · rw [if_neg hname, if_neg hname]
    exact Attempt.paired_ofExcept h (((h.cast.insert _).map fun _ _ hcast => h.recast hcast).mapError _)

theorem loadCharacters_filled (h : s.Filled s') (names : List String) :
    (s.loadCharacters names).Paired Filled (s'.loadCharacters names) :=
  Attempt.paired_forEach (fun name _ _ _ h => loadCharacter_filled h name) h

/-- Effects on the cast of a story are paired. -/
theorem enact_filled (h : s.Filled s') (e : Effect) :
    (s.registry.enact s.cast e).Paired (Cast.Filled s.registry) (s'.registry.enact s'.cast e) := by
  rw [h.registry]
  exact Registry.enact_paired Cast.carries_filled (Sheet.respects_filled _) h.cast e

theorem loadCharacteristic_filled (h : s.Filled s') (d : CharacteristicDecl) :
    (loadCharacteristic d s).Paired Filled (loadCharacteristic d s') := by
  obtain ⟨cast', rfl⟩ := h.eq_recast
  unfold loadCharacteristic
  cases checkCharacteristic s.registry d with
  | error e => exact Attempt.paired_error _ h
  | ok u =>
    show Attempt.Paired Filled (if s.cast.contains d.character = true then _ else _)
      (if cast'.contains d.character = true then _ else _)
    rw [h.cast.contains]
    by_cases hname : s.cast.contains d.character = true
    · rw [if_pos hname, if_pos hname]
      refine (((enact_filled h _).mapError _).within fun _ _ hcast => h.recast hcast).andThen
        fun _ _ _ h' => ?_
      exact Attempt.paired_ok () h'
    · rw [if_neg hname, if_neg hname]
      exact Attempt.paired_error _ h

theorem loadCharacteristics_filled (h : s.Filled s') (ds : List CharacteristicDecl) :
    (s.loadCharacteristics ds).Paired Filled (s'.loadCharacteristics ds) :=
  Attempt.paired_forEach (fun d _ _ _ h => loadCharacteristic_filled h d) h

theorem loadActions_filled (h : s.Filled s') (name : String) (ds : List ActionDecl) :
    (s.loadActions name ds).Paired Filled (s'.loadActions name ds) := by
  obtain ⟨cast', rfl⟩ := h.eq_recast
  unfold loadActions
  rcases h.cast.get?_cases name with ⟨hc, hc'⟩ | ⟨c, sheet, hc, _, hc'⟩
  · rw [hc, hc']
    exact Attempt.paired_error _ h
  · rw [hc, hc']
    refine Attempt.paired_ofExcept h (paired_map fun p _ => ?_)
    exact h.update name (fun c => { c with plot := p }) (fun _ _ => rfl) fun _ => rfl

theorem load_filled (h : s.Filled s') (script : Script) :
    (s.load script).Paired Filled (s'.load script) := by
  refine (loadCategories_filled h _).andThen fun _ _ _ h => ?_
  refine (loadCharacters_filled h _).andThen fun _ _ _ h => ?_
  refine (loadCharacteristics_filled h _).andThen fun _ _ _ h => ?_
  exact Attempt.paired_forEach (fun entry _ _ _ h => loadActions_filled h entry.1 entry.2) h

theorem value_filled (h : s.Filled s') (name category subtype : String) :
    (s.value name category subtype).Paired Filled (s'.value name category subtype) := by
  obtain ⟨cast', rfl⟩ := h.eq_recast
  unfold value
  rcases h.cast.get?_cases name with ⟨hc, hc'⟩ | ⟨c, sheet, hc, hsheet, hc'⟩
  · rw [hc, hc']
    exact Attempt.paired_error _ h
  · rw [hc, hc']
    have hset : ∀ t t', Sheet.Filled s.registry t t' →
        Filled { s with cast := setSheet s.cast name t } { s with cast := setSheet cast' name t' } := by
      intro t t' ht
      refine h.recast (Cast.carries_filled.set h.cast ?_ ht)
      rw [sheet?_cast, hc]
      rfl
    refine (((hsheet.materialize category subtype).mapError _).within hset).andThen fun x _ _ h' => ?_
    exact Attempt.paired_ok x.value h'

theorem scoredOptions_filled (h : s.Filled s') (name : String) (count : Nat) :
    (s.scoredOptions name count).Paired Filled (s'.scoredOptions name count) := by
  unfold scoredOptions
  rw [h.candidates?, h.source]
  cases s.candidates? name with
  | error e => exact Attempt.paired_error e h
  | ok cs => exact Attempt.paired_ok _ ⟨h.settings, h.registry, rfl, h.cast, h.keyed⟩

theorem options_filled (h : s.Filled s') (name : String) (count : Nat) :
    (s.options name count).Paired Filled (s'.options name count) :=
  (scoredOptions_filled h name count).andThen fun _ _ _ h => Attempt.paired_ok _ h

theorem defaultOptions_filled (h : s.Filled s') (name : String) :
    (s.defaultOptions name).Paired Filled (s'.defaultOptions name) := by
  unfold defaultOptions
  rw [h.settings]
  exact options_filled h name _

theorem execute_filled (h : s.Filled s') (name : String) (path : List Uid) :
    (s.execute name path).Paired Filled (s'.execute name path) := by
  obtain ⟨cast', rfl⟩ := h.eq_recast
  unfold execute
  rw [h.checkedEffects?]
  cases s.checkedEffects? name path with
  | error e => exact Attempt.paired_error e h
  | ok es =>
    show Attempt.Paired Filled (if path.isEmpty = true then _ else _)
      (if path.isEmpty = true then _ else _)
    by_cases hpath : path.isEmpty = true
    · rw [if_pos hpath, if_pos hpath]
      exact Attempt.paired_ok () h
    · rw [if_neg hpath, if_neg hpath]
      have htaken :=
        Registry.recordAll_paired Cast.carries_filled (Sheet.respects_filled s.registry) es
          (.new path) h.cast
      refine ((htaken.mapError _).within fun _ _ hcast => h.recast hcast).andThen fun m _ _ h' => ?_
      exact Attempt.paired_ok () (h'.update name (fun c => { c with memory := c.memory.add m })
        (fun _ _ => rfl) fun _ => rfl)

theorem setConversationType_filled (h : s.Filled s') (x : Binary32) :
    Outcome.Paired Filled (s.setConversationType x) (s'.setConversationType x) := by
  unfold setConversationType
  rw [h.settings]
  exact paired_bind fun _ _ => .ok ⟨rfl, h.registry, h.source, h.cast, h.keyed⟩

theorem removeCategory_filled (h : s.Filled s') (category : String) :
    Outcome.Paired Filled (s.removeCategory category) (s'.removeCategory category) := by
  obtain ⟨cast', rfl⟩ := h.eq_recast
  unfold removeCategory
  cases s.registry.category? category with
  | none => exact .error _
  | some d =>
    refine .ok (Filled.withoutConditions ?_ _)
    refine ⟨rfl, rfl, rfl, h.cast.updateAll ?_, Registry.keyed_removeCategory h.keyed category⟩
    rintro c _ ⟨sheet, hsheet, rfl⟩
    exact ⟨_, hsheet.removeCategory category, rfl⟩

theorem removeSubtype_filled (h : s.Filled s') (category subtype : String) :
    Outcome.Paired Filled (s.removeSubtype category subtype) (s'.removeSubtype category subtype) := by
  obtain ⟨cast', rfl⟩ := h.eq_recast
  unfold removeSubtype
  cases s.registry.category? category with
  | none => exact .error _
  | some d =>
    show Outcome.Paired Filled (if d.hasSubtype subtype = true then _ else _)
      (if d.hasSubtype subtype = true then _ else _)
    by_cases hsubtype : d.hasSubtype subtype = true
    · rw [if_pos hsubtype, if_pos hsubtype]
      refine .ok (Filled.withoutConditions ?_ _)
      refine ⟨rfl, rfl, rfl, h.cast.updateAll ?_, Registry.keyed_removeSubtype h.keyed category subtype⟩
      rintro c _ ⟨sheet, hsheet, rfl⟩
      exact ⟨_, hsheet.removeSubtype h.keyed category subtype, rfl⟩
    · rw [if_neg hsubtype, if_neg hsubtype]
      exact .error _

theorem removeCharacter_filled (h : s.Filled s') (removed : String) :
    Outcome.Paired Filled (s.removeCharacter removed) (s'.removeCharacter removed) := by
  refine (h.character? removed).bind fun _ _ _ => .ok (Filled.withoutConditions (h.recast ?_) _)
  exact (h.cast.remove removed).updateAll (Character.filled_frame (fun _ _ => rfl) fun _ => rfl)

theorem removeAction_filled (h : s.Filled s') (name : String) (uid : Uid) :
    Outcome.Paired Filled (s.removeAction name uid) (s'.removeAction name uid) := by
  unfold removeAction
  rw [h.action?]
  exact paired_bind fun _ _ => .ok (h.update name _ (fun _ _ => rfl) fun _ => rfl)

/-! ## Runs -/

/-- What a call answers. -/
inductive Answer where
  | done (x : Except StoryError Unit)
  | value (x : Except StoryError Value)
  | candidates (x : Except StoryError (List Candidate))
  | paths (x : Except StoryError (List (List Uid)))
  | count (n : Nat)

/-- The answer of a call: a result or an error, or how many conditions were removed. -/
def Operation.answer : Operation → Story → Answer
  | loadCategories ds, s => .done (s.loadCategories ds).result
  | loadCharacters names, s => .done (s.loadCharacters names).result
  | loadCharacteristics ds, s => .done (s.loadCharacteristics ds).result
  | loadActions name ds, s => .done (s.loadActions name ds).result
  | load script, s => .done (s.load script).result
  | value name category subtype, s => .value (s.value name category subtype).result
  | scoredOptions name count, s => .candidates (s.scoredOptions name count).result
  | options name count, s => .paths (s.options name count).result
  | defaultOptions name, s => .paths (s.defaultOptions name).result
  | execute name path, s => .done (s.execute name path).result
  | setConversationType x, s => .done (Attempt.ofExcept s (s.setConversationType x)).result
  | removeCategory category, s => .done (Attempt.ofExcept s (s.removeCategory category)).result
  | removeSubtype category subtype, s =>
    .done (Attempt.ofExcept s (s.removeSubtype category subtype)).result
  | removeCharacter name, s => .done (Attempt.ofExcept s (s.removeCharacter name)).result
  | removeAction name uid, s => .done (Attempt.ofExcept s (s.removeAction name uid)).result
  | removePreconditions f, s => .count (s.removePreconditions f).1
  | removeEffects f, s => .count (s.removeEffects f).1

/-- The answers of calls made one after the other. -/
def answers : List Operation → Story → List Answer
  | [], _ => []
  | op :: ops, s => op.answer s :: answers ops (op.after s)

/-- **One call answers alike in stories that are the same up to defaults**, and leaves them so. -/
theorem Operation.answer_filled (op : Operation) (h : s.Filled s') :
    op.answer s' = op.answer s ∧ (op.after s).Filled (op.after s') := by
  have hpaired : ∀ {α : Type} {x y : Attempt Story StoryError α} (f : Except StoryError α → Answer),
      x.Paired Filled y → f y.result = f x.result ∧ x.state.Filled y.state :=
    fun f hxy => ⟨congrArg f hxy.result.symm, hxy.state⟩
  cases op with
  | loadCategories ds => exact hpaired .done (loadCategories_filled h ds)
  | loadCharacters names => exact hpaired .done (loadCharacters_filled h names)
  | loadCharacteristics ds => exact hpaired .done (loadCharacteristics_filled h ds)
  | loadActions name ds => exact hpaired .done (loadActions_filled h name ds)
  | load script => exact hpaired .done (load_filled h script)
  | value name category subtype => exact hpaired .value (value_filled h name category subtype)
  | scoredOptions name count => exact hpaired .candidates (scoredOptions_filled h name count)
  | options name count => exact hpaired .paths (options_filled h name count)
  | defaultOptions name => exact hpaired .paths (defaultOptions_filled h name)
  | execute name path => exact hpaired .done (execute_filled h name path)
  | setConversationType x =>
    exact hpaired .done (Attempt.paired_ofExcept h (setConversationType_filled h x))
  | removeCategory category =>
    exact hpaired .done (Attempt.paired_ofExcept h (removeCategory_filled h category))
  | removeSubtype category subtype =>
    exact hpaired .done (Attempt.paired_ofExcept h (removeSubtype_filled h category subtype))
  | removeCharacter name =>
    exact hpaired .done (Attempt.paired_ofExcept h (removeCharacter_filled h name))
  | removeAction name uid =>
    exact hpaired .done (Attempt.paired_ofExcept h (removeAction_filled h name uid))
  | removePreconditions f =>
    refine ⟨?_, h.withoutPreconditions f⟩
    exact congrArg Answer.count (h.sumActions fun owner a => a.preconditions.countP
      (picksPrecondition f owner a))
  | removeEffects f =>
    refine ⟨?_, h.withoutEffects f⟩
    exact congrArg Answer.count (h.sumActions fun owner a => a.effects.countP (picksEffect f owner a))

/-- Whole runs answer alike. -/
theorem answers_filled (h : s.Filled s') (ops : List Operation) :
    answers ops s' = answers ops s ∧
      (ops.foldl (fun s op => op.after s) s).Filled (ops.foldl (fun s op => op.after s) s') := by
  induction ops generalizing s s' with
  | nil => exact ⟨rfl, h⟩
  | cons op ops ih =>
    obtain ⟨hanswer, hafter⟩ := op.answer_filled h
    obtain ⟨hanswers, hrun⟩ := ih hafter
    refine ⟨?_, hrun⟩
    rw [answers, answers, hanswer, hanswers]

/-- To read a value fills in its default at most, whether it succeeds or fails. -/
theorem filled_after_value (hs : s.registry.Keyed) (name category subtype : String) :
    s.Filled (s.value name category subtype).state := by
  unfold value
  cases hc : s.cast.get? name with
  | none => exact ⟨rfl, rfl, rfl, Cast.filled_refl _ _, hs⟩
  | some c =>
    show s.Filled (Attempt.andThen _ _).state
    rw [state_andThen fun _ _ => rfl]
    refine ⟨rfl, rfl, rfl, fun name' => ?_, hs⟩
    show Option.Rel _ (s.cast.get? name') ((setSheet s.cast name _).get? name')
    rw [Cast.get?_setSheet]
    by_cases hn : name' = name
    · rw [if_pos hn, hn, hc]
      exact .some ⟨_, Sheet.filled_materialize s.registry c.sheet category subtype, rfl⟩
    · rw [if_neg hn]
      exact Cast.filled_refl s.registry s.cast name'

/-- **Reading a value never changes how the story goes on.** Take any reachable story, any read of a
value in it, successful or not, and any calls after that. With the read and without it, all these
calls give the same answers and errors, and so does a listing of paths at the end. The stories that
are left have the same settings, registry and source, and the same characters with the same plots
and banks; what stands on a sheet in the one stands there in the other, save for defaults of the
registry as it is by then. -/
theorem reading_leaves_no_trace (h : Reachable s) (name category subtype : String)
    (ops : List Operation) :
    answers ops ((Operation.value name category subtype).after s) = answers ops s ∧
    (ops.foldl (fun s op => op.after s) s).Filled
      (ops.foldl (fun s op => op.after s) ((Operation.value name category subtype).after s)) ∧
    ∀ owner,
      (ops.foldl (fun s op => op.after s) ((Operation.value name category subtype).after s)).paths?
        owner =
      (ops.foldl (fun s op => op.after s) s).paths? owner := by
  have hread : s.Filled ((Operation.value name category subtype).after s) :=
    filled_after_value h.sound.keyed name category subtype
  obtain ⟨hanswers, hrun⟩ := answers_filled hread ops
  exact ⟨hanswers, hrun, fun owner => hrun.paths? owner⟩

/-- Nobody has asked about Ann's mood yet. -/
def unread : Story :=
  [Operation.loadCategories [.numeric "Mood" ["happy"] 0 10 5], .loadCharacters ["Ann", "Bob"]].foldl
    (fun s op => op.after s) (start .default (.listed []))

/-- Moods are taken out and defined anew, with a lower default; then Bob cheers Ann up, as he only
may if her mood is below the old default. -/
def renewal : List Operation :=
  [.removeCategory "Mood", .loadCategories [.numeric "Mood" ["happy"] 0 10 2],
    .loadActions "Bob" [{ ActionDecl.new 1 "Cheer" with
      first := true
      preconditions := [⟨⟨"Ann", "Mood", "happy"⟩, .less, .int 5⟩]
      effects := [⟨⟨"Ann", "Mood", "happy"⟩, .add, .int 4⟩] }],
    .options "Bob" 1, .execute "Bob" [1], .value "Ann" "Mood" "happy"]

/-- To ask about it first leaves a trace on her sheet, and none in what these calls answer: her mood
ends at six. -/
theorem reading_leaves_no_trace_renewed :
    Reachable unread ∧ (Operation.value "Ann" "Mood" "happy").after unread ≠ unread ∧
      answers renewal ((Operation.value "Ann" "Mood" "happy").after unread) = answers renewal unread ∧
      (answers renewal ((Operation.value "Ann" "Mood" "happy").after unread)).getLast? =
        some (.value (.ok (.int 6))) := by
  have hreach : Reachable unread := reachable_calls (reachable_start_default _) _
  obtain ⟨hanswers, _, _⟩ := reading_leaves_no_trace hreach "Ann" "Mood" "happy" renewal
  refine ⟨hreach, ?_, hanswers, ?_⟩
  · intro heq
    have hsize : ((Operation.value "Ann" "Mood" "happy").after unread).cast.get? "Ann" ≠
        unread.cast.get? "Ann" := by
      decide
    rw [heq] at hsize
    exact hsize rfl
  · rw [hanswers]
    rfl

end Story

end Narrative
