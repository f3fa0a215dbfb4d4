import Mathlib.Data.List.Forall2
import Narrative.Proofs.Grounding

/-!
# `Proofs.Removals` — a removal takes out what it names, and nothing else

One removal reaches into the registry, the sheets, both kinds of conditions and the memories. It
finds what it has to take out by look-up in the first two, by comparing names in the third and by
reading keys as text in the last. All four come down to one test on targets, which are then
**gone**: a filter picks the conditions about them, and since keys are grounded, the text of a key
tells its target.

## Contents
- **Losses.** `Weights.Loses`, `MemoryBank.Loses`, `Action.dropping`, `Character.Loses` and
  `Story.Loses`.
- **Tests.** Where keys are legible a test on them may agree with one on targets:
  `loses_retainKeys`, `ReachableBy.loses`.
- **Counts.** `count_removePreconditions` and `count_removeEffects`: what is reported is what is gone.
- **Removals.** What each of the three loses; the main result `removals_are_exact`.
-/

namespace Narrative
open Outcome

/-! ## Losses -/

/-- A vector **loses** the keys of the targets that are gone, and keeps all its other weights. -/
structure Weights.Loses (gone : Target → Bool) (v v' : Weights) : Prop where
  lost : ∀ t : Target, t.Plain → gone t = true → v'.weights.get? t.memoryKey = none
  kept : ∀ key, (∀ t : Target, t.Plain → gone t = true → key ≠ t.memoryKey) →
    v'.weights.get? key = v.weights.get? key

/-- A bank **loses** the keys of the targets that are gone, in every memory and in the aggregate,
and stays the same in all else. -/
structure MemoryBank.Loses (gone : Target → Bool) (b b' : MemoryBank) : Prop where
  memories : List.Forall₂ (fun m m' => m'.path = m.path ∧
    m.vector.Loses gone m'.vector) b.memories b'.memories
  aggregate : b.aggregate.Loses gone b'.aggregate
  steps : b'.steps = b.steps
  recencyWeight : b'.recencyWeight = b.recencyWeight

/-- The action without the conditions about targets that are gone; the others stay in order. -/
def Action.dropping (gone : Target → Bool) (a : Action) : Action :=
  { a with
    preconditions := a.preconditions.filter (!gone ·.toTarget)
    effects := a.effects.filter (!gone ·.toTarget) }

/-- A character **loses** what refers to the targets that are gone: its own characteristics among
them, the conditions about them in its plot, and what it remembers of them. -/
structure Character.Loses (gone : Target → Bool) (c c' : Character) : Prop where
  name : c'.name = c.name
  sheet : ∀ category subtype, c'.sheet.get? category subtype =
    if gone ⟨c.name, category, subtype⟩ = true then none else c.sheet.get? category subtype
  /-- No row is left without characteristics. -/
  tidy : c'.sheet.Tidy
  plot : c'.plot = { c.plot with actions := c.plot.actions.map (Action.dropping gone) }
  memory : c.memory.Loses gone c'.memory

/-- A story **loses** what refers to the targets that are gone if every character that it is left
with does; settings and source stay. -/
structure Story.Loses (gone : Target → Bool) (s s' : Story) : Prop where
  settings : s'.settings = s.settings
  source : s'.source = s.source
  characters : ∀ name c', s'.cast.get? name = some c' → ∃ c, s.cast.get? name = some c ∧ c.Loses gone c'

/-! ## Tests -/

variable {gone : Target → Bool} {keep : String → Bool}

/-- A vector is **legible** if every key in it is that of a plain target. -/
def Weights.Legible (v : Weights) : Prop :=
  ∀ key, v.weights.contains key = true → ∃ t : Target, t.Plain ∧ key = t.memoryKey

/-- On a legible vector a test on keys that agrees with `gone` loses what is gone. -/
theorem Weights.loses_retain {v : Weights}
    (hkeep : ∀ t : Target, t.Plain → (keep t.memoryKey = true ↔ ¬gone t = true)) (hv : v.Legible) :
    v.Loses gone (v.retain keep) := by
  refine ⟨fun t ht hgone => ?_, fun key hkey => ?_⟩
  · have hlost : ¬keep t.memoryKey = true := fun hk => (hkeep t ht).mp hk hgone
    rw [get?_retain, if_neg hlost]
  · rw [get?_retain]
    by_cases hk : keep key = true
    · rw [if_pos hk]
    · rw [if_neg hk]
      cases hw : v.weights.get? key with
      | none => rfl
      | some w =>
        -- the target of a key that is there and not kept would be gone
        obtain ⟨t, ht, rfl⟩ := hv key (Option.isSome_iff_exists.mpr ⟨w, hw⟩)
        have hgone : gone t = true := not_not.mp fun hstays => hk ((hkeep t ht).mpr hstays)
        exact absurd rfl (hkey t ht hgone)

/-- The key of a target that is not gone is not that of any other either, so its weight is kept. -/
theorem Weights.Loses.kept_target {v v' : Weights} (h : v.Loses gone v') {t : Target} (ht : t.Plain)
    (hstays : ¬gone t = true) :
    v'.weights.get? t.memoryKey = v.weights.get? t.memoryKey := by
  refine h.kept t.memoryKey fun u hu hgone heq => ?_
  have hsame : t = u := Target.memoryKey_injective ht hu heq
  rw [hsame] at hstays
  exact hstays hgone

theorem MemoryBank.loses_retainKeys {b : MemoryBank}
    (hkeep : ∀ t : Target, t.Plain → (keep t.memoryKey = true ↔ ¬gone t = true))
    (hmemories : ∀ m ∈ b.memories, m.vector.Legible) (haggregate : b.aggregate.Legible) :
    b.Loses gone (b.retainKeys keep) := by
  refine ⟨?_, Weights.loses_retain hkeep haggregate, rfl, rfl⟩
  show List.Forall₂ _ b.memories (b.memories.map _)
  rw [List.forall₂_map_right_iff, List.forall₂_same]
  intro m hm
  exact ⟨rfl, Weights.loses_retain hkeep (hmemories m hm)⟩

/-- A filter that picks what is gone leaves of a plot what it should. -/
theorem Plot.updateAll_without {f : ConditionFilter} {owner : String} (p : Plot)
    (hpicks : ∀ uid t, f.picks owner uid t = true ↔ gone t = true) :
    p.updateAll (Action.without f owner) =
      { p with actions := p.actions.map (Action.dropping gone) } := by
  have hdrop : Action.without f owner = Action.dropping gone := by
    funext a
    have hpicked : ∀ t, f.picks owner a.uid t = gone t := fun t => Bool.eq_iff_iff.mpr (hpicks a.uid t)
    unfold Action.without Action.dropping Story.picksPrecondition Story.picksEffect
    simp only [hpicked]
  rw [hdrop]
  rfl

namespace Story

variable {P : Story → List ActionDecl → Prop} {s s' : Story} {name : String} {c : Character}

/-- **What a removal leaves of a character**, if what it does to the sheet, the filter by which it
picks conditions and the test by which it keeps keys all agree with `gone`. -/
theorem ReachableBy.loses (h : ReachableBy P s) (hc : s.cast.get? name = some c) {sheet : Sheet}
    {f : ConditionFilter}
    (hsheet : ∀ category subtype, sheet.get? category subtype =
      if gone ⟨c.name, category, subtype⟩ = true then none else c.sheet.get? category subtype)
    (htidy : sheet.Tidy) (hpicks : ∀ uid t, f.picks c.name uid t = true ↔ gone t = true)
    (hkeep : ∀ t : Target, t.Plain → (keep t.memoryKey = true ↔ ¬gone t = true)) :
    c.Loses gone
      { c with
        sheet := sheet
        memory := c.memory.retainKeys keep
        plot := c.plot.updateAll (Action.without f c.name) } := by
  have hlegible : ∀ v, (v = c.memory.aggregate ∨ ∃ m ∈ c.memory.memories, v = m.vector) → v.Legible := by
    intro v hv key hkey
    obtain ⟨t, hplain, heq, _⟩ := h.target_of_key hc hv hkey
    exact ⟨t, hplain, heq⟩
  have hmemory : c.memory.Loses gone (c.memory.retainKeys keep) :=
    MemoryBank.loses_retainKeys hkeep (fun m hm => hlegible m.vector (.inr ⟨m, hm, rfl⟩))
      (hlegible _ (.inl rfl))
  exact ⟨rfl, hsheet, htidy, Plot.updateAll_without c.plot hpicks, hmemory⟩

/-! ## Counts -/

/-- Two numbers may be summed up together or apart. -/
theorem sumActions_add (s : Story) (f g : String → Action → Nat) :
    s.sumActions (fun owner a => f owner a + g owner a) = s.sumActions f + s.sumActions g := by
  have hactions : ∀ (owner : String) (as : List Action) (m n : Nat),
      as.foldl (fun n a => n + (f owner a + g owner a)) (m + n) =
        as.foldl (fun n a => n + f owner a) m + as.foldl (fun n a => n + g owner a) n := by
    intro owner as
    induction as with
    | nil => exact fun _ _ => rfl
    | cons a as ih =>
      intro m n
      rw [List.foldl_cons, List.foldl_cons, List.foldl_cons, ← ih]
      congr 1
      omega
  have hcast : ∀ (cs : List Character) (m n : Nat),
      cs.foldl (fun n c => c.plot.actions.values.foldl (fun n a =>
          n + (f c.name a + g c.name a)) n) (m + n) =
        cs.foldl (fun n c => c.plot.actions.values.foldl (fun n a => n + f c.name a) n) m +
          cs.foldl (fun n c => c.plot.actions.values.foldl (fun n a => n + g c.name a) n) n := by
    intro cs
    induction cs with
    | nil => exact fun _ _ => rfl
    | cons c cs ih =>
      intro m n
      rw [List.foldl_cons, List.foldl_cons, List.foldl_cons, ← ih, hactions]
  exact hcast s.cast.characters.values 0 0

theorem sumActions_mapActions (s : Story) (g : String → Action → Action) (f : String → Action → Nat) :
    (s.mapActions g).sumActions f = s.sumActions fun owner a => f owner (g owner a) := by
  simp [sumActions, mapActions, Cast.updateAll, Plot.updateAll, SortedMap.values, SortedMap.map,
    List.foldl_map]

/-- What is picked of the members of a field and what is left of them make up the field. -/
theorem sumActions_filtered {α : Type} {field : Action → List α}
    {picked : String → Action → α → Bool} {g : String → Action → Action}
    (hg : ∀ owner a, field (g owner a) = (field a).filter (!picked owner a ·)) :
    s.sumActions (fun owner a => (field a).countP (picked owner a)) +
      (s.mapActions g).sumActions (fun _ a => (field a).length) =
        s.sumActions fun _ a => (field a).length := by
  have hsplit :
      ∀ owner a, (field a).length = (field a).countP (picked owner a) + (field (g owner a)).length := by
    intro owner a
    rw [hg, ← List.countP_eq_length_filter, List.length_eq_countP_add_countP (picked owner a)]
    simp only [Bool.not_eq_true, Bool.decide_eq_false]
  rw [sumActions_mapActions, ← sumActions_add]
  simp only [← hsplit]

/-- **As many preconditions as a removal reports are gone afterwards**, in all plots together;
effects likewise. -/
theorem count_removePreconditions (s : Story) (f : ConditionFilter) :
    (s.removePreconditions f).1 + (s.removePreconditions f).2.sumActions
      (fun _ a => a.preconditions.length) = s.sumActions fun _ a => a.preconditions.length :=
  sumActions_filtered fun _ _ => rfl

theorem count_removeEffects (s : Story) (f : ConditionFilter) :
    (s.removeEffects f).1 + (s.removeEffects f).2.sumActions (fun _ a => a.effects.length) =
      s.sumActions fun _ a => a.effects.length :=
  sumActions_filtered fun _ _ => rfl

/-! ## Removals -/

theorem ReachableBy.removeCategory_loses (h : ReachableBy P s) {category : String}
    (hs' : s.removeCategory category = .ok s') : s.Loses (fun t => t.category = category) s' := by
  obtain ⟨hsettings, hsource, _, hcast⟩ := removeCategory_ok hs'
  refine ⟨hsettings, hsource, fun name c' hc' => ?_⟩
  rw [hcast] at hc'
  obtain ⟨c, hc, rfl⟩ := Option.map_eq_some_iff.mp hc'
  refine ⟨c, hc, h.loses hc ?_ ?_ ?_ ?_⟩
  · intro category' subtype'
    simp only [Sheet.get?_removeCategory, decide_eq_true_eq]
  · exact Sheet.tidy_removeCategory (h.sound.sheets hc).tidy category
  · intro uid t
    rw [ConditionFilter.picks_category, decide_eq_true_eq]
  · intro t ht
    rw [Target.kept_by_category ht, decide_eq_true_eq]

theorem ReachableBy.removeSubtype_loses (h : ReachableBy P s) {category subtype : String}
    (hs' : s.removeSubtype category subtype = .ok s') :
    s.Loses (fun t => t.category = category ∧ t.subtype = subtype) s' := by
  obtain ⟨hsettings, hsource, _, hcast⟩ := removeSubtype_ok hs'
  refine ⟨hsettings, hsource, fun name c' hc' => ?_⟩
  rw [hcast] at hc'
  obtain ⟨c, hc, rfl⟩ := Option.map_eq_some_iff.mp hc'
  refine ⟨c, hc, h.loses hc ?_ ?_ ?_ ?_⟩
  · intro category' subtype'
    simp only [Sheet.get?_removeSubtype, decide_eq_true_eq]
  · exact Sheet.tidy_removeSubtype (h.sound.sheets hc).tidy category subtype
  · intro uid t
    rw [ConditionFilter.picks_subtype, decide_eq_true_eq]
  · intro t ht
    rw [Target.kept_by_subtype ht, decide_eq_true_eq]

/-- The sheets of the others hold nothing about the one who is removed, so they stay. -/
theorem ReachableBy.removeCharacter_loses (h : ReachableBy P s) {removed : String}
    (hs' : s.removeCharacter removed = .ok s') : s.Loses (fun t => t.character = removed) s' := by
  have hplain : Key.Plain removed := h.named.removed_plain hs'
  obtain ⟨hsettings, hsource, _, hcast⟩ := removeCharacter_ok hs'
  refine ⟨hsettings, hsource, fun name c' hc' => ?_⟩
  rw [hcast] at hc'
  by_cases hn : name = removed
  · rw [if_pos hn] at hc'
    cases hc'
  · rw [if_neg hn] at hc'
    obtain ⟨c, hc, rfl⟩ := Option.map_eq_some_iff.mp hc'
    refine ⟨c, hc, h.loses hc ?_ ?_ ?_ ?_⟩
    · intro category subtype
      have hother : ¬c.name = removed := fun heq => hn ((h.named.characters hc).1.symm.trans heq)
      simp only [decide_eq_true_eq, if_neg hother]
    · exact (h.sound.sheets hc).tidy
    · intro uid t
      rw [ConditionFilter.picks_target, decide_eq_true_eq]
    · intro t ht
      rw [Target.kept_by_character ht hplain, decide_eq_true_eq]

/-! A removal succeeds exactly if what it names is there. -/

theorem removeCategory_ok_iff {category : String} :
    (∃ s', s.removeCategory category = .ok s') ↔ ∃ d, s.registry.category? category = some d := by
  unfold removeCategory
  cases s.registry.category? category with
  | none => exact iff_of_false (fun ⟨_, h⟩ => nomatch h) fun ⟨_, h⟩ => nomatch h
  | some d => exact iff_of_true ⟨_, rfl⟩ ⟨d, rfl⟩

theorem removeSubtype_ok_iff {category subtype : String} :
    (∃ s', s.removeSubtype category subtype = .ok s') ↔ s.registry.contains category subtype = true := by
  unfold removeSubtype Registry.contains
  cases s.registry.category? category with
  | none => exact iff_of_false (fun ⟨_, h⟩ => nomatch h) fun h => nomatch h
  | some d =>
    show (∃ s', (if d.hasSubtype subtype = true then _ else _) = Except.ok s') ↔
      d.hasSubtype subtype = true
    by_cases hsubtype : d.hasSubtype subtype = true
    · rw [if_pos hsubtype]
      exact iff_of_true ⟨_, rfl⟩ hsubtype
    · rw [if_neg hsubtype]
      exact iff_of_false (fun ⟨_, h⟩ => nomatch h) hsubtype

theorem removeCharacter_ok_iff {removed : String} :
    (∃ s', s.removeCharacter removed = .ok s') ↔ s.cast.contains removed = true := by
  unfold removeCharacter
  rw [Cast.contains_iff]
  constructor
  · rintro ⟨s', h⟩
    obtain ⟨c, hc, _⟩ := bind_eq_ok.mp h
    exact ⟨c, character?_eq_ok.mp hc⟩
  · rintro ⟨c, hc⟩
    exact ⟨_, bind_eq_ok.mpr ⟨c, character?_eq_ok.mpr hc, rfl⟩⟩

/-- **Removals are complete and precise.** In every reachable story each of the three removals of a
definition succeeds exactly if the definition is there, and a removal that fails leaves the story as
it was. One that succeeds takes the definition out of the registry or the cast, and every character
that is left loses what refers to it: its characteristics, the conditions about it in every plot,
and the keys recorded for it in every memory and aggregate. All else stays as it was. -/
theorem removals_are_exact (h : Reachable s) :
    (∀ category,
      ((∃ s', s.removeCategory category = .ok s') ↔ ∃ d, s.registry.category? category = some d) ∧
      (∀ e, s.removeCategory category = .error e → (Operation.removeCategory category).after s = s) ∧
      ∀ s', s.removeCategory category = .ok s' →
        (∀ name, s'.registry.category? name =
          if name = category then none else s.registry.category? name) ∧
        (∀ name, s'.cast.contains name = s.cast.contains name) ∧
        s.Loses (fun t => t.category = category) s') ∧
    (∀ category subtype,
      ((∃ s', s.removeSubtype category subtype = .ok s') ↔ s.registry.contains category subtype = true) ∧
      (∀ e, s.removeSubtype category subtype = .error e →
        (Operation.removeSubtype category subtype).after s = s) ∧
      ∀ s', s.removeSubtype category subtype = .ok s' →
        (∀ name, s'.registry.category? name =
          if name = category then
            (s.registry.category? category).map fun d => { d with subtypes := d.subtypes.erase subtype }
          else s.registry.category? name) ∧
        (∀ name, s'.cast.contains name = s.cast.contains name) ∧
        s.Loses (fun t => t.category = category ∧ t.subtype = subtype) s') ∧
    ∀ removed,
      ((∃ s', s.removeCharacter removed = .ok s') ↔ s.cast.contains removed = true) ∧
      (∀ e, s.removeCharacter removed = .error e → (Operation.removeCharacter removed).after s = s) ∧
      ∀ s', s.removeCharacter removed = .ok s' →
        s'.registry = s.registry ∧
        (∀ name, s'.cast.contains name = true ↔ s.cast.contains name = true ∧ name ≠ removed) ∧
        s.Loses (fun t => t.character = removed) s' := by
  have hfails : ∀ {x : Except StoryError Story} {e : StoryError}, x = .error e →
      (Attempt.ofExcept s x).state = s := by
    intro x e hx
    rw [hx]
    rfl
  refine ⟨fun category => ⟨removeCategory_ok_iff, fun e => hfails, ?_⟩,
    fun category subtype => ⟨removeSubtype_ok_iff, fun e => hfails, ?_⟩,
    fun removed => ⟨removeCharacter_ok_iff, fun e => hfails, ?_⟩⟩
  · intro s' hs'
    obtain ⟨_, _, hregistry, hcast⟩ := removeCategory_ok hs'
    refine ⟨fun name => ?_, fun name => Cast.contains_of_map (hcast name), h.removeCategory_loses hs'⟩
    rw [hregistry, Registry.category?_removeCategory]
  · intro s' hs'
    obtain ⟨_, _, hregistry, hcast⟩ := removeSubtype_ok hs'
    refine ⟨fun name => ?_, fun name => Cast.contains_of_map (hcast name), h.removeSubtype_loses hs'⟩
    rw [hregistry, Registry.category?_removeSubtype]
  · intro s' hs'
    obtain ⟨_, _, hregistry, hcast⟩ := removeCharacter_ok hs'
    refine ⟨hregistry, fun name => ?_, h.removeCharacter_loses hs'⟩
    have hget := hcast name
    by_cases hn : name = removed
    · rw [if_pos hn] at hget
      refine iff_of_false (fun hcontains => ?_) fun hcontains => hcontains.2 hn
      obtain ⟨c, hc⟩ := Cast.contains_iff.mp hcontains
      rw [hget] at hc
      cases hc
    · rw [if_neg hn] at hget
      rw [Cast.contains_of_map hget]
      exact (and_iff_left hn).symm

/-- The name of Bobby begins like that of Bob, each of two categories has a subtype that is called
like the other, and Ann remembers something about all of them. -/
def namesakes : Story :=
  [Operation.loadCategories [.numeric "Mood" ["Trust"] 0 10 5, .numeric "Trust" ["Mood"] 0 10 5],
    .loadCharacters ["Ann", "Bob", "Bobby"],
    .loadActions "Ann" [{ ActionDecl.new 1 "Tease" with
      first := true
      effects :=
        [⟨⟨"Bob", "Mood", "Trust"⟩, .subtract, .int 1⟩, ⟨⟨"Bob", "Trust", "Mood"⟩, .subtract, .int 1⟩,
          ⟨⟨"Bobby", "Mood", "Trust"⟩, .add, .int 1⟩] }],
    .execute "Ann" [1]].foldl (fun s op => op.after s) (start .default (.listed []))

/-- There neither the removal of a category nor that of a character takes a namesake along. -/
theorem removals_are_exact_namesakes :
    Reachable namesakes ∧ ∃ c, namesakes.cast.get? "Ann" = some c ∧
      (c.memory.aggregate.weights.contains "Bob:Mood:Trust" = true ∧
        c.memory.aggregate.weights.contains "Bob:Trust:Mood" = true ∧
        c.memory.aggregate.weights.contains "Bobby:Mood:Trust" = true) ∧
      (∃ s' c', namesakes.removeCategory "Trust" = .ok s' ∧ s'.cast.get? "Ann" = some c' ∧
        c'.memory.aggregate.weights.get? "Bob:Trust:Mood" = none ∧
        c'.memory.aggregate.weights.get? "Bob:Mood:Trust" =
          c.memory.aggregate.weights.get? "Bob:Mood:Trust") ∧
      ∃ s' c', namesakes.removeCharacter "Bob" = .ok s' ∧ s'.cast.get? "Ann" = some c' ∧
        c'.memory.aggregate.weights.get? "Bob:Mood:Trust" = none ∧
        c'.memory.aggregate.weights.get? "Bobby:Mood:Trust" =
          c.memory.aggregate.weights.get? "Bobby:Mood:Trust" := by
  have hreach : Reachable namesakes := reachable_calls (reachable_start_default _) _
  obtain ⟨c, hc⟩ : ∃ c, namesakes.cast.get? "Ann" = some c := Option.isSome_iff_exists.mp (by decide)
  have hremembered : (namesakes.cast.get? "Ann").all
      (fun c => c.memory.aggregate.weights.contains "Bob:Mood:Trust" &&
      c.memory.aggregate.weights.contains "Bob:Trust:Mood" &&
      c.memory.aggregate.weights.contains "Bobby:Mood:Trust") = true := by
    decide
  rw [hc] at hremembered
  obtain ⟨hboth, hbobby⟩ := (Bool.and_eq_true _ _).mp hremembered
  obtain ⟨hmood, htrust⟩ := (Bool.and_eq_true _ _).mp hboth
  have hbobMood : Target.Plain ⟨"Bob", "Mood", "Trust"⟩ := ⟨by decide, by decide, by decide⟩
  have hbobTrust : Target.Plain ⟨"Bob", "Trust", "Mood"⟩ := ⟨by decide, by decide, by decide⟩
  have hbobbyMood : Target.Plain ⟨"Bobby", "Mood", "Trust"⟩ := ⟨by decide, by decide, by decide⟩
  obtain ⟨hcategories, _, hcharacters⟩ := removals_are_exact hreach
  refine ⟨hreach, c, hc, ⟨hmood, htrust, hbobby⟩, ?_, ?_⟩
  · obtain ⟨hsucceeds, _, hexact⟩ := hcategories "Trust"
    obtain ⟨s', hs'⟩ := hsucceeds.mpr (Option.isSome_iff_exists.mp (by decide))
    obtain ⟨_, hcast, hloses⟩ := hexact s' hs'
    obtain ⟨c', hc'⟩ := Cast.contains_iff.mp ((hcast "Ann").trans (Cast.contains_iff.mpr ⟨c, hc⟩))
    obtain ⟨c₀, hc₀, hlost⟩ := hloses.characters "Ann" c' hc'
    rw [hc] at hc₀
    cases hc₀
    exact ⟨s', c', hs', hc', hlost.memory.aggregate.lost _ hbobTrust (by decide),
      hlost.memory.aggregate.kept_target hbobMood (by decide)⟩
  · obtain ⟨hsucceeds, _, hexact⟩ := hcharacters "Bob"
    obtain ⟨s', hs'⟩ := hsucceeds.mpr (by decide)
    obtain ⟨_, hcast, hloses⟩ := hexact s' hs'
    obtain ⟨c', hc'⟩ :=
      Cast.contains_iff.mp ((hcast "Ann").mpr ⟨Cast.contains_iff.mpr ⟨c, hc⟩, by decide⟩)
    obtain ⟨c₀, hc₀, hlost⟩ := hloses.characters "Ann" c' hc'
    rw [hc] at hc₀
    cases hc₀
    exact ⟨s', c', hs', hc', hlost.memory.aggregate.lost _ hbobMood (by decide),
      hlost.memory.aggregate.kept_target hbobbyMood (by decide)⟩

end Story

end Narrative
