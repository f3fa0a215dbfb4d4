import Narrative.Proofs.Removals

/-!
# `Proofs.Cuts` — removals may be made in any order

A removal goes through the registry, the sheets, the plots and the memories, and takes something out
of each. Wherever it does, it decides item by item what stays, and it looks at nothing but the item:
a category at its name, a condition at its place and its target, a memory at the text of its key. So
a removal is a **cut**, a test for each kind of item, and what it leaves are the items that pass.

Cuts made one after the other are one cut, whose tests are the conjunctions of theirs. Conjunctions
do not depend on the order, and what a cut leaves of a story is determined by its tests alone.

## Contents
- **Cuts.** `Cut`, with `Cut.all`, by which everything stays, and `Cut.and`.
- **Cutting.** What a cut leaves: `Plot.cut`, `Character.CutBy`, `Story.CutBy`. Cuts compose
  (`CutBy.trans`), and what they leave is determined (`CutBy.eq`).
- **Removals.** `Removal`, the calls that take something out; each is a cut (`ReachableBy.cutBy`).
- **Order.** Calls in a row are one cut (`ReachableBy.cutBy_all`), so they may be made in any order
  (`eq_of_perm`); the main result `removals_commute`.
-/

namespace Narrative
open Outcome

/-! ## Cuts -/

/-- Tests for what a story consists of. What passes stays. -/
structure Cut where
  category : String → Bool
  subtype : (category : String) → String → Bool
  character : String → Bool
  /-- The keys of memories. -/
  key : String → Bool
  action : (owner : String) → Uid → Bool
  precondition : (owner : String) → Uid → Target → Bool
  effect : (owner : String) → Uid → Target → Bool

namespace Cut

/-- The cut by which everything stays. -/
def all : Cut where
  category _ := true
  subtype _ _ := true
  character _ := true
  key _ := true
  action _ _ := true
  precondition _ _ _ := true
  effect _ _ _ := true

/-- The cut that takes out the conditions that a filter picks, and nothing else. -/
def conditions (f : ConditionFilter) : Cut :=
  { all with
    precondition := fun owner uid t => !f.picks owner uid t
    effect := fun owner uid t => !f.picks owner uid t }

/-- What passes both. -/
def and (k l : Cut) : Cut where
  category name := k.category name && l.category name
  subtype category name := k.subtype category name && l.subtype category name
  character name := k.character name && l.character name
  key text := k.key text && l.key text
  action owner uid := k.action owner uid && l.action owner uid
  precondition owner uid t := k.precondition owner uid t && l.precondition owner uid t
  effect owner uid t := k.effect owner uid t && l.effect owner uid t

theorem and_right_comm (k l m : Cut) : (k.and l).and m = (k.and m).and l := by
  simp only [and, Bool.and_right_comm]

end Cut

/-! ## Cutting -/

/-- What a cut leaves of a category. -/
def Category.cut (k : Cut) (name : String) (d : Category) : Category :=
  { d with subtypes := d.subtypes.filter fun subtype _ => k.subtype name subtype }

/-- What a cut leaves of an action. -/
def Action.cut (k : Cut) (owner : String) (a : Action) : Action :=
  { a with
    preconditions := a.preconditions.filter (k.precondition owner a.uid ·.toTarget)
    effects := a.effects.filter (k.effect owner a.uid ·.toTarget)
    children := a.children.filter (k.action owner)
    parents := a.parents.filter (k.action owner) }

/-- What a cut leaves of a plot. -/
def Plot.cut (k : Cut) (owner : String) (p : Plot) : Plot :=
  { p with
    roots := p.roots.filter (k.action owner)
    actions := (p.actions.filter fun uid _ => k.action owner uid).map (Action.cut k owner) }

/-- `c'` is what a cut leaves of a character. -/
structure Character.CutBy (k : Cut) (c c' : Character) : Prop where
  name : c'.name = c.name
  sheet : ∀ category subtype, c'.sheet.get? category subtype =
    if k.subtype category subtype = true then c.sheet.get? category subtype else none
  plot : c'.plot = c.plot.cut k c.name
  memory : c'.memory = c.memory.retainKeys k.key

/-- `s'` is what a cut leaves of a story. -/
structure Story.CutBy (k : Cut) (s s' : Story) : Prop where
  settings : s'.settings = s.settings
  source : s'.source = s.source
  registry : ∀ name, s'.registry.category? name =
    if k.category name = true then (s.registry.category? name).map (Category.cut k name) else none
  names : ∀ name, s'.cast.contains name = (s.cast.contains name && k.character name)
  characters : ∀ name c', s'.cast.get? name = some c' → ∃ c, s.cast.get? name = some c ∧ c.CutBy k c'

variable {k l : Cut} {owner : String}

namespace SortedMap

variable {κ β : Type} [Ord κ] [Std.TransOrd κ] [Std.LawfulEqOrd κ] [DecidableEq κ]

theorem filter_filter (m : SortedMap κ β) (keep keep' : κ → β → Bool) :
    (m.filter keep).filter keep' = m.filter fun x b => keep x b && keep' x b := by
  apply ext
  intro x
  rw [get?_filter, get?_filter, get?_filter]
  cases m.get? x with
  | none => rfl
  | some b => by_cases h : keep x b = true <;> simp [Option.filter, h]

theorem erase_eq_filter (m : SortedMap κ β) (k : κ) : m.erase k = m.filter fun x _ => x != k := by
  apply ext
  intro x
  rw [get?_erase, get?_filter]
  by_cases hx : x = k <;> cases m.get? x <;> simp [Option.filter, hx]

theorem filter_true (m : SortedMap κ β) : (m.filter fun _ _ => true) = m := by
  apply ext
  intro x
  rw [get?_filter]
  cases m.get? x <;> rfl

end SortedMap

/-! ### One cut after the other -/

theorem Category.cut_cut (name : String) (d : Category) :
    (d.cut k name).cut l name = d.cut (k.and l) name := by
  unfold Category.cut
  rw [SortedMap.filter_filter]
  rfl

theorem Action.cut_cut (a : Action) : (a.cut k owner).cut l owner = a.cut (k.and l) owner := by
  simp only [Action.cut, Cut.and, List.filter_filter, Bool.and_comm]

theorem Plot.cut_cut (p : Plot) : (p.cut k owner).cut l owner = p.cut (k.and l) owner := by
  have hactions : ((p.cut k owner).cut l owner).actions = (p.cut (k.and l) owner).actions := by
    apply SortedMap.ext
    intro uid
    simp only [Plot.cut, SortedMap.get?_map, SortedMap.get?_filter]
    cases p.actions.get? uid with
    | none => rfl
    | some a =>
      by_cases hk : k.action owner uid = true
      · by_cases hl : l.action owner uid = true
        · have hboth : (k.and l).action owner uid = true := by
            simp [Cut.and, hk, hl]
          simp only [Option.filter_some, hk, hl, hboth, if_true, Option.map_some, Action.cut_cut]
        · simp [Option.filter, Cut.and, hk, hl]
      · simp [Option.filter, Cut.and, hk]
  have hroots : ((p.cut k owner).cut l owner).roots = (p.cut (k.and l) owner).roots := by
    simp only [Plot.cut, Cut.and, List.filter_filter, Bool.and_comm]
  exact congrArg₂ (Plot.mk · · p.validated) hroots hactions

theorem Weights.retain_retain (v : Weights) (keep keep' : String → Bool) :
    (v.retain keep).retain keep' = v.retain fun key => keep key && keep' key := by
  unfold retain
  rw [SortedMap.filter_filter]

theorem MemoryBank.retainKeys_retainKeys (b : MemoryBank) (keep keep' : String → Bool) :
    (b.retainKeys keep).retainKeys keep' = b.retainKeys fun key => keep key && keep' key := by
  unfold retainKeys
  simp only [List.map_map, Function.comp_def, Weights.retain_retain]

theorem Character.CutBy.trans {c c₁ c₂ : Character} (h : c.CutBy k c₁) (h' : c₁.CutBy l c₂) :
    c.CutBy (k.and l) c₂ where
  name := h'.name.trans h.name
  sheet := by
    intro category subtype
    rw [h'.sheet, h.sheet]
    by_cases hk : k.subtype category subtype = true <;> simp [Cut.and, hk]
  plot := by rw [h'.plot, h.plot, h.name, Plot.cut_cut]
  memory := by
    rw [h'.memory, h.memory, MemoryBank.retainKeys_retainKeys]
    rfl

namespace Story

variable {s s₁ s₂ t u : Story}

/-- **Two cuts are one.** -/
theorem CutBy.trans (h : s.CutBy k s₁) (h' : s₁.CutBy l s₂) : s.CutBy (k.and l) s₂ where
  settings := h'.settings.trans h.settings
  source := h'.source.trans h.source
  registry := by
    intro name
    rw [h'.registry, h.registry]
    by_cases hk : k.category name = true
    · simp only [Cut.and, hk, Bool.true_and, if_true, Option.map_map]
      congr 2
      funext d
      exact Category.cut_cut name d
    · simp [Cut.and, hk]
  names := by
    intro name
    rw [h'.names, h.names, Bool.and_assoc]
    rfl
  characters := by
    intro name c₂ hc₂
    obtain ⟨c₁, hc₁, hcut'⟩ := h'.characters name c₂ hc₂
    obtain ⟨c, hc, hcut⟩ := h.characters name c₁ hc₁
    exact ⟨c, hc, hcut.trans hcut'⟩

/-- **What a cut leaves of a story is determined by its tests**, as long as sheets are tidy. -/
theorem CutBy.eq (h : s.CutBy k t) (h' : s.CutBy k u) (ht : t.Sound) (hu : u.Sound) : t = u := by
  have hregistry : t.registry = u.registry := by
    apply congrArg Registry.mk
    apply SortedMap.ext
    intro name
    exact (h.registry name).trans (h'.registry name).symm
  refine ext_cast (h.settings.trans h'.settings.symm) hregistry (h.source.trans h'.source.symm)
    fun name => ?_
  have hnames : t.cast.contains name = u.cast.contains name := (h.names name).trans (h'.names name).symm
  cases hc : t.cast.get? name with
  | none =>
    have hgone : u.cast.contains name = false := hnames.symm.trans (Cast.not_contains_iff.mpr hc)
    exact (Cast.not_contains_iff.mp hgone).symm
  | some c =>
    obtain ⟨c', hc'⟩ := Cast.contains_iff.mp (hnames.symm.trans (Cast.contains_iff.mpr ⟨c, hc⟩))
    obtain ⟨c₀, hc₀, hcut⟩ := h.characters name c hc
    obtain ⟨_, hc₀', hcut'⟩ := h'.characters name c' hc'
    rw [hc₀] at hc₀'
    cases hc₀'
    have hsheet : c.sheet = c'.sheet := by
      refine (ht.sheets hc).tidy.ext (hu.sheets hc').tidy fun category subtype => ?_
      rw [hcut.sheet, hcut'.sheet]
    have hsame : c = c' := by
      have hname := hcut.name.trans hcut'.name.symm
      have hplot := hcut.plot.trans hcut'.plot.symm
      have hmemory := hcut.memory.trans hcut'.memory.symm
      cases c
      cases c'
      simp only at hname hsheet hplot hmemory
      rw [hname, hsheet, hplot, hmemory]
    rw [hc', hsame]

end Story

/-! ### What a cut does not test -/

/-- A category whose subtypes all pass stays as it is. -/
theorem Category.cut_of_all {name : String} (hk : ∀ subtype, k.subtype name subtype = true) :
    Category.cut k name = id := by
  funext d
  unfold Category.cut
  simp only [hk, SortedMap.filter_true, id]

/-- Where all actions pass, a cut works on their conditions only. -/
theorem Plot.cut_eq_updateAll (p : Plot) (hk : ∀ uid, k.action owner uid = true) :
    p.cut k owner = p.updateAll fun a =>
      { a with
        preconditions := a.preconditions.filter (k.precondition owner a.uid ·.toTarget)
        effects := a.effects.filter (k.effect owner a.uid ·.toTarget) } := by
  have hroots : p.roots.filter (k.action owner) = p.roots := List.filter_eq_self.mpr fun uid _ => hk uid
  have haction : Action.cut k owner = fun a =>
      { a with
        preconditions := a.preconditions.filter (k.precondition owner a.uid ·.toTarget)
        effects := a.effects.filter (k.effect owner a.uid ·.toTarget) } := by
    funext a
    unfold Action.cut
    rw [List.filter_eq_self.mpr fun uid _ => hk uid, List.filter_eq_self.mpr fun uid _ => hk uid]
  unfold Plot.cut Plot.updateAll
  simp only [hk, SortedMap.filter_true, hroots, haction]

/-- A plot in which everything passes stays as it is. -/
theorem Plot.cut_of_all (p : Plot) (haction : ∀ uid, k.action owner uid = true)
    (hpre : ∀ uid t, k.precondition owner uid t = true) (heff : ∀ uid t, k.effect owner uid t = true) :
    p.cut k owner = p := by
  rw [Plot.cut_eq_updateAll p haction]
  unfold Plot.updateAll
  simp only [hpre, heff, List.filter_true]
  refine congrArg (fun actions => { p with actions := actions }) (SortedMap.ext fun uid => ?_)
  rw [SortedMap.get?_map]
  exact Option.map_id'

/-- An action that goes is cut out of its plot, with the links to it. -/
theorem Plot.removeAction_eq_cut {p : Plot} {gone : Uid} (h : p.mapped gone = true)
    (hk : ∀ uid, k.action owner uid = (uid != gone)) (hpre : ∀ uid t, k.precondition owner uid t = true)
    (heff : ∀ uid t, k.effect owner uid t = true) : p.removeAction gone = p.cut k owner := by
  have haction : Action.cut k owner = fun a =>
      { a with children := a.children.filter (· != gone), parents := a.parents.filter (· != gone) } := by
    funext a
    unfold Action.cut
    simp only [funext hk, hpre, heff, List.filter_true]
  unfold Plot.removeAction Plot.cut
  rw [if_pos h, haction, SortedMap.erase_eq_filter, funext hk]

theorem Weights.retain_true (v : Weights) : (v.retain fun _ => true) = v := by
  unfold retain
  rw [SortedMap.filter_true]

theorem MemoryBank.retainKeys_true (b : MemoryBank) : (b.retainKeys fun _ => true) = b := by
  unfold retainKeys
  simp only [Weights.retain_true, List.map_id']

/-- What is left of a character whose actions all pass. -/
theorem Character.cutBy_without {c : Character} {f : ConditionFilter} {sheet : Sheet}
    (haction : ∀ uid, k.action c.name uid = true)
    (hpre : ∀ uid t, k.precondition c.name uid t = !f.picks c.name uid t)
    (heff : ∀ uid t, k.effect c.name uid t = !f.picks c.name uid t)
    (hsheet : ∀ category subtype, sheet.get? category subtype =
      if k.subtype category subtype = true then c.sheet.get? category subtype else none) :
    c.CutBy k
      { c with
        sheet := sheet
        memory := c.memory.retainKeys k.key
        plot := c.plot.updateAll (Action.without f c.name) } := by
  refine ⟨rfl, hsheet, ?_, rfl⟩
  rw [Plot.cut_eq_updateAll c.plot haction]
  simp only [hpre, heff]
  rfl

namespace Story

/-! ## Removals -/

/-- A call that takes something out of a story. -/
inductive Removal where
  | removeCategory (category : String)
  | removeSubtype (category subtype : String)
  | removeCharacter (name : String)
  | removeAction (owner : String) (uid : Uid)
  | removePreconditions (f : ConditionFilter)
  | removeEffects (f : ConditionFilter)

namespace Removal

/-- Makes the call. -/
def run (s : Story) : Removal → Except StoryError Story
  | removeCategory category => s.removeCategory category
  | removeSubtype category subtype => s.removeSubtype category subtype
  | removeCharacter name => s.removeCharacter name
  | removeAction owner uid => s.removeAction owner uid
  | removePreconditions f => .ok (s.removePreconditions f).2
  | removeEffects f => .ok (s.removeEffects f).2

/-- The cut that the call makes. -/
def cut : Removal → Cut
  | removeCategory category =>
    { Cut.conditions { ConditionFilter.any with category := some category } with
      category := fun name => name != category
      subtype := fun name _ => name != category
      key := fun key => Key.category? key != some category }
  | removeSubtype category subtype =>
    { Cut.conditions { ConditionFilter.any with category := some category, subtype := some subtype } with
      subtype := fun name name' => !(name == category && name' == subtype)
      key := fun key => Key.category? key != some category || Key.subtype? key != some subtype }
  | removeCharacter removed =>
    { Cut.conditions { ConditionFilter.any with target := some removed } with
      character := fun name => name != removed
      key := fun key => !Key.belongsTo key removed }
  | removeAction owner uid => { Cut.all with action := fun name uid' => !(name == owner && uid' == uid) }
  | removePreconditions f => { Cut.conditions f with effect := Cut.all.effect }
  | removeEffects f => { Cut.conditions f with precondition := Cut.all.precondition }

end Removal

variable {P : Story → List ActionDecl → Prop} {s s' : Story}

/-- A removal that succeeds is a call like any other. -/
theorem ReachableBy.removal (h : ReachableBy P s) {a : Removal} (ha : a.run s = .ok s') :
    ReachableBy P s' := by
  have hcall : ∀ (op : Operation), op.Admits P s → op.after s = (Attempt.ofExcept s (a.run s)).state →
      ReachableBy P s' := by
    intro op hP hop
    have hstate : op.after s = s' := by
      rw [hop, ha]
      rfl
    exact hstate ▸ .call op h hP
  cases a with
  | removeCategory category => exact hcall (.removeCategory category) trivial rfl
  | removeSubtype category subtype => exact hcall (.removeSubtype category subtype) trivial rfl
  | removeCharacter name => exact hcall (.removeCharacter name) trivial rfl
  | removeAction owner uid => exact hcall (.removeAction owner uid) trivial rfl
  | removePreconditions f => exact hcall (.removePreconditions f) trivial rfl
  | removeEffects f => exact hcall (.removeEffects f) trivial rfl

/-! Each removal is a cut. -/

theorem cutBy_removeCategory {category : String} (h : s.removeCategory category = .ok s') :
    s.CutBy (Removal.removeCategory category).cut s' := by
  obtain ⟨hsettings, hsource, hregistry, hcast⟩ := removeCategory_ok h
  refine ⟨hsettings, hsource, ?_, ?_, ?_⟩
  · intro name
    rw [hregistry, Registry.category?_removeCategory]
    by_cases hn : name = category
    · have hout : ¬(Removal.removeCategory category).cut.category name = true := by
        simp [Removal.cut, hn]
      rw [if_pos hn, if_neg hout]
    · have hin : (Removal.removeCategory category).cut.category name = true := by simp [Removal.cut, hn]
      -- the subtypes of the other categories pass the same test
      rw [if_neg hn, if_pos hin, Category.cut_of_all fun _ => hin, Option.map_id, id]
  · intro name
    rw [Cast.contains_of_map (hcast name)]
    exact (Bool.and_true _).symm
  · intro name c' hc'
    rw [hcast] at hc'
    obtain ⟨c, hc, rfl⟩ := Option.map_eq_some_iff.mp hc'
    refine ⟨c, hc, Character.cutBy_without (fun _ => rfl) (fun _ _ => rfl) (fun _ _ => rfl) ?_⟩
    intro category' subtype'
    rw [Sheet.get?_removeCategory]
    by_cases hcategory : category' = category <;> simp [Removal.cut, hcategory]

theorem cutBy_removeSubtype {category subtype : String} (h : s.removeSubtype category subtype = .ok s') :
    s.CutBy (Removal.removeSubtype category subtype).cut s' := by
  obtain ⟨hsettings, hsource, hregistry, hcast⟩ := removeSubtype_ok h
  refine ⟨hsettings, hsource, ?_, ?_, ?_⟩
  · intro name
    rw [hregistry, Registry.category?_removeSubtype]
    show _ = (s.registry.category? name).map _
    by_cases hn : name = category
    · rw [if_pos hn, hn]
      congr 1
      funext d
      have hin : (Removal.removeSubtype category subtype).cut.subtype category =
          fun x => x != subtype := by
        funext x
        simp [Removal.cut, bne]
      unfold Category.cut
      rw [SortedMap.erase_eq_filter, hin]
    · have hin : ∀ x, (Removal.removeSubtype category subtype).cut.subtype name x = true := by
        simp [Removal.cut, hn]
      rw [if_neg hn, Category.cut_of_all hin, Option.map_id, id]
  · intro name
    rw [Cast.contains_of_map (hcast name)]
    exact (Bool.and_true _).symm
  · intro name c' hc'
    rw [hcast] at hc'
    obtain ⟨c, hc, rfl⟩ := Option.map_eq_some_iff.mp hc'
    refine ⟨c, hc, Character.cutBy_without (fun _ => rfl) (fun _ _ => rfl) (fun _ _ => rfl) ?_⟩
    intro category' subtype'
    rw [Sheet.get?_removeSubtype]
    by_cases hcategory : category' = category <;> by_cases hsubtype : subtype' = subtype <;>
      simp [Removal.cut, hcategory, hsubtype]

/-- The sheets of the others hold nothing about the one who is removed. -/
theorem cutBy_removeCharacter {removed : String} (h : s.removeCharacter removed = .ok s') :
    s.CutBy (Removal.removeCharacter removed).cut s' := by
  obtain ⟨hsettings, hsource, hregistry, hcast⟩ := removeCharacter_ok h
  refine ⟨hsettings, hsource, ?_, ?_, ?_⟩
  · intro name
    show _ = (s.registry.category? name).map _
    rw [hregistry, Category.cut_of_all fun _ => rfl, Option.map_id, id]
  · intro name
    have hget := hcast name
    show _ = (s.cast.contains name && name != removed)
    by_cases hn : name = removed
    · rw [if_pos hn] at hget
      show (s'.cast.get? name).isSome = _
      rw [hget, hn]
      simp
    · rw [if_neg hn] at hget
      rw [Cast.contains_of_map hget]
      simp [hn]
  · intro name c' hc'
    rw [hcast] at hc'
    by_cases hn : name = removed
    · rw [if_pos hn] at hc'
      cases hc'
    · rw [if_neg hn] at hc'
      obtain ⟨c, hc, rfl⟩ := Option.map_eq_some_iff.mp hc'
      exact ⟨c, hc, Character.cutBy_without (fun _ => rfl) (fun _ _ => rfl) (fun _ _ => rfl)
        fun _ _ => rfl⟩

/-- A cut that touches nothing but plots. -/
theorem cutBy_of_plots {action : String → Uid → Bool}
    {precondition effect : String → Uid → Target → Bool} {cast : Cast}
    (hcast : ∀ name, cast.get? name =
      (s.cast.get? name).map fun c =>
        { c with plot := c.plot.cut { Cut.all with action, precondition, effect } c.name }) :
    s.CutBy { Cut.all with action, precondition, effect } { s with cast := cast } := by
  refine ⟨rfl, rfl, ?_, ?_, ?_⟩
  · intro name
    show _ = (s.registry.category? name).map _
    rw [Category.cut_of_all fun _ => rfl, Option.map_id, id]
  · intro name
    exact (Cast.contains_of_map (hcast name)).trans (Bool.and_true _).symm
  · intro name c' hc'
    change cast.get? name = some c' at hc'
    rw [hcast] at hc'
    obtain ⟨c, hc, rfl⟩ := Option.map_eq_some_iff.mp hc'
    exact ⟨c, hc, rfl, fun _ _ => rfl, rfl, (MemoryBank.retainKeys_true c.memory).symm⟩

/-- A cut that touches nothing but conditions is one pass over the actions. -/
theorem cutBy_mapActions (s : Story) (precondition effect : String → Uid → Target → Bool) :
    s.CutBy { Cut.all with precondition, effect } (s.mapActions fun owner a =>
      { a with
        preconditions := a.preconditions.filter (precondition owner a.uid ·.toTarget)
        effects := a.effects.filter (effect owner a.uid ·.toTarget) }) := by
  apply cutBy_of_plots
  intro name
  rw [Cast.get?_updateAll]
  congr 1
  funext c
  rw [Plot.cut_eq_updateAll c.plot fun _ => rfl]

theorem cutBy_removePreconditions (s : Story) (f : ConditionFilter) :
    s.CutBy (Removal.removePreconditions f).cut (s.removePreconditions f).2 := by
  have hcut := s.cutBy_mapActions (Cut.conditions f).precondition Cut.all.effect
  simp only [Cut.all, List.filter_true] at hcut
  exact hcut

theorem cutBy_removeEffects (s : Story) (f : ConditionFilter) :
    s.CutBy (Removal.removeEffects f).cut (s.removeEffects f).2 := by
  have hcut := s.cutBy_mapActions Cut.all.precondition (Cut.conditions f).effect
  simp only [Cut.all, List.filter_true] at hcut
  exact hcut

/-- Only actions that are mapped can be removed. -/
theorem mapped_of_removeAction {gone : Uid} {c : Character} (h : s.removeAction owner gone = .ok s')
    (hc : s.cast.get? owner = some c) : c.plot.mapped gone = true := by
  obtain ⟨a, ha, _⟩ := bind_eq_ok.mp h
  obtain ⟨_, hc', ha⟩ := bind_eq_ok.mp ha
  rw [character?_eq_ok.mp hc'] at hc
  cases hc
  show (c.plot.action? gone).isSome = true
  cases hget : c.plot.action? gone with
  | none =>
    rw [hget] at ha
    cases ha
  | some _ => rfl

/-- The plot stands under the name of its owner, so the cut that goes by that name hits no other. -/
theorem ReachableBy.cutBy_removeAction (h : ReachableBy P s) {owner : String} {gone : Uid}
    (hs' : s.removeAction owner gone = .ok s') : s.CutBy (Removal.removeAction owner gone).cut s' := by
  rw [removeAction_ok hs']
  apply cutBy_of_plots
  intro name
  rw [Cast.get?_update]
  by_cases hn : name = owner
  · subst hn
    rw [if_pos rfl]
    refine Option.map_congr fun c hc => ?_
    have hname : c.name = name := (h.named.characters hc).1
    have hother : ∀ uid, (!(c.name == name && uid == gone)) = (uid != gone) := by simp [hname, bne]
    have hcut : c.plot.removeAction gone = c.plot.cut (Removal.removeAction name gone).cut c.name :=
      Plot.removeAction_eq_cut (mapped_of_removeAction hs' hc) hother (fun _ _ => rfl) fun _ _ => rfl
    exact congrArg (fun p => { c with plot := p }) hcut
  · rw [if_neg hn]
    cases hc : s.cast.get? name with
    | none => rfl
    | some c =>
      have hname : c.name = name := (h.named.characters hc).1
      have hother : ∀ uid, (!(c.name == owner && uid == gone)) = true := by simp [hname, hn]
      have hcut : c.plot.cut (Removal.removeAction owner gone).cut c.name = c.plot :=
        Plot.cut_of_all c.plot hother (fun _ _ => rfl) fun _ _ => rfl
      exact congrArg (fun p => some { c with plot := p }) hcut.symm

/-- **Every removal is a cut.** -/
theorem ReachableBy.cutBy (h : ReachableBy P s) {a : Removal} (ha : a.run s = .ok s') :
    s.CutBy a.cut s' := by
  cases a with
  | removeCategory category => exact cutBy_removeCategory ha
  | removeSubtype category subtype => exact cutBy_removeSubtype ha
  | removeCharacter name => exact cutBy_removeCharacter ha
  | removeAction owner uid => exact h.cutBy_removeAction ha
  | removePreconditions f =>
    cases ha
    exact s.cutBy_removePreconditions f
  | removeEffects f =>
    cases ha
    exact s.cutBy_removeEffects f

/-! ## Order -/

/-- Makes the calls one after the other, until one fails. -/
def Removal.runAll (s : Story) (as : List Removal) : Except StoryError Story := as.foldlM Removal.run s

/-- The cut that the calls come to. -/
def Removal.cutAll (as : List Removal) : Cut := as.foldl (fun k a => k.and a.cut) Cut.all

/-- The order of the calls does not show in their cut. -/
theorem Removal.cutAll_of_perm {as bs : List Removal} (h : as.Perm bs) : cutAll as = cutAll bs :=
  h.foldl_eq' (fun a _ b _ k => Cut.and_right_comm k a.cut b.cut) Cut.all

theorem cutBy_all (s : Story) : s.CutBy Cut.all s := by
  apply cutBy_of_plots
  intro name
  have hsame : (fun c : Character => { c with plot := c.plot.cut Cut.all c.name }) = id := by
    funext c
    rw [Plot.cut_of_all c.plot (fun _ => rfl) (fun _ _ => rfl) fun _ _ => rfl]
    rfl
  exact (congrFun (hsame ▸ Option.map_id) _).symm

/-- **What calls in a row do is one cut.** -/
theorem ReachableBy.cutBy_all (h : ReachableBy P s) {as : List Removal}
    (hs' : Removal.runAll s as = .ok s') :
    ReachableBy P s' ∧ s.CutBy (Removal.cutAll as) s' := by
  -- the induction is on the calls, with the cut made so far
  have hrun : ∀ (as : List Removal) (k : Cut) (t : Story), ReachableBy P t → s.CutBy k t →
      Removal.runAll t as = .ok s' →
      ReachableBy P s' ∧ s.CutBy (as.foldl (fun k a => k.and a.cut) k) s' := by
    intro as
    induction as with
    | nil =>
      intro k t ht hcut hs'
      cases hs'
      exact ⟨ht, hcut⟩
    | cons a as ih =>
      intro k t ht hcut hs'
      obtain ⟨u, hu, hs'⟩ := bind_eq_ok.mp hs'
      exact ih (k.and a.cut) u (ht.removal hu) (hcut.trans (ht.cutBy hu)) hs'
  exact hrun as Cut.all s h (Story.cutBy_all s) hs'

/-- **Any number of removals may be made in any order.** -/
theorem ReachableBy.eq_of_perm (h : ReachableBy P s) {as bs : List Removal} (hperm : as.Perm bs)
    {t u : Story} (ht : Removal.runAll s as = .ok t) (hu : Removal.runAll s bs = .ok u) : t = u := by
  obtain ⟨hreach, hcut⟩ := h.cutBy_all ht
  obtain ⟨hreach', hcut'⟩ := h.cutBy_all hu
  rw [Removal.cutAll_of_perm hperm] at hcut
  exact hcut.eq hcut' hreach.sound hreach'.sound

/-- **Removals commute.** Take any two calls that take something out of a reachable story, with any
arguments. If both can be made in both orders, both orders end in the same story. -/
theorem removals_commute (h : Reachable s) {a b : Removal} {s₁ s₂ t u : Story} (ha : a.run s = .ok s₁)
    (hab : b.run s₁ = .ok t) (hb : b.run s = .ok s₂) (hba : a.run s₂ = .ok u) : t = u := by
  have hleft : Removal.runAll s [a, b] = .ok t := bind_eq_ok.mpr ⟨s₁, ha, bind_eq_ok.mpr ⟨t, hab, rfl⟩⟩
  have hright : Removal.runAll s [b, a] = .ok u := bind_eq_ok.mpr ⟨s₂, hb, bind_eq_ok.mpr ⟨u, hba, rfl⟩⟩
  exact h.eq_of_perm (.swap b a []) hleft hright

/-- The trust of Bob goes with trust as well as with Bob, from what Ann does and from what she
remembers. -/
theorem removals_commute_namesakes :
    Reachable namesakes ∧ ∃ s₁ s₂ t, (Removal.removeCategory "Trust").run namesakes = .ok s₁ ∧
      (Removal.removeCharacter "Bob").run s₁ = .ok t ∧
      (Removal.removeCharacter "Bob").run namesakes = .ok s₂ ∧
      (Removal.removeCategory "Trust").run s₂ = .ok t := by
  have hreach : Reachable namesakes := reachable_calls (reachable_start_default _) _
  have hthere : ∃ d, namesakes.registry.category? "Trust" = some d :=
    Option.isSome_iff_exists.mp (by decide)
  obtain ⟨s₁, hs₁⟩ := removeCategory_ok_iff.mpr hthere
  obtain ⟨s₂, hs₂⟩ := removeCharacter_ok_iff.mpr (show namesakes.cast.contains "Bob" = true by decide)
  -- each leaves what the other takes out
  have hbob : s₁.cast.contains "Bob" = true := by
    obtain ⟨_, _, _, hcast⟩ := removeCategory_ok hs₁
    rw [Cast.contains_of_map (hcast "Bob")]
    decide
  have htrust : ∃ d, s₂.registry.category? "Trust" = some d := by
    obtain ⟨_, _, hregistry, _⟩ := removeCharacter_ok hs₂
    rw [hregistry]
    exact hthere
  obtain ⟨t, ht⟩ := removeCharacter_ok_iff.mpr hbob
  obtain ⟨u, hu⟩ := removeCategory_ok_iff.mpr htrust
  have hsame : t = u :=
    removals_commute hreach (a := .removeCategory "Trust") (b := .removeCharacter "Bob") hs₁ ht hs₂ hu
  exact ⟨hreach, s₁, s₂, t, hs₁, ht, hs₂, hsame ▸ hu⟩

end Story
end Narrative
