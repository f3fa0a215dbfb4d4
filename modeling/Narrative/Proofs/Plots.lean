import Narrative.Proofs.Agreement
import Narrative.Proofs.Editing

/-!
# `Proofs.Plots` — what a step does to the plots of a story

Fifteen kinds of step come down to four fates of a plot: it stays, it loses conditions, it loses an
action, or it is extended by declarations. `Step.plot` says which, once; what is invariant about
plots is then shown by four cases.

The conditions in a plot speak of characters and attributes elsewhere in the story, and a step may take
these away. The fates therefore record which targets **survive** the step: all of them, unless the step
trims the plot, and then at least those of the conditions that it leaves.

## Contents
- **Views.** `Cast.Same` for changes of the cast that touch nothing of what a view shows.
- **Targets.** `Target.Survives`, and which targets survive a growth and the removal of a definition.
- **Fates.** `PlotStep` and the inversion lemma `Step.plot`.
- **Ready plots.** `ReachableBy.ready`: every plot of a reachable story may be traversed.
-/

namespace Narrative
open Outcome

/-! ## Views -/

namespace Cast

variable {α : Type} {view : Character → α} {cast cast' cast'' : Cast} {name : String}

/-- Two casts are the **same** under a view of characters if every name shows the same in both; all
else of the characters may differ. -/
def Same (view : Character → α) (cast cast' : Cast) : Prop :=
  ∀ name, (cast'.get? name).map view = (cast.get? name).map view

theorem same_refl (view : Character → α) (cast : Cast) : Same view cast cast := fun _ => rfl

theorem Same.trans (h : Same view cast cast') (h' : Same view cast' cast'') : Same view cast cast'' :=
  fun name => (h' name).trans (h name)

theorem Same.contains (h : Same view cast cast') (name : String) :
    cast'.contains name = cast.contains name := by
  have hsome := congrArg Option.isSome (h name)
  rw [Option.isSome_map, Option.isSome_map] at hsome
  exact hsome

theorem Same.view_eq (h : Same view cast cast') {c' : Character} (hc' : cast'.get? name = some c') :
    ∃ c, cast.get? name = some c ∧ view c = view c' := by
  have hview := h name
  rw [hc'] at hview
  exact Option.map_eq_some_iff.mp hview.symm

theorem same_update (cast : Cast) (name : String) {f : Character → Character}
    (hf : ∀ c, view (f c) = view c) :
    Same view cast (cast.update name f) := by
  intro name'
  rw [get?_update]
  by_cases hn : name' = name
  · rw [if_pos hn, hn, Option.map_map]
    exact congrArg (Option.map · _) (funext hf)
  · rw [if_neg hn]

theorem same_updateAll (cast : Cast) {f : Character → Character} (hf : ∀ c, view (f c) = view c) :
    Same view cast (cast.updateAll f) := by
  intro name
  rw [get?_updateAll, Option.map_map]
  exact congrArg (Option.map · _) (funext hf)

/-! Effects write onto sheets, so a view that does not look at the sheet shows no difference. -/

theorem same_setSheet (hview : ∀ c sheet, view { c with sheet := sheet } = view c) (cast : Cast)
    (name : String) (sheet : Sheet) : Same view cast (setSheet cast name sheet) :=
  same_update cast name fun c => hview c sheet

theorem same_enact (hview : ∀ c sheet, view { c with sheet := sheet } = view c) (r : Registry)
    (cast : Cast) (e : Effect) : Same view cast (r.enact cast e).state := by
  cases h : sheet? cast e.character with
  | none => rw [Registry.enact_of_none h]; exact same_refl view cast
  | some sheet => rw [Registry.enact_of_some h]; exact same_setSheet hview cast _ _

theorem same_recordAll (hview : ∀ c sheet, view { c with sheet := sheet } = view c) (r : Registry)
    (es : List Effect) (m : Memory) (cast : Cast) : Same view cast (r.recordAll es m cast).state :=
  recordAll_keeps (I := Same view cast) (fun e _ h => h.trans (same_enact hview r _ e)) es m
    (same_refl view cast)

end Cast

/-! ## Targets -/

/-- A target **survives** if its character stays in the cast and its attribute stays registered with its
kind, as far as they were there. -/
structure Target.Survives (s s' : Story) (t : Target) : Prop where
  character : s.cast.contains t.character = true → s'.cast.contains t.character = true
  registered : ∀ d, s.registry.check t.category t.subtype = .ok d →
    ∃ d', s'.registry.check t.category t.subtype = .ok d' ∧ d'.kind = d.kind

/-- Where the cast and the registry only grow, every target survives. -/
theorem survives_of_grown {s s' : Story}
    (hcast : ∀ name, s.cast.contains name = true → s'.cast.contains name = true)
    (hr : s.registry.Extends s'.registry) (t : Target) : t.Survives s s' :=
  ⟨hcast t.character, fun d hd => hr t.category t.subtype d hd⟩

/-- Where the same characters are there and the registry is the same, every target survives. -/
theorem survives_of_same {s s' : Story} (hcast : ∀ name, s'.cast.contains name = s.cast.contains name)
    (hr : s'.registry = s.registry) (t : Target) : t.Survives s s' := by
  refine survives_of_grown (fun name hname => ?_) (hr ▸ s.registry.extends_refl) t
  rw [hcast]
  exact hname

namespace Story

variable {s s' : Story} {category subtype removed : String} {t : Target}

/-- When a character joins, every target survives. -/
theorem survives_join {c : Character} {cast : Cast} (h : s.cast.insert c = .ok cast) (t : Target) :
    t.Survives s { s with cast := cast } := by
  obtain ⟨_, _, _, hget⟩ := Cast.insert_eq_ok h
  have hgrown : ∀ name, s.cast.contains name = true → cast.contains name = true := by
    intro name hname
    obtain ⟨c', hc'⟩ := Cast.contains_iff.mp hname
    refine Cast.contains_iff.mpr ?_
    rw [hget]
    split
    · exact ⟨_, rfl⟩
    · exact ⟨c', hc'⟩
  exact ⟨hgrown t.character, fun d hd => ⟨d, hd, rfl⟩⟩

theorem survives_removeCategory (h : s.removeCategory category = .ok s') (ht : t.category ≠ category) :
    t.Survives s s' := by
  obtain ⟨_, _, hr, hcast⟩ := removeCategory_ok h
  refine ⟨fun hname => ?_, fun d hd => ⟨d, ?_, rfl⟩⟩
  · rw [Cast.contains_of_map (hcast _)]
    exact hname
  · rw [hr]
    exact Registry.check_removeCategory ht hd

theorem survives_removeSubtype (h : s.removeSubtype category subtype = .ok s')
    (ht : ¬(t.category = category ∧ t.subtype = subtype)) : t.Survives s s' := by
  obtain ⟨_, _, hr, hcast⟩ := removeSubtype_ok h
  refine ⟨fun hname => ?_, fun d hd => ?_⟩
  · rw [Cast.contains_of_map (hcast _)]
    exact hname
  · rw [hr]
    exact Registry.check_removeSubtype ht hd

theorem survives_removeCharacter (h : s.removeCharacter removed = .ok s') (ht : t.character ≠ removed) :
    t.Survives s s' := by
  obtain ⟨_, _, hr, hcast⟩ := removeCharacter_ok h
  refine ⟨fun hname => ?_, fun d hd => ⟨d, hr ▸ hd, rfl⟩⟩
  have hget := hcast t.character
  rw [if_neg ht] at hget
  rw [Cast.contains_of_map hget]
  exact hname

end Story

/-! ## Fates -/

namespace Story

variable {P : Story → List ActionDecl → Prop} {s s' : Story}

/-- What may become of a plot in a step. -/
inductive PlotStep (P : Story → List ActionDecl → Prop) (s s' : Story) (p : Plot) : Plot → Prop where
  /-- It stays, and so do all targets. -/
  | kept (h : ∀ t : Target, t.Survives s s') : PlotStep P s s' p p
  /-- It loses conditions, and the targets of the others survive. -/
  | trimmed {f : Action → Action} (hchildren : ∀ a, (f a).children = a.children)
    (hpre : ∀ a, ∀ c ∈ (f a).preconditions, c ∈ a.preconditions ∧ c.toTarget.Survives s s')
    (heff : ∀ a, ∀ e ∈ (f a).effects, e ∈ a.effects ∧ e.toTarget.Survives s s') :
      PlotStep P s s' p (p.updateAll f)
  /-- It loses an action. -/
  | cut (gone : Uid) (h : ∀ t : Target, t.Survives s s') : PlotStep P s s' p (p.removeAction gone)
  /-- It is extended by declarations of which `P` holds. -/
  | extended {owner : String} {ds : List ActionDecl} {p' : Plot} (hP : P s ds)
    (hp : Plot.extend s.registry owner p ds = .ok p') (h : ∀ t : Target, t.Survives s s') :
      PlotStep P s s' p p'

/-- A step that touches no plot, no name and no attribute. -/
theorem plot_of_same {t : Story} {name : String} {c' : Character} (hc' : t.cast.get? name = some c')
    (h : s.cast.Same (·.plot) t.cast) (hr : t.registry = s.registry) :
    ∃ c, s.cast.get? name = some c ∧ PlotStep P s t c.plot c'.plot := by
  obtain ⟨c, hc, hplot⟩ := h.view_eq hc'
  exact ⟨c, hc, hplot ▸ .kept (survives_of_same h.contains hr)⟩

/-- A step that edits the plot of one character only. -/
theorem plot_of_update {owner : String} {f : Character → Character} {name : String} {c' : Character}
    (hf : (∀ t : Target, t.Survives s { s with cast := s.cast.update owner f }) →
      ∀ c, s.cast.get? owner = some c →
        PlotStep P s { s with cast := s.cast.update owner f } c.plot (f c).plot)
    (hc' : (s.cast.update owner f).get? name = some c') :
    ∃ c, s.cast.get? name = some c ∧
      PlotStep P s { s with cast := s.cast.update owner f } c.plot c'.plot := by
  have hsurvives : ∀ t : Target, t.Survives s { s with cast := s.cast.update owner f } :=
    survives_of_same (Cast.contains_update s.cast owner f) rfl
  rw [Cast.get?_update] at hc'
  by_cases hn : name = owner
  · rw [if_pos hn] at hc'
    obtain ⟨c, hc, rfl⟩ := Option.map_eq_some_iff.mp hc'
    exact ⟨c, hn ▸ hc, hf hsurvives c hc⟩
  · rw [if_neg hn] at hc'
    exact ⟨c', hc', .kept hsurvives⟩

/-- A character who joins comes with an empty plot, and touches no other plot. -/
theorem plot_of_join {joined : Character} {cast : Cast} (h : s.cast.insert joined = .ok cast)
    {name : String} {c' : Character} (hc' : cast.get? name = some c') :
    c' = joined ∨
      ∃ c, s.cast.get? name = some c ∧ PlotStep P s { s with cast := cast } c.plot c'.plot := by
  obtain ⟨_, _, _, hget⟩ := Cast.insert_eq_ok h
  rw [hget] at hc'
  split at hc'
  · exact .inl (Option.some.inj hc').symm
  · exact .inr ⟨c', hc', .kept (survives_join h)⟩

/-- A path that is taken changes sheets and one bank, and touches no plot. -/
theorem plot_of_play {owner : String} {path : List Uid} {es : List Effect} {m : Memory} {cast : Cast}
    (h : s.registry.recordAll es (.new path) s.cast = .ok m cast) {name : String} {c' : Character}
    (hc' : (cast.update owner fun c => { c with memory := c.memory.add m }).get? name = some c') :
    ∃ c, s.cast.get? name = some c ∧
      PlotStep P s { s with cast := cast.update owner fun c => { c with memory := c.memory.add m } }
        c.plot c'.plot := by
  have hrun : s.cast.Same (·.plot) (s.registry.recordAll es (.new path) s.cast).state :=
    Cast.same_recordAll (fun _ _ => rfl) s.registry es (.new path) s.cast
  rw [h] at hrun
  have hremembered :
      cast.Same (·.plot) (cast.update owner fun c => { c with memory := c.memory.add m }) :=
    Cast.same_update cast owner fun _ => rfl
  exact plot_of_same (t := { s with cast := cast.update owner _ }) hc' (hrun.trans hremembered) rfl

/-- A removal that maps over the characters takes out the conditions that a filter picks; what the
filter leaves has to survive. -/
theorem plot_of_without {f : ConditionFilter} {g : Character → Character} {name : String}
    {c' : Character} (hc' : (s.cast.get? name).map g = some c')
    (hg : ∀ c, (g c).plot = c.plot.updateAll (Action.without f c.name))
    (hkept : ∀ owner uid (t : Target), ¬f.picks owner uid t = true → t.Survives s s') :
    ∃ c, s.cast.get? name = some c ∧ PlotStep P s s' c.plot c'.plot := by
  obtain ⟨c, hc, rfl⟩ := Option.map_eq_some_iff.mp hc'
  rw [hg]
  refine ⟨c, hc, .trimmed (fun _ => rfl) ?_ ?_⟩
  · intro a p hp
    obtain ⟨hmem, hpick⟩ := List.mem_filter.mp hp
    exact ⟨hmem, hkept c.name a.uid _ (by simpa [picksPrecondition] using hpick)⟩
  · intro a e he
    obtain ⟨hmem, hpick⟩ := List.mem_filter.mp he
    exact ⟨hmem, hkept c.name a.uid _ (by simpa [picksEffect] using hpick)⟩

/-- A step that only takes conditions out. -/
theorem plot_of_mapActions {f : String → Action → Action}
    (hchildren : ∀ owner a, (f owner a).children = a.children)
    (hpre : ∀ owner a, (f owner a).preconditions ⊆ a.preconditions)
    (heff : ∀ owner a, (f owner a).effects ⊆ a.effects) {name : String} {c' : Character}
    (hc' : (s.mapActions f).cast.get? name = some c') :
    ∃ c, s.cast.get? name = some c ∧ PlotStep P s (s.mapActions f) c.plot c'.plot := by
  have hsurvives : ∀ t : Target, t.Survives s (s.mapActions f) :=
    survives_of_same (fun name => Cast.contains_of_map (get?_mapActions s f name)) rfl
  rw [get?_mapActions] at hc'
  obtain ⟨c, hc, rfl⟩ := Option.map_eq_some_iff.mp hc'
  exact ⟨c, hc, .trimmed (hchildren c.name) (fun a _ hmem => ⟨hpre c.name a hmem, hsurvives _⟩)
    fun a _ hmem => ⟨heff c.name a hmem, hsurvives _⟩⟩

/-- **What a step does to a plot**, unless the plot is the empty one of a new character. -/
theorem Step.plot (hstep : Step P s s') {name : String} {c' : Character}
    (hc' : s'.cast.get? name = some c') :
    c'.plot = .empty ∨ ∃ c, s.cast.get? name = some c ∧ PlotStep P s s' c.plot c'.plot := by
  cases hstep with
  | define h =>
    exact .inr ⟨c', hc', .kept (survives_of_grown (fun _ => id) (Registry.extends_addCategory h))⟩
  | grow h =>
    exact .inr ⟨c', hc', .kept (survives_of_grown (fun _ => id) (Registry.extends_addSubtypes h))⟩
  | join h => exact (plot_of_join h hc').imp_left fun hnew => by rw [hnew]; rfl
  | enact e => exact .inr (plot_of_same hc' (Cast.same_enact (fun _ _ => rfl) s.registry s.cast e) rfl)
  | @read owner => exact .inr (plot_of_same hc' (Cast.same_setSheet (fun _ _ => rfl) s.cast owner _) rfl)
  | @extend owner c ds p hP hc h =>
    -- the declarations were read into the plot of `c`, and that is the plot that is updated
    refine .inr (plot_of_update (fun hsurvives c₀ hc₀ => ?_) hc')
    rw [hc] at hc₀
    cases hc₀
    exact .extended hP h hsurvives
  | play _ _ h => exact .inr (plot_of_play h hc')
  | draw _ | tune _ => exact .inr (plot_of_same hc' (Cast.same_refl _ s.cast) rfl)
  -- a condition that such a removal does not pick is about something else
  | removeCategory h =>
    rw [(removeCategory_ok h).2.2.2] at hc'
    refine .inr (plot_of_without hc' (fun _ => rfl) fun owner uid t hpick => ?_)
    exact survives_removeCategory h (ConditionFilter.picks_category.not.mp hpick)
  | removeSubtype h =>
    rw [(removeSubtype_ok h).2.2.2] at hc'
    refine .inr (plot_of_without hc' (fun _ => rfl) fun owner uid t hpick => ?_)
    exact survives_removeSubtype h (ConditionFilter.picks_subtype.not.mp hpick)
  | removeCharacter h =>
    rw [(removeCharacter_ok h).2.2.2] at hc'
    split at hc'
    · cases hc'
    · refine .inr (plot_of_without hc' (fun _ => rfl) fun owner uid t hpick => ?_)
      exact survives_removeCharacter h (ConditionFilter.picks_target.not.mp hpick)
  | @removeAction owner gone _ h =>
    obtain rfl := removeAction_ok h
    exact .inr (plot_of_update (fun hsurvives c _ => .cut gone hsurvives) hc')
  | removePreconditions f =>
    refine .inr (plot_of_mapActions (fun _ _ => ?_) (fun _ _ => ?_) (fun _ _ => ?_) hc')
    · rfl
    · exact List.filter_subset_self _
    · exact List.Subset.refl _
  | removeEffects f =>
    refine .inr (plot_of_mapActions (fun _ _ => ?_) (fun _ _ => ?_) (fun _ _ => ?_) hc')
    · rfl
    · exact List.Subset.refl _
    · exact List.filter_subset_self _

/-! ## Ready plots -/

theorem PlotStep.ready {p p' : Plot} (h : PlotStep P s s' p p') (hp : p.Ready) : p'.Ready := by
  cases h with
  | kept _ => exact hp
  | trimmed hchildren _ _ => exact hp.of_sameShape (Plot.sameShape_updateAll p hchildren)
  | cut gone _ => exact hp.removeAction gone
  | extended _ hextend _ => exact Plot.extend_ready hextend

/-- **Every plot of a reachable story may be traversed**, and leads nowhere back to itself. -/
theorem ReachableBy.ready (h : ReachableBy P s) :
    ∀ name c, s.cast.get? name = some c → c.plot.Ready := by
  refine h.invariant (I := fun s => ∀ name c, s.cast.get? name = some c → c.plot.Ready) ?_ ?_
  · exact fun _ _ _ _ _ hc => nomatch hc
  · intro s s' hstep hs name c' hc'
    rcases hstep.plot hc' with hempty | ⟨c, hc, hplot⟩
    · rw [hempty]
      exact Plot.ready_empty
    · exact hplot.ready (hs name c hc)

end Story
end Narrative
