import Narrative.Proofs.Course

/-!
# `Proofs.Turns` — turns that stay apart may be taken in any order

Two characters take their paths, one after the other. Each of them may be moved by the other's
effects, and both may move a third one. As long as no target is on both paths, it does not matter
who goes first, not even for what either of them remembers.

The checks of a path look at the registry, the names and the plots, and a turn leaves all of these
as they are; so whoever goes second is refused if and only if it would have been refused at first.
From then on a turn is a course. Its steps read what stands at their own targets, and there the
other turn has not been: the course that is followed second makes the same changes as if it had been
the first. The stories at the end hold the same sheets, target by target, and the same memories,
since both are read off the two courses.

## Contents
- **Courses.** `Course.Agree`; from starts that agree, courses go the same way (`Agree.takes`).
- **Turns.** `Story.targetsOn`, `Story.Idle` and `Story.Turn`; what a turn leaves as it is.
- **After another turn.** `Turn.after`, and `Turn.eq_of_both` for the story at the end.
- **The main result** is `turns_commute`.
-/

namespace Narrative
open Outcome

/-! ## Courses -/

namespace Course

variable {r : Registry} {x x' y : Course} {e : Effect} {es : List Effect} {on : Target → Prop}

/-- Two courses **agree** on some targets if they have made the same changes, and the same stands
there by now. -/
structure Agree (on : Target → Prop) (x x' : Course) : Prop where
  standing : ∀ t, on t → x'.standing t = x.standing t
  changes : x'.changes = x.changes

/-- An effect reads and writes at its own target only. -/
theorem Agree.take (h : Agree on x x') (he : on e.toTarget) (hy : x.take r e = .ok y) :
    ∃ y', x'.take r e = .ok y' ∧ Agree on y y' := by
  obtain ⟨d, hd, c, change, hchange, rfl⟩ := take_eq_ok.mp hy
  rw [← h.standing e.toTarget he] at hchange
  refine ⟨_, take_eq_ok.mpr ⟨d, hd, c, change, hchange, rfl⟩, ?_, ?_⟩
  · intro t ht
    show Function.update x'.standing e.toTarget (some c) t =
      Function.update x.standing e.toTarget (some c) t
    by_cases hsame : t = e.toTarget
    · rw [hsame, Function.update_self, Function.update_self]
    · rw [Function.update_of_ne hsame, Function.update_of_ne hsame]
      exact h.standing t ht
  · show x'.changes ++ _ = x.changes ++ _
    rw [h.changes]

/-- **From starts that agree on the targets of the effects, courses go the same way.** -/
theorem Agree.takes (h : Agree on x x') (hes : ∀ e ∈ es, on e.toTarget)
    (hy : es.foldlM (Course.take r) x = .ok y) :
    ∃ y', es.foldlM (Course.take r) x' = .ok y' ∧ Agree on y y' := by
  induction es generalizing x x' with
  | nil =>
    cases hy
    exact ⟨x', rfl, h⟩
  | cons e es ih =>
    rw [List.foldlM_cons, bind_eq_ok] at hy
    obtain ⟨x₁, he, hy⟩ := hy
    obtain ⟨x₁', he', h₁⟩ := h.take (hes e List.mem_cons_self) he
    obtain ⟨y', hy', hagree⟩ := ih h₁ (fun e' he' => hes e' (List.mem_cons_of_mem _ he')) hy
    refine ⟨y', ?_, hagree⟩
    rw [List.foldlM_cons, he']
    exact hy'

/-- What is remembered of a course are its changes. -/
theorem Agree.memory (h : Agree on x x') (path : List Uid) : x'.memory path = x.memory path := by
  unfold Course.memory
  rw [h.changes]

end Course

namespace Story

variable {s s₁ s₂ t u : Story} {name a b : String} {path p q : List Uid} {es fs : List Effect}
  {x x' y y' : Course}

/-! ## Turns -/

/-- The targets of the effects on a path of a character. -/
def targetsOn (s : Story) (name : String) (path : List Uid) : List Target :=
  (s.cast.get? name).elim [] fun c => (path.filterMap c.plot.action?).flatMap fun a =>
    a.effects.map (·.toTarget)

/-- Nothing is done on a path that is refused, nor on one without actions. -/
def Idle (s : Story) (name : String) (path : List Uid) : Prop :=
  ∀ es, s.checkedEffects? name path = .ok es → path = []

/-- `s'` is `s` after the **turn** of a character: the effects on its path have been checked and
followed. -/
structure Turn (s : Story) (name : String) (path : List Uid) (es : List Effect) (x : Course)
    (s' : Story) : Prop
    extends s.Followed name path x s' where
  checked : s.checkedEffects? name path = .ok es
  course : es.foldlM (Course.take s.registry) (.start s.cast) = .ok x

theorem mem_targetsOn (h : s.checkedEffects? name path = .ok es) {e : Effect} (he : e ∈ es) :
    e.toTarget ∈ s.targetsOn name path := by
  obtain ⟨c, hc, hes, _⟩ := checkedEffects?_eq_ok.mp h
  obtain ⟨uid, huid, a, ha, hea⟩ := (mem_effectsOf? hes).mp he
  unfold targetsOn
  rw [hc]
  refine List.mem_flatMap.mpr ⟨a, ?_, List.mem_map_of_mem hea⟩
  exact List.mem_filterMap.mpr ⟨uid, huid, ha⟩

theorem execute_of_idle (h : s.Idle name path) : (s.execute name path).state = s := by
  cases hes : s.checkedEffects? name path with
  | error e =>
    rw [execute_of_unchecked hes]
    rfl
  | ok es =>
    obtain rfl := h es hes
    unfold execute
    rw [hes]
    rfl

/-- **A path that passes the checks is a turn**, unless it has no actions. -/
theorem turn_of_checked (hs : s.Sound) (hes : s.checkedEffects? name path = .ok es) (hpath : path ≠ []) :
    ∃ x, s.Turn name path es x (s.execute name path).state := by
  obtain ⟨m, cast, hrun⟩ := recordAll_of_checked hs.fits hes (.new path)
  obtain ⟨x, hcourse, hstanding, rfl⟩ := recordAll_takes (x := .start s.cast) rfl hrun
  rw [execute_of_checked hes hpath hrun]
  exact ⟨x, followed_of_recordAll hs hrun hstanding, hes, hcourse⟩

theorem not_idle_iff : ¬s.Idle name path ↔ ∃ es, s.checkedEffects? name path = .ok es ∧ path ≠ [] := by
  unfold Idle
  push Not
  exact Iff.rfl

/-! What a turn leaves as it is. -/

theorem Followed.plots (h : s.Followed name path x t) (name' : String) :
    (t.cast.get? name').map (·.plot) = (s.cast.get? name').map (·.plot) := by
  cases hc : s.cast.get? name' with
  | none =>
    have hgone : t.cast.contains name' = false := (h.names name').trans (Cast.not_contains_iff.mpr hc)
    rw [Cast.not_contains_iff.mp hgone]
  | some c =>
    obtain ⟨sheet, _, _, hc'⟩ := h.characters name' c hc
    rw [hc']
    rfl

/-- Where a character is in the cast, the end of the course stands on the sheets. -/
theorem Followed.standing (h : s.Followed name path x s₁) {t : Target}
    (ht : s.cast.contains t.character = true) :
    World.standing s₁.cast t = x.standing t := by
  obtain ⟨c, hc⟩ := Cast.contains_iff.mp ht
  obtain ⟨sheet, _, hsheet, hc'⟩ := h.characters t.character c hc
  unfold World.standing
  rw [sheet?_cast, hc']
  exact hsheet t.category t.subtype

/-- **Who has taken a path does not show in the checks**, whether it was a turn or not. -/
theorem checkedEffects?_execute (hs : s.Sound) (a : String) (p : List Uid) (name : String)
    (path : List Uid) :
    (s.execute a p).state.checkedEffects? name path = s.checkedEffects? name path := by
  by_cases hidle : s.Idle a p
  · rw [execute_of_idle hidle]
  · obtain ⟨es, hes, hp⟩ := not_idle_iff.mp hidle
    obtain ⟨x, hturn⟩ := turn_of_checked hs hes hp
    exact checkedEffects?_congr hturn.registry hturn.plots name path

theorem Idle.after_execute (h : s.Idle name path) (hs : s.Sound) (a : String) (p : List Uid) :
    (s.execute a p).state.Idle name path := by
  intro es hes
  rw [checkedEffects?_execute hs] at hes
  exact h es hes

/-! ## After another turn -/

/-- **A turn is the same after another one** that has been at none of its targets. It makes the same
changes, so it is remembered alike. Where the other one has not been there stands in the end what
this one alone would have left, and where this one has not been there stands what the other one has
left. -/
theorem Turn.after (hb : s.Turn b q fs y s₂) (ha : s.Turn a p es x s₁) (hba : s₂.Turn a p es x' u)
    (hapart : ∀ e ∈ es, ∀ f ∈ fs, f.toTarget ≠ e.toTarget) :
    x'.memory p = x.memory p ∧
      (∀ t : Target, s.cast.contains t.character = true → (∀ f ∈ fs, f.toTarget ≠ t) →
        x'.standing t = x.standing t) ∧
      ∀ t : Target, s.cast.contains t.character = true → (∀ e ∈ es, e.toTarget ≠ t) →
        x'.standing t = y.standing t := by
  obtain ⟨_, _, _, hchecks⟩ := checkedEffects?_eq_ok.mp ha.checked
  have hstart : Course.Agree (fun t => s.cast.contains t.character = true ∧ ∀ f ∈ fs, f.toTarget ≠ t)
      (.start s.cast) (.start s₂.cast) := by
    refine ⟨?_, rfl⟩
    intro t ht
    exact (hb.standing ht.1).trans (Course.standing_of_takes hb.course ht.2)
  obtain ⟨z, hz, hagree⟩ := hstart.takes (fun e he => ⟨(hchecks e he).2, hapart e he⟩) ha.course
  have hcourse := hba.course
  rw [hb.registry, hz] at hcourse
  cases hcourse
  refine ⟨hagree.memory p, fun t hthere ht => hagree.standing t ⟨hthere, ht⟩, ?_⟩
  intro t hthere ht
  exact (Course.standing_of_takes hba.course ht).trans (hb.standing hthere)

/-- **Two turns by different characters that stay apart** lead to the same story in both orders. -/
theorem Turn.eq_of_both (ha : s.Turn a p es x s₁) (hab : s₁.Turn b q fs y' t)
    (hb : s.Turn b q fs y s₂) (hba : s₂.Turn a p es x' u) (hne : a ≠ b)
    (hapart : ∀ e ∈ es, ∀ f ∈ fs, f.toTarget ≠ e.toTarget) : t = u := by
  obtain ⟨hmemory, hx, hx'⟩ := hb.after ha hba hapart
  obtain ⟨hmemory', hy, hy'⟩ := ha.after hb hab fun f hf e he => (hapart e he f hf).symm
  have hsettings : t.settings = u.settings :=
    hab.settings.trans (ha.settings.trans (hba.settings.trans hb.settings).symm)
  have hregistry : t.registry = u.registry :=
    hab.registry.trans (ha.registry.trans (hba.registry.trans hb.registry).symm)
  have hsource : t.source = u.source :=
    hab.source.trans (ha.source.trans (hba.source.trans hb.source).symm)
  apply ext_cast hsettings hregistry hsource
  intro name
  cases hc : s.cast.get? name with
  | none =>
    have hgone : s.cast.contains name = false := Cast.not_contains_iff.mpr hc
    have ht : t.cast.contains name = false := (hab.names name).trans ((ha.names name).trans hgone)
    have hu : u.cast.contains name = false := (hba.names name).trans ((hb.names name).trans hgone)
    rw [Cast.not_contains_iff.mp ht, Cast.not_contains_iff.mp hu]
  | some c =>
    obtain ⟨_, _, _, hc₁⟩ := ha.characters name c hc
    obtain ⟨sheet, htidy, hsheet, ht⟩ := hab.characters name _ hc₁
    obtain ⟨_, _, _, hc₂⟩ := hb.characters name c hc
    obtain ⟨sheet', htidy', hsheet', hu⟩ := hba.characters name _ hc₂
    have hthere : s.cast.contains name = true := Cast.contains_iff.mpr ⟨c, hc⟩
    have hsame : sheet = sheet' := by
      apply htidy.ext htidy'
      intro category subtype
      rw [hsheet, hsheet']
      -- where the second character has been the first has not
      by_cases hf : ∀ f ∈ fs, f.toTarget ≠ ⟨name, category, subtype⟩
      · rw [hx _ hthere hf, hy' _ hthere hf]
      · push Not at hf
        obtain ⟨f, hf, htarget⟩ := hf
        have he : ∀ e ∈ es, e.toTarget ≠ ⟨name, category, subtype⟩ := fun e he heq =>
          hapart e he f hf (htarget.trans heq.symm)
        rw [hx' _ hthere he, hy _ hthere he]
    rw [ht, hu, hsame, hmemory, hmemory']
    by_cases hna : name = a
    · have hnb : name ≠ b := fun heq => hne (hna.symm.trans heq)
      simp only [if_pos hna, if_neg hnb]
    · simp only [if_neg hna]

/-- **Turns that stay apart commute.** In any reachable story let two different characters take a
path each, such that no target is on both paths. Either path is taken, or refused for the same
reason, no matter which of them comes first, and both orders lead to the same story, down to the
memories of both characters. -/
theorem turns_commute (h : Reachable s) (hne : a ≠ b)
    (hapart : (s.targetsOn a p).Disjoint (s.targetsOn b q)) :
    ((s.execute a p).state.execute b q).result = (s.execute b q).result ∧
      ((s.execute b q).state.execute a p).result = (s.execute a p).result ∧
      ((s.execute a p).state.execute b q).state = ((s.execute b q).state.execute a p).state := by
  have hs : s.Sound := h.sound
  have hsound : ∀ name path, (s.execute name path).state.Sound := fun name path =>
    (ReachableBy.call (.execute name path) h trivial).sound
  have hresult : ∀ name path name' path',
      ((s.execute name path).state.execute name' path').result = (s.execute name' path').result := by
    intro name path name' path'
    rw [result_execute (hsound name path).fits, checkedEffects?_execute hs, result_execute hs.fits]
  refine ⟨hresult a p b q, hresult b q a p, ?_⟩
  by_cases hp : s.Idle a p
  · rw [execute_of_idle hp, execute_of_idle (hp.after_execute hs b q)]
  by_cases hq : s.Idle b q
  · rw [execute_of_idle hq, execute_of_idle (hq.after_execute hs a p)]
  obtain ⟨es, hes, hp⟩ := not_idle_iff.mp hp
  obtain ⟨fs, hfs, hq⟩ := not_idle_iff.mp hq
  obtain ⟨x, ha⟩ := turn_of_checked hs hes hp
  obtain ⟨y, hb⟩ := turn_of_checked hs hfs hq
  -- whoever goes second passes the checks as well
  obtain ⟨x', hba⟩ := turn_of_checked (hsound b q) ((checkedEffects?_execute hs b q a p).trans hes) hp
  obtain ⟨y', hab⟩ := turn_of_checked (hsound a p) ((checkedEffects?_execute hs a p b q).trans hfs) hq
  apply ha.eq_of_both hab hb hba hne
  intro e he f hf heq
  exact hapart (mem_targetsOn hes he) (heq ▸ mem_targetsOn hfs hf)

/-- Ann and Bob each have something to say to Cleo, and each is moved by what the other says. -/
def visiting : Story :=
  [Operation.loadCategories [.numeric "Mood" ["happy", "calm"] 0 10 5],
    .loadCharacters ["Ann", "Bob", "Cleo"], .loadActions "Ann" [{ ActionDecl.new 1 "Joke" with
      first := true
      effects :=
        [⟨⟨"Cleo", "Mood", "happy"⟩, .add, .int 2⟩, ⟨⟨"Bob", "Mood", "calm"⟩, .subtract, .int 7⟩] }],
    .loadActions "Bob" [{ ActionDecl.new 1 "Sigh" with
      first := true
      effects :=
        [⟨⟨"Cleo", "Mood", "calm"⟩, .subtract, .int 1⟩,
          ⟨⟨"Ann", "Mood", "happy"⟩, .subtract, .int 1⟩] }]].foldl
    (fun s op => op.after s) (start .default (.listed []))

/-- Both have their say, and neither the sheets nor the memories tell who was first. -/
theorem turns_commute_visiting :
    Reachable visiting ∧ "Ann" ≠ "Bob" ∧
    (visiting.targetsOn "Ann" [1]).Disjoint (visiting.targetsOn "Bob" [1]) ∧
      (visiting.targetsOn "Ann" [1]).length = 2 ∧ (visiting.targetsOn "Bob" [1]).length = 2 ∧
      ((visiting.execute "Ann" [1]).state.execute "Bob" [1]).result = .ok () ∧
      ((visiting.execute "Bob" [1]).state.execute "Ann" [1]).result = .ok () ∧
      ((visiting.execute "Ann" [1]).state.execute "Bob" [1]).state =
        ((visiting.execute "Bob" [1]).state.execute "Ann" [1]).state := by
  have hreach : Reachable visiting := reachable_calls (reachable_start_default _) _
  have hne : "Ann" ≠ "Bob" := by decide
  have hapart : (visiting.targetsOn "Ann" [1]).Disjoint (visiting.targetsOn "Bob" [1]) := by
    have hothers : ∀ t ∈ visiting.targetsOn "Ann" [1], t ∉ visiting.targetsOn "Bob" [1] := by decide
    exact fun t ht => hothers t ht
  obtain ⟨hbob, hann, hsame⟩ := turns_commute hreach hne hapart
  exact ⟨hreach, hne, hapart, by decide, by decide, hbob.trans rfl, hann.trans rfl, hsame⟩

end Story
end Narrative
