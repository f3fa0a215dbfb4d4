import Narrative.Proofs.Course
import Narrative.Proofs.Declaring
import Narrative.Proofs.Filling
import Narrative.Proofs.Layers

/-!
# `Proofs.Conditions` — a condition is judged alike wherever it is judged

Which operands a condition may have is asked at three places, of different data: when it is
declared, of the registry; before an effect is carried out, of the registry again, by other code;
and when it is carried out, of the range and the value that happen to stand on a sheet. For a
registered attribute all three ask what `Category.Allows` asks, as long as the sheets fit the
registry.

Whether a precondition holds is asked in two ways, of the world as it is or with the attribute put
on the sheet. That needs no sheet to fit: the two read the same characteristic and go wrong at the
same point. The second one leaves a world that is **filled in** at one target, and no query can tell
that from the world before.

An effect that fails has put its attribute on the sheet all the same, just as reading in place does.
So what was said of the second way to decide a precondition holds of failed effects: there is
something more on the sheets at times, and nothing to be seen of it.

## Contents
- **Operands.** `validate_iff` for effects and preconditions; the main result `conditions_judged_alike`.
- **Filling in one target.** `World.FilledAt`, which a `put` of what is there makes (`filledAt_put`)
  and which shows nothing new (`FilledAt.shows`).
- **Reading in place.** `result_evaluateInPlace` and `filledAt_evaluateInPlace`, by whether the
  character is there and the attribute registered; the main result `evaluateInPlace_agrees`.
- **Failed effects.** `state_enact_of_error`: they leave what reading in place leaves; the main result
  `failed_effect_shows_nothing`.
-/

namespace Narrative
open Outcome

variable {r : Registry}

/-! ## Operands -/

/-- A registered attribute belongs to one category. -/
theorem Registry.forall_category_iff {category subtype : String} (h : r.contains category subtype = true)
    {P : Category → Prop} :
    (∀ d, r.category? category = some d → P d) ↔ ∃ d, r.check category subtype = .ok d ∧ P d := by
  obtain ⟨d, hd⟩ := Registry.contains_iff.mp h
  have hcategory : r.category? category = some d := (Registry.check_eq_ok.mp hd).1
  constructor
  · intro hall
    exact ⟨d, hd, hall d hcategory⟩
  · rintro ⟨d', hd', hP⟩ d'' hd''
    rw [hd] at hd'
    rw [hcategory] at hd''
    cases hd'
    cases hd''
    exact hP

theorem Effect.validate_iff {e : Effect} (h : r.contains e.category e.subtype = true) :
    e.validate r = .ok () ↔ ∃ d, r.check e.category e.subtype = .ok d ∧ d.Allows e.op e.value :=
  Effect.validate_eq_ok.trans (Registry.forall_category_iff h)

theorem Precondition.validate_iff {p : Precondition} (h : r.contains p.category p.subtype = true) :
    p.validate r = .ok () ↔ ∃ d, r.check p.category p.subtype = .ok d ∧ p.value.kind = d.default.kind :=
  Target.checkKind_eq_ok.trans (Registry.forall_category_iff h)

namespace Registry

variable {ω : Type} [World ω] {w : ω}

/-- **What may be declared can be carried out, and what can be carried out may be declared.** About
a registered attribute of a character in a fitting world, an effect is accepted when it is declared
exactly if it passes the check before it is carried out, and exactly if it can be carried out; in
each case because its category allows the change. A precondition is accepted when it is declared
exactly if it can be decided. -/
theorem conditions_judged_alike (hw : World.Fits r w) :
    (∀ e : Effect, r.contains e.category e.subtype = true → (sheet? w e.character).isSome = true →
      (e.validate r = .ok () ↔ r.checkEffect e = .ok ()) ∧
      (r.checkEffect e = .ok () ↔ ∃ change, (r.enact w e).result = .ok change) ∧
      (e.validate r = .ok () ↔ ∃ d, r.check e.category e.subtype = .ok d ∧ d.Allows e.op e.value)) ∧
    ∀ p : Precondition, r.contains p.category p.subtype = true → (sheet? w p.character).isSome = true →
      (p.validate r = .ok () ↔ ∃ b, r.evaluate w p = .ok b) ∧
      (p.validate r = .ok () ↔
        ∃ d, r.check p.category p.subtype = .ok d ∧ p.value.kind = d.default.kind) := by
  refine ⟨fun e hregistered hcharacter => ⟨?_, ?_, Effect.validate_iff hregistered⟩,
    fun p hregistered hcharacter => ⟨?_, Precondition.validate_iff hregistered⟩⟩
  · rw [Effect.validate_iff hregistered, checkEffect_eq_ok]
  · rw [enact_ok_iff hw, and_iff_left hcharacter]
  · rw [Precondition.validate_iff hregistered, evaluate_ok_iff hw, and_iff_right hcharacter]

/-- Bob has been woken. -/
def morning : Story :=
  [Story.Operation.loadCategories [.boolean "State" ["awake"] false], .loadCharacters ["Bob"],
    .loadCharacteristics [⟨⟨"Bob", "State", "awake"⟩, .bool true⟩]].foldl
    (fun s op => op.after s) (Story.start .default (.listed []))

/-- To send Bob to sleep. -/
def lulling : Effect := ⟨⟨"Bob", "State", "awake"⟩, .assign, .bool false⟩

/-- To make Bob more awake than he is. -/
def rousing : Effect := ⟨⟨"Bob", "State", "awake"⟩, .add, .bool true⟩

/-- Bob can be sent to sleep but cannot be more awake than he is, and one can ask whether he is
awake but not how much. -/
theorem conditions_judged_alike_morning : World.Fits morning.registry morning.cast ∧
    morning.registry.contains "State" "awake" = true ∧ (sheet? morning.cast "Bob").isSome = true ∧
    (∃ change, (morning.registry.enact morning.cast lulling).result = .ok change) ∧
    (¬∃ change, (morning.registry.enact morning.cast rousing).result = .ok change) ∧
    (∃ b, morning.registry.evaluate morning.cast ⟨lulling.toTarget, .equal, .bool true⟩ = .ok b) ∧
    ¬∃ b, morning.registry.evaluate morning.cast ⟨lulling.toTarget, .equal, .int 1⟩ = .ok b := by
  have hfits : World.Fits morning.registry morning.cast :=
    (Story.reachable_calls (Story.reachable_start_default _) _).sound.fits
  have hregistered : morning.registry.contains "State" "awake" = true := by decide
  have hbob : (sheet? morning.cast "Bob").isSome = true := rfl
  obtain ⟨heffects, hpreconditions⟩ := conditions_judged_alike hfits
  obtain ⟨hlulling, hlulled, _⟩ := heffects lulling hregistered hbob
  obtain ⟨hrousing, hroused, _⟩ := heffects rousing hregistered hbob
  obtain ⟨hasked, _⟩ := hpreconditions ⟨lulling.toTarget, .equal, .bool true⟩ hregistered hbob
  obtain ⟨hmeasured, _⟩ := hpreconditions ⟨lulling.toTarget, .equal, .int 1⟩ hregistered hbob
  refine ⟨hfits, hregistered, hbob, ?_, ?_, hasked.mp (by decide), ?_⟩
  · exact hlulled.mp (hlulling.mp (by decide))
  · rw [← hroused, ← hrousing]
    decide
  · rw [← hmeasured]
    decide

end Registry

/-! ## Filling in one target -/

section Filling

variable {ω : Type} [World ω] {w w' : ω} {t : Target}

/-- A world **filled in** at a target: it has the same characters, at all other targets stands what
stood there, and at the target, too, unless nothing stood there; then its default may stand there
now. -/
structure World.FilledAt (r : Registry) (w : ω) (t : Target) (w' : ω) : Prop where
  names : ∀ name, (sheet? w' name).isSome = (sheet? w name).isSome
  others : ∀ t', t' ≠ t → World.standing w' t' = World.standing w t'
  target : World.standing w' t = World.standing w t ∨ World.standing w t = none ∧
    ∃ d, r.check t.category t.subtype = .ok d ∧ World.standing w' t = some (.ofCategory d t.subtype)

namespace World

/-- To set the sheet that is there already is to do nothing. -/
theorem sheet?_setSheet_self [LawfulWorld ω] {name : String} {s : Sheet}
    (hs : sheet? w name = some s) (name' : String) :
    sheet? (setSheet w name s) name' = sheet? w name' := by
  rw [LawfulWorld.sheet?_setSheet w name name' s (by rw [hs]; rfl)]
  by_cases hn : name' = name
  · rw [if_pos hn, hn, hs]
  · rw [if_neg hn]

/-- Where no sheet is different, nothing is filled in. -/
theorem filledAt_of_sheets (h : ∀ name, sheet? w' name = sheet? w name) : FilledAt r w t w' := by
  have hstanding : ∀ t', standing w' t' = standing w t' := fun t' => by
    unfold standing
    rw [h]
  exact ⟨fun name => by rw [h], fun t' _ => hstanding t', .inl (hstanding t)⟩

/-- To put what an attribute has now fills in its default at most. -/
theorem filledAt_put [LawfulWorld ω] {s : Sheet} {d : Category} (hs : sheet? w t.character = some s)
    (hd : r.check t.category t.subtype = .ok d) :
    FilledAt r w t (setSheet w t.character
      (s.put t.category t.subtype (s.current d t.category t.subtype))) where
  names := isSome_sheet?_setSheet (by rw [hs]; rfl) _
  others := by
    intro t' ht'
    rw [standing_put hs]
    exact Function.update_of_ne ht' _ _
  target := by
    rw [standing_put hs, Function.update_self, standing_of_some hs]
    unfold Sheet.current
    cases hc : s.get? t.category t.subtype with
    | some c => exact .inl rfl
    | none => exact .inr ⟨rfl, d, hd, rfl⟩

/-- A world that is filled in at a target shows sheets that are filled in at most. -/
theorem FilledAt.shows (h : FilledAt r w t w') : Shows (Sheet.Filled r) w w' := by
  intro name
  have hname := h.names name
  cases hs : sheet? w name with
  | none =>
    rw [hs, Option.isSome_none, Option.isSome_eq_false_iff, Option.isNone_iff_eq_none] at hname
    rw [hname]
    exact .none
  | some s =>
    rw [hs] at hname
    obtain ⟨s', hs'⟩ := Option.isSome_iff_exists.mp hname
    rw [hs']
    refine .some fun category subtype => ?_
    -- what is on the two sheets is what stands in the two worlds
    have hold : standing w ⟨name, category, subtype⟩ = s.get? category subtype := standing_of_some hs
    have hnew : standing w' ⟨name, category, subtype⟩ = s'.get? category subtype := standing_of_some hs'
    rw [← hold, ← hnew]
    by_cases ht : ⟨name, category, subtype⟩ = t
    · subst ht
      exact h.target
    · exact .inl (h.others _ ht)

end World

end Filling

/-! ## Reading in place -/

namespace Registry

variable {ω : Type} [World ω] {w : ω} {p : Precondition}

theorem evaluateInPlace_of_none (h : sheet? w p.character = none) :
    r.evaluateInPlace w p = .error (.unknownCharacter p.character) w := by
  unfold evaluateInPlace onSheet
  rw [h]
  rfl

/-- To decide a precondition in place is to materialize its attribute, and to compare what that gives. -/
theorem evaluateInPlace_of_some {s : Sheet} (h : sheet? w p.character = some s) :
    r.evaluateInPlace w p =
      ((s.materialize r p.category p.subtype).within (setSheet w p.character)).andThen
      fun c w => ⟨p.holdsOf c.value, w⟩ := by
  unfold evaluateInPlace onSheet
  rw [h]

/-- It gives the characteristic that the attribute has now, which is what resolving reads. -/
theorem result_evaluateInPlace (r : Registry) (w : ω) (p : Precondition) :
    (r.evaluateInPlace w p).result = r.evaluate w p := by
  unfold evaluate
  cases hs : sheet? w p.character with
  | none =>
    rw [evaluateInPlace_of_none hs, resolve_of_none hs]
    rfl
  | some s =>
    rw [evaluateInPlace_of_some hs, resolve_of_some hs]
    cases hd : r.check p.category p.subtype with
    | error cause =>
      rw [Sheet.materialize_error hd]
      rfl
    | ok d =>
      rw [Sheet.materialize_ok hd]
      rfl

theorem filledAt_evaluateInPlace [LawfulWorld ω] (r : Registry) (w : ω) (p : Precondition) :
    World.FilledAt r w p.toTarget (r.evaluateInPlace w p).state := by
  cases hs : sheet? w p.character with
  | none =>
    rw [evaluateInPlace_of_none hs]
    exact World.filledAt_of_sheets fun _ => rfl
  | some s =>
    rw [evaluateInPlace_of_some hs]
    cases hd : r.check p.category p.subtype with
    | error cause =>
      rw [Sheet.materialize_error hd]
      exact World.filledAt_of_sheets (World.sheet?_setSheet_self hs)
    | ok d =>
      rw [Sheet.materialize_ok hd]
      exact World.filledAt_put hs hd

/-- **Whether a precondition holds does not depend on whether its attribute is put on the sheet.**
In every world, fitting or not, both ways to decide it give the same answer, or fail for the same
cause. Deciding it in place fills in one target at most, and every attribute resolves as before,
whatever came of it. -/
theorem evaluateInPlace_agrees [LawfulWorld ω] (r : Registry) (w : ω) (p : Precondition) :
    (r.evaluateInPlace w p).result = r.evaluate w p ∧
    (∀ t, r.resolve (r.evaluateInPlace w p).state t = r.resolve w t) ∧
    World.FilledAt r w p.toTarget (r.evaluateInPlace w p).state := by
  have hfilled := filledAt_evaluateInPlace r w p
  exact ⟨result_evaluateInPlace r w p, resolve_filled hfilled.shows, hfilled⟩

/-- Bob's mood is a truth value, though moods are integers. -/
def muddled : SortedMap String Sheet :=
  SortedMap.ofList [("Bob", Sheet.empty.put "Mood" "happy" ⟨"Mood", "happy", .bool true, none⟩)]

/-- To ask whether Bob is happy enough. -/
def happyEnough : Precondition := ⟨⟨"Bob", "Mood", "happy"⟩, .greater, .int 4⟩

/-- Of Bob nothing was said, so he is as happy as anyone. Where his mood is a muddle it stays one,
and of a character and a category that nobody has heard of it is the character that is missed. -/
theorem evaluateInPlace_agrees_muddled : LawfulWorld (SortedMap String Sheet) ∧
    (moods.evaluateInPlace bobAlone happyEnough).result = .ok true ∧
    moods.resolve (moods.evaluateInPlace bobAlone happyEnough).state happyEnough.toTarget =
      .ok (.int 5) ∧
    (moods.evaluateInPlace muddled happyEnough).result =
      .error (.kindMismatch "Mood:happy" .boolean (.int 4)) ∧
    moods.resolve (moods.evaluateInPlace muddled happyEnough).state happyEnough.toTarget =
      .ok (.bool true) ∧
    (moods.evaluateInPlace muddled ⟨⟨"Ann", "Weather", "sunny"⟩, .equal, .int 5⟩).result =
      .error (.unknownCharacter "Ann") := by
  obtain ⟨hanswer, hresolve, _⟩ := evaluateInPlace_agrees moods bobAlone happyEnough
  obtain ⟨hmuddle, hstays, _⟩ := evaluateInPlace_agrees moods muddled happyEnough
  obtain ⟨hunknown, _⟩ :=
    evaluateInPlace_agrees moods muddled ⟨⟨"Ann", "Weather", "sunny"⟩, .equal, .int 5⟩
  exact ⟨inferInstance, hanswer.trans rfl, (hresolve _).trans rfl, hmuddle.trans rfl,
    (hstays _).trans rfl, hunknown.trans rfl⟩

/-! ## Failed effects -/

variable {e : Effect} {cause : EvaluationError}

/-- About an unknown character or attribute nothing comes onto any sheet. -/
theorem sheet?_evaluateInPlace_of_unknown [LawfulWorld ω]
    (h : sheet? w p.character = none ∨ r.contains p.category p.subtype = false) (name : String) :
    sheet? (r.evaluateInPlace w p).state name = sheet? w name := by
  cases hs : sheet? w p.character with
  | none => rw [evaluateInPlace_of_none hs]; rfl
  | some s =>
    have hunregistered : ¬∃ d, r.check p.category p.subtype = .ok d := by
      rw [← contains_iff]
      rcases h with hnone | hunregistered
      · rw [hs] at hnone
        cases hnone
      · simp [hunregistered]
    cases hd : r.check p.category p.subtype with
    | error refusal =>
      rw [evaluateInPlace_of_some hs, Sheet.materialize_error hd]
      exact World.sheet?_setSheet_self hs name
    | ok d => exact absurd ⟨d, hd⟩ hunregistered

/-- **An effect that fails leaves what reading its attribute in place leaves.** It may have found no
character or no attribute; otherwise the mutation was refused, after the attribute had come onto the
sheet. -/
theorem state_enact_of_error (h : (r.enact w e).result = .error cause) (op : Comparison)
    (operand : Value) :
    (r.enact w e).state = (r.evaluateInPlace w ⟨e.toTarget, op, operand⟩).state := by
  cases hs : sheet? w e.character with
  | none =>
    rw [enact_of_none hs, evaluateInPlace_of_none hs]
    rfl
  | some s =>
    rw [enact_of_some hs] at h ⊢
    rw [evaluateInPlace_of_some hs]
    cases hd : r.check e.category e.subtype with
    | error refusal =>
      rw [Sheet.mutate_error hd, Sheet.materialize_error hd]
      rfl
    | ok d =>
      rw [Sheet.mutate_ok hd] at h ⊢
      rw [Sheet.materialize_ok hd]
      cases hchange : (s.current d e.category e.subtype).change? e.op e.value with
      | error refusal => rfl
      | ok changed =>
        obtain ⟨c, change⟩ := changed
        rw [hchange] at h
        cases h

/-- **A failed effect shows nothing.** Take any registry, any world, fitting or not, and any effect
that fails there. Every attribute resolves as before, to the same value or with the same error.
Whatever stood on a sheet stands there unchanged, and characters neither come nor go. If the
character or the attribute is unknown all sheets are as they were. Otherwise the one characteristic
that there may be more is that of the target, at the registered default. -/
theorem failed_effect_shows_nothing [LawfulWorld ω] (r : Registry) (w : ω)
    (h : (r.enact w e).result = .error cause) :
    (∀ t, r.resolve (r.enact w e).state t = r.resolve w t) ∧
    (∀ t c, World.standing w t = some c → World.standing (r.enact w e).state t = some c) ∧
    (∀ name, (sheet? (r.enact w e).state name).isSome = (sheet? w name).isSome) ∧
    (sheet? w e.character = none ∨ r.contains e.category e.subtype = false →
      ∀ name, sheet? (r.enact w e).state name = sheet? w name) ∧
    ∀ t c, World.standing w t = none → World.standing (r.enact w e).state t = some c →
      t = e.toTarget ∧ ∃ d, r.check e.category e.subtype = .ok d ∧ c = .ofCategory d e.subtype := by
  -- to ask whether the attribute equals the operand would have left the same world
  rw [state_enact_of_error h .equal e.value]
  have hfilled := filledAt_evaluateInPlace r w ⟨e.toTarget, .equal, e.value⟩
  refine ⟨resolve_filled hfilled.shows, ?_, hfilled.names,
    fun hunknown => sheet?_evaluateInPlace_of_unknown hunknown, ?_⟩
  · intro t c hc
    by_cases ht : t = e.toTarget
    · subst ht
      rcases hfilled.target with hsame | ⟨hnone, _⟩
      · exact hsame.trans hc
      · rw [hnone] at hc
        cases hc
    · exact (hfilled.others t ht).trans hc
  · intro t c hnone hc
    by_cases ht : t = e.toTarget
    · subst ht
      rcases hfilled.target with hsame | ⟨_, d, hd, hdefault⟩
      · rw [hsame, hnone] at hc
        cases hc
      · rw [hdefault] at hc
        cases hc
        exact ⟨rfl, d, hd, rfl⟩
    · rw [hfilled.others t ht, hnone] at hc
      cases hc

/-- To have Bob's mood be a truth value. -/
def muddling : Effect := ⟨⟨"Bob", "Mood", "happy"⟩, .assign, .bool true⟩

/-- To make Ann merrier, of whom nobody has heard. -/
def missing : Effect := ⟨⟨"Ann", "Mood", "happy"⟩, .add, .int 1⟩

/-- On a layer over Bob, of whom nothing was said, his mood comes onto the sheet when it cannot be
made a truth value, and he is as happy as anyone before and after that. About Ann nothing is written
down. -/
theorem failed_effect_shows_nothing_muddling : LawfulWorld (Scratch (SortedMap String Sheet)) ∧
    (moods.enact (Scratch.fresh bobAlone) muddling).result =
      .error (.kindMismatch "Mood:happy" .integer (.bool true)) ∧
    World.standing (Scratch.fresh bobAlone) muddling.toTarget = none ∧
    (∃ c, World.standing (moods.enact (Scratch.fresh bobAlone) muddling).state muddling.toTarget =
        some c ∧ c.value = .int 5) ∧
    moods.resolve (moods.enact (Scratch.fresh bobAlone) muddling).state muddling.toTarget =
      .ok (.int 5) ∧
    (moods.enact (Scratch.fresh bobAlone) missing).result = .error (.unknownCharacter "Ann") ∧
    ∀ name, sheet? (moods.enact (Scratch.fresh bobAlone) missing).state name =
      sheet? (Scratch.fresh bobAlone) name := by
  have hmuddled : (moods.enact (Scratch.fresh bobAlone) muddling).result =
      .error (.kindMismatch "Mood:happy" .integer (.bool true)) := rfl
  have hmissed :
      (moods.enact (Scratch.fresh bobAlone) missing).result = .error (.unknownCharacter "Ann") := rfl
  obtain ⟨hresolve, _, _, _, hadded⟩ :=
    failed_effect_shows_nothing moods (Scratch.fresh bobAlone) hmuddled
  obtain ⟨_, _, _, hsame, _⟩ := failed_effect_shows_nothing moods (Scratch.fresh bobAlone) hmissed
  obtain ⟨c, hc⟩ : ∃ c, World.standing (moods.enact (Scratch.fresh bobAlone) muddling).state
      muddling.toTarget = some c :=
    Option.isSome_iff_exists.mp rfl
  obtain ⟨_, d, hd, hdefault⟩ := hadded muddling.toTarget c rfl hc
  have hmoods : (moods.check "Mood" "happy").map (·.default) = .ok (.int 5) := rfl
  refine ⟨inferInstance, hmuddled, rfl, ⟨c, hc, ?_⟩, (hresolve _).trans rfl, hmissed, hsame (.inl rfl)⟩
  rw [show moods.check "Mood" "happy" = .ok d from hd] at hmoods
  rw [hdefault]
  exact Except.ok.inj hmoods

end Registry

end Narrative
