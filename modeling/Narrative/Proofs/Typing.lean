import Narrative.Proofs.Sheet
import Narrative.Evaluation

/-!
# `Proofs.Typing` — characteristics of the registered kind take every change that passes the check

The rule "an operand has the kind of its category, and truth values are only assigned" is applied
twice by different code: `checkEffect` reads the registry, `Characteristic.mutated` reads the
characteristic that happens to be on the sheet. The two agree as long as the sheets **fit** the
registry: whatever is stored for a registered attribute has the range and the kind that the registry
gives it. Every write keeps that, so the agreement survives a whole list of effects, on the cast as
well as on a scratch layer.

## Contents
- **Categories.** `Category.Allows`, `Category.kind_congr`, `checkEffect_eq_ok`.
- **Characteristics.** `Characteristic.Fits` and what `mutated` does under it.
- **Sheets.** `Sheet.Fits`, kept by every write; `Fits.mutate_ok_iff` and `Fits.mutate_assign`.
- **Worlds.** `World.Fits`; `enact_ok_iff`, `recordAll_ok_iff` and `evaluate_ok_iff` say exactly when a
  change, a list of changes and a precondition go through.
-/

namespace Narrative
open Outcome

/-! ## Categories -/

/-- What the attributes of a category may be changed by: operands of their kind, and assignments only
if they are truth values. -/
def Category.Allows (d : Category) (op : Mutation) (operand : Value) : Prop :=
  operand.kind = d.default.kind ∧ (d.isBoolean = true → op = .assign)

instance (d : Category) (op : Mutation) (operand : Value) : Decidable (d.Allows op operand) :=
  inferInstanceAs (Decidable (operand.kind = d.default.kind ∧ (d.isBoolean = true → op = .assign)))

/-- The kind of a category decides about range, default and truth values alike. -/
theorem Category.kind_congr {d d' : Category} (h : d'.kind = d.kind) :
    d'.range? = d.range? ∧ d'.default.kind = d.default.kind ∧ d'.isBoolean = d.isBoolean := by
  unfold Category.range? Category.default Category.isBoolean
  rw [h]
  exact ⟨rfl, rfl, rfl⟩

theorem Category.Allows.of_kind_eq {d d' : Category} {op : Mutation} {operand : Value}
    (h : d.Allows op operand) (hk : d'.kind = d.kind) : d'.Allows op operand := by
  obtain ⟨_, hdefault, hboolean⟩ := Category.kind_congr hk
  exact ⟨h.1.trans hdefault.symm, fun hb => h.2 (hboolean ▸ hb)⟩

namespace Registry

variable {r : Registry}

/-- The check before an effect: its attribute is registered and its category allows the change. -/
theorem checkEffect_eq_ok {e : Effect} :
    r.checkEffect e = .ok () ↔ ∃ d, r.check e.category e.subtype = .ok d ∧ d.Allows e.op e.value := by
  unfold checkEffect
  rw [bind_eq_ok]
  refine exists_congr fun d => and_congr_right fun _ => ?_
  rw [guard_eq_ok, Decidable.not_not]
  refine and_congr_right fun _ => ?_
  by_cases hb : d.isBoolean = true
  · by_cases ho : e.op = .assign
    · simp [hb, ho, pure, Except.pure]
    · simp [hb, ho, throw, throwThe, MonadExceptOf.throw]
  · simp [hb, pure, Except.pure]

end Registry

/-! ## Characteristics -/

namespace Characteristic

/-- A characteristic **fits** a category: it has the range of the category and a value of its kind. -/
structure Fits (c : Characteristic) (d : Category) : Prop where
  range : c.range = d.range?
  kind : c.value.kind = d.default.kind

variable {c : Characteristic} {d : Category} {op : Mutation} {operand after : Value}

theorem fits_ofCategory (d : Category) (subtype : String) : (ofCategory d subtype).Fits d := ⟨rfl, rfl⟩

/-- What fits a category fits every other of the same kind, whatever its subtypes are. -/
theorem Fits.of_kind_eq {d' : Category} (h : c.Fits d) (hk : d'.kind = d.kind) : c.Fits d' := by
  obtain ⟨hrange, hdefault, _⟩ := Category.kind_congr hk
  exact ⟨h.range.trans hrange.symm, h.kind.trans hdefault.symm⟩

/-- A mutation never changes the kind of a value. -/
theorem kind_of_mutated (h : c.mutated op operand = .ok after) : after.kind = c.value.kind := by
  unfold mutated at h
  split at h
  -- two assignments and two sums succeed, all else is refused
  case h_1 | h_2 | h_5 | h_6 => cases h; simp_all [Value.kind]
  all_goals cases h

/-- A mutation of a fitting characteristic succeeds exactly when the category allows it: the range and
the value that `mutated` looks at say no more than the category does. -/
theorem mutated_ok_iff (hc : c.Fits d) : (∃ a, c.mutated op operand = .ok a) ↔ d.Allows op operand := by
  obtain ⟨name, subtype, value, range⟩ := c
  obtain ⟨dname, subtypes, dkind⟩ := d
  obtain ⟨hr, hk⟩ := hc
  unfold Category.Allows
  -- the range and the kind of the value are those of `dkind`, so operation and operand decide the rest
  cases dkind with
  | boolean b =>
    simp only [Category.range?, Category.default, Value.kind] at hr hk
    subst hr
    cases value with
    | int n => exact absurd hk (by simp)
    | bool v =>
      cases op <;> cases operand <;> simp [mutated, Value.kind, Category.default, Category.isBoolean]
  | numeric rg n =>
    simp only [Category.range?, Category.default, Value.kind] at hr hk
    subst hr
    cases value with
    | bool v => exact absurd hk (by simp)
    | int v =>
      cases op <;> cases operand <;> simp [mutated, Value.kind, Category.default, Category.isBoolean]

/-- **What is assigned is stored**, if it has the kind of the category; anything else is refused. -/
theorem mutated_assign (hc : c.Fits d) : c.mutated .assign operand =
    if operand.kind = d.default.kind then .ok operand
      else .error (.kindMismatch c.pair c.value.kind operand) := by
  obtain ⟨name, subtype, value, range⟩ := c
  obtain ⟨hr, hk⟩ := hc
  rw [← hk]
  obtain ⟨dname, subtypes, dkind⟩ := d
  cases dkind with
  | boolean b =>
    obtain rfl : range = none := hr
    cases value with
    | int n => cases hk
    | bool v => cases operand <;> rfl
  | numeric rg n =>
    obtain rfl : range = some rg := hr
    cases value with
    | bool v => cases hk
    | int v => cases operand <;> rfl

/-- A mutated characteristic is the old one with another value. -/
theorem change?_eq_ok {c' : Characteristic} {change : Change} :
    c.change? op operand = .ok (c', change) ↔
      ∃ a, c.mutated op operand = .ok a ∧ c' = { c with value := a } ∧
        change = ⟨c.value, a, c.range⟩ := by
  unfold change?
  rw [map_eq_ok]
  refine exists_congr fun a => and_congr_right fun _ => ?_
  rw [Prod.mk.injEq]
  exact and_congr ⟨Eq.symm, Eq.symm⟩ ⟨Eq.symm, Eq.symm⟩

theorem Fits.of_change? {c' : Characteristic} {change : Change} (hc : c.Fits d)
    (h : c.change? op operand = .ok (c', change)) : c'.Fits d := by
  obtain ⟨a, ha, rfl, _⟩ := change?_eq_ok.mp h
  exact ⟨hc.range, (kind_of_mutated ha).trans hc.kind⟩

end Characteristic

/-! ## Sheets -/

namespace Sheet

/-- A sheet **fits** a registry: what it holds for a registered attribute fits the attribute's category.
What it holds for others is left open. -/
def Fits (s : Sheet) (r : Registry) : Prop :=
  ∀ category subtype d c, r.check category subtype = .ok d → s.get? category subtype = some c → c.Fits d

variable {s : Sheet} {r : Registry} {category subtype : String} {d : Category}

theorem Fits.current (hs : s.Fits r) (h : r.check category subtype = .ok d) :
    (s.current d category subtype).Fits d := by
  unfold Sheet.current
  cases hc : s.get? category subtype with
  | none => exact Characteristic.fits_ofCategory d subtype
  | some c => exact hs category subtype d c h hc

theorem Fits.put (hs : s.Fits r) (h : r.check category subtype = .ok d) {c : Characteristic}
    (hc : c.Fits d) :
    (s.put category subtype c).Fits r := by
  intro category' subtype' d' c' h' hget
  rw [get?_put] at hget
  by_cases heq : category' = category ∧ subtype' = subtype
  · rw [if_pos heq] at hget
    obtain ⟨rfl, rfl⟩ := heq
    rw [h] at h'
    cases h'; cases hget
    exact hc
  · rw [if_neg heq] at hget
    exact hs category' subtype' d' c' h' hget

/-- A mutation leaves a fitting sheet fitting, whether it succeeds or fails. -/
theorem Fits.mutate (hs : s.Fits r) (category subtype : String) (op : Mutation) (operand : Value) :
    (s.mutate r category subtype op operand).state.Fits r := by
  cases h : r.check category subtype with
  | error e => rw [mutate_error h]; exact hs
  | ok d =>
    rw [mutate_ok h]
    cases hch : (s.current d category subtype).change? op operand with
    | error e => exact hs.put h (hs.current h)
    | ok x => exact hs.put h ((hs.current h).of_change? hch)

/-- On a fitting sheet a mutation succeeds exactly when the attribute is registered and its category
allows the change. -/
theorem Fits.mutate_ok_iff (hs : s.Fits r) {op : Mutation} {operand : Value} :
    (∃ change, (s.mutate r category subtype op operand).result = .ok change) ↔
      ∃ d, r.check category subtype = .ok d ∧ d.Allows op operand := by
  cases h : r.check category subtype with
  | error e =>
    rw [mutate_error h]
    exact ⟨fun ⟨_, h⟩ => (nomatch h), fun ⟨_, h, _⟩ => (nomatch h)⟩
  | ok d =>
    have hiff : (∃ a, (s.current d category subtype).mutated op operand = .ok a) ↔ d.Allows op operand :=
      Characteristic.mutated_ok_iff (hs.current h)
    rw [mutate_ok h]
    cases hm : (s.current d category subtype).mutated op operand with
    | error e =>
      have hch : (s.current d category subtype).change? op operand = .error e := by
        unfold Characteristic.change?; rw [hm]; rfl
      rw [hch]
      refine ⟨fun ⟨_, h⟩ => (nomatch h), fun ⟨d', hd', hallow⟩ => ?_⟩
      cases hd'
      obtain ⟨a, ha⟩ := hiff.mpr hallow
      rw [hm] at ha; cases ha
    | ok a =>
      have hch := Characteristic.change?_eq_ok.mpr ⟨a, hm, rfl, rfl⟩
      rw [hch]
      exact ⟨fun _ => ⟨d, rfl, hiff.mp ⟨a, hm⟩⟩, fun _ => ⟨_, rfl⟩⟩

/-- **After an assignment the attribute has the value that was assigned**, whatever it had before. -/
theorem Fits.mutate_assign (hs : s.Fits r) (h : r.check category subtype = .ok d) {v : Value}
    (hv : v.kind = d.default.kind) :
    (s.mutate r category subtype .assign v).state.get? category subtype =
      some { s.current d category subtype with value := v } := by
  have hassigned : (s.current d category subtype).mutated .assign v = .ok v := by
    rw [Characteristic.mutated_assign (hs.current h), if_pos hv]
  rw [mutate_ok h, Characteristic.change?_eq_ok.mpr ⟨v, hassigned, rfl, rfl⟩]
  exact (get?_put ..).trans (if_pos ⟨rfl, rfl⟩)

end Sheet

/-! ## Worlds -/

variable {ω : Type} [World ω] [LawfulWorld ω]

/-- A world **fits** a registry if every sheet in it does. -/
def World.Fits (r : Registry) (w : ω) : Prop := ∀ name s, sheet? w name = some s → s.Fits r

/-- What is set is found, and characters neither come nor go. -/
theorem isSome_sheet?_setSheet {w : ω} {name : String} (h : (sheet? w name).isSome) (s : Sheet)
    (name' : String) :
    (sheet? (setSheet w name s) name').isSome = (sheet? w name').isSome := by
  rw [LawfulWorld.sheet?_setSheet w name name' s h]
  by_cases hn : name' = name
  · rw [if_pos hn, hn, h]; rfl
  · rw [if_neg hn]

namespace Registry

variable {r : Registry} {w : ω} {e : Effect}

omit [LawfulWorld ω] in
theorem enact_of_none (h : sheet? w e.character = none) :
    r.enact w e = .error (.unknownCharacter e.character) w := by
  unfold enact onSheet; rw [h]

omit [LawfulWorld ω] in
theorem enact_of_some {s : Sheet} (h : sheet? w e.character = some s) :
    r.enact w e = (s.mutate r e.category e.subtype e.op e.value).within (setSheet w e.character) := by
  unfold enact onSheet; rw [h]

/-- An effect neither brings a character in nor takes one out. -/
theorem isSome_sheet?_enact (r : Registry) (w : ω) (e : Effect) (name : String) :
    (sheet? (r.enact w e).state name).isSome = (sheet? w name).isSome := by
  cases h : sheet? w e.character with
  | none => rw [enact_of_none h]; rfl
  | some s =>
    rw [enact_of_some h]
    exact isSome_sheet?_setSheet (by rw [h]; rfl) _ name

/-- An effect leaves a fitting world fitting, whether it can be carried out or not. -/
theorem fits_enact (hw : World.Fits r w) (e : Effect) : World.Fits r (r.enact w e).state := by
  cases h : sheet? w e.character with
  | none => rw [enact_of_none h]; exact hw
  | some s =>
    rw [enact_of_some h]
    intro name s' hs'
    rw [state_within, LawfulWorld.sheet?_setSheet w e.character name _ (by rw [h]; rfl)] at hs'
    by_cases hn : name = e.character
    · rw [if_pos hn] at hs'
      cases hs'
      exact (hw _ s h).mutate _ _ _ _
    · rw [if_neg hn] at hs'
      exact hw name s' hs'

omit [LawfulWorld ω] in
/-- In a fitting world an effect can be carried out exactly when it passes the check and its character
is there. -/
theorem enact_ok_iff (hw : World.Fits r w) :
    (∃ change, (r.enact w e).result = .ok change) ↔
      r.checkEffect e = .ok () ∧ (sheet? w e.character).isSome := by
  cases h : sheet? w e.character with
  | none =>
    rw [enact_of_none h]
    exact ⟨fun ⟨_, h⟩ => (nomatch h), fun h => (nomatch h.2)⟩
  | some s =>
    rw [enact_of_some h, checkEffect_eq_ok]
    exact (hw _ s h).mutate_ok_iff.trans (and_iff_left rfl).symm

/-- In a fitting world a list of effects can be carried out exactly when each passes the check and its
character is there, in whatever way the effects before it have changed the world. -/
theorem recordAll_ok_iff (hw : World.Fits r w) {es : List Effect} {m : Memory} :
    (∃ m', (r.recordAll es m w).result = .ok m') ↔
      ∀ e ∈ es, r.checkEffect e = .ok () ∧ (sheet? w e.character).isSome := by
  induction es generalizing m w with
  | nil => exact ⟨fun _ e he => absurd he List.not_mem_nil, fun _ => ⟨m, rfl⟩⟩
  | cons e es ih =>
    -- the world after `e` has the same characters, so the other effects are asked the same of it
    have hnext :
        (∀ e' ∈ es, r.checkEffect e' = .ok () ∧ (sheet? (r.enact w e).state e'.character).isSome) ↔
        ∀ e' ∈ es, r.checkEffect e' = .ok () ∧ (sheet? w e'.character).isSome :=
      forall₂_congr fun e' _ => by rw [isSome_sheet?_enact]
    rw [List.forall_mem_cons, ← enact_ok_iff hw, ← hnext, recordAll]
    constructor
    · rintro ⟨m', h⟩
      obtain ⟨change, hch, hrest⟩ := andThen_result_ok.mp h
      exact ⟨⟨change, hch⟩, (ih (fits_enact hw e)).mp ⟨m', hrest⟩⟩
    · rintro ⟨⟨change, hch⟩, hrest⟩
      obtain ⟨m', h⟩ := (ih (m := m.encode e.toTarget change) (fits_enact hw e)).mpr hrest
      exact ⟨m', andThen_result_ok.mpr ⟨change, hch, h⟩⟩

/-- A list of effects leaves a fitting world fitting, however far it gets. -/
theorem fits_recordAll (hw : World.Fits r w) (es : List Effect) (m : Memory) :
    World.Fits r (r.recordAll es m w).state :=
  recordAll_keeps (I := World.Fits r) (fun e _ hw => fits_enact hw e) es m hw

/-- Nor does a list of effects bring characters in or take them out. -/
theorem isSome_sheet?_recordAll (r : Registry) (es : List Effect) (m : Memory) (w : ω) (name : String) :
    (sheet? (r.recordAll es m w).state name).isSome = (sheet? w name).isSome :=
  recordAll_keeps (I := fun w' => (sheet? w' name).isSome = (sheet? w name).isSome)
    (fun e w' h => (isSome_sheet?_enact r w' e name).trans h) es m rfl

/-! ### Preconditions -/

omit [LawfulWorld ω] in
theorem resolve_of_none {t : Target} (h : sheet? w t.character = none) :
    r.resolve w t = .error (.unknownCharacter t.character) := by
  unfold resolve
  rw [h]

omit [LawfulWorld ω] in
/-- The default is what `current` falls back on, too. -/
theorem resolve_of_some {t : Target} {s : Sheet} (h : sheet? w t.character = some s) :
    r.resolve w t = (r.check t.category t.subtype).map fun d =>
      (s.current d t.category t.subtype).value := by
  unfold resolve
  rw [h]
  cases r.check t.category t.subtype with
  | error e => rfl
  | ok d => exact congrArg Except.ok (s.value_current d _ _).symm

omit [LawfulWorld ω] in
/-- An attribute resolves to the value that it has now, if its character and its category are known. -/
theorem resolve_eq_ok {t : Target} {v : Value} :
    r.resolve w t = .ok v ↔ ∃ s d, sheet? w t.character = some s ∧ r.check t.category t.subtype = .ok d ∧
      (s.current d t.category t.subtype).value = v := by
  cases hs : sheet? w t.character with
  | none =>
    rw [resolve_of_none hs]
    exact ⟨fun h => (nomatch h), fun ⟨_, _, h, _⟩ => (nomatch h)⟩
  | some s =>
    rw [resolve_of_some hs, map_eq_ok]
    constructor
    · rintro ⟨d, hd, hv⟩
      exact ⟨s, d, rfl, hd, hv⟩
    · rintro ⟨_, d, hs', hd, hv⟩
      cases hs'
      exact ⟨d, hd, hv⟩

theorem holdsOf_ok_iff {p : Precondition} {v : Value} :
    (∃ b, p.holdsOf v = .ok b) ↔ p.value.kind = v.kind := by
  unfold Precondition.holdsOf
  obtain ⟨t, op, operand⟩ := p
  cases v <;> cases operand <;> simp [Comparison.compare?, Value.kind]

omit [LawfulWorld ω] in
/-- In a fitting world a precondition is decided exactly when its character is there, its attribute is
registered and its operand is of the registered kind. -/
theorem evaluate_ok_iff (hw : World.Fits r w) {p : Precondition} :
    (∃ b, r.evaluate w p = .ok b) ↔ (sheet? w p.character).isSome ∧
      ∃ d, r.check p.category p.subtype = .ok d ∧ p.value.kind = d.default.kind := by
  unfold evaluate
  constructor
  · rintro ⟨b, hb⟩
    obtain ⟨v, hv, hb⟩ := bind_eq_ok.mp hb
    obtain ⟨s, d, hs, hd, rfl⟩ := resolve_eq_ok.mp hv
    refine ⟨by rw [hs]; rfl, d, hd, ?_⟩
    rw [holdsOf_ok_iff.mp ⟨b, hb⟩, ((hw _ s hs).current hd).kind]
  · rintro ⟨hs, d, hd, hk⟩
    obtain ⟨s, hs⟩ := Option.isSome_iff_exists.mp hs
    have hv := resolve_eq_ok.mpr ⟨s, d, hs, hd, rfl⟩
    obtain ⟨b, hb⟩ := holdsOf_ok_iff.mpr (hk.trans ((hw _ s hs).current hd).kind.symm)
    exact ⟨b, bind_eq_ok.mpr ⟨_, hv, hb⟩⟩

omit [LawfulWorld ω] in
/-- Preconditions that can all be decided can be decided one after the other. -/
theorem evaluateAll_succeeds {ps : List Precondition} (h : ∀ p ∈ ps, ∃ b, r.evaluate w p = .ok b) :
    ∃ b, r.evaluateAll w ps = .ok b := by
  induction ps with
  | nil => exact ⟨true, rfl⟩
  | cons p ps ih =>
    obtain ⟨b, hb⟩ := h p List.mem_cons_self
    obtain ⟨b', hb'⟩ := ih fun q hq => h q (List.mem_cons_of_mem _ hq)
    rw [evaluateAll, hb]
    cases b with
    | false => exact ⟨false, rfl⟩
    | true => exact ⟨b', hb'⟩

end Registry

end Narrative
