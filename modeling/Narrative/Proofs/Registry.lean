import Narrative.Proofs.Outcome
import Narrative.Evaluation

/-!
# `Proofs.Registry` — what is registered before and after a change

Everything that refers to an attribute asks the registry by `check`. A registry that grows keeps what it
has: every attribute stays registered, with its kind. One that shrinks keeps all but what is taken out.

## Contents
- **Declarations.** `Category.ofDecl_eq_ok` and `CategoryKind.ofDecl_eq_numeric`: what an accepted
  declaration says.
- **Attributes.** `check_eq_ok`; `Keyed` and `Extends`.
- **Growing.** `addCategory_eq_ok`, `addSubtypes_eq_ok`, and why both extend the registry.
- **Shrinking.** What stays registered when a category or a subtype goes.
-/

namespace Narrative
open Outcome

/-! ## Declarations -/

/-- A declaration is accepted if its names are in order and its kind is; it then becomes the
category that it names. -/
theorem Category.ofDecl_eq_ok {decl : CategoryDecl} {d : Category} : Category.ofDecl decl = .ok d ↔
    decl.name ≠ "" ∧ Key.checkName decl.name = .ok () ∧
    (∀ subtype ∈ decl.subtypes, Key.checkName subtype = .ok ()) ∧
      ∃ kind, CategoryKind.ofDecl decl = .ok kind ∧
        d = ⟨decl.name, SortedSet.ofList decl.subtypes, kind⟩ := by
  unfold Category.ofDecl
  rw [guard_eq_ok]
  refine and_congr_right fun _ => ?_
  constructor
  · intro h
    obtain ⟨_, hname, h⟩ := bind_eq_ok.mp h
    obtain ⟨_, hsubtypes, h⟩ := bind_eq_ok.mp h
    obtain ⟨kind, hkind, h⟩ := bind_eq_ok.mp h
    cases h
    exact ⟨hname, forM_eq_ok.mp hsubtypes, kind, hkind, rfl⟩
  · rintro ⟨hname, hsubtypes, kind, hkind, rfl⟩
    rw [hname, forM_eq_ok.mpr hsubtypes, hkind]
    rfl

/-- Integers need bounds, in their order, and a default between them. -/
theorem CategoryKind.ofDecl_eq_numeric {decl : CategoryDecl} {range : Range} {n : Int64} :
    CategoryKind.ofDecl decl = .ok (.numeric range n) ↔ decl.isBoolean = false ∧ decl.default = .int n ∧
      decl.min = some range.min ∧ decl.max = some range.max ∧ ¬range.max < range.min ∧
      range.contains n = true := by
  obtain ⟨name, subtypes, isBoolean, lower, upper, default⟩ := decl
  obtain ⟨low, high⟩ := range
  unfold CategoryKind.ofDecl
  cases isBoolean with
  | true => cases default <;> simp
  | false =>
    cases default with
    | bool b => simp
    | int m =>
      cases lower with
      | none => simp
      | some l =>
        cases upper with
        | none => simp
        | some u =>
          -- the two checks of the bounds, one after the other
          by_cases hinverted : u < l
          · simp only [hinverted, ↓reduceIte]
            grind
          · by_cases hin : Range.contains ⟨l, u⟩ m = true
            · simp only [hinverted, hin, ↓reduceIte]
              grind
            · simp only [hinverted, hin, ↓reduceIte]
              grind

namespace Registry

variable {r r' : Registry} {category subtype : String} {d : Category}

/-! ## Attributes -/

/-- An attribute is registered if its category is and has the subtype. -/
theorem check_eq_ok :
    r.check category subtype = .ok d ↔ r.category? category = some d ∧ d.hasSubtype subtype = true := by
  unfold Registry.check
  cases r.category? category with
  | none => exact ⟨fun h => (nomatch h), fun h => (nomatch h.1)⟩
  | some d' =>
    by_cases hs : d'.hasSubtype subtype = true
    · simp only [hs, if_true, Except.ok.injEq, Option.some.injEq]
      exact ⟨fun h => ⟨h, h ▸ hs⟩, fun h => h.1⟩
    · simp only [hs, Option.some.injEq]
      exact ⟨fun h => (nomatch h), fun h => absurd (h.1 ▸ h.2) hs⟩

theorem contains_iff : r.contains category subtype = true ↔ ∃ d, r.check category subtype = .ok d := by
  unfold Registry.contains
  rw [Option.any_eq_true]
  exact exists_congr fun d => check_eq_ok.symm

/-- Every category stands under its own name. -/
def Keyed (r : Registry) : Prop := ∀ name d, r.category? name = some d → d.name = name

/-- Every attribute of `r` is one of `r'`, of the same kind. -/
def Extends (r r' : Registry) : Prop :=
  ∀ category subtype d, r.check category subtype = .ok d → ∃ d', r'.check category subtype = .ok d' ∧
    d'.kind = d.kind

theorem extends_refl (r : Registry) : r.Extends r := fun _ _ d h => ⟨d, h, rfl⟩

theorem keyed_empty : Keyed empty := fun _ _ h => nomatch h

/-! ## Growing -/

theorem category?_insert (r : Registry) (name : String) (d : Category) (name' : String) :
    category? ⟨r.categories.insert name d⟩ name' = if name' = name then some d else r.category? name' :=
  SortedMap.get?_insert r.categories name name' d

theorem keyed_insert (hr : r.Keyed) (hd : d.name = category) :
    Keyed ⟨r.categories.insert category d⟩ := by
  intro name d' h
  rw [category?_insert] at h
  by_cases hn : name = category
  · rw [if_pos hn] at h
    cases h
    rw [hn, hd]
  · rw [if_neg hn] at h
    exact hr name d' h

/-- Putting a category where there was none, or one that has grown, extends the registry. -/
theorem extends_insert (h : ∀ d', r.category? category = some d' →
      d.kind = d'.kind ∧ ∀ subtype, d'.hasSubtype subtype = true → d.hasSubtype subtype = true) :
    Extends r ⟨r.categories.insert category d⟩ := by
  intro name subtype d' hd'
  obtain ⟨hcat, hsub⟩ := check_eq_ok.mp hd'
  by_cases hn : name = category
  · -- the category itself: it may have more subtypes now
    subst hn
    obtain ⟨hkind, hgrow⟩ := h d' hcat
    exact ⟨d, check_eq_ok.mpr ⟨by rw [category?_insert, if_pos rfl], hgrow subtype hsub⟩, hkind⟩
  · exact ⟨d', check_eq_ok.mpr ⟨by rw [category?_insert, if_neg hn]; exact hcat, hsub⟩, rfl⟩

/-- A new category stands under the name that was declared, which was not taken. -/
theorem addCategory_eq_ok {decl : CategoryDecl} (h : r.addCategory decl = .ok r') :
    ∃ d, Category.ofDecl decl = .ok d ∧ d.name = decl.name ∧ r.category? decl.name = none ∧
      r' = ⟨r.categories.insert decl.name d⟩ := by
  unfold addCategory at h
  obtain ⟨hnew, h⟩ := guard_eq_ok.mp h
  obtain ⟨d, hd, h⟩ := bind_eq_ok.mp h
  have hname : d.name = decl.name := by
    obtain ⟨_, _, _, _, _, rfl⟩ := Category.ofDecl_eq_ok.mp hd
    rfl
  cases h
  exact ⟨d, hd, hname, Option.not_isSome_iff_eq_none.mp hnew, by rw [hname]⟩

/-- A category that gets more subtypes changes in nothing else. -/
theorem addSubtypes_eq_ok {name : String} {subtypes : List String}
    (h : r.addSubtypes name subtypes = .ok r') :
    ∃ d, r.category? name = some d ∧ (∀ subtype ∈ subtypes, Key.checkName subtype = .ok ()) ∧
      r' = ⟨r.categories.insert name { d with subtypes := d.subtypes.addAll subtypes }⟩ := by
  unfold addSubtypes at h
  split at h
  · cases h
  · next d hd =>
    obtain ⟨_, hnames, h⟩ := bind_eq_ok.mp h
    cases h
    exact ⟨d, hd, forM_eq_ok.mp hnames, rfl⟩

/-- What is in a set is still there when others are added. -/
theorem contains_addAll {set : SortedSet String} {members : List String} {x : String}
    (h : set.contains x = true) :
    SortedMap.contains (set.addAll members) x = true := by
  unfold SortedSet.addAll
  induction members generalizing set with
  | nil => exact h
  | cons y members ih =>
    refine ih ?_
    unfold SortedMap.contains SortedSet.add at *
    rw [SortedMap.get?_insert]
    by_cases hx : x = y
    · rw [if_pos hx]; rfl
    · rw [if_neg hx]; exact h

theorem extends_addCategory {decl : CategoryDecl} (h : r.addCategory decl = .ok r') : Extends r r' := by
  obtain ⟨d, _, _, hnew, rfl⟩ := addCategory_eq_ok h
  exact extends_insert fun d' hd' => by rw [hnew] at hd'; cases hd'

theorem extends_addSubtypes {name : String} {subtypes : List String}
    (h : r.addSubtypes name subtypes = .ok r') :
    Extends r r' := by
  obtain ⟨d, hd, _, rfl⟩ := addSubtypes_eq_ok h
  refine extends_insert fun d' hd' => ?_
  rw [hd] at hd'
  cases hd'
  exact ⟨rfl, fun _ => contains_addAll⟩

theorem keyed_addCategory {decl : CategoryDecl} (hr : r.Keyed) (h : r.addCategory decl = .ok r') :
    r'.Keyed := by
  obtain ⟨d, _, hname, _, rfl⟩ := addCategory_eq_ok h
  exact keyed_insert hr hname

theorem keyed_addSubtypes {name : String} {subtypes : List String} (hr : r.Keyed)
    (h : r.addSubtypes name subtypes = .ok r') : r'.Keyed := by
  obtain ⟨d, hd, _, rfl⟩ := addSubtypes_eq_ok h
  exact keyed_insert hr (hr name d hd)

/-! ## Shrinking -/

theorem category?_removeCategory (r : Registry) (removed name : String) :
    (r.removeCategory removed).category? name = if name = removed then none else r.category? name :=
  SortedMap.get?_erase r.categories removed name

/-- An attribute of another category stays registered when a category goes. -/
theorem check_removeCategory {removed : String} (hne : category ≠ removed)
    (h : r.check category subtype = .ok d) :
    (r.removeCategory removed).check category subtype = .ok d := by
  obtain ⟨hd, hs⟩ := check_eq_ok.mp h
  exact check_eq_ok.mpr ⟨by rw [category?_removeCategory, if_neg hne]; exact hd, hs⟩

theorem category?_removeSubtype (r : Registry) (removed gone name : String) :
    (r.removeSubtype removed gone).category? name =
      if name = removed then (r.category? removed).map fun d =>
        { d with subtypes := d.subtypes.erase gone }
      else r.category? name :=
  SortedMap.get?_modify r.categories removed name _

/-- Every other attribute stays registered, with its kind, when a subtype goes. -/
theorem check_removeSubtype {removed gone : String} (hne : ¬(category = removed ∧ subtype = gone))
    (h : r.check category subtype = .ok d) :
    ∃ d', (r.removeSubtype removed gone).check category subtype = .ok d' ∧ d'.kind = d.kind := by
  obtain ⟨hd, hs⟩ := check_eq_ok.mp h
  by_cases hc : category = removed
  · subst hc
    have hkept : (d.subtypes.erase gone).contains subtype = true := by
      unfold SortedMap.contains
      rw [SortedMap.get?_erase, if_neg fun h => hne ⟨rfl, h⟩]
      exact hs
    refine ⟨{ d with subtypes := d.subtypes.erase gone }, check_eq_ok.mpr ⟨?_, hkept⟩, rfl⟩
    rw [category?_removeSubtype, if_pos rfl, hd]; rfl
  · exact ⟨d, check_eq_ok.mpr ⟨by rw [category?_removeSubtype, if_neg hc]; exact hd, hs⟩, rfl⟩

theorem keyed_removeCategory (hr : r.Keyed) (removed : String) : (r.removeCategory removed).Keyed := by
  intro name d h
  rw [category?_removeCategory] at h
  by_cases hn : name = removed
  · rw [if_pos hn] at h; cases h
  · rw [if_neg hn] at h
    exact hr name d h

theorem keyed_removeSubtype (hr : r.Keyed) (removed gone : String) :
    (r.removeSubtype removed gone).Keyed := by
  intro name d h
  rw [category?_removeSubtype] at h
  by_cases hn : name = removed
  · rw [if_pos hn] at h
    obtain ⟨d', hd', rfl⟩ := Option.map_eq_some_iff.mp h
    exact (hr removed d' hd').trans hn.symm
  · rw [if_neg hn] at h
    exact hr name d h

end Registry

end Narrative
