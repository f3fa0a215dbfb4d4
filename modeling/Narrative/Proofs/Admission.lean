import Narrative.Proofs.Banks
import Narrative.Proofs.Clamping

/-!
# `Proofs.Admission` — what is let into a registry

Keys, defaults and ranges are taken on trust everywhere else: that names can be told apart in a key,
that a category stands under its own name, that a default lies in its range. All of it is checked
once, where declarations come in. There are two ways in, a new category and more subtypes for one
that is there, and a third one that takes the first or the second, category by category. Each checks
all names before it writes anything.

What is checked is said here without the order of the checks, and it is what holds of a registry
ever after.

## Contents
- **Declarations.** `CategoryDecl.Admissible`; `exists_addCategory_iff` and `exists_addSubtypes_iff`.
- **Well-formed registries.** `Category.Sound` and `WellFormed`, kept by growing and shrinking.
- **Growing.** `Keeps`: what is there stays, with its kind and all its subtypes.
- **Loading.** `registry_loadCategory`: it changes a registry in one of the two ways, or not at all.
- **Calls.** `Call`, and `Maintained` for what comes about by calls; the step lemma `WellFormed.after`.
- **The main result** is `maintained_by_checks`.
-/

namespace Narrative
open Outcome

/-! ## Declarations -/

/-- A declaration is **admissible** if it has a name, all names in it are plain, and it declares
truth values with a truth value as the default, or integers with an integer between the two bounds
as the default. -/
structure CategoryDecl.Admissible (decl : CategoryDecl) : Prop where
  named : decl.name ≠ ""
  plain : ∀ name ∈ decl.name :: decl.subtypes, Key.Plain name
  fits : (decl.isBoolean = true ∧ ∃ b, decl.default = .bool b) ∨
    (decl.isBoolean = false ∧ ∃ low n high, decl.min = some low ∧ decl.default = .int n ∧
      decl.max = some high ∧ low ≤ n ∧ n ≤ high)

variable {decl : CategoryDecl} {d : Category}

/-- Truth values need a truth value as the default. -/
theorem CategoryKind.ofDecl_eq_boolean {b : Bool} :
    CategoryKind.ofDecl decl = .ok (.boolean b) ↔ decl.isBoolean = true ∧ decl.default = .bool b := by
  obtain ⟨name, subtypes, isBoolean, low, high, default⟩ := decl
  unfold CategoryKind.ofDecl
  cases isBoolean with
  | true => cases default <;> simp
  | false => grind

/-- **The checks ask for no more and no less** than the kinds and the bounds that a declaration must
have. -/
theorem exists_kind_iff : (∃ kind, CategoryKind.ofDecl decl = .ok kind) ↔
    (decl.isBoolean = true ∧ ∃ b, decl.default = .bool b) ∨
    (decl.isBoolean = false ∧ ∃ low n high, decl.min = some low ∧ decl.default = .int n ∧
      decl.max = some high ∧ low ≤ n ∧ n ≤ high) := by
  constructor
  · rintro ⟨kind, hkind⟩
    cases kind with
    | boolean b =>
      obtain ⟨hboolean, hdefault⟩ := CategoryKind.ofDecl_eq_boolean.mp hkind
      exact .inl ⟨hboolean, b, hdefault⟩
    | numeric range n =>
      obtain ⟨hboolean, hdefault, hmin, hmax, _, hin⟩ := CategoryKind.ofDecl_eq_numeric.mp hkind
      exact .inr ⟨hboolean, range.min, n, range.max, hmin, hdefault, hmax, Shift.contains_iff.mp hin⟩
  · rintro (⟨hboolean, b, hdefault⟩ | ⟨hboolean, low, n, high, hmin, hdefault, hmax, hlow, hhigh⟩)
    · exact ⟨.boolean b, CategoryKind.ofDecl_eq_boolean.mpr ⟨hboolean, hdefault⟩⟩
    · refine ⟨.numeric ⟨low, high⟩ n,
        CategoryKind.ofDecl_eq_numeric.mpr ⟨hboolean, hdefault, hmin, hmax, ?_, ?_⟩⟩
      · exact Int64.not_lt.mpr (Int64.le_trans hlow hhigh)
      · exact Shift.contains_iff.mpr ⟨hlow, hhigh⟩

theorem exists_ofDecl_iff : (∃ d, Category.ofDecl decl = .ok d) ↔ decl.Admissible := by
  constructor
  · rintro ⟨d, hd⟩
    obtain ⟨hnamed, hname, hsubtypes, kind, hkind, _⟩ := Category.ofDecl_eq_ok.mp hd
    refine ⟨hnamed, ?_, exists_kind_iff.mp ⟨kind, hkind⟩⟩
    rw [List.forall_mem_cons]
    exact ⟨Key.checkName_eq_ok.mp hname,
      fun subtype hmem => Key.checkName_eq_ok.mp (hsubtypes subtype hmem)⟩
  · rintro ⟨hnamed, hplain, hfits⟩
    obtain ⟨hname, hsubtypes⟩ := List.forall_mem_cons.mp hplain
    obtain ⟨kind, hkind⟩ := exists_kind_iff.mpr hfits
    exact ⟨_, Category.ofDecl_eq_ok.mpr ⟨hnamed, Key.checkName_eq_ok.mpr hname,
      fun subtype hmem => Key.checkName_eq_ok.mpr (hsubtypes subtype hmem), kind, hkind, rfl⟩⟩

namespace Registry

variable {r r' : Registry} {name : String} {subtypes : List String}

/-- **A category is added exactly if its name is new and its declaration admissible.** -/
theorem exists_addCategory_iff :
    (∃ r', r.addCategory decl = .ok r') ↔ r.category? decl.name = none ∧ decl.Admissible := by
  rw [← exists_ofDecl_iff]
  constructor
  · rintro ⟨r', h⟩
    obtain ⟨d, hd, _, hnew, _⟩ := addCategory_eq_ok h
    exact ⟨hnew, d, hd⟩
  · rintro ⟨hnew, d, hd⟩
    unfold addCategory
    exact ⟨_, guard_eq_ok.mpr ⟨Option.not_isSome_iff_eq_none.mpr hnew, bind_eq_ok.mpr ⟨d, hd, rfl⟩⟩⟩

/-- Subtypes are added exactly if there is the category and all of them are plain. -/
theorem exists_addSubtypes_iff : (∃ r', r.addSubtypes name subtypes = .ok r') ↔
    (r.category? name).isSome = true ∧ ∀ subtype ∈ subtypes, Key.Plain subtype := by
  constructor
  · rintro ⟨r', h⟩
    obtain ⟨d, hd, hchecked, _⟩ := addSubtypes_eq_ok h
    exact ⟨by rw [hd]; rfl, fun subtype hmem => Key.checkName_eq_ok.mp (hchecked subtype hmem)⟩
  · rintro ⟨hsome, hplain⟩
    obtain ⟨d, hd⟩ := Option.isSome_iff_exists.mp hsome
    have hchecked : subtypes.forM Key.checkName = .ok () :=
      forM_eq_ok.mpr fun subtype hmem => Key.checkName_eq_ok.mpr (hplain subtype hmem)
    unfold addSubtypes
    rw [hd]
    exact ⟨_, bind_eq_ok.mpr ⟨(), hchecked, rfl⟩⟩

end Registry

/-! ## Well-formed registries -/

/-- A category is **sound** if it has a name and, where it holds integers, its default lies in its
range. -/
structure Category.Sound (d : Category) : Prop where
  named : d.name ≠ ""
  bounded : ∀ range n, d.kind = .numeric range n → range.min ≤ n ∧ n ≤ range.max

theorem sound_of_ofDecl (hd : Category.ofDecl decl = .ok d) : d.Sound := by
  obtain ⟨hnamed, _, _, kind, hkind, rfl⟩ := Category.ofDecl_eq_ok.mp hd
  refine ⟨hnamed, fun range n heq => ?_⟩
  cases heq
  obtain ⟨_, _, _, _, _, hin⟩ := CategoryKind.ofDecl_eq_numeric.mp hkind
  exact Shift.contains_iff.mp hin

/-- Whether a category is sound has nothing to do with its subtypes. -/
theorem Category.Sound.withSubtypes (h : d.Sound) (subtypes : SortedSet String) :
    Category.Sound { d with subtypes := subtypes } :=
  ⟨h.named, h.bounded⟩

namespace Registry

variable {r r' : Registry} {name : String} {subtypes : List String}

/-- A registry is **well-formed** if every category is found by its own name, all names are plain,
and every category is sound. -/
structure WellFormed (r : Registry) : Prop where
  keyed : r.Keyed
  plain : r.Plain
  sound : ∀ name d, r.category? name = some d → d.Sound

theorem wellFormed_empty : WellFormed empty := ⟨keyed_empty, plain_empty, fun _ _ h => nomatch h⟩

theorem sound_insert (hr : r.WellFormed) (hd : d.Sound) (name' : String) (d' : Category)
    (h : category? ⟨r.categories.insert name d⟩ name' = some d') : d'.Sound := by
  rw [category?_insert] at h
  by_cases hn : name' = name
  · rw [if_pos hn] at h
    cases h
    exact hd
  · rw [if_neg hn] at h
    exact hr.sound name' d' h

theorem WellFormed.addCategory (hr : r.WellFormed) (h : r.addCategory decl = .ok r') :
    r'.WellFormed := by
  refine ⟨keyed_addCategory hr.keyed h, hr.plain.addCategory h, ?_⟩
  obtain ⟨d, hd, _, _, rfl⟩ := addCategory_eq_ok h
  exact sound_insert hr (sound_of_ofDecl hd)

theorem WellFormed.addSubtypes (hr : r.WellFormed) (h : r.addSubtypes name subtypes = .ok r') :
    r'.WellFormed := by
  refine ⟨keyed_addSubtypes hr.keyed h, hr.plain.addSubtypes h, ?_⟩
  obtain ⟨d, hd, _, rfl⟩ := addSubtypes_eq_ok h
  exact sound_insert hr ((hr.sound name d hd).withSubtypes _)

theorem WellFormed.removeCategory (hr : r.WellFormed) (removed : String) :
    (r.removeCategory removed).WellFormed := by
  refine ⟨keyed_removeCategory hr.keyed removed, hr.plain.removeCategory removed, fun name d h => ?_⟩
  rw [category?_removeCategory] at h
  by_cases hn : name = removed
  · rw [if_pos hn] at h
    cases h
  · rw [if_neg hn] at h
    exact hr.sound name d h

theorem WellFormed.removeSubtype (hr : r.WellFormed) (removed gone : String) :
    (r.removeSubtype removed gone).WellFormed := by
  refine ⟨keyed_removeSubtype hr.keyed removed gone, hr.plain.removeSubtype removed gone,
    fun name d h => ?_⟩
  rw [category?_removeSubtype] at h
  by_cases hn : name = removed
  · rw [if_pos hn] at h
    obtain ⟨d₀, hd₀, rfl⟩ := Option.map_eq_some_iff.mp h
    exact (hr.sound removed d₀ hd₀).withSubtypes _
  · rw [if_neg hn] at h
    exact hr.sound name d h

/-! ## Growing -/

/-- A registry **keeps** what is in another if every category of that is in it too, under its name,
with the same kind and all its subtypes. -/
def Keeps (r r' : Registry) : Prop :=
  ∀ name d, r.category? name = some d → ∃ d', r'.category? name = some d' ∧ d'.name = d.name ∧
    d'.kind = d.kind ∧
    ∀ subtype, d.hasSubtype subtype = true → d'.hasSubtype subtype = true

theorem keeps_refl (r : Registry) : Keeps r r := fun _ d h => ⟨d, h, rfl, rfl, fun _ hs => hs⟩

theorem Keeps.trans {r₁ r₂ r₃ : Registry} (h : Keeps r₁ r₂) (h' : Keeps r₂ r₃) : Keeps r₁ r₃ := by
  intro name d hd
  obtain ⟨d₂, hd₂, hname, hkind, hsubtypes⟩ := h name d hd
  obtain ⟨d₃, hd₃, hname', hkind', hsubtypes'⟩ := h' name d₂ hd₂
  exact ⟨d₃, hd₃, hname'.trans hname, hkind'.trans hkind,
    fun subtype hs => hsubtypes' subtype (hsubtypes subtype hs)⟩

theorem keeps_addCategory (h : r.addCategory decl = .ok r') : Keeps r r' := by
  obtain ⟨d, _, _, hnew, rfl⟩ := addCategory_eq_ok h
  intro name d' hd'
  refine ⟨d', ?_, rfl, rfl, fun _ hs => hs⟩
  rw [category?_insert, if_neg]
  · exact hd'
  · rintro rfl
    rw [hnew] at hd'
    cases hd'

theorem keeps_addSubtypes (h : r.addSubtypes name subtypes = .ok r') : Keeps r r' := by
  obtain ⟨d, hd, _, rfl⟩ := addSubtypes_eq_ok h
  intro name' d' hd'
  by_cases hn : name' = name
  · subst hn
    rw [hd] at hd'
    cases hd'
    exact ⟨{ d with subtypes := d.subtypes.addAll subtypes },
      by rw [category?_insert, if_pos rfl], rfl, rfl, fun _ => contains_addAll⟩
  · exact ⟨d', by rw [category?_insert, if_neg hn]; exact hd', rfl, rfl, fun _ hs => hs⟩

end Registry

/-! ## Loading -/

namespace Story

variable {s : Story}

/-- **Loading a category changes a registry in one of the two ways, or not at all.** -/
theorem registry_loadCategory (decl : CategoryDecl) (s : Story) :
    (loadCategory decl s).state.registry = s.registry ∨
    s.registry.addCategory decl = .ok (loadCategory decl s).state.registry ∨
    ∃ name subtypes, s.registry.addSubtypes name subtypes =
      .ok (loadCategory decl s).state.registry := by
  unfold loadCategory
  by_cases hnew : (s.registry.category? decl.name).isNone = true
  · simp only [hnew, if_true]
    cases h : s.registry.addCategory decl with
    | error e => exact .inl rfl
    | ok r' => exact .inr (.inl rfl)
  · simp only [hnew, Bool.false_eq_true, if_false]
    cases Category.ofDecl decl with
    | error e => exact .inl rfl
    | ok d =>
      -- what is added are the subtypes of the category that is declared
      rw [show (Except.ok d >>= fun d => s.registry.addSubtypes d.name d.subtypes.keys) =
        s.registry.addSubtypes d.name d.subtypes.keys from rfl]
      cases h : s.registry.addSubtypes d.name d.subtypes.keys with
      | error e => exact .inl rfl
      | ok r' => exact .inr (.inr ⟨d.name, d.subtypes.keys, h⟩)

theorem wellFormed_loadCategory (hs : s.registry.WellFormed) (decl : CategoryDecl) :
    (loadCategory decl s).state.registry.WellFormed := by
  rcases registry_loadCategory decl s with hsame | hnew | ⟨_, _, hgrown⟩
  · exact hsame ▸ hs
  · exact hs.addCategory hnew
  · exact hs.addSubtypes hgrown

theorem keeps_loadCategory (decl : CategoryDecl) (s : Story) :
    s.registry.Keeps (loadCategory decl s).state.registry := by
  rcases registry_loadCategory decl s with hsame | hnew | ⟨_, _, hgrown⟩
  · exact hsame ▸ Registry.keeps_refl s.registry
  · exact Registry.keeps_addCategory hnew
  · exact Registry.keeps_addSubtypes hgrown

theorem wellFormed_loadCategories (hs : s.registry.WellFormed) (ds : List CategoryDecl) :
    (s.loadCategories ds).state.registry.WellFormed :=
  forEach_keeps (P := fun s : Story => s.registry.WellFormed)
    (fun decl _ _ hs => wellFormed_loadCategory hs decl) hs

/-- However far loading gets, it keeps what is registered. -/
theorem keeps_loadCategories (s : Story) (ds : List CategoryDecl) :
    s.registry.Keeps (s.loadCategories ds).state.registry :=
  forEach_keeps (P := fun s' : Story => s.registry.Keeps s'.registry)
    (fun decl _ s' hs => hs.trans (keeps_loadCategory decl s')) (Registry.keeps_refl s.registry)

end Story

/-! ## Calls -/

namespace Registry

/-- What changes a registry: the four calls of its own, and loading categories into a story that has
it. -/
inductive Call where
  | addCategory (decl : CategoryDecl)
  | addSubtypes (name : String) (subtypes : List String)
  | removeCategory (name : String)
  | removeSubtype (name subtype : String)
  | load (s : Story) (ds : List CategoryDecl)

/-- The registry after a call, whether the call succeeded or not. -/
def Call.after (r : Registry) : Call → Registry
  | addCategory decl => (Attempt.ofExcept r (r.addCategory decl)).state
  | addSubtypes name subtypes => (Attempt.ofExcept r (r.addSubtypes name subtypes)).state
  | removeCategory name => r.removeCategory name
  | removeSubtype name subtype => r.removeSubtype name subtype
  | load s ds => (Story.loadCategories { s with registry := r } ds).state.registry

/-- A registry is **maintained** if it comes about by calls alone. -/
inductive Maintained : Registry → Prop
  | empty : Maintained empty
  | call {r : Registry} (h : Maintained r) (c : Call) : Maintained (c.after r)

variable {r r' : Registry} {name : String} {subtypes : List String}

theorem WellFormed.ofExcept {x : Except AuthoringError Registry} (hr : r.WellFormed)
    (hx : ∀ r', x = .ok r' → r'.WellFormed) :
    (Attempt.ofExcept r x).state.WellFormed := by
  cases x with
  | error e => exact hr
  | ok r' => exact hx r' rfl

/-- The step lemma: no call leads out of the well-formed registries. -/
theorem WellFormed.after (hr : r.WellFormed) (c : Call) : (c.after r).WellFormed := by
  cases c with
  | addCategory decl => exact hr.ofExcept fun _ h => hr.addCategory h
  | addSubtypes name subtypes => exact hr.ofExcept fun _ h => hr.addSubtypes h
  | removeCategory name => exact hr.removeCategory name
  | removeSubtype name subtype => exact hr.removeSubtype name subtype
  | load s ds => exact Story.wellFormed_loadCategories (s := { s with registry := r }) hr ds

theorem Maintained.wellFormed (h : Maintained r) : r.WellFormed := by
  induction h with
  | empty => exact wellFormed_empty
  | call _ c ih => exact ih.after c

theorem Maintained.calls (h : Maintained r) (cs : List Call) :
    Maintained (cs.foldl (fun r c => c.after r) r) := by
  induction cs generalizing r with
  | nil => exact h
  | cons c cs ih => exact ih (h.call c)

/-! ## The main result -/

/-- A registry that comes about by calls, in any order and whether they succeed or fail, **is in
order**: a category stands under its own name, which is not empty, no name holds the separator, and
a default lies in its range. To such a registry

- a category is added exactly if its name is new and its declaration admissible,
- nothing is added by a call that fails, and subtypes are added all or none of them,
- loading adds, but never changes the kind of a category, its range or its default, and never takes
  a subtype away.
-/
theorem maintained_by_checks (h : Maintained r) :
    (∀ name d, r.category? name = some d → d.name = name ∧ name ≠ "" ∧ Key.Plain name ∧
      (∀ subtype, d.hasSubtype subtype = true → Key.Plain subtype) ∧
      ∀ range n, d.kind = .numeric range n → range.min ≤ n ∧ n ≤ range.max) ∧
    (∀ decl, (∃ r', r.addCategory decl = .ok r') ↔ r.category? decl.name = none ∧ decl.Admissible) ∧
    (∀ decl e, r.addCategory decl = .error e → (Call.addCategory decl).after r = r) ∧
    (∀ name subtypes, (∃ r', r.addSubtypes name subtypes = .ok r') ↔
      (r.category? name).isSome = true ∧ ∀ subtype ∈ subtypes, Key.Plain subtype) ∧
    (∀ name subtypes e, r.addSubtypes name subtypes = .error e →
      (Call.addSubtypes name subtypes).after r = r) ∧
    ∀ s ds, Keeps r ((Call.load s ds).after r) := by
  have hr : r.WellFormed := h.wellFormed
  refine ⟨fun name d hd => ?_, fun _ => exists_addCategory_iff, fun decl e he => ?_,
    fun _ _ => exists_addSubtypes_iff, fun name subtypes e he => ?_,
    fun s ds => Story.keeps_loadCategories { s with registry := r } ds⟩
  · obtain ⟨hname, hsubtypes⟩ := hr.plain name d hd
    have hkey : d.name = name := hr.keyed name d hd
    exact ⟨hkey, hkey ▸ (hr.sound name d hd).named, hname, hsubtypes, (hr.sound name d hd).bounded⟩
  · show (Attempt.ofExcept r (r.addCategory decl)).state = r
    rw [he]
    rfl
  · show (Attempt.ofExcept r (r.addSubtypes name subtypes)).state = r
    rw [he]
    rfl

/-- Moods, of which the last two are not added because the separator is in one of them. -/
def tempers : Registry :=
  [Call.addCategory (.numeric "Mood" ["happy"] 0 10 5), .addSubtypes "Mood" ["calm"],
    .addSubtypes "Mood" ["proud", "grim:dark"]].foldl (fun r c => c.after r) empty

/-- Moods that are loaded once more, with another range, before something that cannot be loaded. -/
def reloading : Call :=
  .load (Story.start .default (.listed [])) [.numeric "Mood" ["grim"] 0 3 1, .boolean "" [] true]

/-- What was loaded before the failure is there, next to what was there already; the range is the
old one. -/
theorem maintained_by_checks_tempers : Maintained tempers ∧
    tempers.contains "Mood" "calm" = true ∧ tempers.contains "Mood" "proud" = false ∧
    (∃ r', tempers.addCategory (.numeric "Trust" ["deep"] 0 10 10) = .ok r') ∧
    (¬∃ r', tempers.addCategory (.numeric "Trust" ["deep"] 0 10 11) = .ok r') ∧
    (reloading.after tempers).contains "Mood" "grim" = true ∧
    ∃ d, (reloading.after tempers).category? "Mood" = some d ∧ d.kind = .numeric ⟨0, 10⟩ 5 ∧
      d.hasSubtype "calm" = true := by
  have htempers : Maintained tempers := Maintained.empty.calls _
  obtain ⟨_, hadd, _, _, _, hload⟩ := maintained_by_checks htempers
  obtain ⟨d, hd, _, hkind, hsubtypes⟩ := hload (Story.start .default (.listed []))
    [.numeric "Mood" ["grim"] 0 3 1, .boolean "" [] true] "Mood" ⟨"Mood", .ofList ["happy", "calm"],
      .numeric ⟨0, 10⟩ 5⟩ rfl
  refine ⟨htempers, rfl, rfl, (hadd _).mpr ⟨rfl, by decide, ?_, ?_⟩, fun h => ?_, rfl, d, hd, hkind,
    hsubtypes "calm" rfl⟩
  · unfold Key.Plain
    decide
  · exact .inr ⟨rfl, 0, 10, 10, rfl, rfl, rfl, by decide, by decide⟩
  · rcases ((hadd _).mp h).2.fits with ⟨hboolean, _⟩ | ⟨_, low, n, high, _, hdefault, hmax, _, hhigh⟩
    · cases hboolean
    · cases hdefault
      cases hmax
      exact absurd hhigh (by decide)

end Registry
end Narrative
