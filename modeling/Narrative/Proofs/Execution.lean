import Narrative.Proofs.Agreement

/-!
# `Proofs.Execution` — a path is taken as a whole or not at all

Taking a path first looks every action up and checks every effect, and only then changes anything. The
checks read the registry, the changes read the sheets, and an earlier effect may have changed what a
later one finds. Where the sheets fit the registry the checks are enough: after them nothing can fail, so
a path that is refused has changed nothing.

## Contents
- **Effects of a path.** `effectsOf?_ok_iff`, `mem_effectsOf?`, `effectsOf?_append`.
- **Checks.** `checkedEffects?_eq_ok`, what they depend on (`checkedEffects?_congr`), and the
  reasons why they fail.
- **Taking a path.** `execute_of_checked` and the main result `execute_all_or_nothing`.
-/

namespace Narrative
namespace Story
open Outcome

variable {s : Story} {c : Character} {name : String} {path : List Uid} {es : List Effect}

/-! ## Effects of a path -/

theorem effectsOf?_cons {uid : Uid} {a : Action} (ha : c.plot.action? uid = some a) (name : String)
    (path : List Uid) :
    effectsOf? c name (uid :: path) = (effectsOf? c name path).map (a.effects ++ ·) := by
  rw [effectsOf?, ha]
  cases effectsOf? c name path <;> rfl

/-- The effects of a path can be listed exactly when all its actions are mapped. -/
theorem effectsOf?_ok_iff :
    (∃ es, effectsOf? c name path = .ok es) ↔ ∀ uid ∈ path, ∃ a, c.plot.action? uid = some a := by
  induction path with
  | nil => exact ⟨fun _ uid huid => absurd huid List.not_mem_nil, fun _ => ⟨[], rfl⟩⟩
  | cons uid path ih =>
    rw [List.forall_mem_cons, ← ih]
    cases ha : c.plot.action? uid with
    | none =>
      rw [effectsOf?, ha]
      exact ⟨fun ⟨_, h⟩ => (nomatch h), fun ⟨⟨_, h⟩, _⟩ => (nomatch h)⟩
    | some a =>
      rw [effectsOf?_cons ha]
      constructor
      · rintro ⟨es, hes⟩
        obtain ⟨rest, hrest, _⟩ := map_eq_ok.mp hes
        exact ⟨⟨a, rfl⟩, rest, hrest⟩
      · rintro ⟨_, rest, hrest⟩
        exact ⟨_, map_eq_ok.mpr ⟨rest, hrest, rfl⟩⟩

/-- They are the effects of its actions. -/
theorem mem_effectsOf? (h : effectsOf? c name path = .ok es) {e : Effect} :
    e ∈ es ↔ ∃ uid ∈ path, ∃ a, c.plot.action? uid = some a ∧ e ∈ a.effects := by
  induction path generalizing es with
  | nil =>
    cases h
    exact ⟨fun h => absurd h List.not_mem_nil, fun ⟨_, h, _⟩ => absurd h List.not_mem_nil⟩
  | cons uid path ih =>
    obtain ⟨a, ha⟩ := effectsOf?_ok_iff.mp ⟨es, h⟩ uid List.mem_cons_self
    rw [effectsOf?_cons ha] at h
    obtain ⟨rest, hrest, rfl⟩ := map_eq_ok.mp h
    rw [List.mem_append, ih hrest]
    constructor
    · rintro (he | ⟨uid', huid', h⟩)
      · exact ⟨uid, List.mem_cons_self, a, ha, he⟩
      · exact ⟨uid', List.mem_cons_of_mem _ huid', h⟩
    · rintro ⟨uid', huid', a', ha', he⟩
      rcases List.mem_cons.mp huid' with rfl | huid'
      · rw [ha] at ha'
        cases ha'
        exact Or.inl he
      · exact Or.inr ⟨uid', huid', a', ha', he⟩

/-- A path that goes on to one more action has the effects of that action after its own. -/
theorem effectsOf?_append {uid : Uid} {a : Action} (h : effectsOf? c name path = .ok es)
    (ha : c.plot.action? uid = some a) : effectsOf? c name (path ++ [uid]) = .ok (es ++ a.effects) := by
  induction path generalizing es with
  | nil =>
    cases h
    rw [List.nil_append, effectsOf?_cons ha]
    exact congrArg Except.ok (List.append_nil _)
  | cons uid' path ih =>
    obtain ⟨a', ha'⟩ := effectsOf?_ok_iff.mp ⟨es, h⟩ uid' List.mem_cons_self
    rw [effectsOf?_cons ha'] at h
    obtain ⟨rest, hrest, rfl⟩ := map_eq_ok.mp h
    rw [List.cons_append, effectsOf?_cons ha', ih hrest]
    exact congrArg Except.ok (List.append_assoc _ _ _).symm

/-- They depend on the plot only. -/
theorem effectsOf?_congr {c' : Character} (h : c'.plot = c.plot) (name : String) (path : List Uid) :
    effectsOf? c' name path = effectsOf? c name path := by
  induction path with
  | nil => rfl
  | cons uid path ih => rw [effectsOf?, effectsOf?, h, ih]

/-! ## Checks -/

theorem checkEffect_eq_ok {e : Effect} :
    s.checkEffect e = .ok () ↔
      s.registry.checkEffect e = .ok () ∧ s.cast.contains e.character = true := by
  unfold checkEffect
  rw [bind_eq_ok]
  cases hc : s.cast.contains e.character with
  | false => exact ⟨fun ⟨_, _, h⟩ => (nomatch h), fun h => (nomatch h.2)⟩
  | true => exact ⟨fun ⟨_, h, _⟩ => ⟨h, rfl⟩, fun h => ⟨(), h.1, rfl⟩⟩

theorem character?_eq_ok : s.character? name = .ok c ↔ s.cast.get? name = some c := by
  unfold character?
  cases s.cast.get? name with
  | none => exact ⟨fun h => (nomatch h), fun h => (nomatch h)⟩
  | some c' =>
    exact ⟨fun h => congrArg some (Except.ok.inj h), fun h => congrArg Except.ok (Option.some.inj h)⟩

/-- A path passes the checks if its actions can be looked up and each of their effects passes and has
its character in the cast. -/
theorem checkedEffects?_eq_ok :
    s.checkedEffects? name path = .ok es ↔
      ∃ c, s.cast.get? name = some c ∧ effectsOf? c name path = .ok es ∧
        ∀ e ∈ es, s.registry.checkEffect e = .ok () ∧ s.cast.contains e.character = true := by
  unfold checkedEffects?
  rw [bind_eq_ok]
  refine exists_congr fun c => and_congr character?_eq_ok ?_
  rw [bind_eq_ok]
  constructor
  · rintro ⟨es', hes, h⟩
    obtain ⟨_, hchecks, h⟩ := bind_eq_ok.mp h
    cases h
    exact ⟨hes, fun e he => checkEffect_eq_ok.mp (forM_eq_ok.mp (mapError_eq_ok.mp hchecks) e he)⟩
  · rintro ⟨hes, hchecks⟩
    refine ⟨es, hes, bind_eq_ok.mpr ⟨(), mapError_eq_ok.mpr (forM_eq_ok.mpr fun e he => ?_), rfl⟩⟩
    exact checkEffect_eq_ok.mpr (hchecks e he)

/-- The checks look at the registry, the names and the plots, and at no sheet or memory. -/
theorem checkedEffects?_congr {s' : Story} (hregistry : s'.registry = s.registry)
    (hplots : ∀ name, (s'.cast.get? name).map (·.plot) = (s.cast.get? name).map (·.plot)) (name : String)
    (path : List Uid) : s'.checkedEffects? name path = s.checkedEffects? name path := by
  have hcheck : s'.checkEffect = s.checkEffect := by
    funext e
    have hcontains : s'.cast.contains e.character = s.cast.contains e.character := by
      have hsome := congrArg Option.isSome (hplots e.character)
      rw [Option.isSome_map, Option.isSome_map] at hsome
      exact hsome
    unfold checkEffect
    rw [hregistry, hcontains]
  have hplot := hplots name
  unfold checkedEffects? character?
  cases hc : s.cast.get? name with
  | none =>
    rw [hc, Option.map_none, Option.map_eq_none_iff] at hplot
    rw [hplot]
    rfl
  | some c =>
    rw [hc, Option.map_some] at hplot
    obtain ⟨c', hc', hsame⟩ := Option.map_eq_some_iff.mp hplot
    rw [hc', hcheck]
    show Except.bind (effectsOf? c' name path) _ = Except.bind (effectsOf? c name path) _
    rw [effectsOf?_congr hsame]

/-- A path passes the checks exactly when everything on it is known and allowed. -/
theorem checkedEffects?_ok_iff :
    (∃ es, s.checkedEffects? name path = .ok es) ↔ ∃ c, s.cast.get? name = some c ∧ ∀ uid ∈ path,
      ∃ a, c.plot.action? uid = some a ∧
        ∀ e ∈ a.effects, s.registry.checkEffect e = .ok () ∧ s.cast.contains e.character = true := by
  constructor
  · rintro ⟨es, h⟩
    obtain ⟨c, hc, hes, hchecks⟩ := checkedEffects?_eq_ok.mp h
    refine ⟨c, hc, fun uid huid => ?_⟩
    obtain ⟨a, ha⟩ := effectsOf?_ok_iff.mp ⟨es, hes⟩ uid huid
    exact ⟨a, ha, fun e he => hchecks e ((mem_effectsOf? hes).mpr ⟨uid, huid, a, ha, he⟩)⟩
  · rintro ⟨c, hc, h⟩
    obtain ⟨es, hes⟩ := effectsOf?_ok_iff.mpr fun uid huid => ⟨_, (h uid huid).choose_spec.1⟩
    refine ⟨es, checkedEffects?_eq_ok.mpr ⟨c, hc, hes, fun e he => ?_⟩⟩
    obtain ⟨uid, huid, a, ha, he⟩ := (mem_effectsOf? hes).mp he
    obtain ⟨a', ha', hall⟩ := h uid huid
    rw [ha] at ha'
    cases ha'
    exact hall e he

/-- The checks fail exactly when the character is unknown, or an action is, or an effect is not allowed
or about an unknown character. -/
theorem checkedEffects?_error_iff :
    (∃ e, s.checkedEffects? name path = .error e) ↔
      s.cast.get? name = none ∨ ∃ c, s.cast.get? name = some c ∧ ∃ uid ∈ path,
        c.plot.action? uid = none ∨ ∃ a, c.plot.action? uid = some a ∧
          ∃ e ∈ a.effects, (∃ cause, s.registry.checkEffect e = .error cause) ∨
            s.cast.get? e.character = none := by
  -- the single check of an effect, turned round
  have heffect : ∀ e : Effect,
      ¬(s.registry.checkEffect e = .ok () ∧ s.cast.contains e.character = true) ↔
        (∃ cause, s.registry.checkEffect e = .error cause) ∨ s.cast.get? e.character = none := by
    intro e
    rw [Classical.not_and_iff_not_or_not, error_iff, Cast.contains_iff]
    refine or_congr (not_congr ⟨fun h => ⟨(), h⟩, fun ⟨_, h⟩ => h⟩) ?_
    cases s.cast.get? e.character <;> simp
  rw [error_iff, checkedEffects?_ok_iff, not_some_and_iff]
  refine or_congr_right (exists_congr fun c => and_congr_right fun _ => ?_)
  simp only [Classical.not_forall, exists_prop, not_some_and_iff, heffect]

/-! ## Taking a path -/

/-- A path that passes the checks, of a story whose sheets fit the registry, can be carried out to its
end. -/
theorem recordAll_of_checked (hs : World.Fits s.registry s.cast)
    (h : s.checkedEffects? name path = .ok es) (m : Memory) :
    ∃ m' cast, s.registry.recordAll es m s.cast = .ok m' cast := by
  obtain ⟨_, _, _, hchecks⟩ := checkedEffects?_eq_ok.mp h
  obtain ⟨m', hm'⟩ := (Registry.recordAll_ok_iff hs (m := m)).mpr fun e he =>
    ⟨(hchecks e he).1, by rw [isSome_sheet?_cast]; exact (hchecks e he).2⟩
  refine ⟨m', (s.registry.recordAll es m s.cast).state, ?_⟩
  rw [Attempt.ok, ← hm']

/-- What is left of a path that passes the checks: the effects on the cast, and the memory. -/
theorem execute_of_checked (h : s.checkedEffects? name path = .ok es) (hpath : path ≠ [])
    {m : Memory} {cast : Cast} (hrun : s.registry.recordAll es (.new path) s.cast = .ok m cast) :
    s.execute name path =
      .ok () { s with cast := cast.update name fun c => { c with memory := c.memory.add m } } := by
  unfold execute
  rw [h]
  show (if path.isEmpty = true then _ else _ : Attempt Story StoryError Unit) = _
  rw [if_neg fun hempty => hpath (List.isEmpty_iff.mp hempty), hrun]
  rfl

theorem execute_of_unchecked {e : StoryError} (h : s.checkedEffects? name path = .error e) :
    s.execute name path = .error e s := by
  unfold execute; rw [h]

/-- A path that passes the checks is taken. -/
theorem execute_succeeds (hs : World.Fits s.registry s.cast) (h : s.checkedEffects? name path = .ok es) :
    (s.execute name path).result = .ok () := by
  by_cases hpath : path = []
  · subst hpath
    unfold execute
    rw [h]; rfl
  · obtain ⟨m, cast, hrun⟩ := recordAll_of_checked hs h (.new path)
    rw [execute_of_checked h hpath hrun]
    rfl

/-- What taking a path comes to is decided by the checks. -/
theorem result_execute (hs : World.Fits s.registry s.cast) (name : String) (path : List Uid) :
    (s.execute name path).result = (s.checkedEffects? name path).map fun _ => () := by
  cases hes : s.checkedEffects? name path with
  | error e =>
    rw [execute_of_unchecked hes]
    rfl
  | ok es => exact execute_succeeds hs hes

/-- **A path is taken as a whole or not at all.** Let the sheets of a story fit the registry, and let its
plots hold any conditions. A path that is refused leaves the story as it was. It is refused exactly if
the character is unknown, or a uid on it is not mapped, or an effect on it fails the check or is about
an unknown character. Once the effects have been checked, carrying them out cannot fail. -/
theorem execute_all_or_nothing (hs : ∀ name c, s.cast.get? name = some c → c.sheet.Fits s.registry)
    (name : String) (path : List Uid) :
    (∀ e, (s.execute name path).result = .error e → (s.execute name path).state = s) ∧
    ((∃ e, (s.execute name path).result = .error e) ↔
      s.cast.get? name = none ∨ ∃ c, s.cast.get? name = some c ∧ ∃ uid ∈ path,
        c.plot.action? uid = none ∨ ∃ a, c.plot.action? uid = some a ∧
          ∃ e ∈ a.effects, (∃ cause, s.registry.checkEffect e = .error cause) ∨
            s.cast.get? e.character = none) ∧
    (∀ es, s.checkedEffects? name path = .ok es →
      ∃ m, (s.registry.recordAll es (.new path) s.cast).result = .ok m) := by
  have hfits : World.Fits s.registry s.cast := fits_cast hs
  refine ⟨?_, ?_, ?_⟩
  · -- a refused path has failed its checks, for after them it would have been taken
    intro e he
    cases hes : s.checkedEffects? name path with
    | error e' => rw [execute_of_unchecked hes]; rfl
    | ok es => rw [execute_succeeds hfits hes] at he; cases he
  · rw [← checkedEffects?_error_iff]
    cases hes : s.checkedEffects? name path with
    | error e => exact ⟨fun _ => ⟨e, rfl⟩, fun _ => ⟨e, by rw [execute_of_unchecked hes]; rfl⟩⟩
    | ok es =>
      rw [execute_succeeds hfits hes]
      exact ⟨fun ⟨_, h⟩ => (nomatch h), fun ⟨_, h⟩ => (nomatch h)⟩
  · intro es hes
    obtain ⟨m, cast, hrun⟩ := recordAll_of_checked hfits hes (.new path)
    exact ⟨m, by rw [hrun]; rfl⟩

/-- An author wrote an action whose first effect is fine and whose second names no subtype that
there is. -/
def halfWritten : Story :=
  [Operation.loadCategories [.numeric "Mood" ["happy"] 0 10 5], .loadCharacters ["Bob"],
    .loadActions "Bob" [{ ActionDecl.new 1 "Greet" with
      first := true
      effects :=
        [⟨⟨"Bob", "Mood", "happy"⟩, .add, .int 2⟩, ⟨⟨"Bob", "Mood", "sad"⟩, .subtract, .int 1⟩] }]].foldl
    (fun s op => op.after s) (start .default (.listed []))

/-- Taking that action is refused, and its first effect has not been carried out either. -/
theorem execute_all_or_nothing_half_written :
    (∃ e, (halfWritten.execute "Bob" [1]).result = .error e) ∧
    (halfWritten.execute "Bob" [1]).state = halfWritten := by
  have hsound : halfWritten.Sound := (reachable_calls (reachable_start_default _) _).sound
  obtain ⟨hstate, hrefused, _⟩ :=
    execute_all_or_nothing (fun _ _ hc => (hsound.sheets hc).fits) "Bob" [1]
  have herror : ∃ e, (halfWritten.execute "Bob" [1]).result = .error e := by
    refine hrefused.mpr (Or.inr ⟨_, rfl, 1, List.mem_singleton_self 1, Or.inr ⟨_, rfl, ?_⟩⟩)
    exact ⟨⟨⟨"Bob", "Mood", "sad"⟩, .subtract, .int 1⟩,
      by decide, Or.inl ⟨.unknownSubtype "Mood" "sad", rfl⟩⟩
  obtain ⟨e, he⟩ := herror
  exact ⟨⟨e, he⟩, hstate e he⟩

end Story
end Narrative
