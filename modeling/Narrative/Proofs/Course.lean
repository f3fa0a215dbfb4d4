import Mathlib.Data.List.Induction
import Mathlib.Logic.Function.Basic
import Narrative.Proofs.Execution
import Narrative.Proofs.Recording

/-!
# `Proofs.Course` — a path does what it says and nothing else

What a path does can be told without sheets, rows and casts. All that counts is which characteristic
**stands** at which target. Effect by effect, the characteristic of one target is changed, or the
default of its category if nothing stands there, and everything else stands as it did. A `Course` is
how far that has come, with the changes that were made on the way.

Carrying effects out in any lawful world is following such a course, one step for each effect
(`enact_takes`), and the memory of a path is written from the changes of the course alone. What
stands where no effect comes to, and which keys a memory has, is then read off the course.

## Contents
- **Courses.** `World.standing`, `Course` and `Course.take`; what `take` keeps.
- **Memories.** `Course.memory`, its keys and the cap on its weights.
- **Following a course.** `enact_takes`, and from it `recordAll_takes`.
- **The effects of a path.** `effectsOf?_eq_ok`.
- **The main result** is `execute_follows_course`.
-/

namespace Narrative
open Outcome

/-! ## Courses -/

/-- The characteristic that **stands** at a target in a world, if there is one on the sheet. -/
def World.standing {ω : Type} [World ω] (w : ω) (t : Target) : Option Characteristic :=
  (sheet? w t.character).bind (·.get? t.category t.subtype)

theorem World.standing_of_some {ω : Type} [World ω] {w : ω} {t : Target} {s : Sheet}
    (hs : sheet? w t.character = some s) : World.standing w t = s.get? t.category t.subtype := by
  unfold World.standing
  rw [hs]
  rfl

/-- How far effects have come: what stands by now, and what each effect has changed. -/
structure Course where
  standing : Target → Option Characteristic
  changes : List (Effect × Change)

namespace Course

/-- Before the first effect. -/
def start {ω : Type} [World ω] (w : ω) : Course := ⟨World.standing w, []⟩

/-- The next effect changes what stands at its target, or the default of its category if nothing does. -/
def take (r : Registry) (x : Course) (e : Effect) : Except EvaluationError Course := do
  let d ← r.check e.category e.subtype
  let (c, change) ← ((x.standing e.toTarget).getD (.ofCategory d e.subtype)).change? e.op e.value
  return ⟨Function.update x.standing e.toTarget (some c), x.changes ++ [(e, change)]⟩

variable {r : Registry} {x y : Course} {e : Effect} {es : List Effect}

theorem take_eq_ok : x.take r e = .ok y ↔ ∃ d, r.check e.category e.subtype = .ok d ∧
    ∃ c change, ((x.standing e.toTarget).getD (.ofCategory d e.subtype)).change? e.op e.value =
      .ok (c, change) ∧
      y = ⟨Function.update x.standing e.toTarget (some c), x.changes ++ [(e, change)]⟩ := by
  unfold take
  rw [bind_eq_ok]
  refine exists_congr fun d => and_congr_right fun _ => ?_
  rw [bind_eq_ok, Prod.exists]
  refine exists_congr fun c => exists_congr fun change => and_congr_right fun _ => ?_
  exact ⟨fun h => (Except.ok.inj h).symm, fun h => congrArg Except.ok h.symm⟩

/-- A course makes one change for each effect, in their order. -/
theorem changes_of_takes (h : es.foldlM (take r) x = .ok y) :
    y.changes.map (·.1) = x.changes.map (·.1) ++ es := by
  induction es generalizing x with
  | nil =>
    cases h
    exact (List.append_nil _).symm
  | cons e es ih =>
    rw [List.foldlM_cons, bind_eq_ok] at h
    obtain ⟨x₁, he, hes⟩ := h
    obtain ⟨_, _, _, _, _, rfl⟩ := take_eq_ok.mp he
    rw [ih hes, List.map_append, List.append_assoc]
    rfl

/-- **What no effect is about stands as it did.** -/
theorem standing_of_takes (h : es.foldlM (take r) x = .ok y) {t : Target}
    (ht : ∀ e ∈ es, e.toTarget ≠ t) :
    y.standing t = x.standing t := by
  refine foldlM_keeps (P := fun y => y.standing t = x.standing t) ?_ rfl h
  intro e he y y' hy htake
  obtain ⟨_, _, _, _, _, rfl⟩ := take_eq_ok.mp htake
  exact (Function.update_of_ne (ht e he).symm _ _).trans hy

/-! ## Memories -/

/-- The memory of a path that took this course. -/
def memory (x : Course) (path : List Uid) : Memory :=
  x.changes.foldl (fun m (e, change) => m.encode e.toTarget change) (.new path)

theorem memory_concat (standing : Target → Option Characteristic) (x : Course) (e : Effect)
    (change : Change) (path : List Uid) :
    memory ⟨standing, x.changes ++ [(e, change)]⟩ path = (x.memory path).encode e.toTarget change :=
  List.foldl_concat ..

/-- **A memory has the keys of the targets that moved at least once**, and no others. -/
theorem contains_memory (x : Course) (path : List Uid) (key : String) :
    (x.memory path).vector.weights.contains key = true ↔
      ∃ e change, (e, change) ∈ x.changes ∧ change.isNoop = false ∧ key = e.memoryKey := by
  unfold memory
  induction x.changes using List.reverseRecOn with
  | nil => exact ⟨fun h => (nomatch h), fun ⟨_, _, h, _⟩ => absurd h List.not_mem_nil⟩
  | append_singleton changes last ih =>
    rw [List.foldl_concat, Memory.contains_encode, ih]
    constructor
    · rintro (⟨e, change, hmem, hmoved⟩ | hmoved)
      · exact ⟨e, change, List.mem_append_left _ hmem, hmoved⟩
      · exact ⟨last.1, last.2, List.mem_concat_self, hmoved⟩
    · rintro ⟨e, change, hmem, hmoved⟩
      rcases List.mem_append.mp hmem with hmem | hlast
      · exact .inl ⟨e, change, hmem, hmoved⟩
      · obtain rfl := List.mem_singleton.mp hlast
        exact .inr hmoved

/-- **No weight of a memory is above the cap**, however far the path has moved something. -/
theorem capped_memory (x : Course) (path : List Uid) : (x.memory path).Capped := by
  unfold memory
  induction x.changes using List.reverseRecOn with
  | nil => exact Memory.capped_new path
  | append_singleton changes last ih =>
    rw [List.foldl_concat]
    exact ih.encode last.1.toTarget last.2

end Course

/-! ## Following a course -/

section Following

variable {ω : Type} [World ω] [LawfulWorld ω] {r : Registry} {w w' : ω} {x : Course} {e : Effect}
  {es : List Effect}

/-- What stands after a characteristic was put on a sheet. -/
theorem standing_put {s : Sheet} {t : Target} (hs : sheet? w t.character = some s) (c : Characteristic) :
    World.standing (setSheet w t.character (s.put t.category t.subtype c)) =
      Function.update (World.standing w) t (some c) := by
  funext t'
  unfold World.standing
  rw [LawfulWorld.sheet?_setSheet w t.character t'.character _ (by rw [hs]; rfl)]
  by_cases hsame : t' = t
  · subst hsame
    rw [if_pos rfl, Function.update_self, Option.bind_some, Sheet.get?_put, if_pos ⟨rfl, rfl⟩]
  · rw [Function.update_of_ne hsame]
    by_cases hcharacter : t'.character = t.character
    · have hother : ¬(t'.category = t.category ∧ t'.subtype = t.subtype) := by
        rintro ⟨hcategory, hsubtype⟩
        exact hsame (by cases t'; cases t; simp_all)
      rw [if_pos hcharacter, Option.bind_some, Sheet.get?_put, if_neg hother, hcharacter, hs,
        Option.bind_some]
    · rw [if_neg hcharacter]

/-- **An effect that is carried out is the next step of the course.** -/
theorem enact_takes {change : Change} (hx : x.standing = World.standing w)
    (h : r.enact w e = .ok change w') :
    x.take r e = .ok ⟨World.standing w', x.changes ++ [(e, change)]⟩ := by
  cases hs : sheet? w e.character with
  | none =>
    rw [Registry.enact_of_none hs] at h
    cases h
  | some s =>
    rw [Registry.enact_of_some hs] at h
    cases hcheck : r.check e.category e.subtype with
    | error cause =>
      rw [Sheet.mutate_error hcheck] at h
      cases h
    | ok d =>
      have hcurrent :
          (x.standing e.toTarget).getD (.ofCategory d e.subtype) = s.current d e.category e.subtype := by
        rw [hx, World.standing_of_some hs]
        rfl
      rw [Sheet.mutate_ok hcheck] at h
      cases hchange : (s.current d e.category e.subtype).change? e.op e.value with
      | error cause =>
        rw [hchange] at h
        cases h
      | ok changed =>
        obtain ⟨c, change'⟩ := changed
        rw [hchange] at h
        cases h
        refine Course.take_eq_ok.mpr ⟨d, hcheck, c, change, hcurrent ▸ hchange, ?_⟩
        rw [hx]
        exact congrArg (Course.mk · _) (standing_put hs c)

/-- **Effects that are carried out follow a course**, and what they record is its memory. -/
theorem recordAll_takes {path : List Uid} {m : Memory} (hx : x.standing = World.standing w)
    (h : r.recordAll es (x.memory path) w = .ok m w') :
    ∃ y, es.foldlM (Course.take r) x = .ok y ∧ y.standing = World.standing w' ∧ m = y.memory path := by
  induction es generalizing x w with
  | nil =>
    cases h
    exact ⟨x, rfl, hx, rfl⟩
  | cons e es ih =>
    rw [Registry.recordAll] at h
    obtain ⟨change, w₁, he, hes⟩ := andThen_eq_ok.mp h
    have htake := enact_takes hx he
    rw [← Course.memory_concat (World.standing w₁)] at hes
    obtain ⟨y, hy, hstanding, hm⟩ := ih rfl hes
    refine ⟨y, ?_, hstanding, hm⟩
    rw [List.foldlM_cons, bind_eq_ok]
    exact ⟨_, htake, hy⟩

end Following

namespace Story

variable {s : Story} {c : Character} {name : String} {path : List Uid} {es : List Effect}

/-! ## The effects of a path -/

/-- They come action by action, in the order in which the author wrote them. -/
theorem effectsOf?_eq_ok : effectsOf? c name path = .ok es ↔
    ∃ actions, path.mapM c.plot.action? = some actions ∧ es = actions.flatMap (·.effects) := by
  induction path generalizing es with
  | nil =>
    constructor
    · intro h
      cases h
      exact ⟨[], rfl, rfl⟩
    · rintro ⟨_, h, rfl⟩
      cases h
      rfl
  | cons uid path ih =>
    rw [List.mapM_cons]
    cases ha : c.plot.action? uid with
    | none =>
      rw [effectsOf?, ha]
      constructor
      · intro h
        cases h
      · rintro ⟨_, h, _⟩
        cases h
    | some a =>
      rw [effectsOf?_cons ha, map_eq_ok]
      constructor
      · rintro ⟨rest, hrest, rfl⟩
        obtain ⟨actions, hactions, rfl⟩ := ih.mp hrest
        exact ⟨a :: actions, by rw [hactions]; rfl, rfl⟩
      · rintro ⟨_, hactions, rfl⟩
        obtain ⟨_, hhead, hrest⟩ := Option.bind_eq_some_iff.mp hactions
        obtain ⟨actions, htail, hcons⟩ := Option.bind_eq_some_iff.mp hrest
        cases hhead
        cases hcons
        exact ⟨_, ih.mpr ⟨actions, htail, rfl⟩, rfl⟩

/-! ## The main result -/

/-- `s'` is `s` after a character has **followed** a course on a path. On the sheets is what stands
at the end of the course, on rows that are not empty; the character has one memory more, and nothing
else is different. -/
structure Followed (s : Story) (name : String) (path : List Uid) (x : Course) (s' : Story) : Prop where
  settings : s'.settings = s.settings
  registry : s'.registry = s.registry
  source : s'.source = s.source
  names : ∀ name', s'.cast.contains name' = s.cast.contains name'
  characters : ∀ name' c, s.cast.get? name' = some c → ∃ sheet : Sheet, sheet.Tidy ∧
    (∀ category subtype, sheet.get? category subtype = x.standing ⟨name', category, subtype⟩) ∧
    s'.cast.get? name' = some { c with
      sheet := sheet
      memory := if name' = name then c.memory.add (x.memory path) else c.memory }
  /-- The memory of the path comes after all others and counts as one more step. -/
  remembered : ∀ c, s.cast.get? name = some c → ∃ c', s'.cast.get? name = some c' ∧
    c'.memory.memories = c.memory.memories ++ [x.memory path] ∧ c'.memory.steps = c.memory.steps + 1 ∧
    c'.memory.aggregate = c.memory.preview (x.memory path).vector

theorem followed_of_recordAll (hs : s.Sound) {x : Course} {cast : Cast}
    (hrun : s.registry.recordAll es (.new path) s.cast = .ok (x.memory path) cast)
    (hx : x.standing = World.standing cast) :
    s.Followed name path x
      { s with cast := cast.update name fun c =>
        { c with memory := c.memory.add (x.memory path) } } := by
  have hstate : (s.registry.recordAll es (.new path) s.cast).state = cast := by rw [hrun]; rfl
  have hsheets : ∀ name' c, s.cast.get? name' = some c → ∃ sheet, cast.get? name' =
      some { c with sheet := sheet } := by
    intro name' c hc
    obtain ⟨sheet, hsheet⟩ := Registry.recordAll_cast (r := s.registry) es (.new path) hc
    exact ⟨sheet, hstate ▸ hsheet⟩
  refine ⟨rfl, rfl, rfl, fun name' => ?_, fun name' c hc => ?_, fun c hc => ?_⟩
  · show (cast.update name _).contains name' = _
    rw [Cast.contains_update, ← isSome_sheet?_cast, ← isSome_sheet?_cast, ← hstate,
      Registry.isSome_sheet?_recordAll]
  · obtain ⟨sheet, hsheet⟩ := hsheets name' c hc
    refine ⟨sheet, ?_, fun category subtype => ?_, ?_⟩
    · have hsound := hs.recordAll es (.new path)
      rw [hstate] at hsound
      exact (hsound.sheets hsheet).tidy
    · rw [hx]
      unfold World.standing
      rw [sheet?_cast, hsheet]
      rfl
    · show (cast.update name _).get? name' = _
      rw [Cast.get?_update]
      by_cases hn : name' = name
      · rw [if_pos hn, if_pos hn, ← hn, hsheet]
        rfl
      · rw [if_neg hn, if_neg hn, hsheet]
  · obtain ⟨sheet, hsheet⟩ := hsheets name c hc
    refine ⟨{ c with sheet := sheet, memory := c.memory.add (x.memory path) }, ?_,
      MemoryBank.memories_add .., ?_⟩
    · show (cast.update name _).get? name = _
      rw [Cast.get?_update, if_pos rfl, hsheet]
      rfl
    · exact ⟨MemoryBank.steps_add .., MemoryBank.aggregate_add ..⟩

/-- **Taking a path does what the path says, and nothing else.** The effects of its actions, in the
order of the path and of each action, follow a course: each of them changes what stands at its
target by then, or else the default. The story afterwards is the one that has followed this course.
What no effect is about stands as it did, and where nothing stood nothing does. The character that
took the path remembers it once, by the keys of the effects that moved anything, even if others have
moved it back. -/
theorem execute_follows_course (h : Reachable s) (hpath : path ≠ [])
    (hok : (s.execute name path).result = .ok ()) :
    ∃ c actions x, s.cast.get? name = some c ∧ path.mapM c.plot.action? = some actions ∧
      (actions.flatMap (·.effects)).foldlM (Course.take s.registry) (.start s.cast) = .ok x ∧
      s.Followed name path x (s.execute name path).state ∧
      (∀ t, (∀ a ∈ actions, ∀ e ∈ a.effects, e.toTarget ≠ t) → x.standing t = World.standing s.cast t) ∧
      (x.memory path).path = path ∧ x.changes.map (·.1) = actions.flatMap (·.effects) ∧
      ∀ key, (x.memory path).vector.weights.contains key = true ↔
        ∃ e change, (e, change) ∈ x.changes ∧ change.isNoop = false ∧ key = e.memoryKey := by
  cases hes : s.checkedEffects? name path with
  | error e =>
    rw [execute_of_unchecked hes] at hok
    cases hok
  | ok es =>
    obtain ⟨c, hc, heffects, _⟩ := checkedEffects?_eq_ok.mp hes
    obtain ⟨actions, hactions, rfl⟩ := effectsOf?_eq_ok.mp heffects
    obtain ⟨m, cast, hrun⟩ := recordAll_of_checked h.sound.fits hes (.new path)
    obtain ⟨x, hcourse, hstanding, rfl⟩ := recordAll_takes (x := .start s.cast) rfl hrun
    rw [execute_of_checked hes hpath hrun]
    refine ⟨c, actions, x, hc, hactions, hcourse, followed_of_recordAll h.sound hrun hstanding,
      fun t ht => ?_, ?_, Course.changes_of_takes hcourse, Course.contains_memory x path⟩
    · refine Course.standing_of_takes hcourse fun e he => ?_
      obtain ⟨a, ha, he⟩ := List.mem_flatMap.mp he
      exact ht a ha e he
    · exact Registry.path_of_recordAll (r := s.registry) (by rw [hrun]; rfl)

/-- To be merrier than before. -/
def cheering : Effect := ⟨⟨"Bob", "Mood", "happy"⟩, .add, .int 2⟩

/-- To have Ann as calm as anyone is at first. -/
def soothing : Effect := ⟨⟨"Ann", "Mood", "calm"⟩, .assign, .int 5⟩

/-- To be as merry as before. -/
def sobering : Effect := ⟨⟨"Bob", "Mood", "happy"⟩, .subtract, .int 2⟩

/-- Bob may sing, which cheers him and soothes Ann, and sighs after that. -/
def sighing : Story :=
  [Operation.loadCategories [.numeric "Mood" ["happy", "calm"] 0 10 5], .loadCharacters ["Ann", "Bob"],
    .loadActions "Bob" [
      { ActionDecl.new 1 "Sing" with first := true, leadsTo := [2], effects := [cheering, soothing] },
      { ActionDecl.new 2 "Sigh" with effects := [sobering] }]].foldl
    (fun s op => op.after s) (start .default (.listed []))

/-- Bob remembers that his mood has moved, although it is what it was. Ann was calm already, so she
is not remembered, and nothing has been said about whether she is happy. -/
theorem execute_follows_course_sighing :
    Reachable sighing ∧ [(1 : Uid), 2] ≠ [] ∧ (sighing.execute "Bob" [1, 2]).result = .ok () ∧
    ∃ x, sighing.Followed "Bob" [1, 2] x (sighing.execute "Bob" [1, 2]).state ∧
      (x.memory [1, 2]).vector.weights.contains cheering.memoryKey = true ∧
      ¬(x.memory [1, 2]).vector.weights.contains soothing.memoryKey = true ∧
      x.standing ⟨"Ann", "Mood", "happy"⟩ = none := by
  have hreach : Reachable sighing := reachable_calls (reachable_start_default _) _
  have hok : (sighing.execute "Bob" [1, 2]).result = .ok () := rfl
  obtain ⟨c, actions, x, hc, hactions, hcourse, hfollowed, hframe, _, _, hkeys⟩ :=
    execute_follows_course hreach (by decide) hok
  -- the effects, and what each of them changes
  have heffects : ((sighing.cast.get? "Bob").bind fun c => [(1 : Uid), 2].mapM c.plot.action?).map
      (·.flatMap (·.effects)) = some [cheering, soothing, sobering] := by decide
  rw [hc, Option.bind_some, hactions, Option.map_some, Option.some.injEq] at heffects
  have hchanges :
      ([cheering, soothing, sobering].foldlM (Course.take sighing.registry) (.start sighing.cast)).map
      (·.changes) = .ok [(cheering, ⟨.int 5, .int 7, some ⟨0, 10⟩⟩),
        (soothing, ⟨.int 5, .int 5, some ⟨0, 10⟩⟩), (sobering, ⟨.int 7, .int 5, some ⟨0, 10⟩⟩)] := rfl
  rw [← heffects, hcourse] at hchanges
  have hchanges : x.changes = _ := Except.ok.inj hchanges
  refine ⟨hreach, by decide, hok, x, hfollowed, ?_, ?_, ?_⟩
  · rw [hkeys, hchanges]
    exact ⟨cheering, _, List.mem_cons_self, rfl, rfl⟩
  · rw [hkeys, hchanges]
    rintro ⟨e, change, hmem, hmoved, hkey⟩
    simp only [List.mem_cons, Prod.mk.injEq, List.not_mem_nil, or_false] at hmem
    rcases hmem with ⟨rfl, rfl⟩ | ⟨rfl, rfl⟩ | ⟨rfl, rfl⟩
    · exact absurd hkey (by decide)
    · exact absurd hmoved (by decide)
    · exact absurd hkey (by decide)
  · have hothers : ∀ e ∈ [cheering, soothing, sobering], e.toTarget ≠ ⟨"Ann", "Mood", "happy"⟩ := by
      decide
    rw [hframe _ fun a ha e he => hothers e (heffects ▸ List.mem_flatMap.mpr ⟨a, ha, he⟩)]
    rfl

end Story
end Narrative
