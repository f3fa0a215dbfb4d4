import Mathlib.Logic.Relation
import Narrative.Proofs.Outcome
import Narrative.Story.Load
import Narrative.Story.Play
import Narrative.Story.Removal

/-!
# `Proofs.Run` — the stories that operations lead to

A caller works on a story by calls, and each call may stop anywhere and leave what it has done so far.
Facts about all stories that can come about this way are proved in two layers:

* a **step** is one elementary change: a category defined, a sheet written, a path taken, a definition
  removed. `Operation.steps` breaks every call, successful or failing, into steps;
* an invariant is then checked once per kind of step (`ReachableBy.invariant`), and no proof takes the
  operations apart again.

Some facts hold only if authors bring in sensible actions. `Step`, `Admits` and `ReachableBy` carry a
condition `P` on the declarations that a successful load of actions brings in; `Reachable` asks nothing.

## Contents
- **Calls.** `Operation` and `Operation.after`.
- **Steps.** `Step`.
- **From calls to steps.** `Operation.Admits` and `Operation.steps`.
- **Reachable stories.** `ReachableBy`, `Reachable` and the invariant principle.
-/

namespace Narrative
namespace Story
open Outcome Relation

/-! ## Calls -/

/-- A call of an operation by which a story may change. -/
inductive Operation where
  | loadCategories (ds : List CategoryDecl)
  | loadCharacters (names : List String)
  | loadCharacteristics (ds : List CharacteristicDecl)
  | loadActions (name : String) (ds : List ActionDecl)
  | load (script : Script)
  | value (name category subtype : String)
  | scoredOptions (name : String) (count : Nat)
  | options (name : String) (count : Nat)
  | defaultOptions (name : String)
  | execute (name : String) (path : List Uid)
  | setConversationType (x : Binary32)
  | removeCategory (category : String)
  | removeSubtype (category subtype : String)
  | removeCharacter (name : String)
  | removeAction (name : String) (uid : Uid)
  | removePreconditions (f : ConditionFilter)
  | removeEffects (f : ConditionFilter)

/-- The story that a call leaves, whether it succeeds or fails. -/
def Operation.after : Operation → Story → Story
  | loadCategories ds, s => (s.loadCategories ds).state
  | loadCharacters names, s => (s.loadCharacters names).state
  | loadCharacteristics ds, s => (s.loadCharacteristics ds).state
  | loadActions name ds, s => (s.loadActions name ds).state
  | load script, s => (s.load script).state
  | value name category subtype, s => (s.value name category subtype).state
  | scoredOptions name count, s => (s.scoredOptions name count).state
  | options name count, s => (s.options name count).state
  | defaultOptions name, s => (s.defaultOptions name).state
  | execute name path, s => (s.execute name path).state
  | setConversationType x, s => (Attempt.ofExcept s (s.setConversationType x)).state
  | removeCategory category, s => (Attempt.ofExcept s (s.removeCategory category)).state
  | removeSubtype category subtype, s => (Attempt.ofExcept s (s.removeSubtype category subtype)).state
  | removeCharacter name, s => (Attempt.ofExcept s (s.removeCharacter name)).state
  | removeAction name uid, s => (Attempt.ofExcept s (s.removeAction name uid)).state
  | removePreconditions f, s => (s.removePreconditions f).2
  | removeEffects f, s => (s.removeEffects f).2

/-! ## Steps -/

/-- One elementary change of a story; actions are brought in only where `P` holds of them. -/
inductive Step (P : Story → List ActionDecl → Prop) (s : Story) : Story → Prop where
  /-- A category is defined. -/
  | define {d : CategoryDecl} {r : Registry} (h : s.registry.addCategory d = .ok r) :
    Step P s { s with registry := r }
  /-- A category gets more subtypes. -/
  | grow {name : String} {subtypes : List String} {r : Registry}
    (h : s.registry.addSubtypes name subtypes = .ok r) :
    Step P s { s with registry := r }
  /-- A character joins the cast. -/
  | join {name : String} {cast : Cast}
    (h : s.cast.insert (.new name s.settings.recencyWeight) = .ok cast) :
    Step P s { s with cast := cast }
  /-- An effect is carried out, or fails after its attribute came onto the sheet. -/
  | enact (e : Effect) : Step P s { s with cast := (s.registry.enact s.cast e).state }
  /-- An attribute comes onto the sheet because it is read. -/
  | read {name : String} {c : Character} (h : s.cast.get? name = some c) (category subtype : String) :
    Step P s
      { s with cast := setSheet s.cast name (c.sheet.materialize s.registry category subtype).state }
  /-- Actions are brought into a plot. -/
  | extend {name : String} {c : Character} {ds : List ActionDecl} {p : Plot} (hP : P s ds)
    (hc : s.cast.get? name = some c) (h : Plot.extend s.registry name c.plot ds = .ok p) :
    Step P s { s with cast := s.cast.update name fun c => { c with plot := p } }
  /-- A path is taken and remembered. -/
  | play {name : String} {path : List Uid} {es : List Effect} {m : Memory} {cast : Cast}
    (hpath : path ≠ []) (hes : s.checkedEffects? name path = .ok es)
    (h : s.registry.recordAll es (.new path) s.cast = .ok m cast) :
    Step P s { s with cast := cast.update name fun c => { c with memory := c.memory.add m } }
  /-- Random words are drawn. -/
  | draw (source : Source) : Step P s { s with source := source }
  /-- The wanted salience changes. -/
  | tune {x : Binary32} (h : { s.settings with conversationType := x }.validate = .ok ()) :
    Step P s { s with settings := { s.settings with conversationType := x } }
  | removeCategory {category : String} {s' : Story} (h : s.removeCategory category = .ok s') :
    Step P s s'
  | removeSubtype {category subtype : String} {s' : Story}
    (h : s.removeSubtype category subtype = .ok s') :
    Step P s s'
  | removeCharacter {name : String} {s' : Story} (h : s.removeCharacter name = .ok s') : Step P s s'
  | removeAction {name : String} {uid : Uid} {s' : Story} (h : s.removeAction name uid = .ok s') :
    Step P s s'
  | removePreconditions (f : ConditionFilter) : Step P s (s.withoutPreconditions f)
  | removeEffects (f : ConditionFilter) : Step P s (s.withoutEffects f)

/-! ## From calls to steps -/

variable {P : Story → List ActionDecl → Prop} {s s' : Story}

/-- The first three parts of loading a script, before any actions. -/
def loadContent (s : Story) (script : Script) : Attempt Story StoryError Unit :=
  (s.loadCategories script.categories).andThen fun _ s =>
  (s.loadCharacters script.characters).andThen fun _ s =>
  s.loadCharacteristics script.characteristics

/-- `P` holds of all actions that are brought in one plot after the other, each time of the story as it
is by then. -/
def AdmitsEach (P : Story → List ActionDecl → Prop) : List (String × List ActionDecl) → Story → Prop
  | [], _ => True
  | (name, ds) :: rest, s =>
    (s.loadActions name ds).result = .ok () → P s ds ∧ AdmitsEach P rest (s.loadActions name ds).state

/-- Whether `P` holds of the actions that a call brings in. Loads that fail bring in none. -/
def Operation.Admits (P : Story → List ActionDecl → Prop) : Operation → Story → Prop
  | loadActions name ds, s => (s.loadActions name ds).result = .ok () → P s ds
  | load script, s =>
    (s.loadContent script).result = .ok () →
      AdmitsEach P script.actions.entries (s.loadContent script).state
  | _, _ => True

/-- A call may always bring in actions of which nothing is asked. -/
theorem Operation.admits_true (op : Operation) : op.Admits (fun _ _ => True) s := by
  have heach : ∀ entries s, AdmitsEach (fun _ _ => True) entries s := by
    intro entries
    induction entries with
    | nil => exact fun _ => trivial
    | cons entry entries ih => exact fun _ _ => ⟨trivial, ih _⟩
  cases op with
  | loadActions name ds => exact fun _ => trivial
  | load script => exact fun _ => heach _ _
  | _ => exact trivial

theorem steps_ofExcept {x : Except StoryError Story}
    (h : ∀ s', x = .ok s' → ReflTransGen (Step P) s s') :
    ReflTransGen (Step P) s (Attempt.ofExcept s x).state := by
  cases x with
  | error e => exact .refl
  | ok s' => exact h s' rfl

theorem steps_loadCategory (d : CategoryDecl) : ReflTransGen (Step P) s (loadCategory d s).state := by
  refine steps_ofExcept fun s' h => ?_
  rw [mapError_eq_ok, map_eq_ok] at h
  obtain ⟨r, hr, rfl⟩ := h
  -- a new name defines a category, a known one only adds subtypes
  split at hr
  · exact .single (.define hr)
  · obtain ⟨category, _, hr⟩ := bind_eq_ok.mp hr
    exact .single (.grow hr)

theorem steps_loadCharacter (name : String) : ReflTransGen (Step P) s (loadCharacter name s).state := by
  unfold loadCharacter
  split
  · exact .refl
  · refine steps_ofExcept fun s' h => ?_
    rw [mapError_eq_ok, map_eq_ok] at h
    obtain ⟨cast, hcast, rfl⟩ := h
    exact .single (.join hcast)

theorem steps_loadCharacteristic (d : CharacteristicDecl) :
    ReflTransGen (Step P) s (loadCharacteristic d s).state := by
  unfold loadCharacteristic
  split
  · exact .refl
  · split
    · -- a starting value is an assignment like any other
      show ReflTransGen (Step P) s (Attempt.andThen _ _).state
      rw [state_andThen fun _ _ => rfl]
      exact .single (.enact _)
    · exact .refl

/-- A list of calls is broken into steps if each of them is. -/
theorem steps_forEach {α : Type} {f : α → Story → Attempt Story StoryError Unit} {l : List α}
    (h : ∀ a s, ReflTransGen (Step P) s (f a s).state) :
    ReflTransGen (Step P) s (Attempt.forEach f l s).state :=
  forEach_keeps (P := ReflTransGen (Step P) s) (fun a _ _ hs => hs.trans (h a _)) .refl

theorem steps_andThen {x : Attempt Story StoryError Unit}
    {f : Unit → Story → Attempt Story StoryError Unit} (hx : ReflTransGen (Step P) s x.state)
    (hf : x.result = .ok () → ReflTransGen (Step P) x.state (f () x.state).state) :
    ReflTransGen (Step P) s (x.andThen f).state := by
  unfold Attempt.andThen
  cases hr : x.result with
  | error e => exact hx
  | ok u => exact hx.trans (hf hr)

theorem steps_loadActions {name : String} {ds : List ActionDecl}
    (hP : (s.loadActions name ds).result = .ok () → P s ds) :
    ReflTransGen (Step P) s (s.loadActions name ds).state := by
  unfold loadActions at hP ⊢
  cases hc : s.cast.get? name with
  | none => exact .refl
  | some c =>
    rw [hc] at hP
    show ReflTransGen (Step P) s (Attempt.ofExcept s (Except.map _ _)).state
    refine steps_ofExcept fun s' h => ?_
    obtain ⟨p, hp, rfl⟩ := map_eq_ok.mp h
    refine .single (.extend (hP ?_) hc hp)
    show (Attempt.ofExcept s (Except.map _ _)).result = _
    rw [hp]; rfl

theorem steps_loadEach {entries : List (String × List ActionDecl)} (hP : AdmitsEach P entries s) :
    ReflTransGen (Step P) s (Attempt.forEach (fun (name, ds) s => s.loadActions name ds)
      entries s).state := by
  induction entries generalizing s with
  | nil => exact .refl
  | cons entry entries ih =>
    exact steps_andThen (steps_loadActions fun hok => (hP hok).1) fun hok => ih (hP hok).2

theorem steps_loadContent (script : Script) : ReflTransGen (Step P) s (s.loadContent script).state :=
  steps_andThen (steps_forEach fun d _ => steps_loadCategory d) fun _ =>
    steps_andThen (steps_forEach fun name _ => steps_loadCharacter name) fun _ =>
      steps_forEach fun d _ => steps_loadCharacteristic d

theorem steps_load {script : Script} (hP : (Operation.load script).Admits P s) :
    ReflTransGen (Step P) s (s.load script).state := by
  have hload : s.load script = (s.loadContent script).andThen fun _ s =>
      Attempt.forEach (fun (name, ds) s => s.loadActions name ds) script.actions.entries s := by
    unfold load loadContent
    rw [Attempt.andThen_assoc]
    refine congrArg _ (funext fun _ => funext fun s₁ => ?_)
    rw [Attempt.andThen_assoc]
  rw [hload]
  exact steps_andThen (steps_loadContent script) fun hok => steps_loadEach (hP hok)

theorem steps_value (name category subtype : String) :
    ReflTransGen (Step P) s (s.value name category subtype).state := by
  unfold value
  cases hc : s.cast.get? name with
  | none => exact .refl
  | some c =>
    show ReflTransGen (Step P) s (Attempt.andThen _ _).state
    rw [state_andThen fun _ _ => rfl]
    exact .single (.read hc category subtype)

theorem steps_scoredOptions (name : String) (count : Nat) :
    ReflTransGen (Step P) s (s.scoredOptions name count).state := by
  unfold scoredOptions
  cases s.candidates? name with
  | error e => exact .refl
  | ok cs => exact .single (.draw _)

theorem steps_options (name : String) (count : Nat) :
    ReflTransGen (Step P) s (s.options name count).state := by
  unfold options
  rw [state_andThen fun _ _ => rfl]
  exact steps_scoredOptions name count

/-- A path that is given up half-way has carried out some of its effects and is not remembered. -/
theorem steps_recordAll (es : List Effect) (m : Memory) :
    ReflTransGen (Step P) s { s with cast := (s.registry.recordAll es m s.cast).state } :=
  recordAll_keeps (I := fun cast => ReflTransGen (Step P) s { s with cast := cast })
    (fun e _ h => h.tail (.enact e)) es m .refl

theorem steps_execute (name : String) (path : List Uid) :
    ReflTransGen (Step P) s (s.execute name path).state := by
  unfold execute
  cases hes : s.checkedEffects? name path with
  | error e => exact .refl
  | ok es =>
    show ReflTransGen (Step P) s
      (if path.isEmpty = true then _ else _ : Attempt Story StoryError Unit).state
    split
    · exact .refl
    · next hpath =>
      cases hrun : s.registry.recordAll es (Memory.new path) s.cast with
      | mk result cast =>
        -- a path that gets to its end is one step, one that stops half-way a chain of single effects
        cases result with
        | error e =>
          have hsteps := steps_recordAll (P := P) (s := s) es (Memory.new path)
          rw [hrun] at hsteps
          exact hsteps
        | ok m => exact .single (.play (fun h => hpath (List.isEmpty_iff.mpr h)) hes hrun)

theorem steps_setConversationType (x : Binary32) :
    ReflTransGen (Step P) s (Attempt.ofExcept s (s.setConversationType x)).state := by
  refine steps_ofExcept fun s' h => ?_
  obtain ⟨_, hv, h⟩ := bind_eq_ok.mp h
  cases h
  exact .single (.tune (mapError_eq_ok.mp hv))

/-- **Every call is made of steps**, whether it succeeds or fails. -/
theorem Operation.steps (op : Operation) (hP : op.Admits P s) :
    ReflTransGen (Step P) s (op.after s) := by
  cases op with
  | loadCategories ds => exact steps_forEach fun d _ => steps_loadCategory d
  | loadCharacters names => exact steps_forEach fun name _ => steps_loadCharacter name
  | loadCharacteristics ds => exact steps_forEach fun d _ => steps_loadCharacteristic d
  | loadActions name ds => exact steps_loadActions hP
  | load script => exact steps_load hP
  | value name category subtype => exact steps_value name category subtype
  | scoredOptions name count => exact steps_scoredOptions name count
  | options name count => exact steps_options name count
  | defaultOptions name => exact steps_options name _
  | execute name path => exact steps_execute name path
  | setConversationType x => exact steps_setConversationType x
  | removeCategory category => exact steps_ofExcept fun _ h => .single (.removeCategory h)
  | removeSubtype category subtype => exact steps_ofExcept fun _ h => .single (.removeSubtype h)
  | removeCharacter name => exact steps_ofExcept fun _ h => .single (.removeCharacter h)
  | removeAction name uid => exact steps_ofExcept fun _ h => .single (.removeAction h)
  | removePreconditions f => exact .single (.removePreconditions f)
  | removeEffects f => exact .single (.removeEffects f)

/-! ## Reachable stories -/

/-- The stories that come about from a new one by calls that bring in only actions of which `P` holds. -/
inductive ReachableBy (P : Story → List ActionDecl → Prop) : Story → Prop where
  | new {settings : Settings} {source : Source} {s : Story} (h : new? settings source = .ok s) :
    ReachableBy P s
  | call {s : Story} (op : Operation) (h : ReachableBy P s) (hP : op.Admits P s) :
    ReachableBy P (op.after s)

/-- The stories that come about from a new one by calls of any kind. -/
def Reachable (s : Story) : Prop := ReachableBy (fun _ _ => True) s

/-- The default settings are in bounds, so a story may start with them. -/
theorem reachable_start_default (source : Source) : Reachable (start .default source) := by
  have hnew : new? .default source = .ok (start .default source) := rfl
  exact .new hnew

/-- Calls without a condition may be made at any time. -/
theorem reachable_calls (h : Reachable s) (ops : List Operation) :
    Reachable (ops.foldl (fun s op => op.after s) s) := by
  induction ops generalizing s with
  | nil => exact h
  | cons op ops ih => exact ih (.call op h op.admits_true)

/-- What every step keeps a whole chain of steps keeps. -/
theorem keeps_steps {I : Story → Prop} (hstep : ∀ s s', Step P s s' → I s → I s')
    (h : ReflTransGen (Step P) s s') (hs : I s) : I s' := by
  induction h with
  | refl => exact hs
  | tail _ hlast ih => exact hstep _ _ hlast ih

/-- What holds of a new story and is kept by every step holds of every reachable story. -/
theorem ReachableBy.invariant {I : Story → Prop} (h : ReachableBy P s)
    (hnew : ∀ settings source, settings.validate = .ok () → I (start settings source))
    (hstep : ∀ s s', Step P s s' → I s → I s') : I s := by
  -- the induction is on the calls; inside a call the invariant goes from step to step
  induction h with
  | new h =>
    obtain ⟨_, hv, h⟩ := bind_eq_ok.mp h
    cases h
    exact hnew _ _ (mapError_eq_ok.mp hv)
  | call op _ hP ih => exact keeps_steps hstep (op.steps hP) ih

end Story
end Narrative
