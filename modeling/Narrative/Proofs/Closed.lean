import Narrative.Proofs.Execution
import Narrative.Proofs.Plots

/-!
# `Proofs.Closed` — in closed stories nothing goes wrong

Loading lets through conditions about characters and categories that are not there yet, and a story with
such conditions may fail when it is played. A story is **closed** if every condition in it names a
character of the cast and a registered attribute, with an operand of the right kind.

* *Preservation*: as long as authors bring in only conditions that are closed by then, no call leads
  out of the closed stories. Whatever takes a character or an attribute away takes the conditions
  about it along.
* *Progress*: in a closed story that came about so, options can always be offered and every path through
  mapped actions can be taken.

## Contents
- **Closed stories.** `Target.ClosedIn`, `Precondition.ClosedIn`, `Effect.ClosedIn`, `Story.Closed`,
  `Story.ClosedDecls`.
- **Preservation.** `Closed.step`.
- **Progress.** `explore_succeeds`, `Closed.candidates`, `Closed.checkedEffects?`.
- **Soundness.** The main result `closed_stories_play`.
-/

namespace Narrative
open Outcome

/-! ## Closed stories -/

/-- A target is **closed** in a story if its character is in the cast and its attribute is registered,
under a category that fits what the condition does with it. -/
def Target.ClosedIn (t : Target) (s : Story) (fit : Category → Prop) : Prop :=
  s.cast.contains t.character = true ∧ ∃ d, s.registry.check t.category t.subtype = .ok d ∧ fit d

instance (t : Target) (s : Story) (fit : Category → Prop) [DecidablePred fit] :
    Decidable (t.ClosedIn s fit) :=
  match h : s.registry.check t.category t.subtype with
  | .ok d => decidable_of_iff (s.cast.contains t.character = true ∧ fit d)
      (and_congr_right fun _ => ⟨fun hd => ⟨d, h, hd⟩,
        fun ⟨d', h', hd'⟩ => by rw [h] at h'; cases h'; exact hd'⟩)
  | .error _ => isFalse fun ⟨_, d, h', _⟩ => by rw [h] at h'; cases h'

/-- A closed precondition compares with an operand of the category's kind. -/
def Precondition.ClosedIn (c : Precondition) (s : Story) : Prop :=
  c.toTarget.ClosedIn s fun d => c.value.kind = d.default.kind

/-- A closed effect is one that its category allows: it has an operand of the category's kind, and only
assigns truth values. -/
def Effect.ClosedIn (e : Effect) (s : Story) : Prop :=
  e.toTarget.ClosedIn s fun d => d.Allows e.op e.value

instance (c : Precondition) (s : Story) : Decidable (c.ClosedIn s) :=
  inferInstanceAs (Decidable (c.toTarget.ClosedIn s fun d => c.value.kind = d.default.kind))

instance (e : Effect) (s : Story) : Decidable (e.ClosedIn s) :=
  inferInstanceAs (Decidable (e.toTarget.ClosedIn s fun d => d.Allows e.op e.value))

namespace Story

/-- A story is **closed** if every condition in every plot is. -/
def Closed (s : Story) : Prop :=
  ∀ name c, s.cast.get? name = some c → c.plot.EachCondition (·.ClosedIn s) (·.ClosedIn s)

/-- Declarations whose conditions are closed in the story that they are brought into. -/
def ClosedDecls (s : Story) (ds : List ActionDecl) : Prop :=
  ∀ d ∈ ds, (∀ c ∈ d.preconditions, c.ClosedIn s) ∧ ∀ e ∈ d.effects, e.ClosedIn s

instance (s : Story) (ds : List ActionDecl) : Decidable (ClosedDecls s ds) :=
  inferInstanceAs (Decidable
    (∀ d ∈ ds, (∀ c ∈ d.preconditions, c.ClosedIn s) ∧ ∀ e ∈ d.effects, e.ClosedIn s))

end Story

/-! ## Preservation -/

variable {s s' : Story}

/-- What survives stays closed. -/
theorem Target.ClosedIn.survive {t : Target} {fit : Category → Prop} (h : t.ClosedIn s fit)
    (ht : t.Survives s s') (hfit : ∀ d d', d'.kind = d.kind → fit d → fit d') :
    t.ClosedIn s' fit := by
  obtain ⟨hcharacter, d, hd, hdfit⟩ := h
  obtain ⟨d', hd', hkind⟩ := ht.registered d hd
  exact ⟨ht.character hcharacter, d', hd', hfit d d' hkind hdfit⟩

theorem Precondition.ClosedIn.survive {c : Precondition} (h : c.ClosedIn s)
    (ht : c.toTarget.Survives s s') :
    c.ClosedIn s' :=
  Target.ClosedIn.survive h ht fun _ _ hkind hfit => hfit.trans (Category.kind_congr hkind).2.1.symm

theorem Effect.ClosedIn.survive {e : Effect} (h : e.ClosedIn s) (ht : e.toTarget.Survives s s') :
    e.ClosedIn s' :=
  Target.ClosedIn.survive h ht fun _ _ hkind hfit => hfit.of_kind_eq hkind

namespace Story

theorem PlotStep.closed {p p' : Plot} (h : PlotStep ClosedDecls s s' p p')
    (hp : p.EachCondition (·.ClosedIn s) (·.ClosedIn s)) :
    p'.EachCondition (·.ClosedIn s') (·.ClosedIn s') := by
  -- where all targets survive, the whole plot does
  have hsurvive : ∀ {q : Plot}, (∀ t : Target, t.Survives s s') →
      q.EachCondition (·.ClosedIn s) (·.ClosedIn s) →
      q.EachCondition (·.ClosedIn s') (·.ClosedIn s') := by
    intro q hall hq uid a ha
    obtain ⟨hpre, heff⟩ := hq uid a ha
    exact ⟨fun c hc => (hpre c hc).survive (hall _), fun e he => (heff e he).survive (hall _)⟩
  cases h with
  | kept hall => exact hsurvive hall hp
  | trimmed _ hpre heff =>
    exact hp.updateAll (fun a c hc => ⟨(hpre a c hc).1, fun h => h.survive (hpre a c hc).2⟩)
      fun a e he => ⟨(heff a e he).1, fun h => h.survive (heff a e he).2⟩
  | cut gone hall => exact hsurvive hall (hp.of_keeps (Plot.keeps_removeAction p gone))
  | extended hds hextend hall => exact hsurvive hall (Plot.extend_conditions hextend hp hds)

/-- **Preservation.** A step that brings in only closed declarations leads from a closed story to a
closed story. -/
theorem Closed.step (hstep : Step ClosedDecls s s') (hs : s.Closed) : s'.Closed := by
  intro name c' hc'
  rcases hstep.plot hc' with hempty | ⟨c, hc, hplot⟩
  · rw [hempty]
    exact Plot.eachCondition_empty _ _
  · exact hplot.closed (hs name c hc)

theorem ReachableBy.closed (h : ReachableBy ClosedDecls s) : s.Closed :=
  h.invariant (fun _ _ _ _ _ hc => nomatch hc) fun _ _ => Closed.step

end Story

/-! ## Progress -/

theorem Precondition.ClosedIn.evaluate {q : Precondition} (h : q.ClosedIn s)
    (hs : World.Fits s.registry s.cast) :
    ∃ b, s.registry.evaluate s.cast q = .ok b := by
  obtain ⟨hcharacter, hattribute⟩ := h
  exact (Registry.evaluate_ok_iff hs).mpr ⟨by rw [isSome_sheet?_cast]; exact hcharacter, hattribute⟩

theorem Effect.ClosedIn.check {e : Effect} (h : e.ClosedIn s) :
    s.registry.checkEffect e = .ok () ∧ s.cast.contains e.character = true :=
  ⟨Registry.checkEffect_eq_ok.mpr h.2, h.1⟩

namespace Discovery

variable {ω : Type} [World ω] {r : Registry} {w : ω} {p : Plot} {walk : Walk ω} {uid : Uid}

/-- A walk **stands on** a world if its scratch layer fits the registry and knows the same characters,
whatever has been written on it. -/
structure Walk.StandsOn (r : Registry) (w : ω) (walk : Walk ω) : Prop where
  fits : World.Fits r walk.scratch
  characters : ∀ name, (sheet? walk.scratch name).isSome = (sheet? w name).isSome

theorem standsOn_start (hw : World.Fits r w) : (Walk.start w).StandsOn r w :=
  ⟨fun name sheet h => hw name sheet h, fun _ => rfl⟩

/-- Effects that pass the check, on characters that are there, can be carried out on the scratch
layer. -/
theorem Walk.StandsOn.enter_succeeds (h : walk.StandsOn r w) {a : Action}
    (ha : ∀ e ∈ a.effects, r.checkEffect e = .ok () ∧ (sheet? w e.character).isSome) :
    ∃ entered, walk.enter r uid a = .ok entered := by
  have hrecorded : ∃ m,
      (r.recordAll a.effects { walk.memory with path := walk.memory.path ++ [uid] }
      walk.scratch).result =
      .ok m :=
    (Registry.recordAll_ok_iff h.fits).mpr fun e he =>
      ⟨(ha e he).1, by rw [h.characters]; exact (ha e he).2⟩
  obtain ⟨m, hm⟩ := hrecorded
  exact ⟨_, map_eq_ok.mpr ⟨m, hm, rfl⟩⟩

theorem Walk.StandsOn.enter (h : walk.StandsOn r w) {a : Action} {entered : Walk ω}
    (hentered : walk.enter r uid a = .ok entered) : entered.StandsOn r w := by
  obtain ⟨m, _, rfl⟩ := map_eq_ok.mp hentered
  refine ⟨Registry.fits_recordAll h.fits _ _, ?_⟩
  intro name
  exact (Registry.isSome_sheet?_recordAll r _ _ walk.scratch name).trans (h.characters name)

/-- A walk goes through if all preconditions can be decided against the world, and all effects pass the
check and are about characters that are there. -/
theorem explore_succeeds
    (hp : p.EachCondition (fun c => ∃ b, r.evaluate w c = .ok b)
      fun e => r.checkEffect e = .ok () ∧ (sheet? w e.character).isSome)
    {depth : Nat} (h : walk.StandsOn r w) : ∃ found, explore r w p depth uid walk = .ok found := by
  induction depth generalizing uid walk with
  | zero => exact ⟨[], rfl⟩
  | succ depth ih =>
    rw [explore]
    cases ha : p.action? uid with
    | none => exact ⟨[], rfl⟩
    | some a =>
      obtain ⟨hpre, heff⟩ := hp uid a ha
      refine bind_succeeds (Registry.evaluateAll_succeeds hpre) fun isOpen _ => ?_
      cases isOpen with
      | false => exact ⟨[], rfl⟩
      | true =>
        -- preconditions look at the world, effects at the layer
        refine bind_succeeds (h.enter_succeeds heff) fun entered hentered => ?_
        by_cases hleaf : a.isLeaf = true
        · exact ⟨[entered], if_pos hleaf⟩
        · rw [if_neg hleaf]
          exact bind_succeeds (mapM_succeeds fun child _ => ih (h.enter hentered)) fun branches _ =>
            ⟨_, rfl⟩

end Discovery

namespace Story

variable {name : String} {c : Character}

/-- **Progress for options.** Every path of a closed story can be scored. -/
theorem Closed.candidates (hs : s.Closed) (hfits : World.Fits s.registry s.cast)
    (hc : s.cast.get? name = some c) (hplot : c.plot.Ready) : ∃ cs, s.candidates? name = .ok cs := by
  have hconditions : c.plot.EachCondition (fun q => ∃ b, s.registry.evaluate s.cast q = .ok b)
      fun e => s.registry.checkEffect e = .ok () ∧ (sheet? s.cast e.character).isSome := by
    intro uid a ha
    obtain ⟨hpre, heff⟩ := hs name c hc uid a ha
    constructor
    · intro q hq
      exact (hpre q hq).evaluate hfits
    · intro e he
      obtain ⟨hcheck, hcharacter⟩ := (heff e he).check
      exact ⟨hcheck, by rw [isSome_sheet?_cast]; exact hcharacter⟩
  have hwalks : ∃ found, Discovery.walks s.registry s.cast c.plot = .ok found :=
    bind_succeeds (mapM_succeeds fun root _ => Discovery.explore_succeeds hconditions
      (Discovery.standsOn_start hfits))
      fun branches _ => ⟨_, rfl⟩
  obtain ⟨found, hfound⟩ := hwalks
  have hmark : c.plot.ensureValidated = .ok () := if_pos hplot.validated
  unfold candidates?
  rw [character?_eq_ok.mpr hc]
  show ∃ cs, Discovery.candidates s.registry s.cast s.settings.conversationType c = .ok cs
  refine bind_succeeds ⟨(), mapError_eq_ok.mpr hmark⟩ fun _ _ => ?_
  exact bind_succeeds ⟨found, mapError_eq_ok.mpr hfound⟩ fun _ _ => ⟨_, rfl⟩

theorem options_ok {cs : List Candidate} (h : s.candidates? name = .ok cs) (count : Nat) :
    ∃ paths, (s.options name count).result = .ok paths := by
  unfold options scoredOptions
  rw [h]
  exact ⟨_, rfl⟩

/-- **Progress for paths.** Every path through mapped actions of a closed story passes the checks. -/
theorem Closed.checkedEffects? (hs : s.Closed) (hc : s.cast.get? name = some c) {path : List Uid}
    (hpath : ∀ uid ∈ path, c.plot.mapped uid = true) : ∃ es, s.checkedEffects? name path = .ok es := by
  refine checkedEffects?_ok_iff.mpr ⟨c, hc, fun uid huid => ?_⟩
  obtain ⟨a, ha⟩ := Plot.mapped_iff.mp (hpath uid huid)
  exact ⟨a, ha, fun e he => ((hs name c hc uid a ha).2 e he).check⟩

/-! ## Soundness -/

/-- **In closed stories nothing goes wrong.** Let a story come about from a new one by any calls,
successful or failing, of which those that load actions bring in only conditions that are closed at that
moment. Then the story is closed, and for every character options are offered, every list of mapped
actions can be taken, and the bound on the walk that finds the options never cuts it short. -/
theorem closed_stories_play (h : ReachableBy ClosedDecls s) :
    s.Closed ∧ ∀ name c, s.cast.get? name = some c →
      (∀ count, ∃ paths, (s.options name count).result = .ok paths) ∧
      (∀ path, (∀ uid ∈ path, c.plot.mapped uid = true) → (s.execute name path).result = .ok ()) ∧
      (∀ depth uid walk, c.plot.size ≤ depth →
        Discovery.explore s.registry s.cast c.plot depth uid walk =
        Discovery.explore s.registry s.cast c.plot c.plot.size uid walk) := by
  refine ⟨h.closed, ?_⟩
  intro name c hc
  have hfits : World.Fits s.registry s.cast := h.sound.fits
  have hplot : c.plot.Ready := h.ready name c hc
  refine ⟨?_, ?_, ?_⟩
  · intro count
    obtain ⟨cs, hcs⟩ := h.closed.candidates hfits hc hplot
    exact options_ok hcs count
  · intro path hpath
    obtain ⟨es, hes⟩ := h.closed.checkedEffects? hc hpath
    exact execute_succeeds hfits hes
  · intro depth uid walk hdepth
    exact Discovery.explore_of_size_le s.registry s.cast hplot.acyclic hdepth uid walk

/-- Two characters who are about to meet. -/
def meeting : Story :=
  [Operation.loadCategories [.numeric "Mood" ["happy"] 0 10 5, .boolean "Known" ["met"] false],
    .loadCharacters ["Ann", "Bob"]].foldl (fun s op => op.after s) (start .default (.listed []))

/-- What Bob may do: wave if Ann is in the mood, and introduce himself. -/
def introduction : List ActionDecl :=
  [{ ActionDecl.new 1 "Wave" with
      first := true
      preconditions := [⟨⟨"Ann", "Mood", "happy"⟩, .greater, .int 3⟩]
      leadsTo := [2] },
    { ActionDecl.new 2 "Introduce" with
      effects :=
        [⟨⟨"Ann", "Mood", "happy"⟩, .add, .int 2⟩, ⟨⟨"Bob", "Known", "met"⟩, .assign, .bool true⟩] }]

/-- Ann leaves after all, and with her what Bob's actions say about her. -/
def parted : Story :=
  [Operation.loadActions "Bob" introduction, .removeCharacter "Ann"].foldl
    (fun s op => op.after s) meeting

/-- Bob can still act. -/
theorem closed_stories_play_parted :
    ReachableBy ClosedDecls parted ∧ (∃ paths, (parted.options "Bob" 3).result = .ok paths) ∧
      (parted.execute "Bob" [2, 1]).result = .ok () := by
  have hdecls : ClosedDecls meeting introduction := by decide
  have hmeeting : ReachableBy ClosedDecls meeting := by
    have hnew : new? .default (.listed []) = .ok (start .default (.listed [])) := rfl
    exact .call (.loadCharacters _) (.call (.loadCategories _) (.new hnew) trivial) trivial
  have hparted : ReachableBy ClosedDecls parted :=
    .call (.removeCharacter "Ann")
      (.call (.loadActions "Bob" introduction) hmeeting fun _ => hdecls) trivial
  obtain ⟨_, hplay⟩ := closed_stories_play hparted
  have hbob : (parted.cast.get? "Bob").any (fun c => [2, 1].all (c.plot.mapped ·)) = true := by decide
  cases hc : parted.cast.get? "Bob" with
  | none => rw [hc] at hbob; cases hbob
  | some c =>
    rw [hc] at hbob
    obtain ⟨hoptions, hexecute, _⟩ := hplay "Bob" c hc
    exact ⟨hparted, hoptions 3, hexecute [2, 1] (List.all_eq_true.mp hbob)⟩

end Story
end Narrative
