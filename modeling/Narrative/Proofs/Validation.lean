import Mathlib.Data.FinEnum
import Mathlib.Data.Fintype.Card
import Narrative.Proofs.Editing

/-!
# `Proofs.Validation` — the mark of a validated plot is earned

Whoever traverses a plot trusts its mark and looks at nothing else. The mark is a fact about the
whole shape that was found once and kept since, through edits that are not checked again. Those that
bring in a first action, an action or a link take the mark away; the others keep it, so they have to
keep the shape sound.

The invariant is therefore an implication: a plot that has the mark is well-shaped. It says nothing
of plots without the mark, which is how any plot may start.

Behind the mark no traversal goes on for ever. The recursions of `pathsFrom` and of `explore` go
from a uid to its children, and where nothing leads back to itself that comes to an end. The bound
that both carry is then no part of what they give: each satisfies the equation of the recursion
without it.

## Contents
- **Edits.** `Edit`, `Edit.after`, and `Edited` for what comes about by them.
- **The mark.** `Earned`, kept by each edit (`Earned.after`) and so by all (`Edited.earned`).
- **Traversal.** `wellFounded_links`; one round of each recursion, `pathsRound` and `exploreRound`.
- The main result `traversal_ends_of_isValidated`.
-/

namespace Narrative
open Outcome Relation

namespace Plot

variable {p p' : Plot} {uid : Uid}

/-! ## Edits -/

/-- A call of an operation by which a plot may change. -/
inductive Edit where
  | addFirst (uid : Uid)
  /-- Maps an action that has nothing but a name. -/
  | mapAction (name : String) (uid : Uid)
  | insert (a : Action)
  | addChild (parent child : Uid)
  | spreadLabel (uid : Uid) (label : String)
  | validate
  | removeAction (uid : Uid)
  /-- Changes the name, the conditions or the label of an action, or whatever else is not a link. -/
  | revise (uid : Uid) (f : Action → Action) (h : ∀ a, (f a).children = a.children)
  /-- Changes all actions in this way. -/
  | reviseAll (f : Action → Action) (h : ∀ a, (f a).children = a.children)

/-- The plot that an edit leaves, whether it succeeds or fails. -/
def Edit.after : Edit → Plot → Plot
  | addFirst uid, p => p.addFirst uid
  | mapAction name uid, p => (Attempt.ofExcept p (p.insert (.new uid name))).state
  | insert a, p => (Attempt.ofExcept p (p.insert a)).state
  | addChild parent child, p => (Attempt.ofExcept p (p.addChild parent child)).state
  | spreadLabel uid label, p => (Attempt.ofExcept p (p.spreadLabel uid label)).state
  | validate, p => (Attempt.ofExcept p p.validate).state
  | removeAction uid, p => p.removeAction uid
  | revise uid f _, p => p.updateAction uid f
  | reviseAll f _, p => p.updateAll f

/-- The plots that come about by edits. The first may be any that has not been validated: the empty
one, or one that was read in with whatever first actions, links and uids. -/
inductive Edited : Plot → Prop where
  | unmarked {p : Plot} (h : p.validated = false) : Edited p
  | edit {p : Plot} (h : Edited p) (e : Edit) : Edited (e.after p)

/-- A list of edits can be made one after the other. -/
theorem Edited.edits (h : p.Edited) (es : List Edit) : (es.foldl (fun p e => e.after p) p).Edited := by
  induction es generalizing p with
  | nil => exact h
  | cons e es ih => exact ih (h.edit e)

/-! ## The mark -/

/-- A plot has **earned** its mark if it is well-shaped or has none. -/
def Earned (p : Plot) : Prop := p.validated = true → p.WellShaped

theorem earned_of_unmarked (h : p.validated = false) : p.Earned :=
  fun hmark => by rw [h] at hmark; cases hmark

theorem Earned.of_sameShape (hp : p.Earned) (h : SameShape p p') : p'.Earned := fun hmark =>
  h.wellShaped (hp (h.validated ▸ hmark))

/-- Of an edit that may fail, only the success has to be looked at. -/
theorem Earned.ofExcept {x : Except PlotError Plot} (hp : p.Earned) (h : ∀ p', x = .ok p' → p'.Earned) :
    (Attempt.ofExcept p x).state.Earned := by
  cases x with
  | error e => exact hp
  | ok p' => exact h p' rfl

theorem earned_insert {a : Action} (h : p.insert a = .ok p') : p'.Earned := by
  unfold insert at h
  split at h
  · cases h
  · cases h
    exact earned_of_unmarked rfl

theorem Earned.addFirst (hp : p.Earned) (uid : Uid) : (p.addFirst uid).Earned := by
  unfold Plot.addFirst
  split
  · exact hp
  · exact earned_of_unmarked rfl

theorem Earned.addChild {parent child : Uid} (hp : p.Earned) (h : p.addChild parent child = .ok p') :
    p'.Earned := by
  unfold Plot.addChild at h
  split at h
  · cases h
  · split at h
    · -- the link is there already, and nothing changes
      cases h
      exact hp
    · cases h
      exact earned_of_unmarked rfl

theorem Earned.removeAction (hp : p.Earned) (gone : Uid) : (p.removeAction gone).Earned := fun hmark =>
  (hp (validated_removeAction p gone ▸ hmark)).removeAction gone

/-- **Every edit keeps the mark earned.** -/
theorem Earned.after (hp : p.Earned) (e : Edit) : (e.after p).Earned := by
  cases e with
  | addFirst uid => exact hp.addFirst uid
  | mapAction name uid => exact hp.ofExcept fun _ h => earned_insert h
  | insert a => exact hp.ofExcept fun _ h => earned_insert h
  | addChild parent child => exact hp.ofExcept fun _ h => hp.addChild h
  | spreadLabel uid label =>
    exact hp.ofExcept fun _ h => hp.of_sameShape (relabelled_spreadLabel h).sameShape
  | validate =>
    refine hp.ofExcept fun p' h _ => ?_
    -- only the mark is new, and it is no part of the shape
    obtain ⟨rfl, hshape⟩ := validate_ok h
    exact ⟨hshape.roots, hshape.links, hshape.acyclic⟩
  | removeAction uid => exact hp.removeAction uid
  | revise uid f h => exact hp.of_sameShape (sameShape_updateAction p uid h)
  | reviseAll f h => exact hp.of_sameShape (sameShape_updateAll p h)

theorem Edited.earned (h : p.Edited) : p.Earned := by
  induction h with
  | unmarked h => exact earned_of_unmarked h
  | edit _ e ih => exact ih.after e

/-- An edited plot that may be traversed is well-shaped: it has earned its mark, or is empty. -/
theorem Edited.wellShaped (h : p.Edited) (hv : p.isValidated = true) : p.WellShaped := by
  rcases Bool.or_eq_true _ _ ▸ hv with hmark | hempty
  · exact h.earned hmark
  · obtain ⟨hroots, hactions⟩ := Bool.and_eq_true _ _ ▸ hempty
    have hunmapped : ∀ a b, ¬p.Leads a b := by
      intro a b hlink
      obtain ⟨action, ha⟩ := mapped_iff.mp hlink.mapped
      rw [isEmpty_actions_iff.mp hactions a] at ha
      cases ha
    refine ⟨?_, fun a b hlink => absurd hlink (hunmapped a b), fun a hloop => ?_⟩
    · intro uid huid
      rw [List.isEmpty_iff.mp hroots] at huid
      exact absurd huid List.not_mem_nil
    · obtain ⟨b, hlink, _⟩ := TransGen.head'_iff.mp hloop
      exact hunmapped a b hlink

/-! ## Traversal -/

/-- **Going from uids to children comes to an end** where no action leads back to itself. -/
theorem wellFounded_links (hp : p.Acyclic) : WellFounded fun child uid => p.Leads uid child := by
  have htrans : IsTrans Uid fun b a => TransGen p.Leads a b := ⟨fun _ _ _ hba hcb => hcb.trans hba⟩
  have hirrefl : Std.Irrefl fun b a => TransGen p.Leads a b := ⟨hp⟩
  exact Subrelation.wf (fun hlink => .single hlink)
    (Finite.wellFounded_of_trans_of_irrefl fun b a => TransGen p.Leads a b)

/-- One round of the recursion of `pathsFrom`: the paths from a uid, by the paths from its children. -/
def pathsRound (p : Plot) (below : Uid → List (List Uid)) (uid : Uid) : List (List Uid) :=
  match p.action? uid with
  | none => []
  | some a => if a.isLeaf then [[uid]] else (a.children.flatMap below).map (uid :: ·)

/-- Without cycles, the bound on paths is no part of what they are. -/
theorem pathsFrom_size (hp : p.Acyclic) (uid : Uid) :
    p.pathsFrom p.size uid = p.pathsRound (p.pathsFrom p.size) uid :=
  ((descends_pathsFrom p).of_size_le hp (Nat.le_succ _) uid).symm

end Plot

namespace Discovery

variable {ω : Type} [World ω] {p : Plot}

/-- One round of the recursion of `explore`: the walks that go on with a uid, by the walks that go
on with its children. -/
def exploreRound (r : Registry) (w : ω) (p : Plot)
    (below : Uid → Walk ω → Except EvaluationError (List (Walk ω))) (uid : Uid) (walk : Walk ω) :
    Except EvaluationError (List (Walk ω)) :=
  match p.action? uid with
  | none => .ok []
  | some a => do
    if ← r.evaluateAll w a.preconditions then
      let walk ← walk.enter r uid a
      if a.isLeaf then return [walk]
      else return (← a.children.mapM fun child => below child walk).flatten
    else return []

/-- Without cycles, the bound on walks is no part of what they are. -/
theorem explore_size (r : Registry) (w : ω) (hp : p.Acyclic) (uid : Uid) (walk : Walk ω) :
    explore r w p p.size uid walk = exploreRound r w p (explore r w p p.size) uid walk :=
  (explore_of_size_le r w hp (Nat.le_succ _) uid walk).symm

end Discovery

namespace Plot

variable {p : Plot}

/-- **A plot that may be traversed can be.** Take any plot without a mark and edit it in any way,
with successes and failures. Whenever the result counts as validated, its first actions and all
children are mapped, and no action leads back to itself. So the recursions over paths and over walks
come to an end, and give what they would give without any bound: both solve their equation, and go
from uids to children only, which is well-founded. -/
theorem traversal_ends_of_isValidated (h : p.Edited) (hv : p.isValidated = true) :
    (∀ uid ∈ p.roots, p.mapped uid = true) ∧
    (∀ uid child, p.Leads uid child → p.mapped child = true) ∧
    (∀ uid, ¬TransGen p.Leads uid uid) ∧
    (WellFounded fun child uid => p.Leads uid child) ∧
    (∀ uid, p.pathsFrom p.size uid = p.pathsRound (p.pathsFrom p.size) uid) ∧
    ∀ (ω : Type) [World ω] (r : Registry) (w : ω) (uid : Uid) (walk : Discovery.Walk ω),
      Discovery.explore r w p p.size uid walk =
        Discovery.exploreRound r w p (Discovery.explore r w p p.size) uid walk := by
  have hshape : p.WellShaped := h.wellShaped hv
  refine ⟨hshape.roots, hshape.links, hshape.acyclic, ?_, ?_, ?_⟩
  · exact wellFounded_links hshape.acyclic
  · exact pathsFrom_size hshape.acyclic
  · intro ω _ r w uid walk
    exact Discovery.explore_size r w hshape.acyclic uid walk

/-- Two ways from `1` to `4`, and a third one through `5` that leads back; `5` is taken out before
the plot is validated, and `3` afterwards, without another validation. -/
def crossing : Plot :=
  [Edit.addFirst 1, .mapAction "Arrive" 1, .addChild 1 2, .addChild 1 3, .addChild 1 5,
    .mapAction "Bow" 2, .mapAction "Nod" 3, .mapAction "Leave" 4, .mapAction "Stumble" 5, .addChild 2 4,
    .addChild 3 4, .addChild 5 1, .validate, .removeAction 5, .validate, .spreadLabel 2 "polite",
    .removeAction 3].foldl (fun p e => e.after p) empty

/-- That plot counts as validated, its links end, and the one path that is left is the one that they
give. -/
theorem traversal_ends_of_isValidated_crossing :
    crossing.Edited ∧ crossing.isValidated = true ∧
    (WellFounded fun child uid => crossing.Leads uid child) ∧
      crossing.Leads 1 2 ∧ crossing.Leads 2 4 ∧ ¬TransGen crossing.Leads 1 1 ∧
      crossing.pathsFrom crossing.size 1 = crossing.pathsRound (crossing.pathsFrom crossing.size) 1 ∧
      crossing.pathsRound (crossing.pathsFrom crossing.size) 1 = [[1, 2, 4]] := by
  have hedited : crossing.Edited := Edited.edits (.unmarked rfl) _
  have hv : crossing.isValidated = true := by decide
  obtain ⟨_, _, hacyclic, hends, hpaths, _⟩ := traversal_ends_of_isValidated hedited hv
  refine ⟨hedited, hv, hends, ?_, ?_, hacyclic 1, hpaths 1, ?_⟩
  · show 2 ∈ crossing.childrenOf 1
    decide
  · show 4 ∈ crossing.childrenOf 2
    decide
  · decide

end Plot
end Narrative
