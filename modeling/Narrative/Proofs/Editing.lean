import Narrative.Proofs.Cast
import Narrative.Proofs.Shape
import Narrative.Proofs.Sheet
import Narrative.Story.Load

/-!
# `Proofs.Editing` — what edits do to the shape and to the conditions of a plot

A plot that has been validated is edited further: labels spread, conditions are taken out, actions
go. The mark stays through all of these, so they must leave the shape sound. What brings new links
in clears the mark, and loading declarations ends with another validation.

Conditions travel with their actions. No edit writes one, and the only ones to come in are those that
declarations bring along.

## Contents
- **Shapes.** `SameShape`, `Relabelled`; a plot is `Ready` if it may be traversed and is well-shaped.
- **Removing an action.** `Ready.removeAction`.
- **Conditions.** `EachCondition`, and `Keeps` for edits that leave all conditions alone.
- **Loading.** `extend_eq_ok`, `extend_ready` and `extend_conditions`.
-/

namespace Narrative
open Outcome Relation

/-- The action without its label. -/
def Action.unlabelled (a : Action) : Action := { a with label := none }

namespace Plot

variable {p p' p'' : Plot} {uid : Uid}

theorem action?_updateAction (p : Plot) (uid : Uid) (f : Action → Action) (uid' : Uid) :
    (p.updateAction uid f).action? uid' = if uid' = uid then (p.action? uid).map f else p.action? uid' :=
  SortedMap.get?_modify p.actions uid uid' f

/-! ## Shapes -/

/-- Two plots have the **same shape** if they have the same first actions, the same mark, and the same
children everywhere. -/
structure SameShape (p p' : Plot) : Prop where
  roots : p'.roots = p.roots
  validated : p'.validated = p.validated
  children : ∀ uid, (p'.action? uid).map (·.children) = (p.action? uid).map (·.children)

theorem SameShape.mapped (h : SameShape p p') (uid : Uid) : p'.mapped uid = p.mapped uid := by
  have hsome := congrArg Option.isSome (h.children uid)
  rw [Option.isSome_map, Option.isSome_map] at hsome
  exact hsome

/-- Links are read off the children, so they are the same relation. -/
theorem SameShape.leads (h : SameShape p p') : p'.Leads = p.Leads := by
  funext a b
  show (b ∈ ((p'.action? a).map (·.children)).getD []) = (b ∈ ((p.action? a).map (·.children)).getD [])
  rw [h.children a]

theorem SameShape.wellShaped (h : SameShape p p') (hp : p.WellShaped) : p'.WellShaped := by
  refine ⟨?_, ?_, ?_⟩
  · intro uid huid
    rw [h.roots] at huid
    rw [h.mapped]
    exact hp.roots uid huid
  · intro a b hab
    rw [h.leads] at hab
    rw [h.mapped]
    exact hp.links a b hab
  · intro a hloop
    rw [h.leads] at hloop
    exact hp.acyclic a hloop

theorem isEmpty_actions_iff : p.actions.isEmpty = true ↔ ∀ uid, p.action? uid = none :=
  SortedMap.isEmpty_iff

theorem SameShape.isValidated (h : SameShape p p') (hp : p.isValidated = true) :
    p'.isValidated = true := by
  unfold Plot.isValidated at hp ⊢
  rw [h.validated, h.roots]
  rw [Bool.or_eq_true, Bool.and_eq_true] at hp ⊢
  refine hp.imp id fun ⟨hroots, hactions⟩ => ⟨hroots, isEmpty_actions_iff.mpr fun uid => ?_⟩
  have hnone := h.children uid
  rw [isEmpty_actions_iff.mp hactions uid] at hnone
  exact Option.map_eq_none_iff.mp hnone

/-- Edits in place that leave the children alone keep the shape. -/
theorem sameShape_updateAll (p : Plot) {f : Action → Action} (hf : ∀ a, (f a).children = a.children) :
    SameShape p (p.updateAll f) := by
  refine ⟨rfl, rfl, fun uid => ?_⟩
  rw [action?_updateAll, Option.map_map]
  exact congrArg (Option.map · _) (funext hf)

/-- Such an edit of one action does too. -/
theorem sameShape_updateAction (p : Plot) (uid : Uid) {f : Action → Action}
    (hf : ∀ a, (f a).children = a.children) :
    SameShape p (p.updateAction uid f) := by
  refine ⟨rfl, rfl, fun uid' => ?_⟩
  rw [action?_updateAction]
  by_cases huid : uid' = uid
  · rw [if_pos huid, huid, Option.map_map]
    exact congrArg (Option.map · _) (funext hf)
  · rw [if_neg huid]

/-- A plot is **ready** if it may be traversed, and rightly so. -/
structure Ready (p : Plot) : Prop extends p.WellShaped where
  validated : p.isValidated = true

theorem ready_empty : Ready empty where
  roots := fun _ h => absurd h List.not_mem_nil
  links := fun _ _ h => absurd h List.not_mem_nil
  acyclic := fun _ hloop => by
    obtain ⟨_, h, _⟩ := TransGen.head'_iff.mp hloop
    exact absurd h List.not_mem_nil
  validated := rfl

theorem Ready.of_sameShape (hp : p.Ready) (h : SameShape p p') : p'.Ready :=
  { h.wellShaped hp.toWellShaped with validated := h.isValidated hp.validated }

/-! ## Labels -/

/-- Two plots that differ in labels only. -/
structure Relabelled (p p' : Plot) : Prop where
  roots : p'.roots = p.roots
  validated : p'.validated = p.validated
  actions : ∀ uid, (p'.action? uid).map Action.unlabelled = (p.action? uid).map Action.unlabelled

theorem relabelled_refl (p : Plot) : Relabelled p p := ⟨rfl, rfl, fun _ => rfl⟩

theorem Relabelled.trans (h : Relabelled p p') (h' : Relabelled p' p'') : Relabelled p p'' :=
  ⟨h'.roots.trans h.roots, h'.validated.trans h.validated,
    fun uid => (h'.actions uid).trans (h.actions uid)⟩

theorem Relabelled.sameShape (h : Relabelled p p') : SameShape p p' := by
  refine ⟨h.roots, h.validated, fun uid => ?_⟩
  have hchildren := congrArg (Option.map (·.children)) (h.actions uid)
  rw [Option.map_map, Option.map_map] at hchildren
  exact hchildren

theorem relabelled_labelIfNone (p : Plot) (uid : Uid) (label : String) :
    Relabelled p (p.updateAction uid (labelIfNone · label)) := by
  refine ⟨rfl, rfl, fun uid' => ?_⟩
  rw [action?_updateAction]
  by_cases huid : uid' = uid
  · rw [if_pos huid, huid, Option.map_map]
    rfl
  · rw [if_neg huid]

theorem relabelled_foldl {f : Plot → Uid → Plot} (hf : ∀ p uid, Relabelled p (f p uid))
    (uids : List Uid) (p : Plot) :
    Relabelled p (uids.foldl f p) := by
  induction uids generalizing p with
  | nil => exact relabelled_refl p
  | cons uid uids ih => exact (hf p uid).trans (ih _)

theorem relabelled_labelBelow (label : String) (depth : Nat) (p : Plot) (uid : Uid) :
    Relabelled p (labelBelow label depth p uid) := by
  induction depth generalizing p uid with
  | zero => exact relabelled_refl p
  | succ depth ih =>
    rw [labelBelow]
    split
    · exact relabelled_refl p
    · split
      · exact relabelled_refl p
      · exact (relabelled_labelIfNone p uid label).trans (relabelled_foldl ih _ _)

theorem relabelled_spreadLabel {label : String} (h : p.spreadLabel uid label = .ok p') :
    Relabelled p p' := by
  unfold spreadLabel at h
  split at h
  · cases h
  · cases h
    exact (relabelled_labelIfNone p _ _).trans (relabelled_foldl (relabelled_labelBelow _ _) _ _)

theorem relabelled_spread {d : ActionDecl} (h : p.spread d = .ok p') : Relabelled p p' := by
  unfold spread at h
  split at h
  · cases h
    exact relabelled_refl p
  · exact relabelled_spreadLabel h

theorem relabelled_spreadAll {ds : List ActionDecl} (h : ds.foldlM spread p = .ok p') :
    Relabelled p p' :=
  foldlM_keeps (P := Relabelled p) (fun _ _ _ _ hq hspread => hq.trans (relabelled_spread hspread))
    (relabelled_refl p) h

/-! ## Removing an action -/

theorem removeAction_of_unmapped {gone : Uid} (h : ¬p.mapped gone = true) : p.removeAction gone = p :=
  if_neg h

theorem action?_removeAction {gone : Uid} (h : p.mapped gone = true) (uid : Uid) :
    (p.removeAction gone).action? uid =
    if uid = gone then none else (p.action? uid).map fun a =>
      { a with children := a.children.filter (· != gone), parents := a.parents.filter (· != gone) } := by
  unfold removeAction
  rw [if_pos h]
  show ((p.actions.erase gone).map _).get? uid = _
  rw [SortedMap.get?_map, SortedMap.get?_erase]
  by_cases huid : uid = gone
  · rw [if_pos huid, if_pos huid]; rfl
  · rw [if_neg huid, if_neg huid]; rfl

/-- An action that goes takes its links along, and no others. -/
theorem leads_removeAction {gone a b : Uid} (h : p.mapped gone = true) :
    (p.removeAction gone).Leads a b ↔ p.Leads a b ∧ a ≠ gone ∧ b ≠ gone := by
  unfold Leads childrenOf
  rw [action?_removeAction h]
  by_cases ha : a = gone
  · rw [if_pos ha]
    exact ⟨fun hmem => absurd hmem List.not_mem_nil, fun hmem => absurd ha hmem.2.1⟩
  · rw [if_neg ha]
    cases p.action? a with
    | none =>
      exact ⟨fun hmem => absurd hmem List.not_mem_nil, fun hmem => absurd hmem.1 List.not_mem_nil⟩
    | some action =>
      show b ∈ action.children.filter (· != gone) ↔ b ∈ action.children ∧ a ≠ gone ∧ b ≠ gone
      rw [List.mem_filter, bne_iff_ne]
      exact and_congr_right fun _ => (and_iff_right ha).symm

theorem mapped_removeAction {gone : Uid} (h : p.mapped gone = true) (hne : uid ≠ gone) :
    (p.removeAction gone).mapped uid = p.mapped uid := by
  show ((p.removeAction gone).action? uid).isSome = (p.action? uid).isSome
  rw [action?_removeAction h, if_neg hne, Option.isSome_map]

/-- Without one of its actions the shape is still sound. -/
theorem WellShaped.removeAction (hp : p.WellShaped) (gone : Uid) : (p.removeAction gone).WellShaped := by
  by_cases h : p.mapped gone = true
  · have hsub : ∀ a b, (p.removeAction gone).Leads a b → p.Leads a b :=
      fun a b hab => ((leads_removeAction h).mp hab).1
    refine ⟨?_, ?_, ?_⟩
    · intro uid huid
      have hroots : (p.removeAction gone).roots = p.roots.filter (· != gone) := by
        unfold Plot.removeAction; rw [if_pos h]
      rw [hroots, List.mem_filter, bne_iff_ne] at huid
      rw [mapped_removeAction h huid.2]
      exact hp.roots uid huid.1
    · intro a b hab
      obtain ⟨hab, _, hb⟩ := (leads_removeAction h).mp hab
      rw [mapped_removeAction h hb]
      exact hp.links a b hab
    · intro a hloop
      have hold : TransGen p.Leads a a := TransGen.mono hsub a a hloop
      exact hp.acyclic a hold
  · rw [removeAction_of_unmapped h]
    exact hp

theorem validated_removeAction (p : Plot) (gone : Uid) :
    (p.removeAction gone).validated = p.validated := by
  unfold Plot.removeAction
  split <;> rfl

/-- **An action can be removed without another validation.** -/
theorem Ready.removeAction (hp : p.Ready) (gone : Uid) : (p.removeAction gone).Ready := by
  by_cases h : p.mapped gone = true
  · -- a plot with an action in it owes its mark to a validation
    have hmark : p.validated = true := by
      refine (Bool.or_eq_true _ _ ▸ hp.validated).resolve_right fun hempty => ?_
      obtain ⟨a, ha⟩ := mapped_iff.mp h
      rw [isEmpty_actions_iff.mp (Bool.and_eq_true _ _ ▸ hempty).2 gone] at ha
      cases ha
    refine ⟨hp.toWellShaped.removeAction gone, ?_⟩
    unfold Plot.isValidated
    rw [validated_removeAction, hmark]
    rfl
  · rw [removeAction_of_unmapped h]
    exact hp

/-! ## Conditions -/

/-- All preconditions in the plot satisfy `P` and all effects satisfy `E`. -/
def EachCondition (P : Precondition → Prop) (E : Effect → Prop) (p : Plot) : Prop :=
  ∀ uid a, p.action? uid = some a → (∀ c ∈ a.preconditions, P c) ∧ ∀ e ∈ a.effects, E e

/-- An edit that leaves the conditions of the actions that stay as they are. -/
def Keeps (p p' : Plot) : Prop := ∀ uid a', p'.action? uid = some a' →
  ∃ a, p.action? uid = some a ∧ a'.preconditions = a.preconditions ∧ a'.effects = a.effects

variable {P P' : Precondition → Prop} {E E' : Effect → Prop}

theorem eachCondition_empty (P : Precondition → Prop) (E : Effect → Prop) : EachCondition P E empty :=
  fun _ _ h => nomatch h

theorem EachCondition.of_keeps (hp : p.EachCondition P E) (h : Keeps p p') : p'.EachCondition P E := by
  intro uid a' ha'
  obtain ⟨a, ha, hpre, heff⟩ := h uid a' ha'
  rw [hpre, heff]
  exact hp uid a ha

/-- Conditions may be taken out, and those that stay may be asked for something else. -/
theorem EachCondition.updateAll (hp : p.EachCondition P E) {f : Action → Action}
    (hpre : ∀ a, ∀ c ∈ (f a).preconditions, c ∈ a.preconditions ∧ (P c → P' c))
    (heff : ∀ a, ∀ e ∈ (f a).effects, e ∈ a.effects ∧ (E e → E' e)) :
    (p.updateAll f).EachCondition P' E' := by
  intro uid a' ha'
  rw [action?_updateAll] at ha'
  obtain ⟨a, ha, rfl⟩ := Option.map_eq_some_iff.mp ha'
  obtain ⟨hp, he⟩ := hp uid a ha
  exact ⟨fun c hc => (hpre a c hc).2 (hp c (hpre a c hc).1),
    fun e hmem => (heff a e hmem).2 (he e (heff a e hmem).1)⟩

theorem keeps_refl (p : Plot) : Keeps p p := fun _ a ha => ⟨a, ha, rfl, rfl⟩

theorem Keeps.trans (h : Keeps p p') (h' : Keeps p' p'') : Keeps p p'' := by
  intro uid a'' ha''
  obtain ⟨a', ha', hpre', heff'⟩ := h' uid a'' ha''
  obtain ⟨a, ha, hpre, heff⟩ := h uid a' ha'
  exact ⟨a, ha, hpre'.trans hpre, heff'.trans heff⟩

/-- An edit of one action that leaves its conditions alone. -/
theorem keeps_updateAction (p : Plot) (uid : Uid) {f : Action → Action}
    (hf : ∀ a, (f a).preconditions = a.preconditions ∧ (f a).effects = a.effects) :
    Keeps p (p.updateAction uid f) := by
  intro uid' a' ha'
  rw [action?_updateAction] at ha'
  by_cases huid : uid' = uid
  · rw [if_pos huid] at ha'
    obtain ⟨a, ha, rfl⟩ := Option.map_eq_some_iff.mp ha'
    exact ⟨a, huid ▸ ha, hf a⟩
  · rw [if_neg huid] at ha'
    exact ⟨a', ha', rfl, rfl⟩

theorem Relabelled.keeps (h : Relabelled p p') : Keeps p p' := by
  intro uid a' ha'
  have hactions := h.actions uid
  rw [ha'] at hactions
  obtain ⟨a, ha, heq⟩ := Option.map_eq_some_iff.mp hactions.symm
  exact ⟨a, ha, (congrArg Action.preconditions heq).symm, (congrArg Action.effects heq).symm⟩

theorem keeps_removeAction (p : Plot) (gone : Uid) : Keeps p (p.removeAction gone) := by
  by_cases h : p.mapped gone = true
  · intro uid a' ha'
    rw [action?_removeAction h] at ha'
    by_cases huid : uid = gone
    · rw [if_pos huid] at ha'; cases ha'
    · rw [if_neg huid] at ha'
      obtain ⟨a, ha, rfl⟩ := Option.map_eq_some_iff.mp ha'
      exact ⟨a, ha, rfl, rfl⟩
  · rw [removeAction_of_unmapped h]
    exact keeps_refl p

theorem keeps_addFirst (p : Plot) (uid : Uid) : Keeps p (p.addFirst uid) := by
  unfold addFirst
  split <;> exact keeps_refl p

/-- An action may be exchanged for one with the same conditions, with or without the mark. -/
theorem keeps_exchange {a b : Action} (ha : p.action? uid = some a)
    (hpre : b.preconditions = a.preconditions) (heff : b.effects = a.effects) (mark : Bool) :
    Keeps p { p with actions := p.actions.insert uid b, validated := mark } := by
  intro uid' a' ha'
  change (p.actions.insert uid b).get? uid' = some a' at ha'
  rw [SortedMap.get?_insert] at ha'
  by_cases huid : uid' = uid
  · rw [if_pos huid] at ha'
    cases ha'
    exact ⟨a, huid ▸ ha, hpre, heff⟩
  · rw [if_neg huid] at ha'
    exact ⟨a', ha', rfl, rfl⟩

/-- A link changes children and parents only. -/
theorem keeps_addChild {parent child : Uid} (h : p.addChild parent child = .ok p') : Keeps p p' := by
  unfold addChild at h
  split at h
  · cases h
  · next a ha =>
    split at h
    · cases h
      exact keeps_refl p
    · cases h
      have hparent := keeps_exchange (b := { a with children := a.children ++ [child] }) ha rfl rfl false
      exact hparent.trans
        (keeps_updateAction _ child (f := fun c => { c with parents := c.parents ++ [parent] })
        fun _ => ⟨rfl, rfl⟩)

/-! ## Loading -/

theorem keeps_link {d : ActionDecl} (h : p.link d = .ok p') : Keeps p p' :=
  foldlM_keeps (P := Keeps p) (fun _ _ _ _ hq hlink => hq.trans (keeps_addChild hlink)) (keeps_refl p) h

/-- A declared action comes in with its own conditions. -/
theorem declare_conditions {r : Registry} {owner : String} {d : ActionDecl}
    (h : declare r owner p d = .ok p') (hp : p.EachCondition P E)
    (hpre : ∀ c ∈ d.preconditions, P c) (heff : ∀ e ∈ d.effects, E e) :
    p'.EachCondition P E := by
  obtain ⟨_, _, h⟩ := bind_eq_ok.mp h
  obtain ⟨_, _, h⟩ := bind_eq_ok.mp h
  obtain ⟨q, hq, h⟩ := bind_eq_ok.mp h
  rw [mapError_eq_ok] at hq
  -- `q` is the plot with the action in it, before it is marked as a first one
  have hconditions : q.EachCondition P E := by
    unfold insert at hq
    split at hq
    · cases hq
    · cases hq
      intro uid a ha
      change (p.actions.insert _ _).get? uid = some a at ha
      rw [SortedMap.get?_insert] at ha
      by_cases huid : uid = d.toAction.uid
      · rw [if_pos huid] at ha
        cases ha
        exact ⟨hpre, heff⟩
      · rw [if_neg huid] at ha
        exact hp uid a ha
  cases h
  split
  · exact hconditions.of_keeps (keeps_addFirst q d.uid)
  · exact hconditions

/-- Loading maps and links the declared actions, validates the plot, and then only spreads labels. -/
theorem extend_eq_ok {r : Registry} {owner : String} {ds : List ActionDecl}
    (h : extend r owner p ds = .ok p') :
    ∃ declared linked, ds.foldlM (declare r owner) p = .ok declared ∧
    ds.foldlM link declared = .ok linked ∧
      linked.WellShaped ∧ ds.foldlM spread { linked with validated := true } = .ok p' := by
  obtain ⟨declared, hdeclared, h⟩ := bind_eq_ok.mp h
  rw [mapError_eq_ok] at h
  obtain ⟨linked, hlinked, h⟩ := bind_eq_ok.mp h
  obtain ⟨marked, hmarked, hlabels⟩ := bind_eq_ok.mp h
  obtain ⟨rfl, hshape⟩ := validate_ok hmarked
  exact ⟨declared, linked, hdeclared, hlinked, hshape, hlabels⟩

/-- **A loaded plot is ready**, whatever it was before. -/
theorem extend_ready {r : Registry} {owner : String} {ds : List ActionDecl}
    (h : extend r owner p ds = .ok p') :
    p'.Ready := by
  obtain ⟨_, linked, _, _, hshape, hlabels⟩ := extend_eq_ok h
  -- the mark was given to a well-shaped plot, and labels change neither
  have hmarked : Ready { linked with validated := true } :=
    { roots := hshape.roots, links := hshape.links, acyclic := hshape.acyclic, validated := rfl }
  exact hmarked.of_sameShape (relabelled_spreadAll hlabels).sameShape

/-- Loading brings in the conditions of the declarations and no others. -/
theorem extend_conditions {r : Registry} {owner : String} {ds : List ActionDecl}
    (h : extend r owner p ds = .ok p') (hp : p.EachCondition P E)
    (hds : ∀ d ∈ ds, (∀ c ∈ d.preconditions, P c) ∧ ∀ e ∈ d.effects, E e) :
    p'.EachCondition P E := by
  obtain ⟨declared, linked, hdeclared, hlinked, _, hlabels⟩ := extend_eq_ok h
  have hnew : declared.EachCondition P E :=
    foldlM_keeps (fun d hd _ _ hq hdeclare => declare_conditions hdeclare hq (hds d hd).1 (hds d hd).2)
      hp hdeclared
  have hlinks : Keeps declared linked :=
    foldlM_keeps (P := Keeps declared) (fun _ _ _ _ hq hlink => hq.trans (keeps_link hlink))
      (keeps_refl _) hlinked
  -- the mark is no condition
  have hmarked : EachCondition P E { linked with validated := true } := hnew.of_keeps hlinks
  exact hmarked.of_keeps (relabelled_spreadAll hlabels).keeps

end Plot

end Narrative
