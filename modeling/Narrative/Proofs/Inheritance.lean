import Narrative.Proofs.Accepting
import Narrative.Proofs.Spreading

/-!
# `Proofs.Inheritance` — from whom an action inherits its label

Declarations spread their labels one after the other, each on a plot where the labels of the ones
before have been spread already. Those stand in the way of the later ones, and still it can be said
without them who inherits from whom: an action gets the label of the first declaration that it lies
below, where below is meant **before** any label was spread.

The reason is that a label which has come to stand in the way of an action has come to the action as
well. An action that the earlier ones have not reached therefore has the same declarations above it
before and after.

## Contents
- **One label.** `below_of_spreadLabel`: what a label leaves as it was.
- **All of them.** `inherited?`, the first label above that is not empty, and `labelOf_spreadAll`.
- **The start.** `startLabel`: who has a label before any is spread.
- **Joined declarations.** `labelsDescend_spreadAll` and `labelOf_of_joins`.
- **The main result** is `loadActions_inherits_labels`.
-/

namespace Narrative
open Outcome Relation

namespace Plot

variable {p q : Plot} {label : String} {uid n : Uid} {d : ActionDecl} {ds : List ActionDecl}

/-! ## One label -/

theorem unlabelled_of_spreadLabel (h : p.spreadLabel uid label = .ok q) :
    q.Unlabelled n ↔ p.Unlabelled n ∧ ¬p.Gets uid n := by
  obtain ⟨hgets, hother⟩ := labelOf_spreadLabel h n
  have hmapped := (relabelled_spreadLabel h).sameShape.mapped n
  constructor
  · rintro ⟨hn, hnone⟩
    have hnot : ¬p.Gets uid n := fun hg => Option.some_ne_none label ((hgets hg).symm.trans hnone)
    exact ⟨⟨hmapped.symm.trans hn, (hother hnot).symm.trans hnone⟩, hnot⟩
  · rintro ⟨⟨hn, hnone⟩, hnot⟩
    exact ⟨hmapped.trans hn, (hother hnot).trans hnone⟩

/-- What lies below someone who gets a label gets it, too. -/
theorem Gets.below {a : Uid} (h : p.Gets uid a) (hn : p.Below a n) : p.Gets uid n := by
  refine ⟨hn.unlabelled, .inr ?_⟩
  rcases h.2 with rfl | ha
  · exact hn
  · exact ha.trans hn

/-- **A label does not come between those whom it has not reached and what is above them.** -/
theorem below_of_spreadLabel (h : p.spreadLabel uid label = .ok q) (hn : ¬p.Gets uid n) {a : Uid} :
    q.Below a n ↔ p.Below a n := by
  have hleads : q.Leads = p.Leads := (relabelled_spreadLabel h).sameShape.leads
  constructor
  · exact TransGen.mono (fun _ _ hbc => ⟨hleads ▸ hbc.1, ((unlabelled_of_spreadLabel h).mp hbc.2).1⟩) a n
  · intro hway
    induction hway using TransGen.head_induction_on with
    | single hlast => exact .single ⟨hleads ▸ hlast.1, (unlabelled_of_spreadLabel h).mpr ⟨hlast.2, hn⟩⟩
    | head hab hbn ih =>
      -- had the label come to the next action on the way, it would have come to `n`
      exact .head ⟨hleads ▸ hab.1,
        (unlabelled_of_spreadLabel h).mpr ⟨hab.2, fun hb => hn (hb.below hbn)⟩⟩ ih

theorem gets_of_spreadLabel (h : p.spreadLabel uid label = .ok q) (hn : ¬p.Gets uid n) (a : Uid) :
    q.Gets a n ↔ p.Gets a n := by
  unfold Gets
  rw [unlabelled_of_spreadLabel h, below_of_spreadLabel h hn, and_iff_left hn]

/-! ## All of them -/

open Classical in
/-- The label of the first declaration that is `above` and has one that is not empty. -/
noncomputable def inherited? (above : Uid → Prop) (ds : List ActionDecl) : Option String :=
  ds.findSome? fun d => if above d.uid then d.label.filter (· ≠ "") else none

section Inherited

variable {above above' : Uid → Prop}

theorem inherited?_of_above (hd : d.ownLabel = some label) (h : above d.uid) :
    inherited? above (d :: ds) = some label := by
  unfold inherited?
  rw [List.findSome?_cons, if_pos h, ← ActionDecl.ownLabel_eq, hd]

theorem inherited?_of_not_above (h : d.ownLabel.isSome → ¬above d.uid) :
    inherited? above (d :: ds) = inherited? above ds := by
  unfold inherited?
  rw [List.findSome?_cons]
  by_cases habove : above d.uid
  · rw [if_pos habove, ← ActionDecl.ownLabel_eq, Option.not_isSome_iff_eq_none.mp fun hs => h hs habove]
  · rw [if_neg habove]

/-- Only those are asked for who have a label. -/
theorem inherited?_congr (h : ∀ d ∈ ds, d.ownLabel.isSome → (above d.uid ↔ above' d.uid)) :
    inherited? above ds = inherited? above' ds := by
  induction ds with
  | nil => rfl
  | cons d ds ih =>
    obtain ⟨hd, hds⟩ := List.forall_mem_cons.mp h
    by_cases hsome : d.ownLabel.isSome ∧ above d.uid
    · obtain ⟨label, hlabel⟩ := Option.isSome_iff_exists.mp hsome.1
      rw [inherited?_of_above hlabel hsome.2, inherited?_of_above hlabel ((hd hsome.1).mp hsome.2)]
    · have hnot : d.ownLabel.isSome → ¬above d.uid := fun hs ha => hsome ⟨hs, ha⟩
      rw [inherited?_of_not_above hnot, inherited?_of_not_above fun hs ha => hnot hs ((hd hs).mpr ha),
        ih hds]

/-- Nothing is inherited exactly where no one above has a label. -/
theorem inherited?_eq_none_iff :
    inherited? above ds = none ↔ ∀ d ∈ ds, d.ownLabel.isSome → ¬above d.uid := by
  induction ds with
  | nil => exact ⟨fun _ _ hd => absurd hd List.not_mem_nil, fun _ => rfl⟩
  | cons d ds ih =>
    rw [List.forall_mem_cons]
    by_cases hsome : d.ownLabel.isSome ∧ above d.uid
    · obtain ⟨label, hlabel⟩ := Option.isSome_iff_exists.mp hsome.1
      rw [inherited?_of_above hlabel hsome.2]
      exact ⟨fun h => (nomatch h), fun h => absurd hsome.2 (h.1 hsome.1)⟩
    · have hnot : d.ownLabel.isSome → ¬above d.uid := fun hs ha => hsome ⟨hs, ha⟩
      rw [inherited?_of_not_above hnot, ih]
      exact (and_iff_right hnot).symm

end Inherited

/-- **Where the declarations have spread their labels, an action has the one it had or else inherits
the first that it gets**, going by the plot before. -/
theorem labelOf_spreadAll (h : ds.foldlM spread p = .ok q) (n : Uid) :
    q.labelOf n = (p.labelOf n).or (inherited? (p.Gets · n) ds) := by
  induction ds generalizing p with
  | nil =>
    cases h
    exact (Option.or_none).symm
  | cons d ds ih =>
    rw [List.foldlM_cons, bind_eq_ok] at h
    obtain ⟨p₁, hd, hds⟩ := h
    rw [ih hds]
    unfold spread at hd
    split at hd
    · next hnone =>
      cases hd
      rw [inherited?_of_not_above fun hsome => by rw [hnone] at hsome; cases hsome]
    · next label hlabel =>
      obtain ⟨hgets, hother⟩ := labelOf_spreadLabel hd n
      by_cases hn : p.Gets d.uid n
      · rw [hgets hn, inherited?_of_above hlabel hn, hn.1.2]
        rfl
      · have hsame : inherited? (p₁.Gets · n) ds = inherited? (p.Gets · n) ds :=
          inherited?_congr fun d _ _ => gets_of_spreadLabel hd hn d.uid
        rw [hother hn, hsame, inherited?_of_not_above fun _ => hn]

/-! ## The start -/

/-- The label that an action has before any label is spread: a declared action its own, if it has
one that is not empty, and an old action the one it had. -/
def startLabel (p : Plot) (ds : List ActionDecl) (uid : Uid) : Option String :=
  ((ds.find? (·.uid = uid)).map (·.label.filter (· ≠ ""))).getD (p.labelOf uid)

theorem labelOf_eq_content (p : Plot) (uid : Uid) : p.labelOf uid = (p.content uid).bind (·.label) := by
  unfold labelOf content
  rw [Option.bind_map]
  rfl

theorem Joins.labelOf_new (h : p.Joins ActionDecl.linked ds q) (hd : d ∈ ds) :
    q.labelOf d.uid = d.ownLabel := by
  rw [labelOf_eq_content, h.new d hd]
  rfl

theorem Joins.labelOf_old (h : p.Joins ActionDecl.linked ds q) (hn : n ∉ ds.map (·.uid)) :
    q.labelOf n = p.labelOf n := by
  rw [labelOf_eq_content, h.old n hn, ← labelOf_eq_content]

theorem Joins.labelOf_eq (h : p.Joins ActionDecl.linked ds q) (n : Uid) :
    q.labelOf n = p.startLabel ds n := by
  unfold startLabel
  cases hfind : ds.find? (·.uid = n) with
  | none =>
    refine h.labelOf_old fun hmem => ?_
    obtain ⟨d, hd, heq⟩ := List.mem_map.mp hmem
    simpa [heq] using List.find?_eq_none.mp hfind d hd
  | some d =>
    obtain rfl : d.uid = n := by simpa using List.find?_some hfind
    rw [Option.map_some, Option.getD_some, ← d.ownLabel_eq]
    exact h.labelOf_new (List.mem_of_find?_eq_some hfind)

/-! ## Joined declarations -/

/-- Labelled actions lead to labelled ones only. -/
def LabelsDescend (p : Plot) : Prop := ∀ a b, p.Leads a b → p.labelOf a ≠ none → p.labelOf b ≠ none

/-- `n` **inherits from** `a`, if `a` has anything to give: there is a way from `a` to `n` on which
no action after `a` had a label at the start. -/
def InheritsFrom (p : Plot) (start : Uid → Option String) (n a : Uid) : Prop :=
  TransGen (fun a b => p.Leads a b ∧ start b = none) a n

section Joined

variable {joined : Plot}

/-- A declared action has its own label from the start, if any. -/
theorem gets_of_declared (h : p.Joins ActionDecl.linked ds joined) (hd : d ∈ ds)
    (hsome : d.ownLabel.isSome) :
    joined.Gets d.uid n ↔ joined.Below d.uid n := by
  refine gets_iff_below fun hnone => ?_
  rw [← h.labelOf_new hd, hnone.2] at hsome
  cases hsome

/-- **Where labels have descended, they descend again once the declarations have spread theirs.** -/
theorem labelsDescend_spreadAll (hp : p.WellShaped) (hfresh : ∀ d ∈ ds, p.mapped d.uid = false)
    (h : p.Joins ActionDecl.linked ds joined) (hshape : joined.WellShaped)
    (hlabels : ds.foldlM spread joined = .ok q) (hdescend : p.LabelsDescend) : q.LabelsDescend := by
  intro a b hab ha hb
  have hleads : joined.Leads a b := (relabelled_spreadAll hlabels).sameShape.leads ▸ hab
  rw [labelOf_spreadAll hlabels, Option.or_eq_none_iff, inherited?_eq_none_iff] at hb
  obtain ⟨hb, hnone⟩ := hb
  have hpass : joined.Passes a b := ⟨hleads, hshape.links a b hleads, hb⟩
  by_cases hstart : joined.labelOf a = none
  · -- whoever gave `a` its label has given `b` one
    rw [labelOf_spreadAll hlabels, hstart, Option.none_or, ne_eq, inherited?_eq_none_iff] at ha
    push Not at ha
    obtain ⟨d, hd, hsome, hgets⟩ := ha
    exact hnone d hd hsome (hgets.below (.single hpass))
  · by_cases hmem : a ∈ ds.map (·.uid)
    · obtain ⟨d, hd, rfl⟩ := List.mem_map.mp hmem
      have hsome : d.ownLabel.isSome := Option.isSome_iff_ne_none.mpr (h.labelOf_new hd ▸ hstart)
      exact hnone d hd hsome ((gets_of_declared h hd hsome).mpr (.single hpass))
    · -- an old action with a label has passed it on before
      have hold : p.Leads a b := (h.leads_old hmem).mp hleads
      have hbold : b ∉ ds.map (·.uid) := not_declared_of_mapped hfresh (hp.links a b hold)
      exact hdescend a b hold (h.labelOf_old hmem ▸ hstart) ((h.labelOf_old hbold).symm.trans hb)

/-- **The labels that come of joined declarations.** -/
theorem labelOf_of_joins (h : p.Joins ActionDecl.linked ds joined) (hshape : joined.WellShaped)
    (hlabels : ds.foldlM spread joined = .ok q) (n : Uid) :
    q.labelOf n = (p.startLabel ds n).or (inherited? (q.InheritsFrom (p.startLabel ds) n) ds) := by
  have hpasses : joined.Passes = fun a b => q.Leads a b ∧ p.startLabel ds b = none := by
    funext a b
    refine propext ?_
    unfold Passes Unlabelled
    rw [(relabelled_spreadAll hlabels).sameShape.leads, ← h.labelOf_eq]
    exact ⟨fun ⟨hab, _, hb⟩ => ⟨hab, hb⟩, fun ⟨hab, hb⟩ => ⟨hab, hshape.links a b hab, hb⟩⟩
  rw [labelOf_spreadAll hlabels, h.labelOf_eq]
  refine congrArg _ (inherited?_congr fun d hd hsome => ?_)
  rw [gets_of_declared h hd hsome]
  unfold Below InheritsFrom
  rw [hpasses]

end Joined

end Plot

/-! ## The main result -/

namespace Story

variable {s : Story} {name : String} {ds : List ActionDecl}

/-- **Every action of an extended plot keeps the label that it had at the start, or else inherits
one.** At the start an empty label counts as none. An action inherits from the first declaration
that is above it with a label that is not empty, and from no one if there is none. If labelled
actions have led to labelled ones only, they still do. -/
theorem loadActions_inherits_labels (h : Reachable s)
    (hload : (s.loadActions name ds).result = .ok ()) :
    ∃ c p, s.cast.get? name = some c ∧
      (s.loadActions name ds).state =
        { s with cast := s.cast.update name fun c => { c with plot := p } } ∧
      (∀ uid, p.labelOf uid = (c.plot.startLabel ds uid).or
        (Plot.inherited? (p.InheritsFrom (c.plot.startLabel ds) uid) ds)) ∧
      (c.plot.LabelsDescend → p.LabelsDescend) := by
  obtain ⟨c, p, hc, hextend, hstate⟩ := loadActions_ok hload
  have hp : c.plot.WellShaped := (h.ready name c hc).toWellShaped
  obtain ⟨haccepts, joined, hjoins, hshape, _, hlabels⟩ := Plot.extend_ok hp hextend
  exact ⟨c, p, hc, hstate, Plot.labelOf_of_joins hjoins hshape hlabels,
    Plot.labelsDescend_spreadAll hp haccepts.fresh hjoins hshape hlabels⟩

/-- Bob may also ask something, nod to that, and go; from asking and from going he may come to wave.
The label of a nod is empty. -/
def parting : List ActionDecl :=
  [{ ActionDecl.new 2 "Ask" with label := some "talk", leadsTo := [3, 1] },
    { ActionDecl.new 3 "Nod" with label := some "", leadsTo := [4] },
    { ActionDecl.new 4 "Go" with label := some "walk", leadsTo := [1] }]

/-- Waving then counts as talking, since that is declared before going, and so does nodding, which
counts as having no label at the start. Going keeps its own. -/
theorem loadActions_inherits_labels_parting :
    Reachable waving ∧ (waving.loadActions "Bob" parting).result = .ok () ∧
    ∃ c p, waving.cast.get? "Bob" = some c ∧ c.plot.startLabel parting 3 = none ∧
      p.labelOf 3 = some "talk" ∧ p.labelOf 1 = some "talk" ∧ p.labelOf 4 = some "walk" ∧
      (waving.loadActions "Bob" parting).state =
        { waving with cast := waving.cast.update "Bob" fun c => { c with plot := p } } := by
  have hreach : Reachable waving := reachable_calls (reachable_start_default _) _
  have hload : (waving.loadActions "Bob" parting).result = .ok () := rfl
  obtain ⟨c, p, hc, hstate, hlabels, _⟩ := loadActions_inherits_labels hreach hload
  have hstart : (waving.cast.get? "Bob").map (fun c =>
      (c.plot.startLabel parting 3, c.plot.startLabel parting 1, c.plot.startLabel parting 4)) =
        some (none, none, some "walk") := by decide
  rw [hc, Option.map_some, Option.some.injEq, Prod.mk.injEq, Prod.mk.injEq] at hstart
  obtain ⟨hnod, hwave, hgo⟩ := hstart
  have hlink : ((waving.loadActions "Bob" parting).state.cast.get? "Bob").map (·.plot.childrenOf 2) =
      some [3, 1] := by
    decide
  rw [hstate] at hlink
  change ((waving.cast.update "Bob" _).get? "Bob").map _ = _ at hlink
  rw [Cast.get?_update, if_pos rfl, hc, Option.map_some, Option.map_some, Option.some.injEq] at hlink
  have hleads : ∀ uid ∈ [(3 : Uid), 1], p.Leads 2 uid := by
    intro uid huid
    show uid ∈ p.childrenOf 2
    rw [show p.childrenOf 2 = [3, 1] from hlink]
    exact huid
  -- whoever has no label and follows on asking counts as talking
  have htalk :
      ∀ uid ∈ [(3 : Uid), 1], c.plot.startLabel parting uid = none → p.labelOf uid = some "talk" := by
    intro uid huid hnone
    rw [hlabels, hnone, Option.none_or]
    exact Plot.inherited?_of_above rfl (.single ⟨hleads uid huid, hnone⟩)
  refine ⟨hreach, hload, c, p, hc, hnod, htalk 3 (by simp) hnod, htalk 1 (by simp) hwave, ?_, hstate⟩
  rw [hlabels, hgo, Option.some_or]

end Story
end Narrative
