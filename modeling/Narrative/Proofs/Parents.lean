import Narrative.Proofs.Pieces
import Narrative.Proofs.Validation

/-!
# `Proofs.Parents` — parents are the inverse of children

A link is written down at both of its ends: the child is among the children of the one action, and
that action is among the parents of the child. The two ends are never written by one assignment. A
child may be linked before it is mapped; then only one end can be written, and `insert` makes up for
it by looking through all actions for those that lead to the new one. `addChild` writes both ends,
or none where the link is there, and `removeAction` strikes an action out of all lists. Uids may be
mapped, taken out and mapped again in between.

The invariant that carries this is `Linked`. It says more than that the ends agree: no list has a
uid twice, and each action stands under its own uid, for it is by their own uids that `insert`
writes parents down.

## Contents
- **Ends of links.** `Linked`, and what `insert`, `addChild` and `removeAction` do to either end.
- **Building.** `Edit.Builds` and `Built`; each edit keeps a plot linked (`Linked.after`), and so do all.
- **The main result** is `parents_invert_children`.
-/

namespace Narrative
open Outcome

/-- What ties an action into a plot: its uid, and the links that it knows of. -/
def Action.ties (a : Action) : Uid × List Uid × List Uid := (a.uid, a.children, a.parents)

namespace Plot

variable {p q : Plot} {uid parent child gone : Uid}

/-! ## Ends of links -/

/-- Every action stands under its own uid. -/
def Named (p : Plot) : Prop := ∀ uid a, p.action? uid = some a → a.uid = uid

/-- A plot is **linked** if the parents of its actions are those that lead to them, and no list of
uids in it has one twice. -/
structure Linked (p : Plot) : Prop where
  named : p.Named
  roots : p.roots.Nodup
  children : ∀ uid, (p.childrenOf uid).Nodup
  parents : ∀ uid, (p.parentsOf uid).Nodup
  inverse : ∀ parent child, p.mapped child = true → (parent ∈ p.parentsOf child ↔ p.Leads parent child)

theorem linked_empty : Linked empty where
  named := fun _ _ h => nomatch h
  roots := List.nodup_nil
  children := fun _ => List.nodup_nil
  parents := fun _ => List.nodup_nil
  inverse := fun _ _ h => nomatch h

/-- Edits that leave first actions, uids and links alone keep a plot linked. -/
theorem Linked.congr (hp : p.Linked) (hroots : q.roots = p.roots)
    (hties : ∀ uid, (q.action? uid).map Action.ties = (p.action? uid).map Action.ties) : q.Linked := by
  have hview : ∀ {α : Type} (f : Uid × List Uid × List Uid → α) uid,
      (q.action? uid).map (fun a => f a.ties) = (p.action? uid).map (fun a => f a.ties) := by
    intro α f uid
    have h := congrArg (Option.map f) (hties uid)
    rw [Option.map_map, Option.map_map] at h
    exact h
  have hmapped : ∀ uid, q.mapped uid = p.mapped uid := by
    intro uid
    have h := congrArg Option.isSome (hties uid)
    rw [Option.isSome_map, Option.isSome_map] at h
    exact h
  have hchildren : ∀ uid, q.childrenOf uid = p.childrenOf uid :=
    fun uid => congrArg (Option.getD · []) (hview (·.2.1) uid)
  have hparents : ∀ uid, q.parentsOf uid = p.parentsOf uid :=
    fun uid => congrArg (Option.getD · []) (hview (·.2.2) uid)
  refine ⟨?_, ?_, ?_, ?_, ?_⟩
  · intro uid b hb
    have h := hview (·.1) uid
    rw [hb] at h
    obtain ⟨a, ha, hab⟩ := Option.map_eq_some_iff.mp h.symm
    exact hab.symm.trans (hp.named uid a ha)
  · rw [hroots]
    exact hp.roots
  · intro uid
    rw [hchildren]
    exact hp.children uid
  · intro uid
    rw [hparents]
    exact hp.parents uid
  · intro parent child hchild
    unfold Leads
    rw [hchildren, hparents]
    exact hp.inverse parent child (hmapped child ▸ hchild)

theorem Linked.addFirst (hp : p.Linked) (first : Uid) : (p.addFirst first).Linked := by
  by_cases h : first ∈ p.roots
  · have hsame : p.addFirst first = p := if_pos (List.contains_iff_mem.mpr h)
    rw [hsame]
    exact hp
  · have hnew : (p.addFirst first).roots.Nodup := by
      rw [roots_addFirst h]
      exact List.nodup_append.mpr ⟨hp.roots, List.nodup_singleton _, fun a ha b hb hab =>
        h (List.mem_singleton.mp hb ▸ hab ▸ ha)⟩
    have hplot : p.addFirst first = { p with roots := p.roots ++ [first], validated := false } :=
      if_neg fun hmem => h (List.contains_iff_mem.mp hmem)
    rw [hplot] at hnew ⊢
    exact { hp with roots := hnew }

/-! ### Mapping an action -/

/-- The uids of the actions that lead to a uid, as they are looked up when it is mapped. -/
def leaders (p : Plot) (uid : Uid) : List Uid :=
  (p.actions.values.filter fun b => b.children.contains uid).map (·.uid)

/-- Where actions stand under their own uids, these are in fact the uids of those actions. -/
theorem Named.mem_leaders (hp : p.Named) : parent ∈ p.leaders uid ↔ p.Leads parent uid := by
  unfold leaders
  rw [List.mem_map]
  constructor
  · rintro ⟨b, hb, rfl⟩
    obtain ⟨hvalue, hchild⟩ := List.mem_filter.mp hb
    obtain ⟨⟨key, _⟩, hentry, rfl⟩ := List.mem_map.mp hvalue
    have hfound := SortedMap.get?_eq_some_iff.mpr hentry
    rw [hp key _ hfound]
    exact leads_of_mem hfound (List.contains_iff_mem.mp hchild)
  · intro hlink
    obtain ⟨b, hb⟩ := mapped_iff.mp hlink.mapped
    have hvalue : b ∈ p.actions.values := List.mem_map.mpr ⟨_, SortedMap.get?_eq_some_iff.mp hb, rfl⟩
    have hchild : uid ∈ b.children := childrenOf_of_some hb ▸ hlink
    exact ⟨b, List.mem_filter.mpr ⟨hvalue, List.contains_iff_mem.mpr hchild⟩, hp parent b hb⟩

theorem Named.nodup_leaders (hp : p.Named) (uid : Uid) : (p.leaders uid).Nodup := by
  have hkeys : p.actions.values.map (·.uid) = p.actions.keys := by
    unfold SortedMap.values SortedMap.keys
    rw [List.map_map]
    exact List.map_congr_left fun entry hentry =>
      hp entry.1 entry.2 (SortedMap.get?_eq_some_iff.mpr hentry)
  have hdistinct : (p.actions.values.map (·.uid)).Nodup := hkeys ▸ p.actions.nodup_keys
  exact hdistinct.sublist (List.filter_sublist.map _)

theorem action?_insert {a : Action} (h : p.insert a = .ok q) :
    q.roots = p.roots ∧ p.mapped a.uid = false ∧ ∀ uid, q.action? uid =
      if uid = a.uid then some { a with children := [], parents := p.leaders a.uid }
        else p.action? uid := by
  unfold insert at h
  split at h
  · cases h
  · next hnew =>
    cases h
    exact ⟨rfl, Bool.eq_false_iff.mpr hnew, fun uid => SortedMap.get?_insert p.actions a.uid uid _⟩

/-- **An action comes in with the parents that lead to it**, whatever lists it brings along. -/
theorem Linked.insert {a : Action} (hp : p.Linked) (h : p.insert a = .ok q) : q.Linked := by
  obtain ⟨hroots, hnew, haction⟩ := action?_insert h
  have hchildren : ∀ uid, q.childrenOf uid = p.childrenOf uid := by
    intro uid
    unfold childrenOf
    rw [haction]
    split
    · next huid =>
      rw [huid, action?_of_unmapped hnew]
      rfl
    · rfl
  have hparents : ∀ uid, q.parentsOf uid = if uid = a.uid then p.leaders a.uid else p.parentsOf uid := by
    intro uid
    unfold parentsOf
    rw [haction]
    split <;> rfl
  refine ⟨?_, ?_, ?_, ?_, ?_⟩
  · intro uid b hb
    rw [haction] at hb
    split at hb
    · next huid =>
      cases hb
      exact huid.symm
    · exact hp.named uid b hb
  · rw [hroots]
    exact hp.roots
  · intro uid
    rw [hchildren]
    exact hp.children uid
  · intro uid
    rw [hparents]
    split
    · exact hp.named.nodup_leaders a.uid
    · exact hp.parents uid
  · intro parent child hchild
    unfold Leads
    rw [hchildren, hparents]
    split
    · next huid =>
      rw [huid]
      exact hp.named.mem_leaders
    · next huid =>
      refine hp.inverse parent child ?_
      unfold Plot.mapped SortedMap.contains at hchild ⊢
      have hfound := haction child
      rw [if_neg huid] at hfound
      exact (congrArg Option.isSome hfound).symm.trans hchild

/-! ### Linking a child -/

theorem mapped_parent_of_addChild (h : p.addChild parent child = .ok q) : p.mapped parent = true := by
  unfold addChild at h
  split at h
  · cases h
  · next a ha => exact mapped_iff.mpr ⟨a, ha⟩

/-- A new link adds one child to the parent. -/
theorem childrenOf_addChild (h : p.addChild parent child = .ok q) (uid : Uid) :
    q.childrenOf uid = p.childrenOf uid ++
      if uid = parent ∧ child ∉ p.childrenOf parent then [child] else [] := by
  have hparent := mapped_parent_of_addChild h
  obtain ⟨q', hq', _, hcontent⟩ := addChild_content child hparent
  obtain rfl : q = q' := Except.ok.inj (h.symm.trans hq')
  obtain ⟨a, ha⟩ := mapped_iff.mp hparent
  rw [childrenOf_eq_content, hcontent]
  by_cases huid : uid = parent
  · subst huid
    rw [if_pos rfl, childrenOf_of_some ha]
    unfold content Action.withChild
    rw [ha]
    by_cases hchild : child ∈ a.children
    · simp [Action.unparented, hchild]
    · simp [Action.unparented, hchild]
  · rw [if_neg huid, if_neg fun hnew => huid hnew.1, List.append_nil, ← childrenOf_eq_content]

/-- A list stays without repetitions if at most one uid is added that is not in it. -/
theorem nodup_append_if {uids : List Uid} {c : Prop} [Decidable c] (huids : uids.Nodup)
    (hnew : c → uid ∉ uids) :
    (uids ++ if c then [uid] else []).Nodup := by
  split
  · next hc =>
    exact List.nodup_append.mpr ⟨huids, List.nodup_singleton _, fun a ha b hb hab =>
      hnew hc (List.mem_singleton.mp hb ▸ hab ▸ ha)⟩
  · rw [List.append_nil]
    exact huids

/-- **A link is written at both ends or at none**, except that there is no other end to write at a
child that is not mapped. -/
theorem Linked.addChild (hp : p.Linked) (h : p.addChild parent child = .ok q) : q.Linked := by
  have hparent := mapped_parent_of_addChild h
  obtain ⟨q', hq', hroots, hcontent⟩ := addChild_content child hparent
  obtain rfl : q = q' := Except.ok.inj (h.symm.trans hq')
  have hmapped : ∀ uid, q.mapped uid = p.mapped uid := mapped_of_addChild h hparent
  refine ⟨?_, ?_, ?_, ?_, ?_⟩
  · intro uid b hb
    -- uids are part of the content
    have huid : (q.content uid).map (·.uid) = (p.content uid).map (·.uid) := by
      rw [hcontent]
      split
      · rw [Option.map_map]; rfl
      · rfl
    unfold content at huid
    rw [Option.map_map, Option.map_map, hb] at huid
    obtain ⟨a, ha, hab⟩ := Option.map_eq_some_iff.mp huid.symm
    exact hab.symm.trans (hp.named uid a ha)
  · rw [hroots]
    exact hp.roots
  · intro uid
    rw [childrenOf_addChild h]
    exact nodup_append_if (hp.children uid) fun hnew => hnew.1 ▸ hnew.2
  · intro uid
    by_cases huid : p.mapped uid = true
    · rw [parentsOf_addChild h huid]
      refine nodup_append_if (hp.parents uid) ?_
      rintro ⟨rfl, hnew⟩ hold
      exact hnew ((hp.inverse parent uid huid).mp hold)
    · rw [parentsOf_of_unmapped (Bool.eq_false_iff.mpr (hmapped uid ▸ huid))]
      exact List.nodup_nil
  · intro a b hb
    rw [hmapped] at hb
    unfold Leads
    rw [parentsOf_addChild h hb, childrenOf_addChild h, List.mem_append, List.mem_append,
      hp.inverse a b hb]
    refine or_congr_right ?_
    -- both ends ask whether the link is new
    rw [List.mem_ite_nil_right, List.mem_ite_nil_right, List.mem_singleton, List.mem_singleton]
    exact ⟨fun ⟨⟨hchild, hnew⟩, hparent⟩ => ⟨⟨hparent, hnew⟩, hchild⟩,
      fun ⟨⟨hparent, hnew⟩, hchild⟩ => ⟨⟨hchild, hnew⟩, hparent⟩⟩

/-! ### Taking an action out -/

/-- What becomes of a list of uids that every action has, if an action that goes is struck out of it. -/
theorem listed_removeAction (view : Action → List Uid)
    (hview : ∀ a : Action,
      view { a with
        children := a.children.filter (· != gone)
        parents := a.parents.filter (· != gone) } = (view a).filter (· != gone))
    (h : p.mapped gone = true) (uid : Uid) :
    (((p.removeAction gone).action? uid).map view).getD [] =
      if uid = gone then [] else (((p.action? uid).map view).getD []).filter (· != gone) := by
  rw [action?_removeAction h]
  split
  · rfl
  · cases p.action? uid with
    | none => rfl
    | some a => exact hview a

theorem childrenOf_removeAction (h : p.mapped gone = true) (uid : Uid) :
    (p.removeAction gone).childrenOf uid =
      if uid = gone then [] else (p.childrenOf uid).filter (· != gone) :=
  listed_removeAction (·.children) (fun _ => rfl) h uid

theorem parentsOf_removeAction (h : p.mapped gone = true) (uid : Uid) :
    (p.removeAction gone).parentsOf uid =
      if uid = gone then [] else (p.parentsOf uid).filter (· != gone) :=
  listed_removeAction (·.parents) (fun _ => rfl) h uid

theorem ne_of_mapped_removeAction (h : p.mapped gone = true)
    (huid : (p.removeAction gone).mapped uid = true) :
    uid ≠ gone := by
  rintro rfl
  obtain ⟨_, huid⟩ := mapped_iff.mp huid
  rw [action?_removeAction h, if_pos rfl] at huid
  cases huid

/-- **An action that goes is struck out at both ends.** -/
theorem Linked.removeAction (hp : p.Linked) (gone : Uid) : (p.removeAction gone).Linked := by
  by_cases h : p.mapped gone = true
  · refine ⟨?_, ?_, ?_, ?_, ?_⟩
    · intro uid b hb
      rw [action?_removeAction h] at hb
      split at hb
      · cases hb
      · obtain ⟨a, ha, rfl⟩ := Option.map_eq_some_iff.mp hb
        exact hp.named uid a ha
    · have hroots : (p.removeAction gone).roots = p.roots.filter (· != gone) := by
        unfold Plot.removeAction
        rw [if_pos h]
      rw [hroots]
      exact hp.roots.filter _
    · intro uid
      rw [childrenOf_removeAction h]
      split
      · exact List.nodup_nil
      · exact (hp.children uid).filter _
    · intro uid
      rw [parentsOf_removeAction h]
      split
      · exact List.nodup_nil
      · exact (hp.parents uid).filter _
    · intro a b hb
      have hne : b ≠ gone := ne_of_mapped_removeAction h hb
      rw [mapped_removeAction h hne] at hb
      rw [leads_removeAction h, parentsOf_removeAction h, if_neg hne, List.mem_filter, bne_iff_ne,
        ← hp.inverse a b hb]
      exact ⟨fun ⟨hold, ha⟩ => ⟨hold, ha, hne⟩, fun ⟨hold, ha, _⟩ => ⟨hold, ha⟩⟩
  · rw [removeAction_of_unmapped h]
    exact hp

/-! ## Building -/

/-- The edits that **build** a plot: all are, but for changes in place that rewrite uids or parents. -/
def Edit.Builds : Edit → Prop
  | revise _ f _ | reviseAll f _ => ∀ a, (f a).uid = a.uid ∧ (f a).parents = a.parents
  | _ => True

/-- The plots that are built from the empty one. -/
inductive Built : Plot → Prop where
  | empty : Built empty
  | edit {p : Plot} (h : Built p) {e : Edit} (he : e.Builds) : Built (e.after p)

/-- A list of edits can be made one after the other. -/
theorem Built.edits (h : p.Built) {es : List Edit} (hes : ∀ e ∈ es, e.Builds) :
    (es.foldl (fun p e => e.after p) p).Built := by
  induction es generalizing p with
  | nil => exact h
  | cons e es ih =>
    obtain ⟨he, hes⟩ := List.forall_mem_cons.mp hes
    exact ih (h.edit he) hes

/-- The empty plot has no mark, so what is built from it is edited. -/
theorem Built.edited (h : p.Built) : p.Edited := by
  induction h with
  | empty => exact .unmarked rfl
  | edit _ _ ih => exact ih.edit _

/-- Of an edit that may fail, only the success has to be looked at. -/
theorem Linked.ofExcept {x : Except PlotError Plot} (hp : p.Linked) (h : ∀ q, x = .ok q → q.Linked) :
    (Attempt.ofExcept p x).state.Linked := by
  cases x with
  | error e => exact hp
  | ok q => exact h q rfl

theorem Linked.spreadLabel {label : String} (hp : p.Linked) (h : p.spreadLabel uid label = .ok q) :
    q.Linked := by
  have hlabels : Relabelled p q := relabelled_spreadLabel h
  refine hp.congr hlabels.roots fun uid => ?_
  have hties := congrArg (Option.map Action.ties) (hlabels.actions uid)
  rw [Option.map_map, Option.map_map] at hties
  exact hties

/-- Changes in place that leave uids and links alone. -/
theorem Linked.updateAll (hp : p.Linked) {f : Action → Action} (hf : ∀ a, (f a).ties = a.ties) :
    (p.updateAll f).Linked := by
  refine hp.congr rfl fun uid => ?_
  rw [action?_updateAll, Option.map_map]
  exact congrArg (Option.map · _) (funext hf)

theorem Linked.updateAction (hp : p.Linked) (uid : Uid) {f : Action → Action}
    (hf : ∀ a, (f a).ties = a.ties) :
    (p.updateAction uid f).Linked := by
  refine hp.congr rfl fun uid' => ?_
  rw [action?_updateAction]
  split
  · next huid =>
    rw [huid, Option.map_map]
    exact congrArg (Option.map · _) (funext hf)
  · rfl

theorem ties_of_builds {f : Action → Action} (hchildren : ∀ a, (f a).children = a.children)
    (hrest : ∀ a, (f a).uid = a.uid ∧ (f a).parents = a.parents) (a : Action) : (f a).ties = a.ties := by
  unfold Action.ties
  rw [hchildren, (hrest a).1, (hrest a).2]

/-- **Every edit that builds keeps a plot linked.** -/
theorem Linked.after (hp : p.Linked) {e : Edit} (he : e.Builds) : (e.after p).Linked := by
  cases e with
  | addFirst uid => exact hp.addFirst uid
  | mapAction name uid => exact hp.ofExcept fun _ h => hp.insert h
  | insert a => exact hp.ofExcept fun _ h => hp.insert h
  | addChild parent child => exact hp.ofExcept fun _ h => hp.addChild h
  | spreadLabel uid label => exact hp.ofExcept fun _ h => hp.spreadLabel h
  | validate =>
    refine hp.ofExcept fun q h => ?_
    obtain ⟨rfl, _⟩ := validate_ok h
    exact hp.congr rfl fun _ => rfl
  | removeAction uid => exact hp.removeAction uid
  | revise uid f h => exact hp.updateAction uid (ties_of_builds h he)
  | reviseAll f h => exact hp.updateAll (ties_of_builds h he)

theorem Built.linked (h : p.Built) : p.Linked := by
  induction h with
  | empty => exact linked_empty
  | edit _ he ih => exact ih.after he

/-! ## The main result -/

/-- **Parents are the exact inverse of children** in every plot that is built from the empty one, by
whatever edits in whatever order, with successes and failures. Of two mapped actions the one is
among the children of the other exactly if this is among the parents of it. First actions, children
and parents are listed without repetitions, parents are mapped, and every action stands under its
own uid. So an action without parents is one that nothing leads to. An action without children leads
nowhere; and where all children are mapped, it is one that no action has as a parent. -/
theorem parents_invert_children (h : p.Built) :
    (∀ uid a uid' b, p.action? uid = some a → p.action? uid' = some b →
      (uid' ∈ a.children ↔ uid ∈ b.parents)) ∧
    p.roots.Nodup ∧
    ∀ uid a, p.action? uid = some a → a.uid = uid ∧ a.children.Nodup ∧ a.parents.Nodup ∧
      (∀ parent ∈ a.parents, p.mapped parent = true) ∧
      (a.isFirst = true ↔ ∀ parent, ¬p.Leads parent uid) ∧
      (a.isLeaf = true ↔ ∀ child, ¬p.Leads uid child) ∧
      ((∀ child ∈ a.children, p.mapped child = true) →
        (a.isLeaf = true ↔ ∀ uid' b, p.action? uid' = some b → uid ∉ b.parents)) := by
  have hp : p.Linked := h.linked
  have hinverse : ∀ uid a, p.action? uid = some a → ∀ parent, parent ∈ a.parents ↔
      p.Leads parent uid := by
    intro uid a ha parent
    rw [← parentsOf_of_some ha]
    exact hp.inverse parent uid (mapped_iff.mpr ⟨a, ha⟩)
  have hleads : ∀ uid a, p.action? uid = some a → ∀ child, child ∈ a.children ↔ p.Leads uid child := by
    intro uid a ha child
    rw [← childrenOf_of_some ha]
    exact Iff.rfl
  refine ⟨?_, hp.roots, fun uid a ha => ⟨hp.named uid a ha, ?_, ?_, ?_, ?_, ?_, ?_⟩⟩
  · intro uid a uid' b ha hb
    rw [hleads uid a ha, hinverse uid' b hb]
  · exact childrenOf_of_some ha ▸ hp.children uid
  · exact parentsOf_of_some ha ▸ hp.parents uid
  · intro parent hparent
    exact ((hinverse uid a ha parent).mp hparent).mapped
  · unfold Action.isFirst
    rw [List.isEmpty_iff, List.eq_nil_iff_forall_not_mem]
    exact forall_congr' fun parent => not_congr (hinverse uid a ha parent)
  · unfold Action.isLeaf
    rw [List.isEmpty_iff, List.eq_nil_iff_forall_not_mem]
    exact forall_congr' fun child => not_congr (hleads uid a ha child)
  · intro hmapped
    unfold Action.isLeaf
    rw [List.isEmpty_iff, List.eq_nil_iff_forall_not_mem]
    constructor
    · intro hnone uid' b hb hparent
      exact hnone uid' ((hleads uid a ha uid').mpr ((hinverse uid' b hb uid).mp hparent))
    · intro hnone child hchild
      obtain ⟨b, hb⟩ := mapped_iff.mp (hmapped child hchild)
      exact hnone child b hb ((hinverse child b hb uid).mpr ((hleads uid a ha child).mp hchild))

/-- Bob's asking is linked before it is there, twice, and to itself; it is taken out and comes back,
with lists of its own that do not count. Nothing can be linked under an action that is not there,
and none can be mapped twice. -/
def reasking : List Edit :=
  [.addFirst 1, .addChild 1 2, .mapAction "Enter" 1, .addChild 1 2, .addChild 1 2, .addChild 1 3,
    .insert { Action.new 2 "Ask" with children := [7], parents := [8, 9] }, .addChild 2 2,
    .mapAction "Ask" 2, .validate,
    .removeAction 2, .addChild 1 2, .insert { Action.new 2 "Ask again" with parents := [8] },
    .spreadLabel 1 "curious",
    .revise 2 (fun a => { a with name := "Insist" }) fun _ => rfl]

/-- In the end Bob enters and insists, or goes on to an action that is not there. -/
def insisting : Plot := reasking.foldl (fun p e => e.after p) empty

/-- His entering is a parent of his insisting, and has no parents itself: nothing leads to it. -/
theorem parents_invert_children_insisting : insisting.Built ∧
    ∃ a b, insisting.action? 1 = some a ∧ insisting.action? 2 = some b ∧
      a.children = [3, 2] ∧ 1 ∈ b.parents ∧
      b.parents.Nodup ∧ b.isFirst = false ∧ a.isFirst = true ∧ ∀ parent, ¬insisting.Leads parent 1 := by
  have hbuilt : insisting.Built := Built.empty.edits (by simp [reasking, Edit.Builds])
  obtain ⟨a, ha⟩ := mapped_iff.mp (show insisting.mapped 1 = true by decide)
  obtain ⟨b, hb⟩ := mapped_iff.mp (show insisting.mapped 2 = true by decide)
  have hchildren : a.children = [3, 2] := childrenOf_of_some ha ▸ by decide
  have hparents : a.parents = [] := parentsOf_of_some ha ▸ by decide
  obtain ⟨hinverse, _, hactions⟩ := parents_invert_children hbuilt
  obtain ⟨_, _, _, _, hexact, _⟩ := hactions 1 a ha
  obtain ⟨_, _, hdistinct, _⟩ := hactions 2 b hb
  have hparent : 1 ∈ b.parents := (hinverse 1 a 2 b ha hb).mp (by rw [hchildren]; decide)
  have hfirst : a.isFirst = true := by
    unfold Action.isFirst
    rw [hparents]
    rfl
  have hlater : b.isFirst = false := List.isEmpty_eq_false_iff_exists_mem.mpr ⟨1, hparent⟩
  exact ⟨hbuilt, a, b, ha, hb, hchildren, hparent, hdistinct, hlater, hfirst, hexact.mp hfirst⟩

end Plot
end Narrative
