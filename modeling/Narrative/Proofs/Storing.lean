import Narrative.Proofs.Parents

/-!
# `Proofs.Storing` — a whole action in the place of another

Whoever may change an action in place may also put another one there, links and all. The mark stays,
and nothing looks at the shape again, so it is up to the links of the new action whether the plot
stays sound. It does exactly if they end at mapped uids none of which leads back to the place. As
all other actions have the links that they had, ways to the place are the same before and after, and
every new cycle has to pass the place.

## Contents
- **Storing.** `store`, and what it leaves alone.
- **Ways.** `AgreeOff`: ways to a uid are the same in plots that differ in its links alone.
- **Soundness.** `acyclic_store_iff` and `wellShaped_store_iff`; the main result `store_sound_iff`.
- An action that closes a loop behind the mark: `stored_action_may_close_a_loop`.
-/

namespace Narrative.Plot
open Relation

/-! ## Storing -/

/-- Puts an action in the place of the one that is mapped to a uid; the validation mark stays. -/
def store (p : Plot) (uid : Uid) (a : Action) : Plot := p.updateAction uid fun _ => a

variable {p q : Plot} {uid : Uid} {a : Action}

theorem action?_store (huid : p.mapped uid = true) (a : Action) (uid' : Uid) :
    (p.store uid a).action? uid' = if uid' = uid then some a else p.action? uid' := by
  obtain ⟨old, hold⟩ := mapped_iff.mp huid
  rw [store, action?_updateAction, hold]
  rfl

theorem mapped_store (p : Plot) (uid : Uid) (a : Action) (uid' : Uid) :
    (p.store uid a).mapped uid' = p.mapped uid' := by
  show ((p.store uid a).action? uid').isSome = (p.action? uid').isSome
  rw [store, action?_updateAction]
  by_cases h : uid' = uid
  · rw [if_pos h, Option.isSome_map, h]
  · rw [if_neg h]

theorem childrenOf_store (huid : p.mapped uid = true) (a : Action) (uid' : Uid) :
    (p.store uid a).childrenOf uid' = if uid' = uid then a.children else p.childrenOf uid' := by
  unfold childrenOf
  rw [action?_store huid]
  by_cases h : uid' = uid
  · rw [if_pos h, if_pos h]
    rfl
  · rw [if_neg h, if_neg h]

theorem parentsOf_store (huid : p.mapped uid = true) (a : Action) (uid' : Uid) :
    (p.store uid a).parentsOf uid' = if uid' = uid then a.parents else p.parentsOf uid' := by
  unfold parentsOf
  rw [action?_store huid]
  by_cases h : uid' = uid
  · rw [if_pos h, if_pos h]
    rfl
  · rw [if_neg h, if_neg h]

/-! ## Ways -/

/-- Two plots **agree off** a uid if every other uid leads to the same in both. -/
def AgreeOff (uid : Uid) (p q : Plot) : Prop := ∀ a, a ≠ uid → ∀ b, p.Leads a b ↔ q.Leads a b

theorem AgreeOff.symm (h : AgreeOff uid p q) : AgreeOff uid q p := fun a ha b => (h a ha b).symm

theorem agreeOff_store (huid : p.mapped uid = true) (a : Action) : AgreeOff uid p (p.store uid a) := by
  intro b hb c
  unfold Leads
  rw [childrenOf_store huid, if_neg hb]

/-- **A way to the uid is one in both**: up to where it gets there for the first time, it takes
links that both have. -/
theorem AgreeOff.reaches (h : AgreeOff uid p q) {b : Uid} (hway : ReflTransGen p.Leads b uid) :
    ReflTransGen q.Leads b uid := by
  induction hway using ReflTransGen.head_induction_on with
  | refl => exact .refl
  | @head b c hlink _ ih =>
    by_cases hb : b = uid
    · exact hb ▸ .refl
    · exact ih.head ((h b hb c).mp hlink)

/-- A way in the one is a way in the other, unless it passes the uid and goes on by a link of it. -/
theorem AgreeOff.passes (h : AgreeOff uid p q) {b c : Uid} (hway : TransGen q.Leads b c) :
    TransGen p.Leads b c ∨
      ReflTransGen q.Leads b uid ∧ ∃ child, q.Leads uid child ∧ ReflTransGen q.Leads child c := by
  induction hway with
  | @single c hlink =>
    by_cases hb : b = uid
    · subst hb
      exact .inr ⟨.refl, c, hlink, .refl⟩
    · exact .inl (.single ((h b hb c).mpr hlink))
  | @tail c d hway hlink ih =>
    by_cases hc : c = uid
    · subst hc
      exact .inr ⟨hway.to_reflTransGen, d, hlink, .refl⟩
    · rcases ih with hold | ⟨hto, child, hchild, hfrom⟩
      · exact .inl (hold.tail ((h c hc d).mpr hlink))
      · exact .inr ⟨hto, child, hchild, hfrom.tail hlink⟩

/-! ## Soundness -/

theorem leads_store_self (huid : p.mapped uid = true) (a : Action) (child : Uid) :
    (p.store uid a).Leads uid child ↔ child ∈ a.children := by
  unfold Leads
  rw [childrenOf_store huid, if_pos rfl]

/-- **No action leads back to itself** after one is stored exactly if none of its children leads
back to it. -/
theorem acyclic_store_iff (hp : p.Acyclic) (huid : p.mapped uid = true) (a : Action) :
    (p.store uid a).Acyclic ↔ ∀ child ∈ a.children, ¬ReflTransGen p.Leads child uid := by
  have hagree := agreeOff_store huid a
  constructor
  · intro hacyclic child hchild hback
    exact hacyclic uid (.head' ((leads_store_self huid a child).mpr hchild) (hagree.reaches hback))
  · intro hback b hloop
    rcases hagree.passes hloop with hold | ⟨hto, child, hchild, hfrom⟩
    · exact hp b hold
    · exact hback child ((leads_store_self huid a child).mp hchild)
        (hagree.symm.reaches (hfrom.trans hto))

theorem wellShaped_store_iff (hp : p.WellShaped) (huid : p.mapped uid = true) (a : Action) :
    (p.store uid a).WellShaped ↔
      ∀ child ∈ a.children, p.mapped child = true ∧ ¬ReflTransGen p.Leads child uid := by
  constructor
  · intro hshape child hchild
    have hlink : p.mapped child = true := by
      rw [← mapped_store p uid a]
      exact hshape.links uid child ((leads_store_self huid a child).mpr hchild)
    exact ⟨hlink, (acyclic_store_iff hp.acyclic huid a).mp hshape.acyclic child hchild⟩
  · intro hchildren
    refine ⟨fun root hroot => ?_, fun b c hlink => ?_, ?_⟩
    · rw [mapped_store]
      exact hp.roots root hroot
    · rw [mapped_store]
      by_cases hb : b = uid
      · subst hb
        exact (hchildren c ((leads_store_self huid a c).mp hlink)).1
      · exact hp.links b c ((agreeOff_store huid a b hb c).mpr hlink)
    · exact (acyclic_store_iff hp.acyclic huid a).mpr fun child hchild => (hchildren child hchild).2

/-- The links of a plot stay as they are exactly if the stored action has those of the one that it
replaces. -/
theorem links_store_iff (huid : p.mapped uid = true) (a : Action) :
    ((∀ b, (p.store uid a).childrenOf b = p.childrenOf b) ∧
      ∀ b, (p.store uid a).parentsOf b = p.parentsOf b) ↔
      a.children = p.childrenOf uid ∧ a.parents = p.parentsOf uid := by
  simp only [childrenOf_store huid, parentsOf_store huid]
  constructor
  · rintro ⟨hchildren, hparents⟩
    have hc := hchildren uid
    have hp := hparents uid
    rw [if_pos rfl] at hc hp
    exact ⟨hc, hp⟩
  · rintro ⟨hchildren, hparents⟩
    refine ⟨fun b => ?_, fun b => ?_⟩
    · by_cases hb : b = uid
      · rw [if_pos hb, hb, hchildren]
      · rw [if_neg hb]
    · by_cases hb : b = uid
      · rw [if_pos hb, hb, hparents]
      · rw [if_neg hb]

/-- Going from uids to children comes to an end exactly where no action leads back to itself. -/
theorem wellFounded_links_iff : (WellFounded fun child b => p.Leads b child) ↔ p.Acyclic := by
  refine ⟨fun hends b hloop => ?_, wellFounded_links⟩
  have hdown : TransGen (fun child b => p.Leads b child) b b := transGen_swap.mp hloop
  exact hends.transGen.asymmetric b b hdown hdown

theorem isValidated_store (hv : p.isValidated = true) (a : Action) :
    (p.store uid a).isValidated = true := by
  unfold isValidated at hv ⊢
  rw [Bool.or_eq_true, Bool.and_eq_true] at hv ⊢
  refine hv.imp id fun ⟨hroots, hactions⟩ => ⟨hroots, isEmpty_actions_iff.mpr fun b => ?_⟩
  rw [store, action?_updateAction, isEmpty_actions_iff.mp hactions uid,
    isEmpty_actions_iff.mp hactions b]
  exact ite_self _

/-- **A stored action replaces the old one as a whole, and the mark does not tell.** In a plot that
is well-shaped and counts as validated,

- nothing else changes, and the plot still counts as validated,
- the links stay exactly if the new action has those of the old one,
- the plot stays well-shaped exactly if the children of the new action are mapped and do not lead
  back to it, and going down comes to an end exactly if they do not lead back,
- so the mark can be trusted as long as no children are changed, and the recursion over paths is
  then what it was. -/
theorem store_sound_iff (hp : p.WellShaped) (hv : p.isValidated = true) (huid : p.mapped uid = true)
    (a : Action) :
    (p.store uid a).isValidated = true ∧ (p.store uid a).roots = p.roots ∧
    (∀ b, (p.store uid a).action? b = if b = uid then some a else p.action? b) ∧
    (((∀ b, (p.store uid a).childrenOf b = p.childrenOf b) ∧
      ∀ b, (p.store uid a).parentsOf b = p.parentsOf b) ↔
      a.children = p.childrenOf uid ∧ a.parents = p.parentsOf uid) ∧
    ((p.store uid a).WellShaped ↔
      ∀ child ∈ a.children, p.mapped child = true ∧ ¬ReflTransGen p.Leads child uid) ∧
    ((WellFounded fun child b => (p.store uid a).Leads b child) ↔
      ∀ child ∈ a.children, ¬ReflTransGen p.Leads child uid) ∧
    (a.children = p.childrenOf uid → (p.store uid a).WellShaped ∧ ∀ b,
      (p.store uid a).pathsFrom (p.store uid a).size b =
        (p.store uid a).pathsRound ((p.store uid a).pathsFrom (p.store uid a).size) b) := by
  refine ⟨isValidated_store hv a, rfl, action?_store huid a, links_store_iff huid a,
    wellShaped_store_iff hp huid a, wellFounded_links_iff.trans (acyclic_store_iff hp.acyclic huid a),
    fun hchildren => ?_⟩
  have hshape : (p.store uid a).WellShaped := by
    refine (wellShaped_store_iff hp huid a).mpr fun child hchild => ?_
    have hlink : p.Leads uid child := by
      rw [hchildren] at hchild
      exact hchild
    exact ⟨hp.links uid child hlink, fun hback => hp.acyclic uid (.head' hlink hback)⟩
  exact ⟨hshape, pathsFrom_size hshape.acyclic⟩

/-- Bob knocks, and then waits. -/
def knocking : Plot :=
  [Edit.addFirst 1, .mapAction "Knock" 1, .mapAction "Wait" 2, .addChild 1 2, .validate].foldl
    (fun p e => e.after p) empty

/-- In another plot he waits, and then knocks. -/
def impatient : Plot :=
  [Edit.mapAction "Wait" 2, .addChild 2 1, .mapAction "Knock" 1].foldl (fun p e => e.after p) empty

/-- He may leave instead of waiting, but not wait for the next knock. -/
theorem store_sound_iff_knocking :
    knocking.WellShaped ∧ knocking.isValidated = true ∧ knocking.mapped 2 = true ∧
    (knocking.store 2 (.new 2 "Leave")).WellShaped ∧
    ¬(knocking.store 2 { Action.new 2 "Wait" with children := [1] }).WellShaped := by
  have hv : knocking.isValidated = true := by decide
  have hshape : knocking.WellShaped := (Edited.edits (.unmarked rfl) _).wellShaped hv
  have huid : knocking.mapped 2 = true := by decide
  obtain ⟨_, _, _, _, hleave, _⟩ := store_sound_iff hshape hv huid (.new 2 "Leave")
  obtain ⟨_, _, _, _, hwait, _⟩ :=
    store_sound_iff hshape hv huid { Action.new 2 "Wait" with children := [1] }
  refine ⟨hshape, hv, huid, hleave.mpr fun child hchild => absurd hchild List.not_mem_nil,
    fun hbad => ?_⟩
  have hlink : knocking.Leads 1 2 := by
    show 2 ∈ knocking.childrenOf 1
    decide
  exact (hwait.mp hbad 1 List.mem_cons_self).2 (.single hlink)

/-- **A stored action may close a loop behind the mark.** The action that has one uid in a plot, put
in the place of the action of that uid in a validated plot, brings its links along: the plot still
counts as validated, but its links have changed, its two actions lead to each other, and going down
does not come to an end. -/
theorem stored_action_may_close_a_loop :
    knocking.Edited ∧ knocking.isValidated = true ∧ knocking.mapped 2 = true ∧
    impatient.Edited ∧ ∃ a, impatient.action? 2 = some a ∧
      (knocking.store 2 a).isValidated = true ∧
      (knocking.store 2 a).childrenOf 2 ≠ knocking.childrenOf 2 ∧
      (knocking.store 2 a).parentsOf 2 ≠ knocking.parentsOf 2 ∧ TransGen (knocking.store 2 a).Leads 1 1 ∧
      ¬WellFounded fun child b => (knocking.store 2 a).Leads b child := by
  obtain ⟨a, ha⟩ : ∃ a, impatient.action? 2 = some a := ⟨_, rfl⟩
  cases ha
  have hloop : TransGen (knocking.store 2 ⟨2, "Wait", [], [], none, [1], []⟩).Leads 1 1 := by
    refine .head (b := 2) ?_ (.single ?_)
    · show 2 ∈ (knocking.store 2 ⟨2, "Wait", [], [], none, [1], []⟩).childrenOf 1
      decide
    · show 1 ∈ (knocking.store 2 ⟨2, "Wait", [], [], none, [1], []⟩).childrenOf 2
      decide
  exact ⟨Edited.edits (.unmarked rfl) _, by decide, by decide, Edited.edits (.unmarked rfl) _, _, rfl,
    by decide, by decide, by decide, hloop, fun hends => wellFounded_links_iff.mp hends 1 hloop⟩

end Narrative.Plot
